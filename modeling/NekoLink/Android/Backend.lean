import NekoLink.Android.Config

/-!
# Bringing a tunnel up on Android

`GoBackend.setStateInternal` for the state `UP`: signalling, the rewritten configuration, the
resolution of names, and what is handed to the VPN builder and to `wgTurnOn`. Calls of the builder
that carry nothing of the configuration are left out.

* `rewrite_eq_some`: the configuration that is rewritten has what was negotiated in its first peer.
* `launch_eq`: what is handed over comes from the configuration given.
* `negotiated_iff`: the tunnel negotiated is brought up exactly when its key and its endpoint are
  those that are configured.
-/

namespace NekoLink.Android

open Wire Noise Device

/-! ## Reading the result -/

/-- `String.indexOf` from a position on -/
def indexOf (s pattern : List Char) (start : ℕ) : Option ℕ :=
  ((List.range (s.length + 1)).drop start).find? fun i => pattern.isPrefixOf (s.drop i)

section

variable (P : Platform)

def extractJsonField (json key : List Char) : Option (List Char) :=
  let keyPattern := '"' :: key ++ ['"', ':']
  match indexOf json keyPattern 0 with
  | none => none
  | some start =>
    match (json.drop (start + keyPattern.length)).dropWhile P.isWhitespace with
    | [] => none
    | firstChar :: rest =>
      if firstChar = '"' then
        if '"' ∈ rest then some (rest.takeWhile (· ≠ '"')) else none
      else
        -- Number or boolean
        some ((firstChar :: rest).takeWhile fun c => P.isDigit c || c = '.')

/-- The endpoint and the public key of a successful result. -/
def readResult (jsonResult : Option (List Char)) : Option (List Char × List Char) := do
  let json ← jsonResult
  if (indexOf json "\"success\":true".toList 0).isSome then
    let newEndpoint ← extractJsonField P json "endpoint".toList
    let newPubKey ← extractJsonField P json "peer_pub_key".toList
    return (newEndpoint, newPubKey)
  else none

/-! ## The rewritten configuration -/

/-- What "0.0.0.0/0, ::/0" is split into. -/
def defaultRoutes : List (List Char) := ["0.0.0.0/0".toList, "::/0".toList]

/-- The configuration with another first peer. -/
def rewrite (config : Config) (serverPeer : Peer) (others : List Peer)
    (newEndpoint newPubKey : List Char) : Option Config := do
  let b ← PeerBuilder.new.parseEndpoint P newEndpoint
  let b ← b.parsePublicKey newPubKey
  let b ← b.parseAllowedIPs P defaultRoutes
  let b := b.addAllowedIps serverPeer.allowedIps
  let b ← serverPeer.persistentKeepalive.elim (some b) fun k => b.setPersistentKeepalive k
  let b := serverPeer.preSharedKey.elim b b.setPreSharedKey
  let peer ← b.build
  return { config with peers := peer :: others }

/-- A negotiation that has succeeded, with the configuration that was built. -/
structure Negotiation where
  serverPeer : Peer
  others : List Peer
  newEndpoint : List Char
  newPubKey : List Char
  effective : Config

/-- Signalling with the first peer, when there is a signalling key. -/
def negotiate (config : Config) : Option Negotiation := do
  let psk ← config.interface.nekoKey
  match config.peers with
  | [] => none
  | serverPeer :: others =>
    let endpoint ← serverPeer.endpoint
    let jsonResult :=
      P.nekoSignal endpoint.toString psk config.interface.keyPair.publicKey.toBase64
    let (newEndpoint, newPubKey) ← readResult P jsonResult
    let effective ← rewrite P config serverPeer others newEndpoint newPubKey
    return ⟨serverPeer, others, newEndpoint, newPubKey, effective⟩

def effectiveConfig (config : Config) : Config :=
  ((negotiate P config).map Negotiation.effective).getD config

/-! ## Bringing up -/

inductive Reason
  | tunnelMissingConfig
  | vpnNotAuthorized
  | unableToStartVpn
  | dnsResolutionFailure (host : List Char)
  | tunCreationError
  | goActivationErrorCode (code : ℤ)

def dnsResolutionRetries : ℕ := 10

/-- The first host that is not resolved. -/
def unresolved (round : ℕ) (peers : List Peer) : Option (List Char) :=
  peers.findSome? fun peer =>
    peer.endpoint.bind fun ep => if (ep.getResolved P round).isNone then some ep.host else none

/-- Resolve all endpoints, with some rounds left; the round in which all are. -/
def preResolve (peers : List Peer) : ℕ → ℕ → Except Reason ℕ
  | 0, round => .ok round
  | left + 1, round =>
    match unresolved P round peers with
    | none => .ok round
    | some host =>
      if left = 0 then .error (.dnsResolutionFailure host) else preResolve peers left (round + 1)

/-- What the VPN builder is given. -/
structure VpnBuilder where
  session : List Char
  disallowedApplications : List (List Char)
  allowedApplications : List (List Char)
  addresses : List (IpAddr × ℕ)
  dnsServers : List (List Char)
  searchDomains : List (List Char)
  routes : List (IpAddr × ℕ)
  /-- Both address families may bypass the tunnel. -/
  allowFamilies : Bool
  mtu : ℕ

def InetNetwork.route (n : InetNetwork) : IpAddr × ℕ := (n.address, n.mask)

def configureBuilder (tunnel : List Char) (config : Config) : VpnBuilder where
  session := tunnel
  disallowedApplications := config.interface.excludedApplications
  allowedApplications := config.interface.includedApplications
  addresses := config.interface.addresses.map InetNetwork.route
  dnsServers := config.interface.dnsServers.map P.hostAddress
  searchDomains := config.interface.dnsSearchDomains
  routes := config.peers.flatMap fun peer => peer.allowedIps.map InetNetwork.route
  -- "Kill-switch" semantics
  allowFamilies :=
    let sawDefaultRoute := config.peers.any fun peer => peer.allowedIps.any fun n => n.mask = 0
    !(sawDefaultRoute && config.peers.length = 1)
  mtu := config.interface.mtu.getD 1280

/-- What is handed to `wgTurnOn`, with the builder that the interface comes from and the round in
which the names were resolved. -/
structure Launch where
  ifName : List Char
  goConfig : List (List Char)
  builder : VpnBuilder
  round : ℕ

structure Backend where
  currentTunnel : Option (List Char)
  currentConfig : Option Config
  currentTunnelHandle : ℤ

/-- What Android answers. -/
structure Vpn where
  prepared : Bool
  serviceStarted : Bool
  /-- `establish` gives an interface. -/
  established : Bool
  /-- the result of `wgTurnOn` -/
  handle : ℤ

structure Outcome where
  backend : Backend
  launch : Option Launch
  error : Option Reason

/-- `setStateInternal` with the state `UP` -/
def setStateUp (vpn : Vpn) (backend : Backend) (tunnel : List Char) :
    Option Config → Outcome
  | none => ⟨backend, none, some .tunnelMissingConfig⟩
  | some config =>
    if !vpn.prepared then ⟨backend, none, some .vpnNotAuthorized⟩
    else if !vpn.serviceStarted then ⟨backend, none, some .unableToStartVpn⟩
    else if backend.currentTunnelHandle ≠ -1 then ⟨backend, none, none⟩ -- Tunnel already up
    else
      match preResolve P (effectiveConfig P config).peers dnsResolutionRetries 0 with
      | .error reason => ⟨backend, none, some reason⟩
      | .ok round =>
        let goConfig := config.toWgUserspaceString P round
        let builder := configureBuilder P tunnel config
        if !vpn.established then ⟨backend, none, some .tunCreationError⟩
        else
          let launch : Launch := ⟨tunnel, goConfig, builder, round⟩
          if vpn.handle < 0 then
            ⟨{ backend with currentTunnelHandle := vpn.handle }, some launch,
              some (.goActivationErrorCode vpn.handle)⟩
          else ⟨⟨some tunnel, some config, vpn.handle⟩, some launch, none⟩

/-! ## What is handed over -/

variable {P} {config effective : Config} {serverPeer : Peer} {others : List Peer}
  {newEndpoint newPubKey : List Char} {vpn : Vpn} {backend : Backend} {tunnel : List Char}
  {l : Launch}

/-- **The configuration that is rewritten** has the endpoint and the key that were negotiated in its
first peer, with the preshared key and the interval that were configured. -/
theorem rewrite_eq_some
    (h : rewrite P config serverPeer others newEndpoint newPubKey = some effective) :
    ∃ peer, effective = { config with peers := peer :: others } ∧
      (∃ endpoint, InetEndpoint.parse P newEndpoint = some endpoint ∧
        peer.endpoint = some endpoint) ∧
      Key.fromBase64 newPubKey = some peer.publicKey ∧
      peer.preSharedKey = serverPeer.preSharedKey ∧
      peer.persistentKeepalive = serverPeer.persistentKeepalive := by
  simp only [rewrite, Option.bind_eq_bind, Option.bind_eq_some_iff, Option.pure_def,
    Option.some.injEq] at h
  obtain ⟨b₁, hendpoint, b₂, hkey, b₃, hallowed, b₄, hkeepalive, peer, hbuild, rfl⟩ := h
  obtain ⟨endpoint, hparse, rfl⟩ := Option.map_eq_some_iff.mp hendpoint
  obtain ⟨key, hdecode, rfl⟩ := Option.map_eq_some_iff.mp hkey
  obtain ⟨allowed, rfl⟩ := PeerBuilder.parseAllowedIPs_eq_some P _ hallowed
  obtain ⟨allowed', hmore⟩ := PeerBuilder.addAllowedIps_eq
    ({ PeerBuilder.new with endpoint := some endpoint, publicKey := some key, allowedIps := allowed })
    serverPeer.allowedIps
  rw [hmore] at hkeepalive
  have hb₄ : b₄ = ⟨allowed', some endpoint, serverPeer.persistentKeepalive, none, some key⟩ := by
    rcases hk : serverPeer.persistentKeepalive with _ | k
    · rw [hk] at hkeepalive
      exact (Option.some.inj hkeepalive).symm
    · rw [hk] at hkeepalive
      have hset := PeerBuilder.setPersistentKeepalive_val
        ⟨allowed', some endpoint, none, none, some key⟩ k
      exact (Option.some.inj (hset.symm.trans hkeepalive)).symm
  subst hb₄
  have hpeer : peer = ⟨allowed', some endpoint, serverPeer.persistentKeepalive,
      serverPeer.preSharedKey, key⟩ := by
    rcases hpsk : serverPeer.preSharedKey with _ | psk
    · rw [hpsk] at hbuild
      exact (Option.some.inj hbuild).symm
    · rw [hpsk] at hbuild
      exact (Option.some.inj hbuild).symm
  subst hpeer
  exact ⟨_, rfl, ⟨endpoint, hparse, rfl⟩, hdecode, rfl, rfl⟩

theorem negotiate_eq_some {n : Negotiation} (h : negotiate P config = some n) :
    config.peers = n.serverPeer :: n.others ∧
      rewrite P config n.serverPeer n.others n.newEndpoint n.newPubKey = some n.effective := by
  simp only [negotiate, Option.bind_eq_bind, Option.bind_eq_some_iff] at h
  obtain ⟨psk, -, h⟩ := h
  split at h
  · cases h
  · next serverPeer others hpeers =>
    simp only [Option.bind_eq_some_iff, Option.pure_def, Option.some.injEq, Prod.exists] at h
    obtain ⟨endpoint, -, newEndpoint, newPubKey, -, effective, hrewrite, rfl⟩ := h
    exact ⟨hpeers, hrewrite⟩

/-- Past the resolution every endpoint is resolved. -/
theorem unresolved_of_preResolve {peers : List Peer} {left start round : ℕ} (hleft : left ≠ 0)
    (h : preResolve P peers left start = .ok round) : unresolved P round peers = none := by
  induction left generalizing start with
  | zero => exact absurd rfl hleft
  | succ left ih =>
    rw [preResolve] at h
    split at h
    · next hnone =>
      cases h
      exact hnone
    · split_ifs at h with hzero
      exact ih hzero h

/-- **What is handed over comes from the configuration given**, whatever was negotiated; the names
resolved are those of the effective one. -/
theorem launch_eq (h : (setStateUp P vpn backend tunnel (some config)).launch = some l) :
    l.goConfig = config.toWgUserspaceString P l.round ∧
      l.builder = configureBuilder P tunnel config ∧
      unresolved P l.round (effectiveConfig P config).peers = none := by
  rw [setStateUp] at h
  rcases hround : preResolve P (effectiveConfig P config).peers dnsResolutionRetries 0 with
    reason | round
  · rw [hround] at h
    split_ifs at h
  · rw [hround] at h
    have hresolved := unresolved_of_preResolve (by decide) hround
    split_ifs at h <;> cases h
    · exact ⟨rfl, rfl, hresolved⟩
    · exact ⟨rfl, rfl, hresolved⟩

/-! ## The tunnel that is brought up -/

variable (P)

/-- The tunnel runs with this configuration: it is the one handed over, and the routes cover exactly
the allowed addresses of its peers. -/
def Launch.Runs (l : Launch) (config : Config) : Prop :=
  l.goConfig = config.toWgUserspaceString P l.round ∧
    ∀ route, route ∈ l.builder.routes ↔
      ∃ peer ∈ config.peers, ∃ n ∈ peer.allowedIps, InetNetwork.route n = route

/-- A negotiation that succeeds is what the tunnel runs with: its first peer has the key and the
endpoint of the result and what else was configured, and the other peers are those configured.
Otherwise the tunnel runs with the configuration given. -/
def BringsUp (config : Config) (l : Launch) : Prop :=
  match negotiate P config with
  | some n => ∃ peer : Peer,
      Key.fromBase64 n.newPubKey = some peer.publicKey ∧
      InetEndpoint.parse P n.newEndpoint = peer.endpoint ∧
      peer.preSharedKey = n.serverPeer.preSharedKey ∧
      peer.persistentKeepalive = n.serverPeer.persistentKeepalive ∧
      l.Runs P { config with peers := peer :: n.others }
  | none => l.Runs P config

/-- The first peer that is configured has the key of the result, and its endpoint resolves to the
same address. -/
def Negotiation.Configured (n : Negotiation) (round : ℕ) : Prop :=
  Key.fromBase64 n.newPubKey = some n.serverPeer.publicKey ∧
    n.serverPeer.endpointText P round =
      ({ n.serverPeer with endpoint := InetEndpoint.parse P n.newEndpoint } : Peer).endpointText P
        round

instance (n : Negotiation) (round : ℕ) : Decidable (n.Configured P round) :=
  inferInstanceAs (Decidable (_ ∧ _))

variable {P}

theorem mem_routes {route : IpAddr × ℕ} :
    route ∈ (configureBuilder P tunnel config).routes ↔
      ∃ peer ∈ config.peers, ∃ n ∈ peer.allowedIps, InetNetwork.route n = route := by
  simp only [configureBuilder, List.mem_flatMap, List.mem_map]

theorem runs_of_launch (h : (setStateUp P vpn backend tunnel (some config)).launch = some l) :
    l.Runs P config := by
  obtain ⟨hconfig, hbuilder, -⟩ := launch_eq h
  refine ⟨hconfig, fun route => ?_⟩
  rw [hbuilder]
  exact mem_routes

/-- The endpoint that was negotiated is resolved. -/
theorem exists_endpointText {n : Negotiation} (hn : negotiate P config = some n) {round : ℕ}
    (h : unresolved P round (effectiveConfig P config).peers = none) {peer : Peer}
    (hpeer : InetEndpoint.parse P n.newEndpoint = peer.endpoint) :
    ∃ text, peer.endpointText P round = some text := by
  obtain ⟨first, heffective, ⟨endpoint, hparse, hendpoint⟩, -⟩ :=
    rewrite_eq_some (negotiate_eq_some hn).2
  have hpeers : (effectiveConfig P config).peers = first :: n.others := by
    rw [effectiveConfig, hn, Option.map_some, Option.getD_some, heffective]
  rw [hpeers, unresolved, List.findSome?_eq_none_iff] at h
  have hfirst := h first List.mem_cons_self
  rw [hendpoint, Option.bind_some] at hfirst
  rw [Peer.endpointText, ← hpeer, hparse, Option.bind_some]
  rcases hresolved : endpoint.getResolved P round with _ | resolved
  · rw [hresolved] at hfirst
    cases hfirst
  · exact ⟨_, rfl⟩

/-- Only what is configured is brought up. -/
theorem configured_of_bringsUp
    (h : (setStateUp P vpn backend tunnel (some config)).launch = some l)
    (hup : BringsUp P config l) {n : Negotiation} (hn : negotiate P config = some n) :
    n.Configured P l.round := by
  obtain ⟨hconfig, -, hresolved⟩ := launch_eq h
  rw [BringsUp, hn] at hup
  obtain ⟨peer, hkey, hendpoint, hpsk, hkeepalive, hlines, -⟩ := hup
  obtain ⟨text, htext⟩ := exists_endpointText hn hresolved hendpoint
  -- the lines of the interface and of the other peers are the same
  rw [hconfig, Config.toWgUserspaceString, Config.toWgUserspaceString, (negotiate_eq_some hn).1,
    List.flatMap_cons, List.flatMap_cons] at hlines
  have hfirst := List.append_cancel_right (List.append_cancel_left hlines)
  obtain ⟨hpublic, hsame⟩ := Peer.of_toWgUserspaceString hfirst hkeepalive.symm hpsk.symm htext
  rw [← hpublic] at hkey
  refine ⟨hkey, hsame.trans ?_⟩
  rw [Peer.endpointText, hendpoint]
  exact htext.symm

/-- What is configured is brought up. -/
theorem bringsUp_of_configured
    (h : (setStateUp P vpn backend tunnel (some config)).launch = some l)
    (hall : ∀ n, negotiate P config = some n → n.Configured P l.round) : BringsUp P config l := by
  have hruns := runs_of_launch h
  rw [BringsUp]
  rcases hn : negotiate P config with _ | n
  · exact hruns
  · obtain ⟨hkey, htext⟩ := hall n hn
    have hpeers := (negotiate_eq_some hn).1
    have hlines : n.serverPeer.toWgUserspaceString P l.round =
        ({ n.serverPeer with endpoint := InetEndpoint.parse P n.newEndpoint } :
          Peer).toWgUserspaceString P l.round :=
      Peer.toWgUserspaceString_congr rfl rfl htext rfl rfl
    refine ⟨{ n.serverPeer with endpoint := InetEndpoint.parse P n.newEndpoint }, hkey, rfl, rfl,
      rfl, ?_, fun route => ?_⟩
    · rw [hruns.1, Config.toWgUserspaceString, Config.toWgUserspaceString, hpeers,
        List.flatMap_cons, List.flatMap_cons, hlines]
    · rw [hruns.2 route, hpeers]
      simp only [List.exists_mem_cons_iff]

/-- **The tunnel negotiated is brought up** exactly when a negotiation that succeeds gives the key
and the address that are configured. -/
theorem negotiated_iff (h : (setStateUp P vpn backend tunnel (some config)).launch = some l) :
    BringsUp P config l ↔ ∀ n, negotiate P config = some n → n.Configured P l.round :=
  ⟨fun hup _ hn => configured_of_bringsUp h hup hn, bringsUp_of_configured h⟩

end

/-! ## A negotiation -/

/-- Two addresses in documentation networks, and the two that are all zeros. -/
def sampleAddresses : List (List Char × IpAddr) :=
  [("198.51.100.1".toList, .v4 (ofList [198, 51, 100, 1])),
    ("203.0.113.7".toList, .v4 (ofList [203, 0, 113, 7])),
    ("0.0.0.0".toList, .v4 (zeros 4)), ("::".toList, .v6 (zeros 16))]

/-- A platform that knows these addresses, with a result of the native library. -/
def samplePlatform (result : List Char) : Platform where
  isWhitespace := Char.isWhitespace
  isDigit := Char.isDigit
  classes := sampleClasses
  uri s :=
    let authority := s.drop 5
    (parseInt (authority.dropWhile (· ≠ ':')).tail).map fun port =>
      (some (authority.takeWhile (· ≠ ':')), port)
  parseNumericAddress s := (sampleAddresses.find? fun a => a.1 = s).map Prod.snd
  hostAddress a := ((sampleAddresses.find? fun b => b.2 = a).map Prod.fst).getD []
  getAllByName _ _ := []
  nekoSignal _ _ _ := some result

/-- The result that names a key and an endpoint. -/
def sampleResult (key endpoint : String) : List Char :=
  "\x7b\"success\":true,\"peer_pub_key\":\"".toList ++ key.toList ++
    "\",\"endpoint\":\"".toList ++ endpoint.toList ++ "\"\x7d".toList

/-- Keys of thirty-two ones and thirty-two twos, as text. -/
def onesKey : String := "AQEBAQEBAQEBAQEBAQEBAQEBAQEBAQEBAQEBAQEBAQE="

def twosKey : String := "AgICAgICAgICAgICAgICAgICAgICAgICAgICAgICAgI="

/-- One peer with the first key and the first address. -/
def sampleConfig : Config where
  interface :=
    { addresses := []
      dnsServers := []
      dnsSearchDomains := []
      excludedApplications := []
      includedApplications := []
      keyPair := ⟨fill 32 3, fill 32 4⟩
      listenPort := none
      mtu := none
      nekoKey := some "meow".toList }
  peers := [⟨[⟨.v4 (zeros 4), 0⟩], some ⟨"198.51.100.1".toList, true, 12580⟩, none, none, fill 32 1⟩]

def sampleVpn : Vpn := ⟨true, true, true, 1⟩

/-- The outcome on this platform with no tunnel up. -/
def sampleOutcome (result : List Char) : Outcome :=
  setStateUp (samplePlatform result) sampleVpn ⟨none, none, -1⟩ "neko0".toList (some sampleConfig)

/-- A check of the outcome on this platform. -/
theorem exists_of_checks {result : List Char} {configured : Bool}
    (hround : (sampleOutcome result).launch.map Launch.round = some 0)
    (hcheck : (negotiate (samplePlatform result) sampleConfig).map (fun n =>
      decide (n.Configured (samplePlatform result) 0)) = some configured) :
    ∃ (l : Launch) (n : Negotiation), (sampleOutcome result).launch = some l ∧
      negotiate (samplePlatform result) sampleConfig = some n ∧
      (n.Configured (samplePlatform result) l.round ↔ configured = true) := by
  obtain ⟨l, hl, hround⟩ := Option.map_eq_some_iff.mp hround
  obtain ⟨n, hn, hcheck⟩ := Option.map_eq_some_iff.mp hcheck
  refine ⟨l, n, hl, hn, ?_⟩
  rw [hround, ← hcheck, decide_eq_true_iff]

/-- The negotiated tunnel is brought up when the result names what is configured. -/
theorem negotiated_sample :
    ∃ (l : Launch) (n : Negotiation),
      (sampleOutcome (sampleResult onesKey "198.51.100.1:12580")).launch = some l ∧
      negotiate (samplePlatform (sampleResult onesKey "198.51.100.1:12580")) sampleConfig =
        some n ∧
      BringsUp (samplePlatform (sampleResult onesKey "198.51.100.1:12580")) sampleConfig l := by
  have hround : (sampleOutcome (sampleResult onesKey "198.51.100.1:12580")).launch.map
      Launch.round = some 0 := by decide +kernel
  have hcheck : (negotiate (samplePlatform (sampleResult onesKey "198.51.100.1:12580"))
      sampleConfig).map (fun n => decide (n.Configured
        (samplePlatform (sampleResult onesKey "198.51.100.1:12580")) 0)) = some true := by
    decide +kernel
  generalize sampleResult onesKey "198.51.100.1:12580" = result at hround hcheck ⊢
  obtain ⟨l, n, hl, hn, hconfigured⟩ := exists_of_checks hround hcheck
  refine ⟨l, n, hl, hn, (negotiated_iff hl).mpr fun n' hn' => ?_⟩
  obtain rfl := Option.some.inj (hn.symm.trans hn')
  exact hconfigured.mpr rfl

/-- **A negotiation that succeeds is not what is brought up**: the result names another key. -/
theorem not_negotiated :
    ∃ (l : Launch) (n : Negotiation),
      (sampleOutcome (sampleResult twosKey "203.0.113.7:51820")).launch = some l ∧
      negotiate (samplePlatform (sampleResult twosKey "203.0.113.7:51820")) sampleConfig =
        some n ∧
      ¬BringsUp (samplePlatform (sampleResult twosKey "203.0.113.7:51820")) sampleConfig l := by
  have hround : (sampleOutcome (sampleResult twosKey "203.0.113.7:51820")).launch.map
      Launch.round = some 0 := by decide +kernel
  have hcheck : (negotiate (samplePlatform (sampleResult twosKey "203.0.113.7:51820"))
      sampleConfig).map (fun n => decide (n.Configured
        (samplePlatform (sampleResult twosKey "203.0.113.7:51820")) 0)) = some false := by
    decide +kernel
  generalize sampleResult twosKey "203.0.113.7:51820" = result at hround hcheck ⊢
  obtain ⟨l, n, hl, hn, hconfigured⟩ := exists_of_checks hround hcheck
  refine ⟨l, n, hl, hn, fun hup => ?_⟩
  exact absurd (hconfigured.mp (configured_of_bringsUp hl hup hn)) (by decide)

end NekoLink.Android
