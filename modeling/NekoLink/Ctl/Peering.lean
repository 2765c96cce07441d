import NekoLink.Ctl.Config
import NekoLink.Ctl.Status
import NekoLink.Device.DeviceConfig

/-!
# Configuring a peer

`configure_peer` of `nekolink-ctl/src/main.rs`, with `send_uapi` and `sync_mtu_if_needed`. A call
that finds another endpoint in `PEER_CACHE`, or none, removes the peer from the data plane and adds
it again with the new endpoint. Of a data plane a call sees what it has been told about its peers,
which is the `Config` of a device.

* `keeps_configurePeer_iff`: when a call leaves the peers, their endpoints and the cache as they
  are.
* `elsewhere_configurePeer`: a call changes nothing for other keys.
* `config_removeSection`, `config_addSection`: the commands do to a device what they do here.
-/

namespace NekoLink.Ctl

open Wire Noise Device Routing Text

/-! ## What a task finds -/

/-- How a command fares on its way to a data plane. -/
inductive Delivery
  | lost
  /-- It is carried out, and waiting for the answer fails. -/
  | unanswered
  | answered
  /-- The connection ends without the line of the error code, which `send_uapi` takes for success. -/
  | ended (carriedOut : Bool)
  deriving DecidableEq

namespace Delivery

/-- The data plane has dealt with the command. -/
def carriedOut : Delivery → Bool
  | lost => false
  | unanswered => true
  | answered => true
  | ended carriedOut => carriedOut

/-- `send_uapi` comes to the end of the answer. -/
def isRead : Delivery → Bool
  | lost => false
  | unanswered => false
  | answered => true
  | ended _ => true

end Delivery

/-- What a turn of a task finds outside, and what it draws. -/
structure World where
  /-- The answer of the data plane of an interface to a get request -/
  uapi : String → Option (List Char)
  /-- The seconds of the system clock -/
  clock : UInt64
  interfaceMtu : String → Option UInt16
  /-- `get_auto_mtu`, from its cache or by a probe -/
  autoMtu : List Char → String → UInt16
  /-- `tokio::net::lookup_host`, its first address -/
  lookupHost : List Char → Option SocketAddr
  resolveDns : List Char → Bool → Option IpAddr
  nonce : Bytes 12
  /-- The two commands of `configure_peer` -/
  remove : Delivery
  add : Delivery
  /-- The data plane has its private key already. -/
  keyed : Bool

namespace World

variable (W : World)

/-- `get_actual_listen_port` of an interface -/
def listenPort (iface : String) : Option UInt16 := (W.uapi iface).bind actualListenPort

/-- `get_established_peers` of an interface -/
def established (iface : String) : Finset (List Char) :=
  (W.uapi iface).elim ∅ fun response => establishedPeers W.clock (uapiInfo response)

/-- `get_interface_mtu`, with its default -/
def mtuOf (iface : String) : UInt16 := (W.interfaceMtu iface).getD 1420

end World

/-! ## The state -/

/-- A peer of an interface. -/
abbrev PeerKey := String × Bytes 32

structure Peering where
  /-- The data planes that run, by interface -/
  planes : String → Option Device.Config
  /-- `PEER_CACHE` -/
  cache : HashMap PeerKey (List Char)
  /-- The calls of `ip link set mtu` -/
  linkMtus : List (String × UInt16)

namespace Peering

/-- The endpoint of a peer that there is. -/
def endpoint (s : Peering) (key : PeerKey) : Option (Option SocketAddr) :=
  (s.planes key.1).bind fun c => (c.peers key.2).map Device.PeerConfig.endpoint

/-- The peers, their endpoints and the cache are the same. -/
structure Keeps (s s' : Peering) : Prop where
  endpoint : ∀ key, s'.endpoint key = s.endpoint key
  cache : ∀ key, s'.cache.lookup key = s.cache.lookup key

end Peering

/-! ## The commands -/

/-- The arguments of `configure_peer` that it uses, with the key decoded. -/
structure ConfigureCall where
  interface : String
  peerPubKey : Bytes 32
  endpoint : List Char
  keepalive : Option UInt16
  peerMtu : Option UInt16
  autoSyncMtu : Bool
  mode : String

def ConfigureCall.key (call : ConfigureCall) : PeerKey := (call.interface, call.peerPubKey)

/-- `public_key=…`, `remove=true` -/
def removeSection (pubKey : Bytes 32) : PeerSection :=
  { PeerSection.new pubKey with remove := true }

/-- `0.0.0.0/0` and `::/0` -/
def defaultRoutes : List AllowedIP :=
  [⟨.v4 (zeros 4), 0, Nat.zero_le _⟩, ⟨.v6 (zeros 16), 0, Nat.zero_le _⟩]

/-- `public_key=…`, the two routes, `endpoint=…` and `persistent_keepalive_interval=…` -/
def addSection (pubKey : Bytes 32) (addr : SocketAddr) (keepalive : Option UInt16) : PeerSection :=
  { PeerSection.new pubKey with
    allowedIps := defaultRoutes
    endpoint := some addr
    keepalive := keepalive.map UInt16.toNat }

/-- What a data plane makes of a new peer. One that it has already is left as it is, and without a
private key it takes none. -/
def takePeer (keyed : Bool) (c : Device.Config) (s : PeerSection) : Device.Config :=
  if (c.peers s.publicKey).isSome || !keyed then c else c.add s

namespace Peering

/-- What a command does to the data plane of an interface. -/
def command (s : Peering) (iface : String) (delivery : Delivery)
    (f : Device.Config → Device.Config) : Peering :=
  if delivery.carriedOut = false then s
  else { s with planes := Function.update s.planes iface ((s.planes iface).map f) }

/-- There is a data plane that can be connected to, and the answer is read to its end. -/
def Acknowledged (s : Peering) (iface : String) (delivery : Delivery) : Prop :=
  delivery.isRead = true ∧ (s.planes iface).isSome = true

instance (s : Peering) (iface : String) (delivery : Delivery) :
    Decidable (s.Acknowledged iface delivery) :=
  inferInstanceAs (Decidable (_ ∧ _))

end Peering

/-! ## `configure_peer` -/

section

variable (P : Parsers) (R : Printers) (W : World)

/-- `sync_mtu_if_needed`: the MTU that is set, if any. -/
def syncMtuIfNeeded (iface : String) (peerMtu : UInt16) (probed : Option UInt16) : Option UInt16 :=
  let target := probed.elim peerMtu fun p => min p peerMtu
  if target < 1280 then none
  else if W.mtuOf iface ≠ target then some target
  else none

def isLocal (endpoint : List Char) : Bool := "127.0.0.1".toList.isPrefixOf endpoint

/-- The endpoint with its name resolved. -/
def resolved (endpoint : List Char) : List Char :=
  if endpoint = [] then [] else ((W.lookupHost endpoint).map R.socketAddr).getD endpoint

/-- In the mode `mullvad-tcp` a process takes the packets of a peer, unless its address is local. -/
def IsBridged (call : ConfigureCall) : Prop :=
  call.mode = "mullvad-tcp" ∧ resolved R W call.endpoint ≠ [] ∧
    isLocal (resolved R W call.endpoint) = false

instance (call : ConfigureCall) : Decidable (IsBridged R W call) :=
  inferInstanceAs (Decidable (_ ∧ _))

/-- The address of the process. -/
def bridgeAddr (iface : String) : List Char :=
  "127.0.0.1:".toList ++ writeUnsigned ((W.listenPort iface).getD 51820 + 1).toNat

/-- The endpoint that the data plane is told. -/
def peerEndpoint (call : ConfigureCall) : List Char :=
  if IsBridged R W call then bridgeAddr W call.interface else resolved R W call.endpoint

/-- Remove the peer and add it with an endpoint. A data plane refuses one that it cannot parse. -/
def replacePeer (call : ConfigureCall) (s : Peering) : Peering :=
  let s := s.command call.interface W.remove fun c => c.remove call.peerPubKey
  match parseEndpoint P (peerEndpoint R W call) with
  | none => s
  | some addr =>
    s.command call.interface W.add fun c =>
      takePeer W.keyed c (addSection call.peerPubKey addr call.keepalive)

/-- The new peer is accepted: an answer, if there is one, has no error code. -/
def Accepted (call : ConfigureCall) (s : Peering) : Prop :=
  (W.add = .answered → (parseEndpoint P (peerEndpoint R W call)).isSome = true) ∧
    s.Acknowledged call.interface W.add

instance (call : ConfigureCall) (s : Peering) : Decidable (Accepted P R W call s) :=
  inferInstanceAs (Decidable (_ ∧ _))

/-- The MTU of the interface follows that of the peer. The address that is probed is never that of
the process. -/
def syncedMtu (call : ConfigureCall) : Option UInt16 :=
  call.peerMtu.bind fun m =>
    if call.autoSyncMtu || decide (m < W.mtuOf call.interface) then
      syncMtuIfNeeded W call.interface m
        (if call.autoSyncMtu then some (W.autoMtu (resolved R W call.endpoint) call.mode) else none)
    else none

/-- `configure_peer`, without the process of a call that is bridged -/
def configurePeer (call : ConfigureCall) (s : Peering) : Peering :=
  if s.cache.lookup call.key = some (peerEndpoint R W call) then s
  else
    let replaced := replacePeer P R W call s
    if Accepted P R W call s then
      { replaced with
        cache := replaced.cache.insert call.key (peerEndpoint R W call)
        linkMtus := replaced.linkMtus ++
          ((syncedMtu R W call).map fun m => (call.interface, m)).toList }
    else replaced

end

/-! ## One command -/

namespace Peering

variable {s s' : Peering} {iface : String} {delivery : Delivery}
  {f : Device.Config → Device.Config} {key : PeerKey}

theorem endpoint_eq {c : Device.Config} (h : s.planes key.1 = some c) :
    s.endpoint key = (c.peers key.2).map Device.PeerConfig.endpoint := by
  rw [endpoint, h, Option.bind_some]

theorem endpoint_of_none (key : PeerKey) (h : s.planes key.1 = none) : s.endpoint key = none := by
  rw [endpoint, h, Option.bind_none]

@[simp] theorem cache_command : (s.command iface delivery f).cache = s.cache := by
  unfold command
  split_ifs <;> rfl

theorem planes_command :
    (s.command iface delivery f).planes iface =
      (s.planes iface).map fun c => if delivery.carriedOut = false then c else f c := by
  unfold command
  by_cases hlost : delivery.carriedOut = false
  · simp only [if_pos hlost, Option.map_id']
  · simp only [if_neg hlost, Function.update_self]

theorem planes_command_of_ne (h : key.1 ≠ iface) :
    (s.command iface delivery f).planes key.1 = s.planes key.1 := by
  unfold command
  by_cases hlost : delivery.carriedOut = false
  · rw [if_pos hlost]
  · rw [if_neg hlost]
    exact Function.update_of_ne h _ _

theorem endpoint_command {c : Device.Config} (h : s.planes iface = some c) (pubKey : Bytes 32) :
    (s.command iface delivery f).endpoint (iface, pubKey) =
      ((if delivery.carriedOut = false then c else f c).peers pubKey).map
        Device.PeerConfig.endpoint := by
  refine endpoint_eq ?_
  rw [planes_command, h, Option.map_some]

/-- A command about one peer says nothing about the others. -/
theorem endpoint_command_of_ne {pubKey : Bytes 32} (h : key ≠ (iface, pubKey))
    (hf : ∀ c k, k ≠ pubKey → (f c).peers k = c.peers k) :
    (s.command iface delivery f).endpoint key = s.endpoint key := by
  by_cases hiface : key.1 = iface
  · have hkey : key.2 ≠ pubKey := fun heq => h (Prod.ext hiface heq)
    subst hiface
    rcases hplane : s.planes key.1 with _ | c
    · rw [endpoint_of_none _ hplane, endpoint_of_none]
      rw [planes_command, hplane, Option.map_none]
    · rw [endpoint_eq hplane, endpoint_eq (c := if delivery.carriedOut = false then c else f c)]
      · split_ifs
        · rfl
        · rw [hf c _ hkey]
      · rw [planes_command, hplane, Option.map_some]
  · rw [endpoint, endpoint, planes_command_of_ne hiface]

theorem Keeps.refl (s : Peering) : s.Keeps s := ⟨fun _ => rfl, fun _ => rfl⟩

end Peering

theorem peers_remove_of_ne {c : Device.Config} {pubKey k : Bytes 32} (h : k ≠ pubKey) :
    (c.remove pubKey).peers k = c.peers k :=
  Function.update_of_ne h _ _

theorem peers_takePeer_of_ne {keyed : Bool} {c : Device.Config} {sec : PeerSection} {k : Bytes 32}
    (h : k ≠ sec.publicKey) : (takePeer keyed c sec).peers k = c.peers k := by
  unfold takePeer
  split_ifs
  · rfl
  · exact Function.update_of_ne h _ _

/-- The endpoint of the peer after both commands. -/
theorem peers_takePeer (keyed : Bool) (c : Device.Config) (sec : PeerSection) :
    ((takePeer keyed c sec).peers sec.publicKey).map Device.PeerConfig.endpoint =
      if (c.peers sec.publicKey).isSome then (c.peers sec.publicKey).map Device.PeerConfig.endpoint
      else if keyed then some sec.endpoint else none := by
  unfold takePeer
  by_cases hthere : (c.peers sec.publicKey).isSome
  · simp [hthere]
  · rw [if_neg hthere]
    rw [Bool.not_eq_true, Option.isSome_eq_false_iff, Option.isNone_iff_eq_none] at hthere
    cases keyed with
    | true => simp [hthere, Device.Config.add, PeerSection.config]
    | false => simp [hthere]

/-! ## One call -/

/-- What the two commands make of a peer with an endpoint, or of none: the first takes it away, and
the second brings it back with the new endpoint. -/
def afterCommands (W : World) (addr : Option SocketAddr) (before : Option (Option SocketAddr)) :
    Option (Option SocketAddr) :=
  let removed := if W.remove.carriedOut = false then before else none
  match addr with
  | none => removed
  | some addr =>
    if W.add.carriedOut = false then removed
    else if removed.isSome then removed
    else if W.keyed then some (some addr)
    else none

/-- The two commands together leave the endpoint of a peer as it is: the peer is not removed and is
still there, or it comes back with the endpoint it had, or it is not there and is not added. -/
def Idle (W : World) (addr : Option SocketAddr) (before : Option (Option SocketAddr)) : Prop :=
  match before, addr with
  | some _, none => W.remove.carriedOut = false
  | some e, some addr =>
    W.remove.carriedOut = false ∨ W.add.carriedOut = true ∧ W.keyed = true ∧ e = some addr
  | none, none => True
  | none, some _ => W.add.carriedOut = false ∨ W.keyed = false

/-- A call leaves the peers, their endpoints and the cache as they are: the cache has the endpoint,
or the new peer is not accepted and the data plane, if there is one, has what it had. -/
def Inert (P : Parsers) (R : Printers) (W : World) (call : ConfigureCall) (s : Peering) : Prop :=
  s.cache.lookup call.key = some (peerEndpoint R W call) ∨
    ¬ Accepted P R W call s ∧ ((s.planes call.interface).isSome →
      Idle W (parseEndpoint P (peerEndpoint R W call)) (s.endpoint call.key))

section

variable {P : Parsers} {R : Printers} {W : World} {call : ConfigureCall} {s : Peering}
  {c : Device.Config} {key : PeerKey}

theorem cache_replacePeer : (replacePeer P R W call s).cache = s.cache := by
  unfold replacePeer
  dsimp only
  split
  · exact Peering.cache_command
  · rw [Peering.cache_command, Peering.cache_command]

theorem endpoint_replacePeer_of_ne (h : key ≠ call.key) :
    (replacePeer P R W call s).endpoint key = s.endpoint key := by
  have hremove : (s.command call.interface W.remove fun c =>
      c.remove call.peerPubKey).endpoint key = s.endpoint key :=
    Peering.endpoint_command_of_ne h fun c k hk => peers_remove_of_ne hk
  unfold replacePeer
  dsimp only
  split
  · exact hremove
  · rename_i addr _
    rw [← hremove]
    exact Peering.endpoint_command_of_ne h fun c k hk => peers_takePeer_of_ne hk

theorem endpoint_replacePeer_of_none (h : s.planes call.interface = none) :
    (replacePeer P R W call s).endpoint call.key = s.endpoint call.key := by
  have hnone : (replacePeer P R W call s).planes call.interface = none := by
    unfold replacePeer
    dsimp only
    split
    · rw [Peering.planes_command, h, Option.map_none]
    · rw [Peering.planes_command, Peering.planes_command, h, Option.map_none, Option.map_none]
  rw [Peering.endpoint_of_none call.key hnone, Peering.endpoint_of_none call.key h]

/-- The endpoint of the peer after both commands. -/
theorem endpoint_replacePeer_eq (h : s.planes call.interface = some c) :
    (replacePeer P R W call s).endpoint call.key =
      afterCommands W (parseEndpoint P (peerEndpoint R W call)) (s.endpoint call.key) := by
  have hbefore : s.endpoint (call.interface, call.peerPubKey) =
      (c.peers call.peerPubKey).map Device.PeerConfig.endpoint := Peering.endpoint_eq h
  have hendpoint₁ : (s.command call.interface W.remove fun c =>
      c.remove call.peerPubKey).endpoint (call.interface, call.peerPubKey) =
        ((if W.remove.carriedOut = false then c else c.remove call.peerPubKey).peers
          call.peerPubKey).map Device.PeerConfig.endpoint :=
    Peering.endpoint_command h call.peerPubKey
  have hplane₁ : (s.command call.interface W.remove fun c =>
      c.remove call.peerPubKey).planes call.interface =
        some (if W.remove.carriedOut = false then c else c.remove call.peerPubKey) := by
    rw [Peering.planes_command, h, Option.map_some]
  unfold replacePeer afterCommands
  dsimp only
  generalize s.command call.interface W.remove (fun c => c.remove call.peerPubKey) = s₁ at *
  generalize hc₁ : (if W.remove.carriedOut = false then c else c.remove call.peerPubKey) = c₁ at *
  have hafter : s₁.endpoint (call.interface, call.peerPubKey) =
      if W.remove.carriedOut = false then s.endpoint (call.interface, call.peerPubKey) else none := by
    rw [hendpoint₁, hbefore, ← hc₁]
    split_ifs
    · rfl
    · simp [Device.Config.remove]
  rw [ConfigureCall.key, ← hafter]
  cases parseEndpoint P (peerEndpoint R W call) with
  | none => rfl
  | some addr =>
    dsimp only
    rw [Peering.endpoint_command hplane₁]
    by_cases hlost : W.add.carriedOut = false
    · rw [if_pos hlost, if_pos hlost, hendpoint₁]
    · rw [if_neg hlost, if_neg hlost, hendpoint₁, Option.isSome_map]
      exact peers_takePeer _ _ (addSection call.peerPubKey addr call.keepalive)

/-- When the two commands leave an endpoint as it is. -/
theorem afterCommands_eq_iff (W : World) (addr : Option SocketAddr)
    (before : Option (Option SocketAddr)) :
    afterCommands W addr before = before ↔ Idle W addr before := by
  unfold afterCommands Idle
  rcases before with _ | e <;> rcases addr with _ | addr
  · simp
  · by_cases hadd : W.add.carriedOut = false <;> cases hkeyed : W.keyed <;> simp [hadd]
  · simp
  · by_cases hremove : W.remove.carriedOut = false
    · simp [hremove]
    · by_cases hadd : W.add.carriedOut = false <;> cases hkeyed : W.keyed <;>
        simp [hremove, hadd, eq_comm]

/-- What the commands make of the endpoint of the peer. -/
theorem endpoint_replacePeer (h : s.planes call.interface = some c) :
    (replacePeer P R W call s).endpoint call.key = s.endpoint call.key ↔
      Idle W (parseEndpoint P (peerEndpoint R W call)) (s.endpoint call.key) := by
  rw [endpoint_replacePeer_eq h, afterCommands_eq_iff]

/-- The call up to the cache: what it leaves when the endpoint is known, when the new peer is
accepted, and when it is not. -/
theorem configurePeer_cases (P : Parsers) (R : Printers) (W : World) (call : ConfigureCall)
    (s : Peering) :
    (s.cache.lookup call.key = some (peerEndpoint R W call) ∧ configurePeer P R W call s = s) ∨
    (s.cache.lookup call.key ≠ some (peerEndpoint R W call) ∧
      (∀ key, (configurePeer P R W call s).endpoint key =
        (replacePeer P R W call s).endpoint key) ∧
      (configurePeer P R W call s).cache =
        if Accepted P R W call s then s.cache.insert call.key (peerEndpoint R W call)
        else s.cache) := by
  unfold configurePeer
  dsimp only
  by_cases hcached : s.cache.lookup call.key = some (peerEndpoint R W call)
  · exact .inl ⟨hcached, if_pos hcached⟩
  · rw [if_neg hcached]
    refine .inr ⟨hcached, ?_⟩
    by_cases hacc : Accepted P R W call s
    · rw [if_pos hacc, if_pos hacc]
      refine ⟨fun _ => rfl, ?_⟩
      rw [cache_replacePeer]
    · rw [if_neg hacc, if_neg hacc]
      exact ⟨fun _ => rfl, cache_replacePeer⟩

theorem linkMtus_command {iface : String} {delivery : Delivery}
    {f : Device.Config → Device.Config} :
    (s.command iface delivery f).linkMtus = s.linkMtus := by
  unfold Peering.command
  split_ifs <;> rfl

theorem linkMtus_replacePeer : (replacePeer P R W call s).linkMtus = s.linkMtus := by
  unfold replacePeer
  dsimp only
  split <;> simp only [linkMtus_command]

/-- The MTU is set only for a new peer that is accepted. -/
theorem linkMtus_configurePeer :
    (configurePeer P R W call s).linkMtus = s.linkMtus ++
      if s.cache.lookup call.key = some (peerEndpoint R W call) ∨ ¬ Accepted P R W call s then []
      else ((syncedMtu R W call).map fun m => (call.interface, m)).toList := by
  unfold configurePeer
  dsimp only
  by_cases hcached : s.cache.lookup call.key = some (peerEndpoint R W call)
  · rw [if_pos hcached, if_pos (.inl hcached), List.append_nil]
  by_cases hacc : Accepted P R W call s
  · rw [if_neg hcached, if_pos hacc, if_neg (not_or.mpr ⟨hcached, not_not.mpr hacc⟩)]
    exact congrArg (· ++ _) linkMtus_replacePeer
  · rw [if_neg hcached, if_neg hacc, if_pos (.inr hacc), List.append_nil, linkMtus_replacePeer]

/-- **A call changes nothing for other keys.** -/
theorem elsewhere_configurePeer (h : key ≠ call.key) :
    (configurePeer P R W call s).endpoint key = s.endpoint key ∧
      (configurePeer P R W call s).cache.lookup key = s.cache.lookup key := by
  obtain ⟨-, heq⟩ | ⟨-, hendpoint, hcache⟩ := configurePeer_cases P R W call s
  · rw [heq]
    exact ⟨rfl, rfl⟩
  · rw [hendpoint, hcache]
    refine ⟨endpoint_replacePeer_of_ne h, ?_⟩
    split_ifs
    · exact AList.lookup_insert_ne h
    · rfl

/-- **When a call leaves everything as it is.** -/
theorem keeps_configurePeer_iff :
    s.Keeps (configurePeer P R W call s) ↔ Inert P R W call s := by
  unfold Inert
  obtain ⟨hcached, heq⟩ | ⟨hcached, hendpoint, hcache⟩ := configurePeer_cases P R W call s
  · rw [heq]
    exact ⟨fun _ => .inl hcached, fun _ => .refl s⟩
  · rw [or_iff_right hcached]
    by_cases hacc : Accepted P R W call s
    · refine ⟨fun hkeeps => ?_, fun hboth => absurd hacc hboth.1⟩
      have hlookup := hkeeps.cache call.key
      rw [hcache, if_pos hacc, AList.lookup_insert] at hlookup
      exact absurd hlookup.symm hcached
    · rw [if_neg hacc] at hcache
      have hkeep : s.Keeps (configurePeer P R W call s) ↔
          (replacePeer P R W call s).endpoint call.key = s.endpoint call.key := by
        refine ⟨fun hkeeps => ?_, fun hsame => ⟨fun key => ?_, fun key => by rw [hcache]⟩⟩
        · rw [← hendpoint]
          exact hkeeps.endpoint call.key
        · rw [hendpoint]
          by_cases hkey : key = call.key
          · rw [hkey, hsame]
          · exact endpoint_replacePeer_of_ne hkey
      rw [hkeep, and_iff_right hacc]
      rcases hplane : s.planes call.interface with _ | c
      · exact ⟨fun _ hsome => absurd hsome Bool.false_ne_true, fun _ =>
          endpoint_replacePeer_of_none hplane⟩
      · rw [endpoint_replacePeer hplane]
        exact ⟨fun hidle _ => hidle, fun hidle => hidle rfl⟩

end

/-! ## The device -/

section

variable {C : Prims} {T : Type → Type} [Table T IpNetwork IpAddr] [LawfulTable T IpNetwork IpAddr]
  {d d' : Device C T} {seed : TunnSeed}

/-- The first command, on a device. -/
theorem config_removeSection (h : Consistent d) (pubKey : Bytes 32) :
    (d.commit seed (removeSection pubKey)).map Device.config = some (d.config.remove pubKey) := by
  have hcommit : d.commit seed (removeSection pubKey) = some (d.removePeer pubKey) := by
    unfold Device.commit Device.updatePeer
    exact if_pos rfl
  rw [hcommit, Option.map_some, Device.config_removePeer h]

/-- The second command, on a device that does not run out of indices. -/
theorem config_addSection (h : Consistent d) {pubKey : Bytes 32} {addr : SocketAddr}
    {keepalive : Option UInt16}
    (hcommit : d.commit seed (addSection pubKey addr keepalive) = some d') :
    d'.config = takePeer d.keyPair.isSome d.config (addSection pubKey addr keepalive) := by
  unfold takePeer
  cases hkey : d.keyPair.isSome with
  | true =>
    have hplan := Device.plan_commit h hkey seed (addSection pubKey addr keepalive)
    have hadds : (addSection pubKey addr keepalive).remove ≠ true := Bool.false_ne_true
    rw [hcommit, Option.map_some, planned, if_neg hadds] at hplan
    rw [Bool.not_true, Bool.or_false]
    change _ = if (d.config.peers _).isSome then _ else _ at hplan
    split_ifs at hplan ⊢ with hthere
    · exact congrArg Prod.fst (Option.some.inj hplan)
    · obtain ⟨⟨lfsr, idx⟩, -, heq⟩ := Option.map_eq_some_iff.mp hplan.symm
      exact (congrArg Prod.fst heq).symm
  | false =>
    rw [Bool.not_false, Bool.or_true, if_pos rfl]
    obtain ⟨hremove, -⟩ | ⟨-, -, rfl⟩ | ⟨-, -, lfsr, idx, -, ⟨-, rfl⟩ | ⟨kp, hkp, -⟩⟩ :=
      Device.updatePeer_cases hcommit
    · cases hremove
    · rfl
    · rfl
    · rw [hkp] at hkey
      cases hkey

end

/-! ## A concrete surrounding -/

/-- The text of an address. -/
def sampleIpText : IpAddr → List Char
  | .v4 octets =>
    match octets.toList with
    | [a, b, c, d] =>
      writeUnsigned a.toNat ++ '.' :: (writeUnsigned b.toNat ++ '.' :: (writeUnsigned c.toNat ++
        '.' :: writeUnsigned d.toNat))
    | _ => []
  | .v6 octets => toHex octets.toList

def sampleSocketText : SocketAddr → List Char
  | .v4 octets port => sampleIpText (.v4 octets) ++ ':' :: writeUnsigned port.toNat
  | .v6 octets port _ _ => '[' :: (sampleIpText (.v6 octets) ++ ']' :: ':' ::
      writeUnsigned port.toNat)

theorem solid_cons {c : Char} {s : List Char} (hc : isWhitespace c = false) (hs : Solid s) :
    Solid (c :: s) :=
  List.forall_mem_cons.mpr ⟨hc, hs⟩

theorem solid_sampleIpText (ip : IpAddr) : Solid (sampleIpText ip) := by
  cases ip with
  | v4 octets =>
    unfold sampleIpText
    dsimp only
    split
    · exact (solid_writeUnsigned _).append (solid_cons (by decide) ((solid_writeUnsigned _).append
        (solid_cons (by decide) ((solid_writeUnsigned _).append
          (solid_cons (by decide) (solid_writeUnsigned _))))))
    · exact List.forall_mem_nil _
  | v6 octets => exact solid_toHex _

def samplePrinters : Printers where
  ipAddr := sampleIpText
  socketAddr := sampleSocketText
  solid_ipAddr := solid_sampleIpText
  solid_socketAddr addr := by
    cases addr with
    | v4 octets port =>
      exact (solid_sampleIpText _).append (solid_cons (by decide) (solid_writeUnsigned _))
    | v6 octets port flowinfo scopeId =>
      exact solid_cons (by decide) ((solid_sampleIpText _).append (solid_cons (by decide)
        (solid_cons (by decide) (solid_writeUnsigned _))))

/-- A turn at which no data plane runs yet and no name is known. -/
def sampleWorld : World where
  uapi _ := none
  clock := 1700000000
  interfaceMtu _ := none
  autoMtu _ _ := 1420
  lookupHost _ := none
  resolveDns _ _ := none
  nonce := fill 12 5
  remove := .answered
  add := .answered
  keyed := true

end NekoLink.Ctl
