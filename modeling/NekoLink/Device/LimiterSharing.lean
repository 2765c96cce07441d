import NekoLink.Device.DeviceSteps
import NekoLink.Noise.SharedLimiter

/-!
# Who uses which rate limiter

The limiters are behind `Arc`s: `set_key` makes one and gives it to the device and to the tunnels
of its peers, and `Tunn::new` makes one for its tunnel unless it is given one. `SharingDevice` adds
to a device what its `Arc`s point to, and the handlers of connected sockets. These hold their peers,
and `clear_peers` leaves them registered.

* `step_device`: the calls do to the device what they do without the `Arc`s.
* `Inv.step`: the peers with the limiter of the device are those that it had when its key was last
  changed.
* `oneLimiter_iff`: when the whole device has one limiter.
-/

namespace NekoLink.Device

open Wire Noise Routing

/-- A position among the limiters, for `Arc<RateLimiter>`. -/
abbrev LimiterRef := ℕ

/-- A device with its limiters. -/
structure SharingDevice (C : Prims) (T : Type → Type) where
  device : Device C T
  /-- Every limiter created so far. -/
  limiters : List RateLimiter
  /-- The limiter of the tunnel of each peer in the heap. -/
  tunnelLimiters : List LimiterRef
  deviceLimiter : Option LimiterRef
  /-- The peers whose connected sockets have a handler. -/
  connected : List PeerRef

/-- What the limiters depend on: the calls that configure the device, and the connected sockets. -/
inductive SharingInput
  | call (op : Op)
  /-- A datagram of a peer makes a connected socket. -/
  | connect (pubKey : Bytes 32)
  /-- A connected socket is shut down. -/
  | disconnect (peer : PeerRef)

namespace SharingDevice

variable {C : Prims} {T : Type → Type}

section Calls

variable [Table T IpNetwork IpAddr]

def new (nextIndex : IndexLfsr) (transportMode : TransportMode) : SharingDevice C T where
  device := .new nextIndex transportMode
  limiters := []
  tunnelLimiters := []
  deviceLimiter := none
  connected := []

section

variable (s : SharingDevice C T)

/-- `rate_limiter.unwrap_or_else(|| Arc::new(..))` -/
def unwrapOrNew (rateLimiter : Option LimiterRef) (created : RateLimiter) :
    List RateLimiter × LimiterRef :=
  match rateLimiter with
  | some l => (s.limiters, l)
  | none => (s.limiters ++ [created], s.limiters.length)

/-- The connected socket of the peer is shut down. -/
def removePeer (pubKey : Bytes 32) : SharingDevice C T :=
  { s with
    device := s.device.removePeer pubKey
    connected := s.connected.filter fun peer => s.device.peers.lookup pubKey ≠ some peer }

/-- The connected sockets stay. -/
def clearPeers : SharingDevice C T := { s with device := s.device.clearPeers }

/-- `Tunn::new` is given no limiter. -/
def updatePeer (seed : TunnSeed) (pubKey : Bytes 32) (remove _replaceIps : Bool)
    (endpoint : Option SocketAddr) (allowedIps : List AllowedIP) (keepalive : Option ℕ)
    (presharedKey : Option (Bytes 32)) : Option (SharingDevice C T) :=
  if remove then some (s.removePeer pubKey)
  else if (s.device.peers.lookup pubKey).isSome then some s
  else
    s.device.nextIndex.next.map fun (lfsr, nextIndex) =>
      match s.device.keyPair with
      | none => { s with device := { s.device with nextIndex := lfsr } }
      | some deviceKeyPair =>
        let tunn := Tunn.new C deviceKeyPair.privateKey pubKey presharedKey keepalive nextIndex none
          seed.stamper seed.env
        let (limiters, rateLimiter) := s.unwrapOrNew none tunn.rateLimiter
        let peer := Peer.new tunn nextIndex endpoint allowedIps presharedKey s.device.transportMode
        { s with
          device := s.device.addPeer lfsr pubKey peer allowedIps
          limiters
          tunnelLimiters := s.tunnelLimiters ++ [rateLimiter] }

/-- The new limiter goes to the tunnels of all peers and to the device. -/
def setKey (env : Env) (privateKey : Bytes 32) : Option (SharingDevice C T) :=
  let publicKey := C.publicKey privateKey
  if some publicKey = s.device.keyPair.map KeyPair.publicKey then some s
  else
    let rateLimiter := s.limiters.length
    (s.device.setKey env privateKey).map fun device =>
      { s with
        device
        limiters := s.limiters ++ [.new C publicKey handshakeRateLimit env.limiter]
        tunnelLimiters := (s.device.peers.entries.map Sigma.snd).foldl
          (fun tunnels peer => tunnels.set peer rateLimiter) s.tunnelLimiters
        deviceLimiter := some rateLimiter }

def call : Op → Option (SharingDevice C T × TunnResult)
  | .updatePeer seed pubKey remove replaceIps endpoint allowedIps keepalive presharedKey =>
    (s.updatePeer seed pubKey remove replaceIps endpoint allowedIps keepalive presharedKey).map
      fun s => (s, .done)
  | .removePeer pubKey => some (s.removePeer pubKey, .done)
  | .clearPeers => some (s.clearPeers, .done)
  | .setKey env privateKey => (s.setKey env privateKey).map fun s => (s, .done)
  | .peer _ _ => none

def step : SharingInput → Option (SharingDevice C T × TunnResult)
  | .call op => s.call op
  | .connect pubKey =>
    (s.device.peers.lookup pubKey).map fun peer =>
      ({ s with connected := s.connected.insert peer }, .done)
  | .disconnect peer => some ({ s with connected := s.connected.filter (· ≠ peer) }, .done)

end

variable {s s' : SharingDevice C T} {op : Op} {i : SharingInput} {r : TunnResult}
  {keyed : List PeerRef}

theorem updatePeer_cases {seed : TunnSeed} {pubKey : Bytes 32} {remove replaceIps : Bool}
    {endpoint : Option SocketAddr} {allowedIps : List AllowedIP} {keepalive : Option ℕ}
    {presharedKey : Option (Bytes 32)}
    (h : s.updatePeer seed pubKey remove replaceIps endpoint allowedIps keepalive presharedKey =
      some s') :
    (remove = true ∧ s' = s.removePeer pubKey) ∨
    (remove = false ∧ (s.device.peers.lookup pubKey).isSome ∧ s' = s) ∨
    (remove = false ∧ s.device.peers.lookup pubKey = none ∧ ∃ lfsr idx,
      s.device.nextIndex.next = some (lfsr, idx) ∧
      ((s.device.keyPair = none ∧ s' = { s with device := { s.device with nextIndex := lfsr } }) ∨
        ∃ kp p, s.device.keyPair = some kp ∧
          p = .new (Tunn.new C kp.privateKey pubKey presharedKey keepalive idx none seed.stamper
            seed.env) idx endpoint allowedIps presharedKey s.device.transportMode ∧
          s' = { s with
            device := s.device.addPeer lfsr pubKey p allowedIps
            limiters := s.limiters ++ [p.tunnel.rateLimiter]
            tunnelLimiters := s.tunnelLimiters ++ [s.limiters.length] })) := by
  rw [updatePeer] at h
  split_ifs at h with hremove hpresent
  · exact Or.inl ⟨hremove, (Option.some.inj h).symm⟩
  · exact Or.inr (Or.inl ⟨Bool.eq_false_of_not_eq_true hremove, hpresent, (Option.some.inj h).symm⟩)
  · obtain ⟨⟨lfsr, idx⟩, hnext, heq⟩ := Option.map_eq_some_iff.mp h
    refine Or.inr (Or.inr ⟨Bool.eq_false_of_not_eq_true hremove,
      Option.not_isSome_iff_eq_none.mp hpresent, lfsr, idx, hnext, ?_⟩)
    rcases hkey : s.device.keyPair with _ | kp
    · rw [hkey] at heq
      exact Or.inl ⟨rfl, heq.symm⟩
    · rw [hkey] at heq
      exact Or.inr ⟨kp, _, rfl, rfl, heq.symm⟩

omit [Table T IpNetwork IpAddr] in
theorem setKey_cases {env : Env} {privateKey : Bytes 32} (h : s.setKey env privateKey = some s') :
    (some (C.publicKey privateKey) = s.device.keyPair.map KeyPair.publicKey ∧ s' = s) ∨
      (some (C.publicKey privateKey) ≠ s.device.keyPair.map KeyPair.publicKey ∧ ∃ heap kp limiter,
        heap.length = s.device.heap.length ∧
        s.device.setKey env privateKey =
          some { s.device with heap, keyPair := some kp, rateLimiter := some limiter } ∧
        limiter = .new C (C.publicKey privateKey) handshakeRateLimit env.limiter ∧
        s' = ⟨{ s.device with heap, keyPair := some kp, rateLimiter := some limiter },
          s.limiters ++ [limiter], (s.device.peers.entries.map Sigma.snd).foldl
            (fun tunnels peer => tunnels.set peer s.limiters.length) s.tunnelLimiters,
          some s.limiters.length, s.connected⟩) := by
  rw [setKey] at h
  dsimp only at h
  split_ifs at h with hsame
  · exact Or.inl ⟨hsame, (Option.some.inj h).symm⟩
  · obtain ⟨device, hdevice, rfl⟩ := Option.map_eq_some_iff.mp h
    have hset := hdevice
    rw [Device.setKey] at hset
    dsimp only at hset
    rw [if_neg hsame] at hset
    obtain ⟨heap, hfold, rfl⟩ := Option.map_eq_some_iff.mp hset
    exact Or.inr ⟨hsame, heap, _, _, (foldlM_setStaticPrivateAt_touched hfold).length_eq, hdevice,
      rfl, rfl⟩

/-- **The calls do to the device** what they do without the `Arc`s. -/
theorem step_device (h : s.call op = some (s', r)) : s.device.step op = some (s'.device, r) := by
  cases op with
  | updatePeer seed pubKey remove replaceIps endpoint allowedIps keepalive presharedKey =>
    obtain ⟨s₁, hupdate, heq⟩ := Option.map_eq_some_iff.mp h
    cases heq
    rw [Device.step, Device.updatePeer]
    obtain ⟨rfl, rfl⟩ | ⟨rfl, hpresent, rfl⟩ |
        ⟨rfl, habsent, lfsr, idx, hnext, ⟨hkey, rfl⟩ | ⟨kp, p, hkey, rfl, rfl⟩⟩ :=
      updatePeer_cases hupdate
    · rfl
    · rw [if_neg Bool.false_ne_true, if_pos hpresent]
      rfl
    · rw [if_neg Bool.false_ne_true, if_neg (by simp [habsent]), hnext]
      simp only [hkey, Option.map_some]
    · rw [if_neg Bool.false_ne_true, if_neg (by simp [habsent]), hnext, hkey]
      rfl
  | removePeer pubKey =>
    cases h
    rfl
  | clearPeers =>
    cases h
    rfl
  | setKey env privateKey =>
    obtain ⟨s₁, hset, heq⟩ := Option.map_eq_some_iff.mp h
    cases heq
    rw [Device.step]
    obtain ⟨hsame, rfl⟩ | ⟨-, heap, kp, limiter, -, hdevice, -, rfl⟩ := setKey_cases hset
    · rw [Device.setKey]
      dsimp only
      rw [if_pos hsame]
      rfl
    · rw [hdevice]
      rfl
  | peer => cases h

/-! ## Who has the limiter of the device -/

/-- The peers that the device had when its key was last changed, after one more call. -/
def keyedStep (d : Device C T) (keyed : List PeerRef) : Op → List PeerRef
  | .setKey _ privateKey =>
    if some (C.publicKey privateKey) = d.keyPair.map KeyPair.publicKey then keyed
    else d.peers.entries.map Sigma.snd
  | _ => keyed

/-- Those of a run. -/
def keyedAfter (d : Device C T) (keyed : List PeerRef) : List SharingInput → List PeerRef
  | [] => keyed
  | .call op :: is =>
    match d.step op with
    | some (d', _) => keyedAfter d' (keyedStep d keyed op) is
    | none => keyed
  | _ :: is => keyedAfter d keyed is

/-- A peer that packets still reach: the device has it, or its connected socket has a handler. -/
def Served (s : SharingDevice C T) (peer : PeerRef) : Prop :=
  (∃ pubKey, s.device.peers.lookup pubKey = some peer) ∨ peer ∈ s.connected

/-- **Who has which limiter.** -/
structure Inv (s : SharingDevice C T) (keyed : List PeerRef) : Prop where
  length_eq : s.tunnelLimiters.length = s.device.heap.length
  created : ∀ l, s.deviceLimiter = some l →
    ∃ publicKey seed, s.limiters[l]? = some (.new C publicKey handshakeRateLimit seed)
  served_lt : ∀ peer, s.Served peer → peer < s.tunnelLimiters.length
  keyed_lt : ∀ peer ∈ keyed, peer < s.tunnelLimiters.length
  tunnel_lt : ∀ l ∈ s.tunnelLimiters, l < s.limiters.length
  tunnel_iff : ∀ peer l, s.tunnelLimiters[peer]? = some l →
    (some l = s.deviceLimiter ↔ peer ∈ keyed)

omit [Table T IpNetwork IpAddr] in
theorem Inv.lt_length (hinv : Inv s keyed) {l : LimiterRef} (h : s.deviceLimiter = some l) :
    l < s.limiters.length := by
  obtain ⟨publicKey, seed, hget⟩ := hinv.created l h
  exact (List.getElem?_eq_some_iff.mp hget).1

theorem lookup_removePeer (d : Device C T) (pubKey k : Bytes 32) :
    (d.removePeer pubKey).peers.lookup k = if k = pubKey then none else d.peers.lookup k := by
  rw [Device.removePeer]
  split
  · next hnone =>
    split_ifs with hk
    · rw [hk, hnone]
    · rfl
  · split_ifs with hk
    · rw [hk]
      exact AList.lookup_erase ..
    · exact AList.lookup_erase_ne hk

omit [Table T IpNetwork IpAddr] in
/-- Fewer peers are served. -/
theorem Inv.mono (hinv : Inv s keyed) {device : Device C T} {connected : List PeerRef}
    (hheap : device.heap.length = s.device.heap.length)
    (hserved : ∀ peer, Served { s with device, connected } peer → s.Served peer) :
    Inv { s with device, connected } keyed where
  length_eq := hinv.length_eq.trans hheap.symm
  created := hinv.created
  served_lt peer hpeer := hinv.served_lt peer (hserved peer hpeer)
  keyed_lt := hinv.keyed_lt
  tunnel_lt := hinv.tunnel_lt
  tunnel_iff := hinv.tunnel_iff

theorem Inv.removePeer (hinv : Inv s keyed) (pubKey : Bytes 32) :
    Inv (s.removePeer pubKey) keyed := by
  refine hinv.mono ?_ fun peer hpeer => ?_
  · rw [Device.removePeer]
    split <;> rfl
  · rcases hpeer with ⟨k, hk⟩ | hconn
    · rw [lookup_removePeer] at hk
      split_ifs at hk
      exact .inl ⟨k, hk⟩
    · exact .inr (List.mem_of_mem_filter hconn)

/-- A new peer has a limiter of its own. -/
theorem Inv.addPeer (hinv : Inv s keyed) {pubKey : Bytes 32} (lfsr : IndexLfsr) (p : Peer C T)
    (allowedIps : List AllowedIP) :
    Inv { s with
      device := s.device.addPeer lfsr pubKey p allowedIps
      limiters := s.limiters ++ [p.tunnel.rateLimiter]
      tunnelLimiters := s.tunnelLimiters ++ [s.limiters.length] } keyed where
  length_eq := by
    rw [Device.addPeer, List.length_append, List.length_append, hinv.length_eq]
    rfl
  created l hl := by
    obtain ⟨publicKey, seed, hget⟩ := hinv.created l hl
    exact ⟨publicKey, seed, by rw [List.getElem?_append_left (hinv.lt_length hl), hget]⟩
  served_lt peer hpeer := by
    rw [List.length_append, List.length_singleton]
    rcases hpeer with ⟨k, hk⟩ | hconn
    · by_cases heq : k = pubKey
      · rw [heq, Device.addPeer, AList.lookup_insert] at hk
        cases hk
        rw [← hinv.length_eq]
        exact Nat.lt_succ_self _
      · rw [Device.addPeer, AList.lookup_insert_ne heq] at hk
        exact Nat.lt_succ_of_lt (hinv.served_lt peer (.inl ⟨k, hk⟩))
    · exact Nat.lt_succ_of_lt (hinv.served_lt peer (.inr hconn))
  keyed_lt peer hpeer := by
    rw [List.length_append, List.length_singleton]
    exact Nat.lt_succ_of_lt (hinv.keyed_lt peer hpeer)
  tunnel_lt l hl := by
    rw [List.length_append, List.length_singleton]
    rcases List.mem_append.mp hl with hl | hl
    · exact Nat.lt_succ_of_lt (hinv.tunnel_lt l hl)
    · rw [List.mem_singleton.mp hl]
      exact Nat.lt_succ_self _
  tunnel_iff peer l hget := by
    by_cases hlt : peer < s.tunnelLimiters.length
    · rw [List.getElem?_append_left hlt] at hget
      exact hinv.tunnel_iff peer l hget
    · refine iff_of_false (fun hl => ?_) fun hmem => hlt (hinv.keyed_lt peer hmem)
      have hold := hinv.lt_length hl.symm
      rw [List.getElem?_append_right (Nat.le_of_not_lt hlt)] at hget
      rw [List.mem_singleton.mp (List.mem_of_getElem? hget)] at hold
      exact lt_irrefl _ hold

/-- The loop of `set_key` over the tunnels. -/
theorem getElem?_foldl_set (l : LimiterRef) (peers : List PeerRef) (tunnels : List LimiterRef)
    (i : PeerRef) :
    (peers.foldl (fun tunnels peer => tunnels.set peer l) tunnels)[i]? =
      if i ∈ peers then tunnels[i]?.map fun _ => l else tunnels[i]? := by
  induction peers generalizing tunnels with
  | nil => rfl
  | cons j peers ih =>
    rw [List.foldl_cons, ih, List.getElem?_set']
    by_cases hij : j = i
    · subst hij
      rw [if_pos rfl, if_pos List.mem_cons_self]
      cases tunnels[j]? <;> simp
    · simp only [if_neg hij, List.mem_cons, or_iff_right (Ne.symm hij)]

theorem length_foldl_set (l : LimiterRef) (peers : List PeerRef) (tunnels : List LimiterRef) :
    (peers.foldl (fun tunnels peer => tunnels.set peer l) tunnels).length = tunnels.length := by
  induction peers generalizing tunnels with
  | nil => rfl
  | cons j peers ih => rw [List.foldl_cons, ih, List.length_set]

omit [Table T IpNetwork IpAddr] in
/-- The peers that the device has get the new limiter, and no others. -/
theorem Inv.setKey (hinv : Inv s keyed) {heap : List (Peer C T)} {kp : KeyPair C}
    {limiter : RateLimiter} {publicKey : Bytes 32} {seed : LimiterSeed}
    (hheap : heap.length = s.device.heap.length)
    (hlimiter : limiter = .new C publicKey handshakeRateLimit seed) :
    Inv ⟨{ s.device with heap, keyPair := some kp, rateLimiter := some limiter },
      s.limiters ++ [limiter], (s.device.peers.entries.map Sigma.snd).foldl
        (fun tunnels peer => tunnels.set peer s.limiters.length) s.tunnelLimiters,
      some s.limiters.length, s.connected⟩ (s.device.peers.entries.map Sigma.snd) where
  length_eq := by rw [length_foldl_set, hinv.length_eq, hheap]
  created l heq := by
    cases heq
    exact ⟨_, _, by rw [List.getElem?_concat_length, hlimiter]⟩
  served_lt peer hpeer := by
    rw [length_foldl_set]
    exact hinv.served_lt peer hpeer
  keyed_lt peer hpeer := by
    rw [length_foldl_set]
    obtain ⟨⟨k, peer⟩, hentry, rfl⟩ := List.mem_map.mp hpeer
    exact hinv.served_lt peer (.inl ⟨k, AList.mem_lookup_iff.mpr hentry⟩)
  tunnel_lt l hl := by
    obtain ⟨peer, hget⟩ := List.mem_iff_getElem?.mp hl
    rw [List.length_append, List.length_singleton]
    rw [getElem?_foldl_set] at hget
    split_ifs at hget
    · obtain ⟨-, -, rfl⟩ := Option.map_eq_some_iff.mp hget
      exact Nat.lt_succ_self _
    · exact Nat.lt_succ_of_lt (hinv.tunnel_lt l (List.mem_of_getElem? hget))
  tunnel_iff peer l hget := by
    rw [getElem?_foldl_set] at hget
    split_ifs at hget with hpeer
    · obtain ⟨-, -, rfl⟩ := Option.map_eq_some_iff.mp hget
      exact iff_of_true rfl hpeer
    · refine iff_of_false (fun hl => ?_) hpeer
      have hlt := hinv.tunnel_lt l (List.mem_of_getElem? hget)
      rw [Option.some.inj hl] at hlt
      exact lt_irrefl _ hlt

/-- **One call.** -/
theorem Inv.call (hinv : Inv s keyed) (h : s.call op = some (s', r)) :
    Inv s' (keyedStep s.device keyed op) := by
  cases op with
  | updatePeer seed pubKey remove replaceIps endpoint allowedIps keepalive presharedKey =>
    obtain ⟨s₁, hupdate, heq⟩ := Option.map_eq_some_iff.mp h
    cases heq
    obtain ⟨-, rfl⟩ | ⟨-, -, rfl⟩ | ⟨-, -, lfsr, idx, -, ⟨-, rfl⟩ | ⟨kp, p, -, -, rfl⟩⟩ :=
      updatePeer_cases hupdate
    · exact hinv.removePeer pubKey
    · exact hinv
    · exact hinv.mono rfl fun _ hpeer => hpeer
    · exact hinv.addPeer lfsr p allowedIps
  | removePeer pubKey =>
    cases h
    exact hinv.removePeer pubKey
  | clearPeers =>
    cases h
    refine hinv.mono rfl fun peer hpeer => ?_
    rcases hpeer with ⟨k, hk⟩ | hconn
    · cases hk
    · exact .inr hconn
  | setKey env privateKey =>
    obtain ⟨s₁, hset, heq⟩ := Option.map_eq_some_iff.mp h
    cases heq
    rw [keyedStep]
    obtain ⟨hsame, rfl⟩ | ⟨hother, heap, kp, limiter, hheap, -, hlimiter, rfl⟩ := setKey_cases hset
    · rw [if_pos hsame]
      exact hinv
    · rw [if_neg hother]
      exact hinv.setKey hheap hlimiter
  | peer => cases h

/-- **Every run.** -/
theorem Inv.run (hinv : Inv s keyed) {is : List SharingInput} {rs : List TunnResult}
    (h : Machine.run SharingDevice.step s is = some (s', rs)) :
    Inv s' (keyedAfter s.device keyed is) := by
  induction is generalizing s keyed rs with
  | nil =>
    cases h
    exact hinv
  | cons i is ih =>
    obtain ⟨s₁, r, rs', hstep, hrun, -⟩ := Machine.run_cons_eq_some.mp h
    cases i with
    | call op =>
      rw [keyedAfter, step_device hstep]
      exact ih (hinv.call hstep) hrun
    | connect pubKey =>
      obtain ⟨peer, hlookup, heq⟩ := Option.map_eq_some_iff.mp hstep
      cases heq
      have hconnected : Inv { s with connected := s.connected.insert peer } keyed := by
        refine hinv.mono rfl fun peer' hpeer => ?_
        rcases hpeer with htable | hconn
        · exact .inl htable
        · rcases List.mem_insert_iff.mp hconn with rfl | hconn
          · exact .inl ⟨pubKey, hlookup⟩
          · exact .inr hconn
      have hrest := ih hconnected hrun
      exact hrest
    | disconnect peer =>
      cases hstep
      have hconnected : Inv { s with connected := s.connected.filter (· ≠ peer) } keyed :=
        hinv.mono rfl fun peer' hpeer => hpeer.imp_right List.mem_of_mem_filter
      have hrest := ih hconnected hrun
      exact hrest

end Calls

/-! ## The handlers -/

variable {s : SharingDevice C T} {keyed : List PeerRef}

/-- What handles datagrams: a listening UDP socket, a TCP stream, the connected socket of a peer. -/
inductive Handler
  | udp
  | tcp
  | connected (peer : PeerRef)

/-- A handler that there can be. -/
def Runs (s : SharingDevice C T) : Handler → Prop
  | .udp => True
  | .tcp => True
  | .connected peer => s.Served peer

/-- The first two use `d.rate_limiter`, the third calls `decapsulate` of the tunnel. -/
def limiterOf (s : SharingDevice C T) : Handler → Option LimiterRef
  | .udp => s.deviceLimiter
  | .tcp => s.deviceLimiter
  | .connected peer => s.tunnelLimiters[peer]?

/-- A handler has a limiter. -/
def Uses (s : SharingDevice C T) (handler : Handler) (l : LimiterRef) : Prop :=
  s.Runs handler ∧ s.limiterOf handler = some l

/-- The handlers before their first call. -/
def serving (s : SharingDevice C T) :
    Interleaving.Pool (Fin s.limiters.length → RateLimiter.Shared)
      (Fin s.limiters.length × RateLimiter.Point) :=
  ⟨fun l => ⟨s.limiters.get l, none, 0, 0⟩, []⟩

/-- What the threads of the handlers and of the timers come to, in any order of their steps. -/
def Serves (s : SharingDevice C T) (p : Interleaving.Pool
    (Fin s.limiters.length → RateLimiter.Shared) (Fin s.limiters.length × RateLimiter.Point)) :
    Prop :=
  Machine.Reaches
    (Interleaving.step (Interleaving.enterAt RateLimiter.Request.point)
      (Interleaving.atomicAt (RateLimiter.atomic C)))
    (fun _ m => ∀ l request, m = .enter (l, request) →
      (∃ handler, s.Uses handler l.val) ∧
        ∀ call, request = .verifyPacket call → cookieReplySz ≤ call.dstLen)
    s.serving p

/-- The tunnel of every peer has the limiter of the device. -/
def Shares (s : SharingDevice C T) : Prop :=
  ∀ peer, s.Served peer → s.tunnelLimiters[peer]? = s.deviceLimiter

/-- **The device has one limiter**: the tunnels of its peers have that of the device, a cookie that
a handler gives is honoured by every handler in its period, and the handshake messages that all
handlers let pass without a proof of their address are within the limit of the device. -/
structure OneLimiter (s : SharingDevice C T) : Prop where
  shared : s.Shares
  honoured : ∀ handler handler' (l l' : Fin s.limiters.length), s.Uses handler l.val →
    s.Uses handler' l'.val → ∀ p p', s.Serves p → s.Serves p' →
    ∀ packet idx, Packet.handshakeSender packet = some idx → ∀ addr now now',
      (p.shared l).limiter.epoch now' = (p.shared l).limiter.epoch now →
    ∀ mac1, mac1 = b2sKeyedMac16 C (p'.shared l').limiter.mac1Key.toList packet.body → ∀ dstLen,
    ∃ r, (p'.shared l').limiter.verifyPacket C (some addr) (packet.message mac1
      (b2sKeyedMac16 C ((p.shared l).limiter.currentCookie C addr now).toList
        (packet.body ++ mac1.toList))) dstLen now' = (r, .ok packet)
  bounded : ∀ p, s.Serves p → p.procs.length < 2 ^ 64 → ∀ period,
    p.procs.countP (fun k => k.2.passes C (s.limiters.get k.1) period) ≤ handshakeRateLimit

section Serving

variable {p : Interleaving.Pool (Fin s.limiters.length → RateLimiter.Shared)
  (Fin s.limiters.length × RateLimiter.Point)}

/-- A limiter keeps its keys and its clock. -/
theorem Serves.same (h : s.Serves p) (l : Fin s.limiters.length) :
    (s.limiters.get l).Same (p.shared l).limiter := by
  refine Machine.Reaches.invariant (I := fun p => (s.limiters.get l).Same (p.shared l).limiter) h
    (.refl _) ?_
  intro p m p' o hsame _ hstep
  obtain ⟨call, -, rfl⟩ | ⟨i, now, ⟨l', k⟩, sh, k', -, -, hatomic, rfl⟩ :=
    Interleaving.step_cases hstep
  · exact hsame
  · obtain ⟨⟨sh', k₁⟩, hone, heq⟩ := Option.map_eq_some_iff.mp hatomic
    cases heq
    by_cases hl : l = l'
    · subst hl
      dsimp only
      rw [Function.update_self]
      exact hsame.trans (RateLimiter.atomic_effect hone).1
    · dsimp only
      rw [Function.update_of_ne hl]
      exact hsame

/-- Every call is on the limiter of a handler. -/
theorem Serves.handled (h : s.Serves p) :
    ∀ k ∈ p.procs, ∃ handler, s.Uses handler k.1.val := by
  refine Machine.Reaches.invariant
    (I := fun p => ∀ k ∈ p.procs, ∃ handler, s.Uses handler k.1.val) h nofun ?_
  intro p m p' o hhandled hguard hstep
  refine Interleaving.forall_procs_of_step hhandled hstep ?_ ?_
  · rintro ⟨l, request⟩ hm
    exact (hguard l request hm).1
  · intro i now k sh k' _ hk hatomic
    obtain ⟨⟨sh', k₁⟩, -, heq⟩ := Option.map_eq_some_iff.mp hatomic
    cases heq
    exact hhandled k hk

end Serving

/-- The calls on one of the limiters. -/
theorem Serves.at (h : s.Serves p) (l : Fin s.limiters.length) :
    Machine.Reaches (RateLimiter.poolStep C)
      (fun _ m => ∀ call, m = .enter (.verifyPacket call) → cookieReplySz ≤ call.dstLen)
      (RateLimiter.fresh (s.limiters.get l)) (p.at RateLimiter.Request.resetCount.point l) := by
  refine Interleaving.reaches_at l .resetCount h ?_ ?_ ?_
  · intro _ _ request hguard call heq
    cases heq
    exact (hguard _ _ rfl).2 call rfl
  · intro _ call heq
    cases heq
  · intro _ i now call heq
    cases heq

theorem Shares.deviceLimiter_eq (hshares : s.Shares) {handler : Handler} {l : LimiterRef}
    (h : s.Uses handler l) : s.deviceLimiter = some l := by
  obtain ⟨hruns, hlimiter⟩ := h
  cases handler with
  | udp | tcp => exact hlimiter
  | connected peer => exact (hshares peer hruns).symm.trans hlimiter

theorem Shares.honoured (hshares : s.Shares) {handler handler' : Handler}
    {l l' : Fin s.limiters.length} (hl : s.Uses handler l.val) (hl' : s.Uses handler' l'.val)
    {p p' : Interleaving.Pool
      (Fin s.limiters.length → RateLimiter.Shared) (Fin s.limiters.length × RateLimiter.Point)}
    (hp : s.Serves p) (hp' : s.Serves p') {packet : Packet} {idx : UInt32}
    (hsender : packet.handshakeSender = some idx) {addr : IpAddr} {now now' : ℕ}
    (hepoch : (p.shared l).limiter.epoch now' = (p.shared l).limiter.epoch now) {mac1 : Bytes 16}
    (hmac1 : mac1 = b2sKeyedMac16 C (p'.shared l').limiter.mac1Key.toList packet.body)
    (dstLen : ℕ) :
    ∃ r, (p'.shared l').limiter.verifyPacket C (some addr) (packet.message mac1
      (b2sKeyedMac16 C ((p.shared l).limiter.currentCookie C addr now).toList
        (packet.body ++ mac1.toList))) dstLen now' = (r, .ok packet) := by
  obtain rfl : l = l' := Fin.ext (Option.some.inj
    ((hshares.deviceLimiter_eq hl).symm.trans (hshares.deviceLimiter_eq hl')))
  have hsame := hp.same l
  have hsame' := hp'.same l
  rw [RateLimiter.epoch, RateLimiter.epoch, hsame.startTime] at hepoch
  have hcookie : (p'.shared l).limiter.currentCookie C addr now' =
      (p.shared l).limiter.currentCookie C addr now :=
    (hsame'.currentCookie_eq hepoch).trans (hsame.currentCookie_eq rfl).symm
  obtain ⟨r, hverify⟩ := RateLimiter.verifyPacket_message (C := C) hsender hmac1 addr dstLen now'
  exact ⟨r, by rw [← hcookie, hverify]⟩

theorem Shares.bounded (hshares : s.Shares) (hinv : Inv s keyed) {p : Interleaving.Pool
      (Fin s.limiters.length → RateLimiter.Shared) (Fin s.limiters.length × RateLimiter.Point)}
    (hp : s.Serves p) (hcalls : p.procs.length < 2 ^ 64) (period : ℕ) :
    p.procs.countP (fun k => k.2.passes C (s.limiters.get k.1) period) ≤ handshakeRateLimit := by
  rcases hdevice : s.deviceLimiter with _ | l
  · -- no handler has a limiter, so that there is no call
    rw [List.countP_eq_zero.mpr]
    · exact Nat.zero_le _
    · intro k hk
      obtain ⟨handler, hhandler⟩ := hp.handled k hk
      rw [hshares.deviceLimiter_eq hhandler] at hdevice
      cases hdevice
  · obtain ⟨publicKey, seed, hget⟩ := hinv.created l hdevice
    obtain ⟨hl, hget⟩ := List.getElem?_eq_some_iff.mp hget
    have hget : s.limiters.get ⟨l, hl⟩ = .new C publicKey handshakeRateLimit seed := hget
    have hall : ∀ k ∈ p.procs, k.1 = ⟨l, hl⟩ := by
      intro k hk
      obtain ⟨handler, hhandler⟩ := hp.handled k hk
      exact Fin.ext (Option.some.inj ((hshares.deviceLimiter_eq hhandler).symm.trans hdevice))
    have hbound := (RateLimiter.inv_of_reaches (by rw [hget]; rfl) (hp.at ⟨l, hl⟩)
      (by rwa [Interleaving.length_at])).passes_le period
    rw [Interleaving.Pool.at, List.countP_map] at hbound
    have hlimit : (s.limiters.get ⟨l, hl⟩).limit = handshakeRateLimit := by
      rw [hget]
      rfl
    rw [hlimit] at hbound
    refine (List.countP_congr fun k hk => ?_).trans_le hbound
    rw [Function.comp_apply, if_pos (hall k hk), hall k hk]

/-- **One limiter for the device.** After any calls that configure it, with connected sockets that
come and go in between, the device has one limiter if and only if every peer that it has, and every
peer of a connected socket that still has its handler, was there when the key was last changed. -/
theorem oneLimiter_iff [Table T IpNetwork IpAddr] {nextIndex : IndexLfsr}
    {transportMode : TransportMode} {is : List SharingInput} {rs : List TunnResult}
    (h : Machine.run step (new nextIndex transportMode) is = some (s, rs)) :
    s.OneLimiter ↔ ∀ peer, s.Served peer →
      peer ∈ keyedAfter (.new nextIndex transportMode : Device C T) [] is := by
  have hnew : Inv (new nextIndex transportMode : SharingDevice C T) [] := by
    refine ⟨rfl, nofun, ?_, nofun, nofun, nofun⟩
    rintro peer (⟨k, hk⟩ | hconn)
    · rw [new, Device.new, AList.lookup_empty] at hk
      cases hk
    · cases hconn
  have hinv : Inv s (keyedAfter (.new nextIndex transportMode) [] is) := hnew.run h
  have hshares : s.Shares ↔ ∀ peer, s.Served peer →
      peer ∈ keyedAfter (.new nextIndex transportMode : Device C T) [] is := by
    refine forall₂_congr fun peer hpeer => ?_
    rw [← hinv.tunnel_iff peer _ (List.getElem?_eq_getElem (hinv.served_lt peer hpeer)),
      List.getElem?_eq_getElem (hinv.served_lt peer hpeer)]
  rw [← hshares]
  exact ⟨OneLimiter.shared, fun hshares => ⟨hshares,
    fun _ _ _ _ hl hl' _ _ hp hp' _ _ hsender _ _ _ hepoch _ hmac1 =>
      hshares.honoured hl hl' hp hp' hsender hepoch hmac1, fun _ hp => hshares.bounded hinv hp⟩⟩

/-! ## Peers before and after the key -/

def sampleSharing : SharingDevice checksumPrims (PrefixMap IpNetwork) :=
  new sampleDevice.nextIndex .udp

/-- A peer that is added after the key: its tunnel has a limiter of its own. -/
theorem late_peer_own_limiter : ∃ s rs,
    Machine.run step sampleSharing [.call sampleSetKey, .call (sampleAdd 2 [])] = some (s, rs) ∧
      s.device.keyPair.isSome ∧ ¬s.OneLimiter := by
  have hrun : (Machine.run step sampleSharing
      [.call sampleSetKey, .call (sampleAdd 2 [])]).map (fun q =>
      (q.1.device.keyPair.isSome, q.1.device.peers.lookup (fill 32 2), q.1.tunnelLimiters[0]?,
        q.1.deviceLimiter)) = some (true, some 0, some 1, some 0) := by decide +kernel
  obtain ⟨⟨s, rs⟩, hrun, heq⟩ := Option.map_eq_some_iff.mp hrun
  simp only [Prod.mk.injEq] at heq
  obtain ⟨hkey, hpeer, htunnel, hdevice⟩ := heq
  refine ⟨s, rs, hrun, hkey, fun hone => ?_⟩
  have hshared := hone.shared 0 (.inl ⟨_, hpeer⟩)
  rw [htunnel, hdevice] at hshared
  cases hshared

/-- A key, a peer with a connected socket, and another key. -/
def sampleCalls : List SharingInput :=
  [.call sampleSetKey, .call (sampleAdd 2 []), .connect (fill 32 2),
    .call (.setKey (Tunn.sampleEnv 0 0) (fill 32 3))]

/-- The peers that are served are those in the table and those with a handler. -/
theorem forall_served_iff {s : SharingDevice C T} {keyed : List PeerRef} :
    (∀ peer, s.Served peer → peer ∈ keyed) ↔
      (∀ e ∈ s.device.peers.entries, e.2 ∈ keyed) ∧ ∀ peer ∈ s.connected, peer ∈ keyed := by
  constructor
  · exact fun h => ⟨fun e he => h e.2 (.inl ⟨e.1, AList.mem_lookup_iff.mpr he⟩),
      fun peer hpeer => h peer (.inr hpeer)⟩
  · rintro ⟨htable, hconn⟩ peer (⟨k, hk⟩ | hpeer)
    · exact htable ⟨k, peer⟩ (AList.mem_lookup_iff.mp hk)
    · exact hconn peer hpeer

/-- A peer that is there when the key is changed has the limiter of the device, also when
`clear_peers` leaves its handler; and then another key makes the difference. -/
theorem oneLimiter_iff_sample :
    (∃ s rs, Machine.run step sampleSharing (sampleCalls ++ [.call .clearPeers]) = some (s, rs) ∧
      s.connected = [0] ∧ s.OneLimiter) ∧
    ∃ s rs, Machine.run step sampleSharing (sampleCalls ++ [.call .clearPeers,
      .call (.setKey (Tunn.sampleEnv 0 0) (fill 32 4))]) = some (s, rs) ∧
      s.connected = [0] ∧ ¬s.OneLimiter := by
  have hkept : (Machine.run step sampleSharing (sampleCalls ++ [.call .clearPeers])).map (fun q =>
      (q.1.device.peers.entries, q.1.connected)) = some ([], [0]) := by decide +kernel
  have hchanged : (Machine.run step sampleSharing (sampleCalls ++ [.call .clearPeers,
      .call (.setKey (Tunn.sampleEnv 0 0) (fill 32 4))])).map (fun q =>
        (q.1.device.peers.entries, q.1.connected)) = some ([], [0]) := by decide +kernel
  obtain ⟨⟨s, rs⟩, hrun, heq⟩ := Option.map_eq_some_iff.mp hkept
  obtain ⟨⟨s', rs'⟩, hrun', heq'⟩ := Option.map_eq_some_iff.mp hchanged
  simp only [Prod.mk.injEq] at heq heq'
  refine ⟨⟨s, rs, hrun, heq.2, (oneLimiter_iff hrun).mpr ?_⟩, s', rs', hrun', heq'.2,
    fun hone => ?_⟩
  · rw [forall_served_iff, heq.1, heq.2]
    decide +kernel
  · have hkeyed := (oneLimiter_iff hrun').mp hone
    rw [forall_served_iff, heq'.1, heq'.2] at hkeyed
    exact absurd hkeyed (by decide +kernel)

end SharingDevice

end NekoLink.Device
