import NekoLink.Device.Routing
import NekoLink.Noise.Expiry

/-!
# The periodic timer of the peers

The handler that `register_timers` of `device/mod.rs` registers for every 250 ms, with the UDP
sockets that `open_listen_socket` leaves open in each transport mode. The synchronisation of the MTU
is left out.

* `timerPeers_spec`: what one firing does to each peer.
* `timers_timely_iff`: after a firing no peer has anything overdue exactly when the peers that the
  handler passes over had nothing.
* `overdue_in_tcp_mode`: an initiation that is never sent again.
-/

namespace NekoLink.Device

open Wire Noise Routing

/-- A device, and whether its UDP sockets are open. -/
structure Node (C : Prims) (T : Type → Type) where
  device : Device C T
  udp4 : Bool
  udp6 : Bool

variable {C : Prims} {T : Type → Type}

/-- `open_listen_socket`: the sockets are closed, and opened again but in TCP mode; a failure leaves
them closed. -/
def Node.openListenSocket (s : Node C T) (ok : Bool) : Node C T :=
  match s.device.transportMode with
  | .tcp => { s with udp4 := false, udp6 := false }
  | .udp | .rawIp => { s with udp4 := ok, udp6 := ok }

/-- A packet and the address it is sent to. -/
abbrev Datagram := SocketAddr × List UInt8

/-- `send_to` on the socket of the address's family, when it is open. -/
def sendTo (udp4 udp6 : Bool) (addr : SocketAddr) (packet : List UInt8) : List Datagram :=
  match addr with
  | .v4 .. => if udp4 then [(addr, packet)] else []
  | .v6 .. => if udp6 then [(addr, packet)] else []

/-- The timer function of the peer at a position. -/
def timerPeer (udp4 udp6 : Bool) (envs : PeerRef → Env) (acc : List (Peer C T) × List Datagram)
    (i : PeerRef) : Option (List (Peer C T) × List Datagram) :=
  acc.1[i]?.bind fun p =>
    match p.endpoint with
    | none => some acc
    | some endpointAddr =>
      (p.tunnel.updateTimers (envs i) maxUdpSize).bind fun (tunnel, res) =>
        let heap := acc.1.set i { p with tunnel }
        match res with
        | .done | .err _ => some (heap, acc.2)
        | .writeToNetwork packet => some (heap, acc.2 ++ sendTo udp4 udp6 endpointAddr packet)
        | _ => none -- Unexpected result from update_timers

/-- Go over each peer and invoke the timer function. -/
def Node.peerTimers (s : Node C T) (envs : PeerRef → Env) : Option (Node C T × List Datagram) :=
  if !s.udp4 && !s.udp6 then some (s, [])
  else
    ((s.device.peers.entries.map Sigma.snd).foldlM (timerPeer s.udp4 s.udp6 envs)
      (s.device.heap, [])).map fun (heap, sent) => ({ s with device := { s.device with heap } }, sent)

/-! ## One firing -/

section Firing

variable {udp4 udp6 : Bool} {envs : PeerRef → Env} {acc acc' : List (Peer C T) × List Datagram}
  {i : PeerRef} {now : ℕ}

/-- The clock readings of a firing are not before the time of the firing. -/
def ReadAfter (envs : PeerRef → Env) (now : ℕ) : Prop :=
  ∀ i, now ≤ (envs i).time ∧ now ≤ (envs i).elapsed ∧ now ≤ (envs i).sent

/-- What a firing does to a peer. -/
structure Fired (now : ℕ) (reached : Prop) (p p' : Peer C T) : Prop where
  endpoint : p'.endpoint = p.endpoint
  passed : p.endpoint = none → p' = p
  timely : reached ∨ p.tunnel.Timely now → p.endpoint ≠ none → p'.tunnel.Timely now

theorem timerPeer_spec (h : timerPeer udp4 udp6 envs acc i = some acc')
    (hclock : ReadAfter envs now) :
    ∃ p p', acc.1[i]? = some p ∧ acc'.1 = acc.1.set i p' ∧ Fired now True p p' := by
  obtain ⟨p, hp, h⟩ := Option.bind_eq_some_iff.mp h
  rcases hendpoint : p.endpoint with _ | endpointAddr
  · rw [hendpoint] at h
    cases h
    obtain ⟨hlt, rfl⟩ := List.getElem?_eq_some_iff.mp hp
    exact ⟨_, _, hp, (List.set_getElem_self hlt).symm, rfl, fun _ => rfl,
      fun _ hne => absurd hendpoint hne⟩
  · rw [hendpoint] at h
    obtain ⟨⟨tunnel, res⟩, hupdate, h⟩ := Option.bind_eq_some_iff.mp h
    have htimely := Tunn.updateTimers_timely hupdate (by decide) (hclock i).1 (hclock i).2.1
      (hclock i).2.2
    have hheap : acc'.1 = acc.1.set i { p with tunnel } := by
      cases res with
      | done | err | writeToNetwork =>
        cases h
        rw [hendpoint]
      | writeToTunnelV4 | writeToTunnelV6 => cases h
    refine ⟨p, { p with tunnel }, hp, hheap, rfl, fun hnone => ?_, fun _ _ => htimely⟩
    rw [hendpoint] at hnone
    cases hnone

theorem timerPeers_length {refs : List PeerRef}
    (h : refs.foldlM (timerPeer udp4 udp6 envs) acc = some acc') (hclock : ReadAfter envs now) :
    acc'.1.length = acc.1.length := by
  induction refs generalizing acc with
  | nil =>
    cases h
    rfl
  | cons j refs ih =>
    obtain ⟨acc₁, hfirst, hrest⟩ := Option.bind_eq_some_iff.mp h
    obtain ⟨q, q', -, hset, -⟩ := timerPeer_spec hfirst hclock
    rw [ih hrest, hset, List.length_set]

/-- **One firing**: a peer that is gone over and has an endpoint is on time afterwards, and one
without an endpoint is left alone. -/
theorem timerPeers_spec {refs : List PeerRef}
    (h : refs.foldlM (timerPeer udp4 udp6 envs) acc = some acc') (hclock : ReadAfter envs now)
    (i : PeerRef) (p : Peer C T) (hp : acc.1[i]? = some p) :
    ∃ p', acc'.1[i]? = some p' ∧ Fired now (i ∈ refs) p p' := by
  induction refs generalizing acc p with
  | nil =>
    cases h
    exact ⟨p, hp, rfl, fun _ => rfl, fun htimely _ => htimely.resolve_left List.not_mem_nil⟩
  | cons j refs ih =>
    obtain ⟨acc₁, hfirst, hrest⟩ := Option.bind_eq_some_iff.mp h
    obtain ⟨q, q', hq, hset, hfired⟩ := timerPeer_spec hfirst hclock
    by_cases hij : i = j
    · subst hij
      obtain rfl := Option.some.inj (hp.symm.trans hq)
      have hq' : acc₁.1[i]? = some q' := by
        rw [hset, List.getElem?_set_self (List.getElem?_eq_some_iff.mp hp).1]
      obtain ⟨p', hp', hfired'⟩ := ih hrest q' hq'
      refine ⟨p', hp', hfired'.endpoint.trans hfired.endpoint, fun hnone => ?_, fun _ hne => ?_⟩
      · rw [hfired'.passed (hfired.endpoint.trans hnone), hfired.passed hnone]
      · exact hfired'.timely (.inr (hfired.timely (.inl trivial) hne))
          (by rw [hfired.endpoint]; exact hne)
    · have hp₁ : acc₁.1[i]? = some p := by
        rw [hset, List.getElem?_set_ne (Ne.symm hij), hp]
      obtain ⟨p', hp', hfired'⟩ := ih hrest p hp₁
      refine ⟨p', hp', hfired'.endpoint, hfired'.passed, fun hreached hne => ?_⟩
      refine hfired'.timely (hreached.imp_left fun hmem => ?_) hne
      exact (List.mem_cons.mp hmem).resolve_left hij

end Firing

/-! ## Runs -/

variable [Table T IpNetwork IpAddr]

inductive NodeOp
  | op (op : Op)
  | openListenSocket (ok : Bool)
  /-- The timer event fires. -/
  | timers (envs : PeerRef → Env)

def Node.new (nextIndex : IndexLfsr) (transportMode : TransportMode) : Node C T :=
  ⟨.new nextIndex transportMode, false, false⟩

def Node.step (s : Node C T) : NodeOp → Option (Node C T × List Datagram)
  | .op op => (s.device.step op).map fun (device, _) => ({ s with device }, [])
  | .openListenSocket ok => some (s.openListenSocket ok, [])
  | .timers envs => s.peerTimers envs

/-- Every peer of the device is on time. -/
def Node.Timely (s : Node C T) (now : ℕ) : Prop :=
  ∀ i p, s.device.IsPeer i → s.device.lock i = some p → p.tunnel.Timely now

/-- The handler passes over a peer: without sockets over all of them, and else over one without an
endpoint. -/
def Node.PassesOver (s : Node C T) (p : Peer C T) : Prop :=
  s.udp4 = false ∧ s.udp6 = false ∨ p.endpoint = none

variable {s s' : Node C T} {envs : PeerRef → Env} {sent : List Datagram} {now : ℕ}
  {mode : TransportMode} {nextIndex : IndexLfsr}

omit [Table T IpNetwork IpAddr] in
theorem mem_refs_iff {d : Device C T} {i : PeerRef} :
    i ∈ d.peers.entries.map Sigma.snd ↔ d.IsPeer i := by
  constructor
  · intro hmem
    obtain ⟨⟨pubKey, j⟩, hentry, rfl⟩ := List.mem_map.mp hmem
    exact ⟨pubKey, AList.mem_lookup_iff.mpr hentry⟩
  · rintro ⟨pubKey, hlookup⟩
    exact List.mem_map.mpr ⟨⟨pubKey, i⟩, AList.mem_lookup_iff.mp hlookup, rfl⟩

omit [Table T IpNetwork IpAddr] in
/-- **A firing** leaves every peer on time exactly when it passes over none that is not. -/
theorem Node.peerTimers_timely_iff (h : s.peerTimers envs = some (s', sent))
    (hclock : ReadAfter envs now) :
    s'.Timely now ↔ ∀ i p, s.device.IsPeer i → s.device.lock i = some p → s.PassesOver p →
      p.tunnel.Timely now := by
  rw [peerTimers] at h
  by_cases hclosed : (!s.udp4 && !s.udp6) = true
  · rw [if_pos hclosed] at h
    cases h
    simp only [Bool.and_eq_true, Bool.not_eq_true'] at hclosed
    exact ⟨fun htimely i p hpeer hp _ => htimely i p hpeer hp,
      fun htimely i p hpeer hp => htimely i p hpeer hp (.inl hclosed)⟩
  · rw [if_neg hclosed] at h
    obtain ⟨⟨heap, sent'⟩, hfold, heq⟩ := Option.map_eq_some_iff.mp h
    cases heq
    have hspec := timerPeers_spec hfold hclock
    have hopen : ¬ (s.udp4 = false ∧ s.udp6 = false) := by
      simpa only [Bool.and_eq_true, Bool.not_eq_true'] using hclosed
    constructor
    · intro htimely i p hpeer hp hpassed
      obtain ⟨p', hp', hfired⟩ := hspec i p hp
      rw [← hfired.passed (hpassed.resolve_left hopen)]
      exact htimely i p' hpeer hp'
    · intro htimely i p' hpeer hp'
      have hlt : i < s.device.heap.length := by
        rw [← timerPeers_length hfold hclock]
        exact (List.getElem?_eq_some_iff.mp hp').1
      have hp := List.getElem?_eq_getElem hlt
      obtain ⟨p'', hp'', hfired⟩ := hspec i _ hp
      obtain rfl : p' = p'' := Option.some.inj (hp'.symm.trans hp'')
      by_cases hnone : s.device.heap[i].endpoint = none
      · rw [hfired.passed hnone]
        exact htimely i _ hpeer hp (.inr hnone)
      · exact hfired.timely (.inl (mem_refs_iff.mpr hpeer)) hnone

/-- **The sockets of a mode**: in TCP mode the UDP sockets are never open. -/
theorem closed_of_tcp (h : Machine.Reaches Node.step (fun _ _ => True) (.new nextIndex mode) s)
    (hmode : mode = .tcp) : s.udp4 = false ∧ s.udp6 = false := by
  have hinv := h.invariant (I := fun s => s.device.transportMode = .tcp ∧ s.udp4 = false ∧
    s.udp6 = false) ⟨hmode, rfl, rfl⟩ ?_
  · exact hinv.2
  · rintro s i s' sent ⟨hmode, h4, h6⟩ - hstep
    cases i with
    | op op =>
      obtain ⟨⟨device, r⟩, hop, heq⟩ := Option.map_eq_some_iff.mp hstep
      cases heq
      exact ⟨(transportMode_step hop).trans hmode, h4, h6⟩
    | openListenSocket ok =>
      cases hstep
      rw [Node.openListenSocket, hmode]
      exact ⟨hmode, rfl, rfl⟩
    | timers envs =>
      rw [Node.step, Node.peerTimers, h4, h6] at hstep
      cases hstep
      exact ⟨hmode, h4, h6⟩

/-- **Sessions expire** in a run of a device in any transport mode: after a firing of the timer event
no peer has anything overdue exactly when, before it, none of the peers that the handler passes over
had. These are all peers in TCP mode and whenever both UDP sockets are closed, and otherwise those
without an endpoint. -/
theorem timers_timely_iff
    (h : Machine.Reaches Node.step (fun _ _ => True) (.new nextIndex mode) s)
    (hfire : s.step (.timers envs) = some (s', sent)) (hclock : ReadAfter envs now) :
    s'.Timely now ↔ ∀ i p, s.device.IsPeer i → s.device.lock i = some p →
      mode = .tcp ∨ s.udp4 = false ∧ s.udp6 = false ∨ p.endpoint = none →
      p.tunnel.Timely now := by
  rw [s.peerTimers_timely_iff hfire hclock]
  refine ⟨fun htimely i p hpeer hp hpassed => htimely i p hpeer hp ?_,
    fun htimely i p hpeer hp hpassed => htimely i p hpeer hp (.inr hpassed)⟩
  exact hpassed.elim (fun hmode => .inl (closed_of_tcp h hmode)) id

/-! ## Two devices with an unanswered initiation -/

/-- A peer with an address, to which an initiation is formatted at time 0. -/
def initiatingOps : List NodeOp :=
  [.openListenSocket true, .op sampleSetKey, .op (sampleAdd 7 []),
    .op (.peer 0 (.setEndpoint (.v4 (zeros 4) 51820))),
    .op (.peer 0 (.tunnel (Tunn.sampleEnv 3 0) (.formatHandshakeInitiation 148 false)))]

/-- Ten seconds later. -/
def lateEnvs : PeerRef → Env := fun _ => Tunn.sampleEnv 4 (fromSecs 10)

theorem readAfter_lateEnvs : ReadAfter lateEnvs (fromSecs 10) :=
  fun _ => ⟨le_rfl, le_rfl, le_rfl⟩

def sampleNode (mode : TransportMode) : Node checksumPrims (PrefixMap IpNetwork) :=
  .new sampleDevice.nextIndex mode

/-- In UDP mode it is sent again. -/
theorem timers_timely_sample :
    ∃ s s' : Node checksumPrims (PrefixMap IpNetwork), ∃ sent,
      s.step (.timers lateEnvs) = some (s', sent) ∧ sent.length = 1 ∧ s'.Timely (fromSecs 10) := by
  have hrun : (Machine.run Node.step (sampleNode .udp) initiatingOps).map (fun q =>
      (q.1.device.heap.map fun p => p.endpoint.isSome, q.1.udp4,
        (q.1.step (.timers lateEnvs)).map fun r => r.2.length)) =
      some ([true], true, some 1) := by decide +kernel
  obtain ⟨⟨s, os⟩, hrun, heq⟩ := Option.map_eq_some_iff.mp hrun
  simp only [Prod.mk.injEq] at heq
  obtain ⟨hendpoints, hudp, hfire⟩ := heq
  obtain ⟨⟨s', sent⟩, hfire, hlen⟩ := Option.map_eq_some_iff.mp hfire
  refine ⟨s, s', sent, hfire, hlen, (timers_timely_iff (Machine.reaches_of_run hrun) hfire
    readAfter_lateEnvs).mpr fun i p _ hp hpassed => ?_⟩
  rcases hpassed with hmode | ⟨h4, -⟩ | hnone
  · cases hmode
  · rw [hudp] at h4
    cases h4
  · have hmem : p.endpoint.isSome ∈ s.device.heap.map fun p => p.endpoint.isSome :=
      List.mem_map_of_mem (List.mem_of_getElem? hp)
    rw [hendpoints, hnone] at hmem
    cases List.mem_singleton.mp hmem

/-- **In TCP mode** the initiation is neither sent again nor given up. -/
theorem overdue_in_tcp_mode :
    ¬ ∀ (mode : TransportMode) (s s' : Node checksumPrims (PrefixMap IpNetwork)) envs sent now,
      Machine.Reaches Node.step (fun _ _ => True) (sampleNode mode) s →
      s.step (.timers envs) = some (s', sent) → ReadAfter envs now → s'.Timely now := by
  intro hclaim
  have hrun : (Machine.run Node.step (sampleNode .tcp) initiatingOps).map (fun q =>
      (q.1.step (.timers lateEnvs)).map fun r => (r.1.device.peers.lookup (fill 32 7),
        (r.1.device.lock 0).map fun p => p.tunnel.handshake.timer)) =
      some (some (some 0, some (some 0))) := by decide +kernel
  obtain ⟨⟨s, os⟩, hrun, hfire⟩ := Option.map_eq_some_iff.mp hrun
  obtain ⟨⟨s', sent⟩, hfire, heq⟩ := Option.map_eq_some_iff.mp hfire
  obtain ⟨hpeer, hlock⟩ := Prod.mk.inj heq
  obtain ⟨p, hlock, htimer⟩ := Option.map_eq_some_iff.mp hlock
  have htimely := hclaim .tcp s s' lateEnvs sent _ (Machine.reaches_of_run hrun) hfire
    readAfter_lateEnvs 0 p ⟨_, hpeer⟩ hlock
  exact absurd (htimely.initiation 0 htimer) (by decide)

end NekoLink.Device
