import NekoLink.Device.Routing

/-!
# Cryptokey routing

A peer lets through the packets from its own prefixes, and packets for an address go to the peer
in the routing table. The two are compared through the grants of a run: the routing table holds,
for every prefix, the peer that was last given it, as long as that is still a peer.

* `Routed.change`, `routed_of_reaches`: what one change and a run keep.
* `cryptokey_routing`: packets go out only to a peer that may send them; the converse holds for the
  peer last given the longest prefix.
* `overlapping_prefixes`: with overlapping prefixes the converse fails.
-/

namespace NekoLink.Device

open Wire Noise Routing

/-! ## Grants -/

def Grant.networks (g : Grant) : List IpNetwork := g.allowedIps.map IpNetwork.newTruncate

/-- The peer that a prefix was last given to. -/
def lastGiven (log : List Grant) (n : IpNetwork) : Option PeerRef :=
  (log.reverse.find? fun g => n ∈ g.networks).map Grant.peer

theorem lastGiven_append (log : List Grant) (g : Grant) (n : IpNetwork) :
    lastGiven (log ++ [g]) n = if n ∈ g.networks then some g.peer else lastGiven log n := by
  rw [lastGiven, Machine.find?_reverse_append, apply_ite (Option.map Grant.peer)]
  simp only [decide_eq_true_eq]
  rfl

theorem exists_of_lastGiven {log : List Grant} {n : IpNetwork} {i : PeerRef}
    (h : lastGiven log n = some i) : ∃ g ∈ log, g.peer = i ∧ n ∈ g.networks := by
  obtain ⟨g, hfind, rfl⟩ := Option.map_eq_some_iff.mp h
  exact ⟨g, List.mem_reverse.mp (List.mem_of_find?_eq_some hfind), rfl,
    of_decide_eq_true (List.find?_some (p := fun g : Grant => decide (n ∈ g.networks)) hfind)⟩

/-- A prefix that has been given has a last one it was given to. -/
theorem exists_lastGiven {log : List Grant} {n : IpNetwork} {g : Grant} (hg : g ∈ log)
    (hn : n ∈ g.networks) : ∃ i, lastGiven log n = some i := by
  have hsome : (log.reverse.find? fun g => n ∈ g.networks).isSome :=
    List.find?_isSome.mpr ⟨g, List.mem_reverse.mpr hg, decide_eq_true hn⟩
  obtain ⟨g', hfind⟩ := Option.isSome_iff_exists.mp hsome
  exact ⟨g'.peer, by rw [lastGiven, hfind, Option.map_some]⟩

/-! ## The invariant -/

variable {C : Prims} {T : Type → Type} [Table T IpNetwork IpAddr] {d d' : Device C T}
  {log : List Grant}

/-- **The tables follow the grants.** -/
structure Routed (d : Device C T) (log : List Grant) : Prop where
  consistent : Consistent d
  allowedIps : ∀ g ∈ log, ∃ p, d.lock g.peer = some p ∧
    p.allowedIps = .fromIter (g.allowedIps.map fun ip => (ip, ()))
  given : ∀ i, d.IsPeer i → ∃ g ∈ log, g.peer = i
  byIp : ∀ n i, d.peersByIp.exactMatch n = some i ↔ lastGiven log n = some i ∧ d.IsPeer i

theorem Routed.lt_length (h : Routed d log) {n : IpNetwork} {i : PeerRef}
    (hlast : lastGiven log n = some i) : i < d.heap.length := by
  obtain ⟨g, hg, rfl, -⟩ := exists_of_lastGiven hlast
  obtain ⟨p, hlock, -⟩ := h.allowedIps g hg
  exact lock_lt hlock

variable [LawfulTable T IpNetwork IpAddr]

theorem Routed.addPeer (h : Routed d log) {lfsr : IndexLfsr} {pubKey : Bytes 32} {p : Peer C T}
    {allowedIps : List AllowedIP} (habsent : d.peers.lookup pubKey = none)
    (hips : p.allowedIps = .fromIter (allowedIps.map fun ip => (ip, ())))
    (hconsistent : Consistent (d.addPeer lfsr pubKey p allowedIps)) :
    Routed (d.addPeer lfsr pubKey p allowedIps) (log ++ [⟨d.heap.length, allowedIps⟩]) := by
  refine ⟨hconsistent, fun g hg => ?_, fun i hi => ?_, fun n i => ?_⟩
  · obtain hg | hg := List.mem_append.mp hg
    · obtain ⟨q, hlock, hq⟩ := h.allowedIps g hg
      exact ⟨q, lock_addPeer.mpr (Or.inl hlock), hq⟩
    · obtain rfl := List.mem_singleton.mp hg
      exact ⟨p, lock_addPeer.mpr (Or.inr ⟨rfl, rfl⟩), hips⟩
  · obtain hi | rfl := (isPeer_addPeer habsent).mp hi
    · obtain ⟨g, hg, hpeer⟩ := h.given i hi
      exact ⟨g, List.mem_append_left _ hg, hpeer⟩
    · exact ⟨_, List.mem_append_right _ (List.mem_singleton_self _), rfl⟩
  · rw [exactMatch_addPeer, lastGiven_append, Grant.networks, isPeer_addPeer habsent]
    split_ifs with hn
    · rw [Option.some.injEq]
      exact ⟨fun heq => ⟨heq, Or.inr heq.symm⟩, And.left⟩
    · rw [h.byIp]
      refine and_congr_right fun hlast => ⟨Or.inl, fun hi => hi.resolve_right ?_⟩
      exact Nat.ne_of_lt (h.lt_length hlast)

theorem Routed.removePeer (h : Routed d log) (pubKey : Bytes 32) :
    Routed (d.removePeer pubKey) log := by
  have hconsistent := h.consistent.removePeer pubKey
  rcases hpeer : d.peers.lookup pubKey with _ | i
  · rw [removePeer_of_none hpeer]
    exact h
  · obtain ⟨p, hlock⟩ := h.consistent.alive i ⟨pubKey, hpeer⟩
    rw [removePeer_of_some hpeer hlock] at hconsistent ⊢
    refine ⟨hconsistent, h.allowedIps, fun j hj => ?_, fun n j => ?_⟩
    · exact h.given j ((isPeer_erase h.consistent hpeer rfl).mp hj).1
    · refine exactMatch_remove_eq_some.trans ?_
      rw [h.byIp, and_assoc]
      exact and_congr_right fun _ => (isPeer_erase h.consistent hpeer rfl).symm

/-- **What one change keeps.** -/
theorem Routed.change {g : Option Grant} (h : Routed d log) (hchange : Change d g d') :
    Routed d' (log ++ g.toList) := by
  have hconsistent := h.consistent.change hchange
  cases hchange with
  | add lfsr pubKey p allowedIps habsent hnext hips hindexed =>
    exact h.addPeer habsent hips hconsistent
  | draw lfsr idx hnext =>
    rw [Option.toList_none, List.append_nil]
    exact ⟨hconsistent, h.allowedIps, h.given, h.byIp⟩
  | remove pubKey =>
    rw [Option.toList_none, List.append_nil]
    exact h.removePeer pubKey
  | clear =>
    rw [Option.toList_none, List.append_nil]
    have hnone : ∀ i, ¬ d.clearPeers.IsPeer i := by
      rintro i ⟨pubKey, hpeer⟩
      cases hpeer
    refine ⟨hconsistent, h.allowedIps, fun i hi => (hnone i hi).elim, fun n i => ?_⟩
    rw [clearPeers, AllowedIps.exactMatch_new]
    exact ⟨fun hi => (by cases hi), fun hi => (hnone i hi.2).elim⟩
  | touch heap keyPair rateLimiter htouched =>
    rw [Option.toList_none, List.append_nil]
    refine ⟨hconsistent, fun g hg => ?_, h.given, h.byIp⟩
    obtain ⟨p, hlock, hips⟩ := h.allowedIps g hg
    obtain ⟨p', hlock', hkeeps⟩ := htouched.exists_after hlock
    exact ⟨p', hlock', hkeeps.allowedIps.trans hips⟩

theorem routed_new {seed mask : UInt32} {hseed : Is24Bit seed} {hmask : Is24Bit mask}
    (transportMode : TransportMode) :
    Routed (new (IndexLfsr.new seed mask hseed hmask) transportMode : Device C T) [] := by
  refine ⟨consistent_new transportMode, ?_, ?_, ?_⟩
  · intro g hg
    cases hg
  · rintro i ⟨pubKey, hpeer⟩
    cases hpeer
  · intro n i
    rw [new, AllowedIps.exactMatch_new]
    exact ⟨fun hi => (by cases hi), fun hi => (by cases hi.1)⟩

/-- The states of a device that starts with no peers, with the grants so far. -/
def ReachedBy (d : Device C T) (log : List Grant) : Prop :=
  ∃ (seed mask : UInt32) (hseed : Is24Bit seed) (hmask : Is24Bit mask)
    (transportMode : TransportMode),
    Machine.Reaches (Machine.logged step grant) (fun _ _ => True)
      (new (IndexLfsr.new seed mask hseed hmask) transportMode, []) (d, log)

/-- **What a run keeps.** -/
theorem routed_of_reached (h : ReachedBy d log) : Routed d log := by
  obtain ⟨seed, mask, hseed, hmask, transportMode, hreaches⟩ := h
  refine hreaches.invariant (I := fun q => Routed q.1 q.2) (routed_new transportMode)
    fun q op q' r hq _ hstep => ?_
  obtain ⟨hstep, hlog⟩ := Machine.logged_eq_some.mp hstep
  rw [hlog]
  exact hq.change (step_change hstep)

/-! ## The two directions -/

variable {i : PeerRef} {p : Peer C T} {addr : IpAddr}

/-- A peer lets through the addresses in the prefixes given to it. -/
theorem Routed.isAllowedIp_iff (h : Routed d log) (hlock : d.lock i = some p) (hi : d.IsPeer i) :
    p.isAllowedIp addr = true ↔ ∃ g ∈ log, g.peer = i ∧ ∃ n ∈ g.networks, n.Contains addr := by
  have hallowed : ∀ g ∈ log, g.peer = i →
      (p.isAllowedIp addr = true ↔ ∃ n ∈ g.networks, n.Contains addr) := by
    rintro g hg rfl
    obtain ⟨q, hlock', hips⟩ := h.allowedIps g hg
    obtain rfl := Option.some.inj (hlock.symm.trans hlock')
    rw [Peer.isAllowedIp, hips, AllowedIps.find_isSome_fromIter, Grant.networks]
    simp only [List.mem_map, exists_exists_and_eq_and]
  constructor
  · intro hip
    obtain ⟨g, hg, hpeer⟩ := h.given i hi
    exact ⟨g, hg, hpeer, (hallowed g hg hpeer).mp hip⟩
  · rintro ⟨g, hg, hpeer, hn⟩
    exact (hallowed g hg hpeer).mpr hn

/-- Packets go out only to a peer that may send them. -/
theorem Routed.isAllowedIp_of_find (h : Routed d log) (hfind : d.peersByIp.find addr = some i)
    (hlock : d.lock i = some p) : d.IsPeer i ∧ p.isAllowedIp addr = true := by
  obtain ⟨n, hcontains, hexact, -⟩ := AllowedIps.find_eq_some.mp hfind
  obtain ⟨hlast, hi⟩ := (h.byIp n i).mp hexact
  obtain ⟨g, hg, hpeer, hn⟩ := exists_of_lastGiven hlast
  exact ⟨hi, (h.isAllowedIp_iff hlock hi).mpr ⟨g, hg, hpeer, n, hn, hcontains⟩⟩

/-- Packets for an address go to the peer last given a prefix of it, unless another peer was last
given a longer one. -/
theorem Routed.find_eq_some_iff (h : Routed d log) (hi : d.IsPeer i) :
    d.peersByIp.find addr = some i ↔
      ∃ n : IpNetwork, n.Contains addr ∧ lastGiven log n = some i ∧
        ∀ (m : IpNetwork) j, m.Contains addr → n.netmask < m.netmask →
          lastGiven log m = some j → d.IsPeer j → j = i := by
  constructor
  · intro hfind
    obtain ⟨n, hcontains, hexact, hlongest⟩ := AllowedIps.find_eq_some.mp hfind
    refine ⟨n, hcontains, ((h.byIp n i).mp hexact).1, fun m j hm hlt hlast hj => ?_⟩
    have hle : m.netmask ≤ n.netmask := hlongest m j ((h.byIp m j).mpr ⟨hlast, hj⟩) hm
    omega
  · rintro ⟨n, hcontains, hlast, hlonger⟩
    have hexact := (h.byIp n i).mpr ⟨hlast, hi⟩
    obtain ⟨m, j, hmatch⟩ := exists_longestMatch (t := d.peersByIp.ips) hexact hcontains
    have hlongest := (LawfulTable.longestMatch_eq_some _ _ _ _).mp hmatch
    obtain ⟨hlast', hj⟩ := (h.byIp m j).mp hlongest.lookup_eq
    have hle : n.netmask ≤ m.netmask := hlongest.length_le n i hexact hcontains
    refine AllowedIps.find_eq_some.mpr ⟨m, ?_⟩
    rcases Nat.lt_or_eq_of_le hle with hlt | heq
    · rw [← hlonger m j hlongest.contains hlt hlast' hj]
      exact hlongest
    · obtain rfl := Prefix.eq_of_contains hcontains hlongest.contains heq
      obtain rfl := Option.some.inj (hlast'.symm.trans hlast)
      exact hlongest

/-- **Cryptokey routing.** In every state reached, packets for an address go out only to a peer
that may send from it. A peer that may send from an address receives the packets for it exactly
when it is the one last given a prefix of the address and no other peer was last given a longer
one; this is so when no other peer was ever given a prefix of the address. -/
theorem cryptokey_routing (h : ReachedBy d log) (hpeer : d.IsPeer i) (hlock : d.lock i = some p) :
    (d.peersByIp.find addr = some i → p.isAllowedIp addr = true) ∧
    (d.peersByIp.find addr = some i ↔
      ∃ n : IpNetwork, n.Contains addr ∧ lastGiven log n = some i ∧
        ∀ (m : IpNetwork) j, m.Contains addr → n.netmask < m.netmask →
          lastGiven log m = some j → d.IsPeer j → j = i) ∧
    ((∀ g ∈ log, g.peer ≠ i → ∀ n ∈ g.networks, ¬ n.Contains addr) →
      (p.isAllowedIp addr = true ↔ d.peersByIp.find addr = some i)) := by
  have hrouted := routed_of_reached h
  have hfind : d.peersByIp.find addr = some i → p.isAllowedIp addr = true :=
    fun hfind => (hrouted.isAllowedIp_of_find hfind hlock).2
  refine ⟨hfind, hrouted.find_eq_some_iff hpeer, fun hothers => ⟨fun hip => ?_, hfind⟩⟩
  -- every prefix of the address was given to this peer
  have honly : ∀ (m : IpNetwork) j, m.Contains addr → lastGiven log m = some j → j = i := by
    intro m j hm hlast
    obtain ⟨g, hg, rfl, hmg⟩ := exists_of_lastGiven hlast
    by_contra hne
    exact hothers g hg hne m hmg hm
  obtain ⟨g, hg, -, n, hn, hcontains⟩ := (hrouted.isAllowedIp_iff hlock hpeer).mp hip
  obtain ⟨j, hlast⟩ := exists_lastGiven hg hn
  obtain rfl := honly n j hcontains hlast
  exact (hrouted.find_eq_some_iff hpeer).mpr
    ⟨n, hcontains, hlast, fun m k hm _ hlast' _ => honly m k hm hlast'⟩

/-! ## Overlapping prefixes -/

def ofOctets (a b c e : UInt8) : Bytes 4 := ⟨[a, b, c, e], rfl⟩

/-- One peer with `10.0.0.0/8`, and then another with `10.1.0.0/16`. -/
def overlappingOps : List Op :=
  [sampleSetKey, sampleAdd 7 [sampleIp (ofOctets 10 0 0 0) 8 (by decide)],
    sampleAdd 8 [sampleIp (ofOctets 10 1 0 0) 16 (by decide)]]

/-- The packets for `10.1.0.1` go to the second peer, which may send them. -/
theorem cryptokey_routing_sample :
    ∃ (d : Device checksumPrims (PrefixMap IpNetwork)) (log : List Grant), ReachedBy d log ∧
      d.peersByIp.find (.v4 (ofOctets 10 1 0 1)) = some 1 ∧
      ∃ p, d.lock 1 = some p ∧ p.isAllowedIp (.v4 (ofOctets 10 1 0 1)) = true := by
  have hrun : (Machine.run (Machine.logged step grant) (sampleDevice, []) overlappingOps).map
      (fun q => (q.1.1.peers.lookup (fill 32 8), q.1.1.peersByIp.find (.v4 (ofOctets 10 1 0 1)))) =
      some (some 1, some 1) := by decide +kernel
  obtain ⟨⟨⟨d, log⟩, os⟩, hrun, heq⟩ := Option.map_eq_some_iff.mp hrun
  obtain ⟨hpeer, hfind⟩ := Prod.mk.inj heq
  have h : ReachedBy d log := ⟨_, _, _, _, _, Machine.reaches_of_run hrun⟩
  obtain ⟨p, hlock⟩ := (routed_of_reached h).consistent.alive 1 ⟨_, hpeer⟩
  exact ⟨d, log, h, hfind, p, hlock, (cryptokey_routing h ⟨_, hpeer⟩ hlock).1 hfind⟩

/-- **With overlapping prefixes** a peer may send from an address whose packets go to another. -/
theorem overlapping_prefixes :
    ¬ ∀ d : Device checksumPrims (PrefixMap IpNetwork), Reached d → ∀ addr i p, d.IsPeer i →
      d.lock i = some p → (p.isAllowedIp addr = true ↔ d.peersByIp.find addr = some i) := by
  intro hclaim
  have hrun : (Machine.run step sampleDevice overlappingOps).map (fun q =>
      (q.1.peers.lookup (fill 32 7), (q.1.lock 0).map fun p =>
        p.isAllowedIp (.v4 (ofOctets 10 1 0 1)), q.1.peersByIp.find (.v4 (ofOctets 10 1 0 1)))) =
      some (some 0, some true, some 1) := by decide +kernel
  obtain ⟨⟨d, os⟩, hrun, heq⟩ := Option.map_eq_some_iff.mp hrun
  simp only [Prod.mk.injEq] at heq
  obtain ⟨hpeer, hip, hfind⟩ := heq
  obtain ⟨p, hlock, hip⟩ := Option.map_eq_some_iff.mp hip
  have h : Reached d := ⟨_, _, _, _, _, Machine.reaches_of_run hrun⟩
  have hroute := (hclaim d h (.v4 (ofOctets 10 1 0 1)) 0 p ⟨_, hpeer⟩ hlock).mp hip
  rw [hfind] at hroute
  cases hroute

end NekoLink.Device
