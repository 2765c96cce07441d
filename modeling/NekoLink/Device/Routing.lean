import NekoLink.Device.DeviceSteps
import NekoLink.Foundations.Runs

/-!
# Index routing

The tables of a device agree in every state reached: a peer is found under the upper 24 bits of
every index its tunnel gives out, and only peers are found.

* `Consistent.change`: what one change keeps.
* `consistent_of_reaches`: what a run keeps.
* `index_routing`: what this means for packets.
-/

namespace NekoLink.Device

open Wire Noise Routing

variable {C : Prims} {T : Type → Type}

/-! ## Maps -/

section Maps

variable {K V : Type} [DecidableEq K] {m : HashMap K V} {k k' : K} {v w : V}

theorem lookup_erase_iff :
    (m.erase k).lookup k' = some w ↔ k' ≠ k ∧ m.lookup k' = some w := by
  by_cases hk : k' = k
  · subst hk
    rw [AList.lookup_erase]
    exact ⟨fun h => (by cases h), fun h => absurd rfl h.1⟩
  · rw [AList.lookup_erase_ne hk]
    exact ⟨fun h => ⟨hk, h⟩, And.right⟩

theorem lookup_insert_iff :
    (m.insert k v).lookup k' = some w ↔ k' = k ∧ w = v ∨ k' ≠ k ∧ m.lookup k' = some w := by
  by_cases hk : k' = k
  · subst hk
    rw [AList.lookup_insert]
    constructor
    · intro h
      exact Or.inl ⟨rfl, (Option.some.inj h).symm⟩
    · rintro (⟨-, rfl⟩ | ⟨hne, -⟩)
      · rfl
      · exact absurd rfl hne
  · rw [AList.lookup_insert_ne hk]
    constructor
    · intro h
      exact Or.inr ⟨hk, h⟩
    · rintro (⟨rfl, -⟩ | ⟨-, h⟩)
      · exact absurd rfl hk
      · exact h

/-- A new key. -/
theorem lookup_insert_iff_of_none (h : m.lookup k = none) :
    (m.insert k v).lookup k' = some w ↔ m.lookup k' = some w ∨ k' = k ∧ w = v := by
  rw [lookup_insert_iff]
  constructor
  · rintro (hnew | ⟨-, hold⟩)
    · exact Or.inr hnew
    · exact Or.inl hold
  · rintro (hold | hnew)
    · refine Or.inr ⟨?_, hold⟩
      rintro rfl
      rw [h] at hold
      cases hold
    · exact Or.inl hnew

theorem mem_entries_iff : (⟨k, v⟩ : Σ _ : K, V) ∈ m.entries ↔ m.lookup k = some v := by
  rw [← AList.mem_lookup_iff, Option.mem_def]

end Maps

/-- The position is one of the peers. -/
def IsPeer (d : Device C T) (i : PeerRef) : Prop := ∃ pubKey, d.peers.lookup pubKey = some i

/-- **The tables agree.** -/
structure Consistent [Table T IpNetwork IpAddr] (d : Device C T) : Prop where
  /-- The register has not come back to its seed, and has drawn the index of every peer. -/
  drawn : ∃ k, d.nextIndex.Stepped k ∧ ∀ i p, d.lock i = some p → d.nextIndex.Drawn k p.index
  distinct : ∀ i j p q, d.lock i = some p → d.lock j = some q → p.index = q.index → i = j
  indexed : ∀ i p, d.lock i = some p → Tunn.Indexed p.index p.tunnel.core
  alive : ∀ i, d.IsPeer i → ∃ p, d.lock i = some p
  injective : ∀ pubKey pubKey' i, d.peers.lookup pubKey = some i → d.peers.lookup pubKey' = some i →
    pubKey = pubKey'
  byIdx : ∀ idx i, d.peersByIdx.lookup idx = some i ↔
    d.IsPeer i ∧ ∃ p, d.lock i = some p ∧ p.index = idx
  byIp : ∀ n i, d.peersByIp.exactMatch n = some i → d.IsPeer i

variable {d d' : Device C T}

theorem lock_lt {i : PeerRef} {p : Peer C T} (h : d.lock i = some p) : i < d.heap.length :=
  (List.getElem?_eq_some_iff.mp h).1

variable [Table T IpNetwork IpAddr]

/-! ## Adding -/

section Add

variable {lfsr : IndexLfsr} {pubKey : Bytes 32} {p q : Peer C T} {allowedIps : List AllowedIP}
  {i : PeerRef}

theorem lock_addPeer :
    (d.addPeer lfsr pubKey p allowedIps).lock i = some q ↔
      d.lock i = some q ∨ i = d.heap.length ∧ q = p := by
  have hlock : (d.addPeer lfsr pubKey p allowedIps).lock i = (d.heap ++ [p])[i]? := rfl
  rw [hlock, List.getElem?_append, lock]
  split_ifs with hlt
  · constructor
    · exact Or.inl
    · rintro (h | ⟨rfl, -⟩)
      · exact h
      · omega
  · rw [List.getElem?_eq_none (l := d.heap) (by omega), List.getElem?_singleton]
    split_ifs with hi
    · rw [Option.some.injEq]
      have hlength : i = d.heap.length :=
        Nat.le_antisymm (Nat.sub_eq_zero_iff_le.mp hi) (not_lt.mp hlt)
      exact ⟨fun h => Or.inr ⟨hlength, h.symm⟩, fun h => (h.resolve_left (by simp)).2.symm⟩
    · refine ⟨fun h => (by cases h), fun h => ?_⟩
      obtain ⟨rfl, -⟩ := h.resolve_left (by simp)
      omega

theorem isPeer_addPeer (habsent : d.peers.lookup pubKey = none) :
    (d.addPeer lfsr pubKey p allowedIps).IsPeer i ↔ d.IsPeer i ∨ i = d.heap.length := by
  constructor
  · rintro ⟨pubKey', h⟩
    obtain ⟨-, rfl⟩ | ⟨-, h⟩ := lookup_insert_iff.mp h
    · exact Or.inr rfl
    · exact Or.inl ⟨pubKey', h⟩
  · rintro (⟨pubKey', h⟩ | rfl)
    · refine ⟨pubKey', lookup_insert_iff.mpr (Or.inr ⟨?_, h⟩)⟩
      rintro rfl
      rw [habsent] at h
      cases h
    · exact ⟨pubKey, lookup_insert_iff.mpr (Or.inl ⟨rfl, rfl⟩)⟩

variable [LawfulTable T IpNetwork IpAddr]

theorem exactMatch_addPeer (n : IpNetwork) :
    (d.addPeer lfsr pubKey p allowedIps).peersByIp.exactMatch n =
      if n ∈ allowedIps.map IpNetwork.newTruncate then some d.heap.length
      else d.peersByIp.exactMatch n :=
  AllowedIps.exactMatch_insertAll allowedIps d.heap.length n

theorem Consistent.addPeer (h : Consistent d) (habsent : d.peers.lookup pubKey = none)
    (hnext : d.nextIndex.next = some (lfsr, p.index))
    (hindexed : p.index.toNat < 2 ^ 24 → Tunn.Indexed p.index p.tunnel.core) :
    Consistent (d.addPeer lfsr pubKey p allowedIps) := by
  obtain ⟨k, hstepped, hdrawn⟩ := h.drawn
  obtain ⟨hstepped', hnew, hold, hlt⟩ := IndexLfsr.next_drawn hstepped hnext
  -- the new index differs from that of every peer in the heap
  have hfresh : ∀ i q, d.lock i = some q → q.index ≠ p.index := fun i q hq =>
    (hold _ (hdrawn i q hq)).2
  refine ⟨⟨k + 1, hstepped', fun i q hq => ?_⟩, fun i j q q' hq hq' heq => ?_, fun i q hq => ?_,
    fun i hi => ?_, fun pk pk' i hpk hpk' => ?_, fun idx i => ?_, fun n i hi => ?_⟩
  · obtain hq | ⟨-, rfl⟩ := lock_addPeer.mp hq
    · exact (hold _ (hdrawn i q hq)).1
    · exact hnew
  · obtain hq | ⟨hi, hqp⟩ := lock_addPeer.mp hq
    · obtain hq' | ⟨-, hqp'⟩ := lock_addPeer.mp hq'
      · exact h.distinct i j q q' hq hq' heq
      · exact absurd (heq.trans (congrArg Peer.index hqp')) (hfresh i q hq)
    · obtain hq' | ⟨hj, -⟩ := lock_addPeer.mp hq'
      · exact absurd (heq.symm.trans (congrArg Peer.index hqp)) (hfresh j q' hq')
      · rw [hi, hj]
  · obtain hq | ⟨-, rfl⟩ := lock_addPeer.mp hq
    · exact h.indexed i q hq
    · exact hindexed hlt
  · obtain hi | rfl := (isPeer_addPeer habsent).mp hi
    · obtain ⟨q, hq⟩ := h.alive i hi
      exact ⟨q, lock_addPeer.mpr (Or.inl hq)⟩
    · exact ⟨p, lock_addPeer.mpr (Or.inr ⟨rfl, rfl⟩)⟩
  · have hold_lt : ∀ pk, d.peers.lookup pk = some d.heap.length → False := fun pk hpk => by
      obtain ⟨q, hq⟩ := h.alive _ ⟨pk, hpk⟩
      exact absurd (lock_lt hq) (lt_irrefl _)
    obtain ⟨hkey, rfl⟩ | ⟨-, hold⟩ := lookup_insert_iff.mp hpk
    · obtain ⟨hkey', -⟩ | ⟨-, hold'⟩ := lookup_insert_iff.mp hpk'
      · rw [hkey, hkey']
      · exact (hold_lt _ hold').elim
    · obtain ⟨-, rfl⟩ | ⟨-, hold'⟩ := lookup_insert_iff.mp hpk'
      · exact (hold_lt _ hold).elim
      · exact h.injective pk pk' i hold hold'
  · have hinsert : (d.addPeer lfsr pubKey p allowedIps).peersByIdx.lookup idx = some i ↔
        idx = p.index ∧ i = d.heap.length ∨ idx ≠ p.index ∧ d.peersByIdx.lookup idx = some i :=
      lookup_insert_iff
    rw [hinsert, h.byIdx, isPeer_addPeer habsent]
    constructor
    · rintro (⟨rfl, rfl⟩ | ⟨-, hi, q, hq, rfl⟩)
      · exact ⟨Or.inr rfl, p, lock_addPeer.mpr (Or.inr ⟨rfl, rfl⟩), rfl⟩
      · exact ⟨Or.inl hi, q, lock_addPeer.mpr (Or.inl hq), rfl⟩
    · rintro ⟨hi, q, hq, rfl⟩
      obtain hq | ⟨rfl, rfl⟩ := lock_addPeer.mp hq
      · refine Or.inr ⟨hfresh i q hq, ?_, q, hq, rfl⟩
        exact hi.resolve_right (Nat.ne_of_lt (lock_lt hq))
      · exact Or.inl ⟨rfl, rfl⟩
  · rw [isPeer_addPeer habsent]
    rw [exactMatch_addPeer] at hi
    split_ifs at hi
    · exact Or.inr (Option.some.inj hi).symm
    · exact Or.inl (h.byIp n i hi)

end Add

/-! ## Removing -/

section Remove

variable {pubKey : Bytes 32} {i : PeerRef}

theorem removePeer_of_none (h : d.peers.lookup pubKey = none) : d.removePeer pubKey = d := by
  rw [removePeer, h]

theorem removePeer_of_some {p : Peer C T} (h : d.peers.lookup pubKey = some i)
    (hlock : d.lock i = some p) :
    d.removePeer pubKey =
      { d with
        peers := d.peers.erase pubKey
        peersByIdx := d.peersByIdx.erase p.index
        peersByIp := d.peersByIp.remove fun p => p == i } := by
  rw [removePeer, h]
  simp only [hlock]

/-- Removing a peer takes out its position and no other. -/
theorem isPeer_erase (h : Consistent d) (hpeer : d.peers.lookup pubKey = some i) {j : PeerRef}
    (hpeers : d'.peers = d.peers.erase pubKey) : d'.IsPeer j ↔ d.IsPeer j ∧ j ≠ i := by
  rw [IsPeer, IsPeer, hpeers]
  constructor
  · rintro ⟨pk, hpk⟩
    obtain ⟨hne, hpk⟩ := lookup_erase_iff.mp hpk
    refine ⟨⟨pk, hpk⟩, ?_⟩
    rintro rfl
    exact hne (h.injective _ _ _ hpk hpeer)
  · rintro ⟨⟨pk, hpk⟩, hne⟩
    refine ⟨pk, lookup_erase_iff.mpr ⟨?_, hpk⟩⟩
    rintro rfl
    exact hne (Option.some.inj (hpk.symm.trans hpeer))

theorem exactMatch_remove_eq_some [LawfulTable T IpNetwork IpAddr] {t : AllowedIps T PeerRef}
    {n : IpNetwork} {j : PeerRef} :
    (t.remove fun p => p == i).exactMatch n = some j ↔ t.exactMatch n = some j ∧ j ≠ i := by
  rw [AllowedIps.exactMatch_remove, Option.filter_eq_some_iff]
  simp only [Bool.not_eq_true', beq_eq_false_iff_ne]

theorem Consistent.removePeer [LawfulTable T IpNetwork IpAddr] (h : Consistent d)
    (pubKey : Bytes 32) : Consistent (d.removePeer pubKey) := by
  rcases hpeer : d.peers.lookup pubKey with _ | i
  · rw [removePeer_of_none hpeer]
    exact h
  · obtain ⟨p, hlock⟩ := h.alive i ⟨pubKey, hpeer⟩
    rw [removePeer_of_some hpeer hlock]
    refine ⟨h.drawn, h.distinct, h.indexed, fun j hj => ?_, fun pk pk' j hpk hpk' => ?_,
      fun idx j => ?_, fun n j hj => ?_⟩
    · exact h.alive j ((isPeer_erase h hpeer rfl).mp hj).1
    · exact h.injective pk pk' j (lookup_erase_iff.mp hpk).2 (lookup_erase_iff.mp hpk').2
    · rw [isPeer_erase h hpeer rfl]
      have herase : (d.peersByIdx.erase p.index).lookup idx = some j ↔
          idx ≠ p.index ∧ d.peersByIdx.lookup idx = some j := lookup_erase_iff
      rw [herase, h.byIdx]
      constructor
      · rintro ⟨hne, hj, q, hq, rfl⟩
        refine ⟨⟨hj, ?_⟩, q, hq, rfl⟩
        rintro rfl
        exact hne (congrArg Peer.index (Option.some.inj (hq.symm.trans hlock)))
      · rintro ⟨⟨hj, hne⟩, q, hq, rfl⟩
        exact ⟨fun heq => hne (h.distinct j i q p hq hlock heq), hj, q, hq, rfl⟩
    · obtain ⟨hj, hne⟩ := exactMatch_remove_eq_some.mp hj
      exact (isPeer_erase h hpeer rfl).mpr ⟨h.byIp n j hj, hne⟩

end Remove

/-! ## Runs -/

theorem Consistent.touch (h : Consistent d) {heap : List (Peer C T)} (keyPair : Option (KeyPair C))
    (rateLimiter : Option RateLimiter) (htouched : Touched d.heap heap) :
    Consistent { d with heap, keyPair, rateLimiter } := by
  obtain ⟨k, hstepped, hdrawn⟩ := h.drawn
  refine ⟨⟨k, hstepped, fun i p' hp' => ?_⟩, fun i j p' q' hp' hq' heq => ?_, fun i p' hp' => ?_,
    fun i hi => ?_, h.injective, fun idx i => ?_, h.byIp⟩
  · obtain ⟨p, hp, hkeeps⟩ := htouched.exists_before hp'
    rw [hkeeps.index]
    exact hdrawn i p hp
  · obtain ⟨p, hp, hkeeps⟩ := htouched.exists_before hp'
    obtain ⟨q, hq, hkeeps'⟩ := htouched.exists_before hq'
    exact h.distinct i j p q hp hq (hkeeps.index.symm.trans (heq.trans hkeeps'.index))
  · obtain ⟨p, hp, hkeeps⟩ := htouched.exists_before hp'
    rw [hkeeps.index]
    exact hkeeps.indexed _ (h.indexed i p hp)
  · obtain ⟨p, hp⟩ := h.alive i hi
    obtain ⟨p', hp', -⟩ := htouched.exists_after hp
    exact ⟨p', hp'⟩
  · refine (h.byIdx idx i).trans (and_congr_right fun _ => ?_)
    constructor
    · rintro ⟨p, hp, rfl⟩
      obtain ⟨p', hp', hkeeps⟩ := htouched.exists_after hp
      exact ⟨p', hp', hkeeps.index⟩
    · rintro ⟨p', hp', rfl⟩
      obtain ⟨p, hp, hkeeps⟩ := htouched.exists_before hp'
      exact ⟨p, hp, hkeeps.index.symm⟩

variable [LawfulTable T IpNetwork IpAddr]

/-- **What one change keeps.** -/
theorem Consistent.change {g : Option Grant} (h : Consistent d) (hchange : Change d g d') :
    Consistent d' := by
  cases hchange with
  | add lfsr pubKey p allowedIps habsent hnext hips hindexed =>
    exact h.addPeer habsent hnext hindexed
  | draw lfsr idx hnext =>
    obtain ⟨k, hstepped, hdrawn⟩ := h.drawn
    obtain ⟨hstepped', -, hold, -⟩ := IndexLfsr.next_drawn hstepped hnext
    exact ⟨⟨k + 1, hstepped', fun i p hp => (hold _ (hdrawn i p hp)).1⟩, h.distinct, h.indexed,
      h.alive, h.injective, h.byIdx, h.byIp⟩
  | remove pubKey => exact h.removePeer pubKey
  | clear =>
    have hnone : ∀ i, ¬ d.clearPeers.IsPeer i := by
      rintro i ⟨pubKey, hpeer⟩
      cases hpeer
    refine ⟨h.drawn, h.distinct, h.indexed, fun i hi => (hnone i hi).elim,
      fun pk pk' i hpk => (hnone i ⟨pk, hpk⟩).elim, fun idx i => ?_, fun n i hi => ?_⟩
    · exact ⟨fun hidx => (by cases hidx), fun hi => (hnone i hi.1).elim⟩
    · rw [clearPeers, AllowedIps.exactMatch_new] at hi
      cases hi
  | touch heap keyPair rateLimiter htouched => exact h.touch keyPair rateLimiter htouched

omit [LawfulTable T IpNetwork IpAddr] in
/-- A change adds no peer but the next one. -/
theorem Change.isPeer {g : Option Grant} (hchange : Change d g d') :
    d.heap.length ≤ d'.heap.length ∧ ∀ i, d'.IsPeer i → d.IsPeer i ∨ i = d.heap.length := by
  cases hchange with
  | add lfsr pubKey p allowedIps habsent =>
    refine ⟨?_, fun i hi => (isPeer_addPeer habsent).mp hi⟩
    have hheap : (d.addPeer lfsr pubKey p allowedIps).heap = d.heap ++ [p] := rfl
    rw [hheap, List.length_append]
    exact Nat.le_add_right ..
  | draw => exact ⟨le_rfl, fun _ => Or.inl⟩
  | remove pubKey =>
    rw [removePeer]
    split
    · exact ⟨le_rfl, fun _ => Or.inl⟩
    · refine ⟨le_rfl, fun i hi => Or.inl ?_⟩
      obtain ⟨pubKey', hlookup⟩ := hi
      exact ⟨pubKey', (lookup_erase_iff.mp hlookup).2⟩
  | clear =>
    refine ⟨le_rfl, fun i hi => ?_⟩
    obtain ⟨pubKey, hlookup⟩ := hi
    cases hlookup
  | touch heap keyPair rateLimiter htouched => exact ⟨htouched.length_eq.ge, fun _ => Or.inl⟩

theorem consistent_new {seed mask : UInt32} {hseed : Is24Bit seed} {hmask : Is24Bit mask}
    (transportMode : TransportMode) :
    Consistent (new (IndexLfsr.new seed mask hseed hmask) transportMode : Device C T) := by
  refine ⟨⟨0, IndexLfsr.stepped_new, ?_⟩, ?_, ?_, ?_, ?_, ?_, ?_⟩
  · intro i p hp
    cases hp
  · intro i j p q hp
    cases hp
  · intro i p hp
    cases hp
  · rintro i ⟨pubKey, hpeer⟩
    cases hpeer
  · intro pubKey pubKey' i hpeer
    cases hpeer
  · intro idx i
    refine ⟨fun hidx => (by cases hidx), ?_⟩
    rintro ⟨⟨pubKey, hpeer⟩, -⟩
    cases hpeer
  · intro n i hi
    rw [new, AllowedIps.exactMatch_new] at hi
    cases hi

/-- The states of a device that starts with no peers. -/
def Reached (d : Device C T) : Prop :=
  ∃ (seed mask : UInt32) (hseed : Is24Bit seed) (hmask : Is24Bit mask)
    (transportMode : TransportMode),
    Machine.Reaches step (fun _ _ => True) (new (IndexLfsr.new seed mask hseed hmask) transportMode)
      d

/-- **What a run keeps.** -/
theorem consistent_of_reached (h : Reached d) : Consistent d := by
  obtain ⟨seed, mask, hseed, hmask, transportMode, hreaches⟩ := h
  exact hreaches.invariant (consistent_new transportMode)
    fun d op d' r hd _ hstep => hd.change (step_change hstep)

/-- **Index routing.** In every state reached, every peer has one entry in `peersByIdx`, under its
index, and there are no other entries; `peersByIp` holds only peers; and the peer's index is the
upper 24 bits of the local index of each of its sessions and of every handshake message that a call
on it sends, so that a lookup of these bits finds the peer. -/
theorem index_routing (h : Reached d) :
    (∀ pubKey i, d.peers.lookup pubKey = some i → ∃ p, d.lock i = some p ∧
      ∀ idx, d.peersByIdx.lookup idx = some i ↔ idx = p.index) ∧
    (∀ idx i, d.peersByIdx.lookup idx = some i → ∃! pubKey, d.peers.lookup pubKey = some i) ∧
    (∀ n i, d.peersByIp.exactMatch n = some i → ∃ pubKey, d.peers.lookup pubKey = some i) ∧
    ∀ pubKey i p, d.peers.lookup pubKey = some i → d.lock i = some p →
      (∀ slot s, p.tunnel.sessions.get slot = some s → s.receivingIndex >>> 8 = p.index) ∧
      (∀ call d' datagram packet senderIdx,
        d.step (.peer i call) = some (d', .writeToNetwork datagram) →
        parseIncomingPacket datagram = .ok packet → packet.handshakeSender = some senderIdx →
        senderIdx >>> 8 = p.index) ∧
      ∀ receiverIdx : UInt32, receiverIdx >>> 8 = p.index →
        d.peersByIdx.lookup (receiverIdx >>> 8) = some i := by
  have hd := consistent_of_reached h
  refine ⟨fun pubKey i hpeer => ?_, fun idx i hidx => ?_, hd.byIp, fun pubKey i p hpeer hlock => ?_⟩
  · obtain ⟨p, hlock⟩ := hd.alive i ⟨pubKey, hpeer⟩
    refine ⟨p, hlock, fun idx => (hd.byIdx idx i).trans ⟨?_, ?_⟩⟩
    · rintro ⟨-, q, hq, rfl⟩
      exact congrArg Peer.index (Option.some.inj (hq.symm.trans hlock))
    · rintro rfl
      exact ⟨⟨pubKey, hpeer⟩, p, hlock, rfl⟩
  · obtain ⟨⟨pubKey, hpeer⟩, -⟩ := (hd.byIdx idx i).mp hidx
    exact ⟨pubKey, hpeer, fun pubKey' hpeer' => hd.injective _ _ i hpeer' hpeer⟩
  · have hindexed := hd.indexed i p hlock
    refine ⟨hindexed.sessions, ?_, ?_⟩
    · intro call d' datagram packet senderIdx hstep hparse hsender
      obtain ⟨q, q', hq, hcall, -⟩ := step_peer hstep
      obtain rfl := Option.some.inj (hq.symm.trans hlock)
      exact (Peer.step_keeps hcall).2 _ hindexed datagram packet senderIdx rfl hparse hsender
    · intro receiverIdx hupper
      exact (hd.byIdx _ i).mpr ⟨⟨pubKey, hpeer⟩, p, hlock, hupper.symm⟩

/-- A peer that has sent an initiation is found under the index in it. -/
theorem index_routing_sample :
    ∃ d : Device checksumPrims (PrefixMap IpNetwork), Reached d ∧
      d.peers.lookup (fill 32 7) = some 0 ∧
      ∃ p, d.lock 0 = some p ∧ d.peersByIdx.lookup p.index = some 0 := by
  let ops : List Op := [sampleSetKey, sampleAdd 7 [],
    .peer 0 (.tunnel (Tunn.sampleEnv 3 0) (.formatHandshakeInitiation 148 false))]
  have hpeers : (Machine.run step sampleDevice ops).map (fun q => q.1.peers.lookup (fill 32 7)) =
      some (some 0) := by decide +kernel
  obtain ⟨⟨d, os⟩, hrun, hpeer⟩ := Option.map_eq_some_iff.mp hpeers
  have h : Reached d := ⟨_, _, _, _, _, Machine.reaches_of_run hrun⟩
  obtain ⟨p, hlock, hidx⟩ := (index_routing h).1 _ _ hpeer
  exact ⟨d, h, hpeer, p, hlock, (hidx _).mpr rfl⟩

end NekoLink.Device
