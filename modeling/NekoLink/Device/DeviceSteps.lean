import NekoLink.Device.Device
import NekoLink.Noise.Indices

/-!
# What a call on the device does

`Change d g d'` lists what can happen to the tables: a peer is added with the grant `g` of its
prefixes, an index is drawn for nothing, a peer is removed, all are removed, or the peers in the
heap change in what is their own.

* `step_change`: every call is one such change.
* `step_peer`: what a call on one peer is, and what it puts on the network.
-/

namespace NekoLink.Device

open Wire Noise Routing

variable {C : Prims} {T : Type → Type}

/-- What calls on a peer leave as it was. -/
structure Peer.Keeps (p p' : Peer C T) : Prop where
  index : p'.index = p.index
  allowedIps : p'.allowedIps = p.allowedIps
  indexed : ∀ idx, Tunn.Indexed idx p.tunnel.core → Tunn.Indexed idx p'.tunnel.core

theorem Peer.Keeps.refl (p : Peer C T) : p.Keeps p := ⟨rfl, rfl, fun _ h => h⟩

theorem Peer.Keeps.trans {p p' p'' : Peer C T} (h : p.Keeps p') (h' : p'.Keeps p'') :
    p.Keeps p'' where
  index := h'.index.trans h.index
  allowedIps := h'.allowedIps.trans h.allowedIps
  indexed idx hidx := h'.indexed idx (h.indexed idx hidx)

/-- Every peer of the heap is still there, and has kept what calls keep. -/
structure Touched (heap heap' : List (Peer C T)) : Prop where
  length_eq : heap'.length = heap.length
  keeps : ∀ (i : ℕ) p p', heap[i]? = some p → heap'[i]? = some p' → p.Keeps p'

namespace Touched

variable {heap heap' heap'' : List (Peer C T)}

theorem refl (heap : List (Peer C T)) : Touched heap heap := by
  refine ⟨rfl, fun i p p' hp hp' => ?_⟩
  obtain rfl := Option.some.inj (hp.symm.trans hp')
  exact .refl p

/-- A peer that is there at the end was there before. -/
theorem exists_before (h : Touched heap heap') {i : ℕ} {p' : Peer C T} (hp' : heap'[i]? = some p') :
    ∃ p, heap[i]? = some p ∧ p.Keeps p' := by
  obtain ⟨hlt, -⟩ := List.getElem?_eq_some_iff.mp hp'
  rw [h.length_eq] at hlt
  have hp := List.getElem?_eq_getElem hlt
  exact ⟨_, hp, h.keeps i _ _ hp hp'⟩

/-- A peer that was there is there at the end. -/
theorem exists_after (h : Touched heap heap') {i : ℕ} {p : Peer C T} (hp : heap[i]? = some p) :
    ∃ p', heap'[i]? = some p' ∧ p.Keeps p' := by
  obtain ⟨hlt, -⟩ := List.getElem?_eq_some_iff.mp hp
  rw [← h.length_eq] at hlt
  have hp' := List.getElem?_eq_getElem hlt
  exact ⟨_, hp', h.keeps i _ _ hp hp'⟩

theorem trans (h : Touched heap heap') (h' : Touched heap' heap'') : Touched heap heap'' := by
  refine ⟨h'.length_eq.trans h.length_eq, fun i p p'' hp hp'' => ?_⟩
  obtain ⟨p', hp', hkeeps⟩ := h.exists_after hp
  exact hkeeps.trans (h'.keeps i p' p'' hp' hp'')

/-- One peer is changed. -/
theorem set {i : ℕ} {p p' : Peer C T} (hp : heap[i]? = some p) (hkeeps : p.Keeps p') :
    Touched heap (heap.set i p') := by
  refine ⟨List.length_set, fun j q q' hq hq' => ?_⟩
  rw [List.getElem?_set] at hq'
  split_ifs at hq' with hij hlt
  · subst hij
    cases hq'
    obtain rfl := Option.some.inj (hp.symm.trans hq)
    exact hkeeps
  · obtain rfl := Option.some.inj (hq.symm.trans hq')
    exact .refl q

end Touched

/-! ## Peers -/

/-- A call on a peer, and what its tunnel puts on the network. -/
theorem Peer.step_keeps {p p' : Peer C T} {call : PeerCall} {r : TunnResult}
    (h : p.step call = some (p', r)) :
    p.Keeps p' ∧ ∀ idx, Tunn.Indexed idx p.tunnel.core → Tunn.Names idx r := by
  cases call with
  | tunnel env call =>
    obtain ⟨⟨tunnel, r'⟩, hstep, heq⟩ := Option.map_eq_some_iff.mp h
    cases heq
    exact ⟨⟨rfl, rfl, fun idx hidx => (hidx.step hstep).1⟩, fun idx hidx => (hidx.step hstep).2⟩
  | handleVerifiedPacket env packet dstLen =>
    obtain ⟨⟨tunnel, r'⟩, hstep, heq⟩ := Option.map_eq_some_iff.mp h
    cases heq
    exact ⟨⟨rfl, rfl, fun idx hidx => (hidx.handleVerifiedPacket hstep).1⟩,
      fun idx hidx => (hidx.handleVerifiedPacket hstep).2⟩
  | setEndpoint addr =>
    cases h
    exact ⟨⟨rfl, rfl, fun _ hidx => hidx⟩, fun _ _ => Tunn.names_of_quiet Tunn.quiet_done⟩

theorem setStaticPrivateAt_touched {env : Env} {privateKey publicKey : Bytes 32}
    {rateLimiter : RateLimiter} {heap heap' : List (Peer C T)} {peer : PeerRef}
    (h : setStaticPrivateAt env privateKey publicKey rateLimiter heap peer = some heap') :
    Touched heap heap' := by
  simp only [setStaticPrivateAt, Option.bind_eq_bind, Option.bind_eq_some_iff, Option.pure_def,
    Option.some.injEq] at h
  obtain ⟨p, hp, tunnel, htunnel, rfl⟩ := h
  refine Touched.set hp ⟨rfl, rfl, fun idx hidx => ?_⟩
  have hstep : p.tunnel.step (env, .setStaticPrivate privateKey publicKey (some rateLimiter)) =
      some (tunnel, .done) := by
    rw [Tunn.step, htunnel, Option.map_some]
  exact (hidx.step hstep).1

theorem foldlM_setStaticPrivateAt_touched {env : Env} {privateKey publicKey : Bytes 32}
    {rateLimiter : RateLimiter} {refs : List PeerRef} {heap heap' : List (Peer C T)}
    (h : refs.foldlM (setStaticPrivateAt env privateKey publicKey rateLimiter) heap = some heap') :
    Touched heap heap' := by
  induction refs generalizing heap with
  | nil =>
    cases h
    exact .refl _
  | cons peer refs ih =>
    rw [List.foldlM_cons] at h
    obtain ⟨heap₁, hfirst, hrest⟩ := Option.bind_eq_some_iff.mp h
    exact (setStaticPrivateAt_touched hfirst).trans (ih hrest)

/-! ## The device -/

variable [Table T IpNetwork IpAddr]

/-- The prefixes given to a peer when it is added. -/
structure Grant where
  peer : PeerRef
  allowedIps : List AllowedIP

/-- The grant of a call that adds a peer. -/
def grant (d : Device C T) : Op → Option Grant
  | .updatePeer _ pubKey remove _ _ allowedIps _ _ =>
    if remove = false ∧ d.peers.lookup pubKey = none ∧ d.keyPair.isSome then
      some ⟨d.heap.length, allowedIps⟩
    else none
  | _ => none

/-- The changes of the tables. -/
inductive Change (d : Device C T) : Option Grant → Device C T → Prop
  /-- A peer is added under a new index. -/
  | add (lfsr : IndexLfsr) (pubKey : Bytes 32) (p : Peer C T) (allowedIps : List AllowedIP)
      (habsent : d.peers.lookup pubKey = none) (hnext : d.nextIndex.next = some (lfsr, p.index))
      (hips : p.allowedIps = .fromIter (allowedIps.map fun ip => (ip, ())))
      (hindexed : p.index.toNat < 2 ^ 24 → Tunn.Indexed p.index p.tunnel.core) :
      Change d (some ⟨d.heap.length, allowedIps⟩) (d.addPeer lfsr pubKey p allowedIps)
  /-- An index is drawn, but there is no private key. -/
  | draw (lfsr : IndexLfsr) (idx : UInt32) (hnext : d.nextIndex.next = some (lfsr, idx)) :
      Change d none { d with nextIndex := lfsr }
  | remove (pubKey : Bytes 32) : Change d none (d.removePeer pubKey)
  | clear : Change d none d.clearPeers
  | touch (heap : List (Peer C T)) (keyPair : Option (KeyPair C))
      (rateLimiter : Option RateLimiter) (htouched : Touched d.heap heap) :
      Change d none { d with heap, keyPair, rateLimiter }

variable {d d' : Device C T} {r : TunnResult}

theorem Change.refl (d : Device C T) : Change d none d :=
  .touch d.heap d.keyPair d.rateLimiter (.refl _)

/-- The arguments of `update_peer` that make it add a peer. -/
theorem updatePeer_cases {seed : TunnSeed} {pubKey : Bytes 32} {remove replaceIps : Bool}
    {endpoint : Option SocketAddr} {allowedIps : List AllowedIP} {keepalive : Option ℕ}
    {presharedKey : Option (Bytes 32)}
    (h : d.updatePeer seed pubKey remove replaceIps endpoint allowedIps keepalive presharedKey =
      some d') :
    (remove = true ∧ d' = d.removePeer pubKey) ∨
    (remove = false ∧ (d.peers.lookup pubKey).isSome ∧ d' = d) ∨
    (remove = false ∧ d.peers.lookup pubKey = none ∧ ∃ lfsr idx,
      d.nextIndex.next = some (lfsr, idx) ∧
      ((d.keyPair = none ∧ d' = { d with nextIndex := lfsr }) ∨
        ∃ kp, d.keyPair = some kp ∧ d' = d.addPeer lfsr pubKey
          (.new (Tunn.new C kp.privateKey pubKey presharedKey keepalive idx none seed.stamper
            seed.env) idx endpoint allowedIps presharedKey d.transportMode) allowedIps)) := by
  rw [updatePeer] at h
  split_ifs at h with hremove hpresent
  · exact Or.inl ⟨hremove, (Option.some.inj h).symm⟩
  · exact Or.inr (Or.inl ⟨Bool.eq_false_of_not_eq_true hremove, hpresent, (Option.some.inj h).symm⟩)
  · obtain ⟨⟨lfsr, idx⟩, hnext, heq⟩ := Option.map_eq_some_iff.mp h
    refine Or.inr (Or.inr ⟨Bool.eq_false_of_not_eq_true hremove,
      Option.not_isSome_iff_eq_none.mp hpresent, lfsr, idx, hnext, ?_⟩)
    rcases hkey : d.keyPair with _ | kp
    · rw [hkey] at heq
      exact Or.inl ⟨rfl, heq.symm⟩
    · rw [hkey] at heq
      exact Or.inr ⟨kp, rfl, heq.symm⟩

/-- A call on one peer. -/
theorem step_peer {peer : PeerRef} {call : PeerCall} (h : d.step (.peer peer call) = some (d', r)) :
    ∃ p p', d.lock peer = some p ∧ p.step call = some (p', r) ∧
      d' = { d with heap := d.heap.set peer p' } := by
  obtain ⟨p, hlock, hcall⟩ := Option.bind_eq_some_iff.mp h
  obtain ⟨⟨p', r'⟩, hstep, heq⟩ := Option.map_eq_some_iff.mp hcall
  cases heq
  exact ⟨p, p', hlock, hstep, rfl⟩

/-- **Every call is one change.** -/
theorem step_change {op : Op} (h : d.step op = some (d', r)) : Change d (d.grant op) d' := by
  cases op with
  | updatePeer seed pubKey remove replaceIps endpoint allowedIps keepalive presharedKey =>
    obtain ⟨d₁, hupdate, heq⟩ := Option.map_eq_some_iff.mp h
    cases heq
    rw [grant]
    obtain ⟨hremove, rfl⟩ | ⟨-, hpresent, rfl⟩ |
        ⟨hremove, habsent, lfsr, idx, hnext, ⟨hkey, rfl⟩ | ⟨kp, hkey, rfl⟩⟩ :=
      updatePeer_cases hupdate
    · rw [if_neg fun hadd => by simp [hremove] at hadd]
      exact .remove pubKey
    · rw [if_neg fun hadd => by simp [hadd.2.1] at hpresent]
      exact .refl d'
    · rw [if_neg fun hadd => by simp [hkey] at hadd]
      exact .draw lfsr idx hnext
    · rw [if_pos ⟨hremove, habsent, by rw [hkey]; rfl⟩]
      exact .add lfsr pubKey _ allowedIps habsent hnext rfl fun hlt => Tunn.indexed_new hlt ..
  | removePeer pubKey =>
    cases h
    exact .remove pubKey
  | clearPeers =>
    cases h
    exact .clear
  | setKey env privateKey =>
    obtain ⟨d₁, hset, heq⟩ := Option.map_eq_some_iff.mp h
    cases heq
    rw [setKey] at hset
    dsimp only at hset
    split_ifs at hset
    · cases hset
      exact .refl d
    · obtain ⟨heap, hfold, rfl⟩ := Option.map_eq_some_iff.mp hset
      exact .touch heap _ _ (foldlM_setStaticPrivateAt_touched hfold)
  | peer peer call =>
    obtain ⟨p, p', hlock, hstep, rfl⟩ := step_peer h
    exact .touch _ d.keyPair d.rateLimiter (.set hlock (Peer.step_keeps hstep).1)

/-- No call changes the transport mode. -/
theorem transportMode_step {op : Op} (h : d.step op = some (d', r)) :
    d'.transportMode = d.transportMode := by
  have hchange := step_change h
  generalize d.grant op = g at hchange
  cases hchange with
  | add | draw | clear | touch => rfl
  | remove pubKey =>
    rw [removePeer]
    split <;> rfl

end NekoLink.Device
