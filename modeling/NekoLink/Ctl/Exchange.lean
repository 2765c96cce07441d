import NekoLink.Ctl.OldSignals
import Mathlib.Data.List.Count

/-!
# Pushes and answers

Two nodes with one key, whose UDP pipelines send their messages to each other. The network delivers
each message at most once, to the socket it is addressed to. A push and an answer have the same
format, and the receive task answers both.

* `Pair.step` is one turn of a node, or a loss. Every message knows the push that it goes back to,
  and the number of answers in between.
* **`one_answer_per_push`**: in runs in which a node answers only while its data plane has no port,
  no answer is answered and there are at most two messages for each push.
* `Rally.goes_on`: with a port, one push can cause any number of messages.
-/

namespace NekoLink.Ctl

open Wire Noise Device Routing Text SignalNode

structure Letter where
  src : SocketAddr
  dst : SocketAddr
  datagram : List UInt8
  /-- The number of the push -/
  push : ℕ
  /-- The number of answers since -/
  depth : ℕ
  deriving DecidableEq

structure Pair where
  node : Bool → SignalNode
  flight : List Letter
  /-- All messages so far -/
  sent : List Letter
  pushes : ℕ

inductive PairInput
  | push (b : Bool) (W : World) (state : NekoState) (peer : PeerConfig)
  | deliver (l : Letter) (b : Bool) (W : World)
  | lose (l : Letter)

namespace Pair

section

variable (P : Parsers) (R : Printers) (C : Prims) (addr : Bool → SocketAddr)

/-- Messages that a node sends. -/
def send (s : Pair) (b : Bool) (n : SignalNode) (ls : List Letter) : Pair :=
  { s with node := Function.update s.node b n, flight := s.flight ++ ls, sent := s.sent ++ ls }

def step (s : Pair) : PairInput → Option (Pair × Unit)
  | .push b W state peer =>
    ((s.node b).step P R C (.push W state peer)).bind fun (n, message) =>
      message.map fun (dst, datagram) =>
        ({ s.send b n [⟨addr b, dst, datagram, s.pushes, 0⟩] with pushes := s.pushes + 1 }, ())
  | .deliver l b W =>
    if l ∈ s.flight ∧ l.dst = addr b then
      ((s.node b).step P R C (.deliver W l.src l.datagram)).map fun (n, message) =>
        let answers := message.toList.map fun (dst, datagram) =>
          ⟨addr b, dst, datagram, l.push, l.depth + 1⟩
        ({ s with flight := s.flight.erase l }.send b n answers, ())
    else none
  | .lose l => if l ∈ s.flight then some ({ s with flight := s.flight.erase l }, ()) else none

/-- When a node answers, the data plane of the instance that does has no port. -/
def Portless (s : Pair) : PairInput → Prop
  | .deliver l b W =>
    (udpReceive R C W l.src (s.node b).instances l.datagram).isSome →
      ∀ state, ((s.node b).instances.find? fun state => udpTakes state.config) = some state →
        udpPort W state.config = 0
  | _ => True

end

/-- Nothing has been sent. -/
def Unused (s : Pair) : Prop := s.flight = [] ∧ s.sent = []

/-- The instances of the pipelines have one key. -/
def OneKey (psk : String) (s : Pair) : Prop :=
  ∀ b, ∀ state ∈ (s.node b).instances, udpTakes state.config → state.config.psk = psk

/-- The messages that go back to a push. -/
def causedBy (s : Pair) (push : ℕ) : ℕ := s.sent.countP fun l => l.push = push

/-! ## The invariant -/

/-- A message of an instance with the key; as an answer it has no port. -/
def Readable (C : Prims) (psk : String) (l : Letter) : Prop :=
  ∃ (W : World) (state : NekoState) (addr : List Char) (mode : String) (port : UInt16),
    state.config.psk = psk ∧ l.datagram = ownSignal C W state addr mode (some port) ∧
      (l.depth ≠ 0 → port = 0)

structure Answered (C : Prims) (psk : String) (s : Pair) : Prop where
  key : s.OneKey psk
  flight : ∀ l ∈ s.flight, l ∈ s.sent ∧ Readable C psk l
  sent : ∀ l ∈ s.sent, l.depth ≤ 1 ∧ l.push < s.pushes
  /-- A push that is in flight stands for its answer. -/
  count : ∀ p, s.causedBy p + s.flight.countP (fun l => l.push = p ∧ l.depth = 0) ≤ 2

section

variable {P : Parsers} {R : Printers} {C : Prims} {addr : Bool → SocketAddr} {psk : String}
  {s s' s₀ : Pair} {o : Unit}

theorem causedBy_send (b : Bool) (n : SignalNode) (ls : List Letter) (p : ℕ) :
    (s.send b n ls).causedBy p = s.causedBy p + ls.countP fun l => l.push = p :=
  List.countP_append

theorem OneKey.send (h : s.OneKey psk) {b : Bool} {n : SignalNode}
    (hn : n.instances = (s.node b).instances) (ls : List Letter) : (s.send b n ls).OneKey psk := by
  intro b' state hstate
  unfold Pair.send at hstate
  dsimp only at hstate
  by_cases hb : b' = b
  · subst hb
    rw [Function.update_self, hn] at hstate
    exact h b' state hstate
  · rw [Function.update_of_ne hb] at hstate
    exact h b' state hstate

/-- Without a letter in flight. -/
theorem Answered.erase (h : s.Answered C psk) (l : Letter) :
    Answered C psk { s with flight := s.flight.erase l } where
  key := h.key
  flight k hk := h.flight k (List.mem_of_mem_erase hk)
  sent := h.sent
  count p := by
    have hcount := h.count p
    have hle : (s.flight.erase l).countP (fun l => decide (l.push = p ∧ l.depth = 0)) ≤
        s.flight.countP fun l => decide (l.push = p ∧ l.depth = 0) :=
      List.erase_sublist.countP_le
    show s.causedBy p + (s.flight.erase l).countP _ ≤ 2
    omega

/-- A push has a number of its own. -/
theorem Answered.push (h : s.Answered C psk) {b : Bool} {n : SignalNode}
    (hn : n.instances = (s.node b).instances) {l : Letter} (hl : Readable C psk l)
    (hpush : l.push = s.pushes) (hdepth : l.depth = 0) :
    Answered C psk { s.send b n [l] with pushes := s.pushes + 1 } where
  key := h.key.send hn [l]
  flight k hk := by
    rcases List.mem_append.mp hk with hk | hk
    · exact ⟨List.mem_append_left _ (h.flight k hk).1, (h.flight k hk).2⟩
    · cases List.mem_singleton.mp hk
      exact ⟨List.mem_append_right _ hk, hl⟩
  sent k hk := by
    rcases List.mem_append.mp hk with hk | hk
    · obtain ⟨hd, hp⟩ := h.sent k hk
      exact ⟨hd, Nat.lt_succ_of_lt hp⟩
    · cases List.mem_singleton.mp hk
      exact ⟨hdepth ▸ Nat.zero_le 1, hpush ▸ Nat.lt_succ_self _⟩
  count p := by
    have hcount := h.count p
    show (s.send b n [l]).causedBy p + (s.flight ++ [l]).countP _ ≤ 2
    rw [causedBy_send, List.countP_append, List.countP_singleton, List.countP_singleton]
    by_cases hp : p = s.pushes
    · -- nothing sent before has the number
      have hsent : s.causedBy p = 0 := by
        refine List.countP_eq_zero.mpr fun k hk => ?_
        have hlt := (h.sent k hk).2
        rw [decide_eq_true_eq]
        omega
      have hflight : s.flight.countP (fun l => l.push = p ∧ l.depth = 0) = 0 := by
        refine List.countP_eq_zero.mpr fun k hk => ?_
        have hlt := (h.sent k (h.flight k hk).1).2
        rw [decide_eq_true_eq]
        omega
      split_ifs <;> omega
    · have hne : ¬ l.push = p := fun heq => hp (heq.symm.trans hpush)
      simp only [hne, false_and, decide_false, Bool.false_eq_true, if_false]
      omega

/-- The answer to a push takes its place. -/
theorem Answered.answer (h : s.Answered C psk) {b : Bool} {n : SignalNode}
    (hn : n.instances = (s.node b).instances) {l k : Letter} (hl : l ∈ s.flight)
    (hdepth : l.depth = 0) (hk : Readable C psk k) (hpush : k.push = l.push) (hone : k.depth = 1) :
    Answered C psk ({ s with flight := s.flight.erase l }.send b n [k]) where
  key := h.key.send hn [k]
  flight j hj := by
    rcases List.mem_append.mp hj with hj | hj
    · obtain ⟨hsent, hread⟩ := h.flight j (List.mem_of_mem_erase hj)
      exact ⟨List.mem_append_left _ hsent, hread⟩
    · cases List.mem_singleton.mp hj
      exact ⟨List.mem_append_right _ hj, hk⟩
  sent j hj := by
    rcases List.mem_append.mp hj with hj | hj
    · exact h.sent j hj
    · cases List.mem_singleton.mp hj
      exact ⟨hone.le, hpush ▸ (h.sent l (h.flight l hl).1).2⟩
  count p := by
    have hcount := h.count p
    rw [(List.perm_cons_erase hl).countP_eq, List.countP_cons] at hcount
    rw [causedBy_send, List.countP_singleton]
    show s.causedBy p + _ + (s.flight.erase l ++ [k]).countP _ ≤ 2
    rw [List.countP_append, List.countP_singleton]
    simp only [hdepth, hone, hpush, decide_eq_true_eq, and_true, one_ne_zero, and_false,
      if_false] at hcount ⊢
    omega

theorem Answered.send_nil (h : s.Answered C psk) {b : Bool} {n : SignalNode}
    (hn : n.instances = (s.node b).instances) : Answered C psk (s.send b n []) where
  key := h.key.send hn []
  flight l hl := by
    obtain ⟨hsent, hread⟩ := h.flight l (by simpa [Pair.send] using hl)
    exact ⟨List.mem_append_left _ hsent, hread⟩
  sent l hl := h.sent l (by simpa [Pair.send] using hl)
  count p := by
    have hcount := h.count p
    rw [causedBy_send]
    show s.causedBy p + 0 + (s.flight ++ []).countP _ ≤ 2
    rwa [List.append_nil, Nat.add_zero]

/-- What becomes of a message when it is delivered: an answer is passed over, and so is a push or it
is answered by the first instance of the pipeline. -/
theorem udpReceive_readable [C.Lawful] (hkey : s.OneKey psk) {l : Letter} (hl : Readable C psk l)
    {b : Bool} {W : World} {a : Answer}
    (ha : udpReceive R C W l.src (s.node b).instances l.datagram = some a) :
    l.depth = 0 ∧ ∃ state, ((s.node b).instances.find? fun state => udpTakes state.config) =
      some state ∧ state.config.psk = psk ∧
      a.reply = ownSignal C W state (R.ipAddr l.src.ip) state.config.mode
        (some (udpPort W state.config)) := by
  obtain ⟨W₀, state₀, text, mode, port, hpsk, hdatagram, hport⟩ := hl
  have hsame : ∀ state ∈ (s.node b).instances, udpTakes state.config →
      state.config.psk = state₀.config.psk := by
    intro state hstate htakes
    rw [hpsk, hkey b state hstate htakes]
  rw [hdatagram, udpReceive_ownSignal hsame] at ha
  by_cases hzero : port = 0
  · rw [if_pos hzero] at ha
    cases ha
  · rw [if_neg hzero] at ha
    obtain ⟨state, hfind, rfl⟩ := Option.map_eq_some_iff.mp ha
    refine ⟨by_contra fun hdepth => hzero (hport hdepth), state, hfind, ?_, rfl⟩
    have htakes := List.find?_some (p := fun s : NekoState => udpTakes s.config) hfind
    rw [hsame state (List.mem_of_find?_eq_some hfind) htakes, hpsk]

/-- Every step keeps the invariant. -/
theorem Answered.step [C.Lawful] {i : PairInput} (h : s.Answered C psk)
    (hportless : s.Portless R C i) (hstep : s.step P R C addr i = some (s', o)) :
    s'.Answered C psk := by
  cases i with
  | push b W state peer =>
    obtain ⟨⟨n, message⟩, hn, hmap⟩ := Option.bind_eq_some_iff.mp hstep
    obtain ⟨⟨dst, datagram⟩, hmessage, heq⟩ := Option.map_eq_some_iff.mp hmap
    obtain ⟨hstate, htakes, hinstances, dst', hpushed⟩ := SignalNode.step_push_cases hn
    cases hpushed.symm.trans hmessage
    cases heq
    refine h.push hinstances ⟨W, state, peer.endpoint.toList, state.config.mode,
      udpPort W state.config, h.key b state hstate htakes, rfl, fun hdepth => ?_⟩ rfl rfl
    exact absurd rfl hdepth
  | deliver l b W =>
    obtain ⟨⟨hl, -⟩, hmap⟩ := Option.ite_none_right_eq_some.mp hstep
    obtain ⟨⟨n, message⟩, hn, heq⟩ := Option.map_eq_some_iff.mp hmap
    cases heq
    obtain ⟨-, rfl, rfl⟩ | ⟨a, ha, -, hinstances, rfl, -⟩ := SignalNode.step_deliver hn
    · exact (h.erase l).send_nil rfl
    · obtain ⟨hdepth, state, hfind, hpsk, hreply⟩ := udpReceive_readable h.key (h.flight l hl).2 ha
      have hport := hportless (Option.isSome_iff_exists.mpr ⟨a, ha⟩) state hfind
      refine h.answer hinstances hl hdepth ⟨W, state, _, _, _, hpsk, hreply, fun _ => hport⟩ rfl ?_
      rw [hdepth]
  | lose l =>
    obtain ⟨-, heq⟩ := Option.ite_none_right_eq_some.mp hstep
    cases heq
    exact h.erase l

/-- **At most one answer for each push**, in runs in which a node answers only while its data plane
has no port: no answer is answered, and a push causes at most two messages, itself included. -/
theorem one_answer_per_push [C.Lawful] (hkey : s₀.OneKey psk) (hunused : s₀.Unused)
    (h : Machine.Reaches (step P R C addr) (fun s i => s.Portless R C i) s₀ s) :
    (∀ l ∈ s.sent, l.depth ≤ 1) ∧ ∀ p, s.causedBy p ≤ 2 := by
  obtain ⟨hflight, hsent⟩ := hunused
  have hstart : s₀.Answered C psk :=
    { key := hkey
      flight := by simp [hflight]
      sent := by simp [hsent]
      count := by simp [causedBy, hflight, hsent] }
  have hanswered : s.Answered C psk :=
    h.invariant (I := fun s => s.Answered C psk) hstart
      fun t i t' o ht hi hstep => ht.step hi hstep
  exact ⟨fun l hl => (hanswered.sent l hl).1, fun p => le_of_add_le_left (hanswered.count p)⟩

/-! ## An exchange that goes on -/

theorem step_push {b : Bool} {W : World} {state : NekoState} {peer : PeerConfig} {n : SignalNode}
    {dst : SocketAddr} {datagram : List UInt8}
    (h : (s.node b).step P R C (.push W state peer) = some (n, some (dst, datagram))) :
    s.step P R C addr (.push b W state peer) =
      some ({ s.send b n [⟨addr b, dst, datagram, s.pushes, 0⟩] with pushes := s.pushes + 1 },
        ()) := by
  unfold step
  dsimp only
  rw [h]
  rfl

theorem step_deliver {b : Bool} {W : World} {l : Letter} {a : Answer} (hl : l ∈ s.flight)
    (hdst : l.dst = addr b)
    (ha : udpReceive R C W l.src (s.node b).instances l.datagram = some a) :
    ∃ n, n.instances = (s.node b).instances ∧ s.step P R C addr (.deliver l b W) =
      some ({ s with flight := s.flight.erase l }.send b n
        [⟨addr b, l.src, a.reply, l.push, l.depth + 1⟩], ()) := by
  unfold step SignalNode.step
  dsimp only
  rw [if_pos ⟨hl, hdst⟩, ha]
  refine ⟨_, ?_, rfl⟩
  rfl

/-- After `k` answers one message is in flight, and it has a port. -/
structure Rally (R : Printers) (C : Prims) (addr : Bool → SocketAddr) (psk : String) (k : ℕ)
    (s : Pair) : Prop where
  node : ∀ b, ∃ state, (s.node b).instances = [state] ∧ udpTakes state.config = true ∧
    state.config.psk = psk
  flight : ∃ l b, s.flight = [l] ∧ l.src = addr (!b) ∧ l.dst = addr b ∧ l.push = 0 ∧
    ∃ (W : World) (state : NekoState) (text : List Char) (mode : String) (port : UInt16),
      state.config.psk = psk ∧ port ≠ 0 ∧ l.datagram = ownSignal C W state text mode (some port)
  count : s.causedBy 0 = k + 1

/-- The message is answered. -/
theorem Rally.receive [C.Lawful] {k : ℕ} (h : Rally R C addr psk k s) (W : World) :
    ∃ l b state offer, s.flight = [l] ∧ l.src = addr (!b) ∧ l.dst = addr b ∧ l.push = 0 ∧
      (s.node b).instances = [state] ∧ udpTakes state.config = true ∧ state.config.psk = psk ∧
      udpReceive R C W l.src (s.node b).instances l.datagram =
        some (answerOf R C W (udpPort W state.config) l.src offer state) := by
  obtain ⟨l, b, hflight, hsrc, hdst, hpush, W₀, state₀, text, mode, port, hpsk₀, hport,
    hdatagram⟩ := h.flight
  obtain ⟨state, hinstances, htakes, hpsk⟩ := h.node b
  have hsame : ∀ s ∈ [state], udpTakes s.config → s.config.psk = state₀.config.psk := by
    intro s hs _
    rw [List.mem_singleton.mp hs, hpsk, hpsk₀]
  refine ⟨l, b, state, ownOffer W₀ state₀ text mode port, hflight, hsrc, hdst, hpush, hinstances,
    htakes, hpsk, ?_⟩
  rw [hinstances, hdatagram, udpReceive_ownSignal hsame, if_neg hport,
    List.find?_cons_of_pos (by exact htakes)]
  rfl

/-- Its answer has a port when the data plane has one. -/
theorem Rally.step [C.Lawful] {k : ℕ} {W : World} (hW : ∀ config, udpPort W config ≠ 0)
    (h : Rally R C addr psk k s) :
    ∃ i s', s.step P R C addr i = some (s', ()) ∧ Rally R C addr psk (k + 1) s' := by
  obtain ⟨l, b, state, offer, hflight, hsrc, hdst, hpush, hinstances, htakes, hpsk, hreceive⟩ :=
    h.receive W
  have hl : l ∈ s.flight := hflight ▸ List.mem_singleton_self l
  obtain ⟨n, hn, hstep⟩ := step_deliver (P := P) hl hdst hreceive
  let a := answerOf R C W (udpPort W state.config) l.src offer state
  refine ⟨_, _, hstep, ?_, ?_, ?_⟩
  · intro b'
    obtain ⟨state', hinstances', hstate'⟩ := h.node b'
    refine ⟨state', ?_, hstate'⟩
    unfold send
    dsimp only
    by_cases hb : b' = b
    · rw [hb, Function.update_self, hn, ← hb, hinstances']
    · rw [Function.update_of_ne hb, hinstances']
  · refine ⟨⟨addr b, l.src, a.reply, l.push, l.depth + 1⟩, !b, ?_, ?_, hsrc, hpush, W, state, _, _,
      _, hpsk, hW state.config, rfl⟩
    · unfold send
      dsimp only
      rw [hflight, List.erase_cons_head, List.nil_append]
    · rw [Bool.not_not]
  · rw [causedBy_send]
    show s.causedBy 0 + _ = _
    rw [h.count, List.countP_singleton]
    simp [hpush]

/-- **An exchange goes on** as long as the network delivers. -/
theorem Rally.goes_on [C.Lawful] {W : World} (hW : ∀ config, udpPort W config ≠ 0)
    (h : Rally R C addr psk 0 s) (k : ℕ) :
    ∃ s', Machine.Reaches (Pair.step P R C addr) (fun _ _ => True) s s' ∧
      Rally R C addr psk k s' := by
  induction k with
  | zero => exact ⟨s, .refl, h⟩
  | succ k ih =>
    obtain ⟨t, hreaches, hrally⟩ := ih
    obtain ⟨i, t', hstep, hrally'⟩ := hrally.step (P := P) hW
    exact ⟨t', hreaches.tail trivial hstep, hrally'⟩

end

/-! ## Two concrete nodes -/

/-- The sockets of the nodes. -/
def sampleAddr (b : Bool) : SocketAddr := .new (sampleIp (if b then 2 else 1)) 12580

def samplePair : Pair where
  node b := if b then sampleSignalNode 8 1 else sampleSignalNode 7 2
  flight := []
  sent := []
  pushes := 0

theorem oneKey_samplePair : samplePair.OneKey "meow" := by
  intro b state hstate _
  cases b <;> cases List.mem_singleton.mp hstate <;> rfl

/-- The first node has pushed. -/
def sampleServed : Pair :=
  { samplePair.send false (samplePushed portWorld)
      [⟨sampleAddr false, .new (sampleIp 2) 12580, samplePush portWorld, 0, 0⟩] with pushes := 1 }

theorem step_sampleServed :
    samplePair.step sampleNames samplePrinters checksumPrims sampleAddr
        (.push false portWorld (sampleInstance 7 2) (samplePeer 2)) = some (sampleServed, ()) :=
  step_push (step_push_sample (pushes_portWorld 7 2 (by decide)))

theorem rally_sampleServed :
    Rally samplePrinters checksumPrims sampleAddr "meow" 0 sampleServed where
  node b := by
    cases b with
    | false => exact ⟨sampleInstance 7 2, rfl, udpTakes_sampleInstance 7 2, rfl⟩
    | true => exact ⟨sampleInstance 8 1, rfl, udpTakes_sampleInstance 8 1, rfl⟩
  flight := by
    refine ⟨_, true, rfl, rfl, rfl, rfl, portWorld, sampleInstance 7 2, _, _, _, rfl, ?_, rfl⟩
    rw [udpPort_portWorld]
    decide
  count := rfl

/-- A node without a port answers, and its answer is the last message. -/
theorem one_answer_per_push_sample :
    ∃ s : Pair, s.causedBy 0 = 2 ∧ (∀ l ∈ s.sent, l.depth ≤ 1) ∧ ∀ p, s.causedBy p ≤ 2 := by
  obtain ⟨l, b, state, offer, hflight, -, hdst, hpush, hinstances, htakes, -, hreceive⟩ :=
    rally_sampleServed.receive sampleWorld
  have hl : l ∈ sampleServed.flight := hflight ▸ List.mem_singleton_self l
  obtain ⟨n, -, hstep⟩ := step_deliver (P := sampleNames) hl hdst hreceive
  have hserved : Machine.Reaches (step sampleNames samplePrinters checksumPrims sampleAddr)
      (fun s i => s.Portless samplePrinters checksumPrims i) samplePair sampleServed := by
    refine .tail .refl ?_ step_sampleServed
    exact trivial
  have hportless : sampleServed.Portless samplePrinters checksumPrims
      (.deliver l b sampleWorld) := by
    intro _ state' _
    rfl
  refine ⟨_, ?_, one_answer_per_push oneKey_samplePair ⟨rfl, rfl⟩ (hserved.tail hportless hstep)⟩
  rw [causedBy_send]
  show sampleServed.causedBy 0 + _ = _
  rw [rally_sampleServed.count, List.countP_singleton]
  simp [hpush]

/-- **Answers are answered**: one push causes three messages, when the data planes have ports. -/
theorem answers_are_answered :
    ¬ ∀ (psk : String) (s₀ s : Pair), s₀.OneKey psk → s₀.Unused →
      Machine.Reaches (step sampleNames samplePrinters checksumPrims sampleAddr)
        (fun _ _ => True) s₀ s →
      (∀ l ∈ s.sent, l.depth ≤ 1) ∧ ∀ p, s.causedBy p ≤ 2 := by
  intro hclaim
  have hport : ∀ config, udpPort portWorld config ≠ 0 := by
    intro config
    rw [udpPort_portWorld]
    decide
  obtain ⟨s, hreaches, hrally⟩ := rally_sampleServed.goes_on (P := sampleNames) hport 2
  have hrun := Machine.Reaches.head (Q := fun _ _ => True) trivial step_sampleServed hreaches
  have hcount := (hclaim "meow" samplePair s oneKey_samplePair ⟨rfl, rfl⟩ hrun).2 0
  rw [hrally.count] at hcount
  omega

end Pair

end NekoLink.Ctl
