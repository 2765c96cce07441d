import NekoLink.Device.Device
import NekoLink.Device.TcpFraming

/-!
# Sending on a TCP connection

A frame is sent by two calls of `write` whose results are not looked at. Three places of
`device/mod.rs` send data, replies and queued packets under the mutex of the stream; a fourth sends
cookie replies on the handler's own handle of the same connection. A `Sender` is one connection with
the threads that are sending on it, and what its non-blocking writes have accepted.

* `sender_in_place`: when every write that puts bytes on the connection does so where they belong, a
  receiver gets only packets that were passed to the sender.
* `mutex_in_place`: so they do when all of them are accepted whole and no cookie reply is sent.
* `short_write`: a payload that is not accepted, and the next frame taken for it.
-/

namespace NekoLink.Device

open Wire TcpFraming

/-- A packet from a thread's `dst_buf`. -/
structure Outgoing where
  bytes : List UInt8
  length_le : bytes.length ≤ maxUdpSize
  ne_nil : bytes ≠ []

namespace Outgoing

/-- `(packet.len() as u16).to_be_bytes()` -/
def lenBytes (p : Outgoing) : List UInt8 := beBytes headerLen p.bytes.length

theorem length_lt (p : Outgoing) : p.bytes.length < 256 ^ headerLen :=
  lt_of_le_of_lt p.length_le (by decide)

theorem lenBytes_append (p : Outgoing) : p.lenBytes ++ p.bytes = frame headerLen p.bytes := rfl

theorem lenBytes_ne_nil (p : Outgoing) : p.lenBytes ≠ [] := by
  apply List.ne_nil_of_length_pos
  rw [lenBytes, length_beBytes]
  decide

end Outgoing

namespace TcpSender

/-- The mutex around the handler's handle, and the one around the handle of the connection map. -/
inductive Mutex
  | sock
  | stream
  deriving DecidableEq

/-- The two writes of a frame. -/
inductive Part
  | header
  | payload
  deriving DecidableEq

def Part.bytes : Part → Outgoing → List UInt8
  | .header, p => p.lenBytes
  | .payload, p => p.bytes

theorem Part.bytes_ne_nil (part : Part) (p : Outgoing) : part.bytes p ≠ [] := by
  cases part
  · exact p.lenBytes_ne_nil
  · exact p.ne_nil

theorem Part.length_bytes_le (part : Part) (p : Outgoing) :
    (part.bytes p).length ≤ maxUdpSize := by
  cases part with
  | header =>
    rw [Part.bytes, Outgoing.lenBytes, length_beBytes]
    decide
  | payload => exact p.length_le

/-- What a thread does on the connection. A write carries the number of its packet. -/
inductive Op
  | lock (m : Mutex)
  | write (frame : ℕ) (part : Part) (p : Outgoing)
  | unlock (m : Mutex)

/-- The places that send: the TUN handler, and in the stream handler the replies, the queued packets
and the cookie replies. -/
inductive Site
  | iface
  | reply
  | flush
  | cookie
  deriving DecidableEq

/-- `write(&len_bytes)` and `write(packet)` -/
def writes (frame : ℕ) (p : Outgoing) : List Op := [.write frame .header p, .write frame .payload p]

/-- `stream_mutex.lock()` for the two writes; the flush of a socket does nothing. -/
def sendStream (frame : ℕ) (p : Outgoing) : List Op :=
  .lock .stream :: writes frame p ++ [.unlock .stream]

/-- The stream handler holds its own handle all the while. -/
def program : Site → ℕ → Outgoing → List Op
  | .iface, frame, p => sendStream frame p
  | .reply, frame, p | .flush, frame, p => .lock .sock :: sendStream frame p ++ [.unlock .sock]
  | .cookie, frame, p => .lock .sock :: writes frame p ++ [.unlock .sock]

/-- The outcome of a non-blocking write. -/
inductive Outcome
  | ok (n : ℕ)
  | wouldBlock
  | error

/-- The bytes that a write puts on the connection. -/
def Outcome.accepted (bs : List UInt8) : Outcome → List UInt8
  | .ok n => bs.take n
  | .wouldBlock | .error => []

theorem Outcome.accepted_prefix (r : Outcome) (bs : List UInt8) : r.accepted bs <+: bs := by
  cases r with
  | ok n => exact List.take_prefix n bs
  | wouldBlock | error => exact List.nil_prefix

abbrev Thread := ℕ

structure Sender where
  /-- The bytes accepted so far. -/
  wire : List UInt8
  held : Mutex → Option Thread
  /-- What each thread has still to do. -/
  threads : Thread → List Op
  /-- The packets passed so far. -/
  passed : List Outgoing

def Sender.new : Sender := ⟨[], fun _ => none, fun _ => [], []⟩

inductive Input
  /-- A thread is passed a packet. -/
  | pass (i : Thread) (site : Site) (p : Outgoing)
  /-- A thread goes on; the outcome is that of a write. -/
  | go (i : Thread) (r : Outcome)

/-- A thread waits where a mutex is held. -/
def step (s : Sender) : Input → Option (Sender × Unit)
  | .pass i site p =>
    if s.threads i = [] then
      some ({ s with
        threads := Function.update s.threads i (program site s.passed.length p)
        passed := s.passed ++ [p] }, ())
    else none
  | .go i r =>
    match s.threads i with
    | [] => none
    | .lock m :: ops =>
      if (s.held m).isNone then
        some ({ s with
          threads := Function.update s.threads i ops
          held := Function.update s.held m (some i) }, ())
      else none
    | .write _ part p :: ops =>
      some ({ s with
        threads := Function.update s.threads i ops
        wire := s.wire ++ r.accepted (part.bytes p) }, ())
    | .unlock m :: ops =>
      some ({ s with
        threads := Function.update s.threads i ops
        held := Function.update s.held m none }, ())

/-! ## Writes in place -/

/-- A write that put bytes on the connection, and whether it put all of them. -/
structure Accepted where
  frame : ℕ
  part : Part
  whole : Bool
  deriving DecidableEq

/-- What a step puts on the connection. -/
def event (s : Sender) : Input → Option Accepted
  | .pass .. => none
  | .go i r =>
    match s.threads i with
    | .write frame part p :: _ =>
      if r.accepted (part.bytes p) = [] then none
      else some ⟨frame, part, r.accepted (part.bytes p) = part.bytes p⟩
    | _ => none

/-- Where the bytes of a frame belong, after the last write that put bytes on the connection: a
header at first and behind a whole payload, and a payload behind the whole header of its frame. -/
def Accepted.InPlace (a : Accepted) (last : Option Accepted) : Prop :=
  match a.part with
  | .header => ∀ b, last = some b → b.part = .payload ∧ b.whole = true
  | .payload => last = some ⟨a.frame, .header, true⟩

/-- The bytes that a step puts on the connection belong there. -/
def InPlace (q : Sender × List Accepted) (i : Input) : Prop :=
  ∀ a, event q.1 i = some a → a.InPlace q.2.getLast?

/-- The bytes behind the whole frames, after the last write that put bytes on the connection. -/
def Rest (passed : List Outgoing) (rest : List UInt8) : Option Accepted → Prop
  | none => rest = []
  | some a => ∃ p, passed[a.frame]? = some p ∧
      match a.part, a.whole with
      | .payload, true => rest = []
      | .header, true => rest = p.lenBytes
      | _, false => rest <+: frame headerLen p.bytes

/-- The connection has frames of packets passed, and at most a part of one more. -/
structure Framed (s : Sender) (log : List Accepted) : Prop where
  programs : ∀ i k part p, Op.write k part p ∈ s.threads i → s.passed[k]? = some p
  wire : ∃ (ps : List Outgoing) (rest : List UInt8), (∀ p ∈ ps, p ∈ s.passed) ∧
    s.wire = stream headerLen (ps.map Outgoing.bytes) ++ rest ∧ Rest s.passed rest log.getLast?

variable {s s' : Sender} {log log' : List Accepted} {i : Input} {u : Unit}

theorem framed_new : Framed .new [] where
  programs := fun i k part p h => absurd h List.not_mem_nil
  wire := ⟨[], [], by simp, rfl, rfl⟩

/-- A program writes its own packet. -/
theorem eq_of_write_mem_program {site : Site} {k k' : ℕ} {part : Part} {p p' : Outgoing}
    (h : Op.write k' part p' ∈ program site k p) : k' = k ∧ p' = p := by
  cases site <;> cases part <;> simpa [program, sendStream, writes] using h

/-- Packets passed later do not matter to what is on the connection. -/
theorem Rest.append {passed : List Outgoing} {rest : List UInt8} {last : Option Accepted}
    (h : Rest passed rest last) (p : Outgoing) : Rest (passed ++ [p]) rest last := by
  rcases last with _ | a
  · exact h
  · obtain ⟨q, hq, hrest⟩ := h
    have hlt : a.frame < passed.length := (List.getElem?_eq_some_iff.mp hq).1
    exact ⟨q, by rw [List.getElem?_append_left hlt, hq], hrest⟩

/-- Bytes in their place carry the frame on. -/
theorem Rest.write {passed ps : List Outgoing} {rest : List UInt8} {last : Option Accepted}
    {k : ℕ} {part : Part} {p : Outgoing} {r : Outcome} (h : Rest passed rest last)
    (hp : passed[k]? = some p) (hps : ∀ q ∈ ps, q ∈ passed)
    (hplace : Accepted.InPlace ⟨k, part, r.accepted (part.bytes p) = part.bytes p⟩ last) :
    ∃ (ps' : List Outgoing) (rest' : List UInt8), (∀ q ∈ ps', q ∈ passed) ∧
      stream headerLen (ps.map Outgoing.bytes) ++ rest ++ r.accepted (part.bytes p) =
        stream headerLen (ps'.map Outgoing.bytes) ++ rest' ∧
      Rest passed rest' (some ⟨k, part, r.accepted (part.bytes p) = part.bytes p⟩) := by
  cases part with
  | header =>
    -- a header comes behind whole frames
    have hrest : rest = [] := by
      rcases last with _ | ⟨k', part', whole'⟩
      · exact h
      · obtain ⟨rfl, rfl⟩ := hplace _ rfl
        obtain ⟨_, _, hrest⟩ := h
        exact hrest
    refine ⟨ps, r.accepted p.lenBytes, hps, by rw [hrest, List.append_nil]; rfl, p, hp, ?_⟩
    by_cases hwhole : r.accepted p.lenBytes = p.lenBytes
    · simp only [Part.bytes, hwhole, decide_true]
    · simp only [Part.bytes, hwhole, decide_false]
      exact (r.accepted_prefix _).trans (List.prefix_append _ _)
  | payload =>
    -- a payload comes behind its header
    obtain rfl : last = some ⟨k, .header, true⟩ := hplace
    obtain ⟨q, hq, hrest⟩ := h
    obtain rfl : p = q := Option.some.inj (hp.symm.trans hq)
    replace hrest : rest = p.lenBytes := hrest
    by_cases hwhole : r.accepted p.bytes = p.bytes
    · refine ⟨ps ++ [p], [], ?_, ?_, p, hp, ?_⟩
      · intro q hq
        obtain hq | hq := List.mem_append.mp hq
        · exact hps q hq
        · rw [List.mem_singleton.mp hq]
          exact List.mem_of_getElem? hp
      · rw [List.map_append, stream_append, List.append_nil, List.append_assoc, hrest]
        simp only [Part.bytes, hwhole, Outgoing.lenBytes_append, List.map_singleton, stream_cons,
          stream_nil, List.append_nil]
      · simp only [Part.bytes, hwhole, decide_true]
    · refine ⟨ps, rest ++ r.accepted p.bytes, hps, List.append_assoc .., p, hp, ?_⟩
      simp only [Part.bytes, hwhole, decide_false]
      rw [hrest, ← Outgoing.lenBytes_append]
      exact (List.prefix_append_right_inj _).mpr (r.accepted_prefix _)

/-- The rest of a thread's program is part of it. -/
theorem Framed.tail {j : Thread} {op : Op} {ops : List Op} (h : Framed s log)
    (hops : s.threads j = op :: ops) :
    ∀ i k part p, Op.write k part p ∈ Function.update s.threads j ops i →
      s.passed[k]? = some p := by
  intro i k part p hmem
  rw [Function.update_apply] at hmem
  split_ifs at hmem with hi
  · exact h.programs j k part p (by rw [hops]; exact List.mem_cons_of_mem _ hmem)
  · exact h.programs i k part p hmem

/-- **One step** with its bytes in place keeps the frames. -/
theorem Framed.step (h : Framed s log) (hplace : InPlace (s, log) i)
    (hstep : step s i = some (s', u)) : Framed s' (log ++ (event s i).toList) := by
  cases i with
  | pass j site p =>
    rw [TcpSender.step] at hstep
    split_ifs at hstep
    cases hstep
    have hnone : event s (.pass j site p) = none := rfl
    rw [hnone, Option.toList_none, List.append_nil]
    refine ⟨fun i k part q hmem => ?_, ?_⟩
    · dsimp only at hmem ⊢
      rw [Function.update_apply] at hmem
      split_ifs at hmem
      · obtain ⟨rfl, rfl⟩ := eq_of_write_mem_program hmem
        exact List.getElem?_concat_length
      · have hk := h.programs i k part q hmem
        rw [List.getElem?_append_left (List.getElem?_eq_some_iff.mp hk).1, hk]
    · obtain ⟨ps, rest, hps, hwire, hrest⟩ := h.wire
      exact ⟨ps, rest, fun q hq => List.mem_append_left _ (hps q hq), hwire, hrest.append p⟩
  | go j r =>
    rcases hops : s.threads j with _ | ⟨op, ops⟩
    · rw [TcpSender.step, hops] at hstep
      cases hstep
    · cases op with
      | lock m =>
        simp only [TcpSender.step, hops] at hstep
        split_ifs at hstep
        cases hstep
        rw [event, hops, Option.toList_none, List.append_nil]
        exact ⟨h.tail hops, h.wire⟩
      | unlock m =>
        simp only [TcpSender.step, hops] at hstep
        cases hstep
        rw [event, hops, Option.toList_none, List.append_nil]
        exact ⟨h.tail hops, h.wire⟩
      | write k part p =>
        have hevent : event s (.go j r) = if r.accepted (part.bytes p) = [] then none
            else some ⟨k, part, r.accepted (part.bytes p) = part.bytes p⟩ := by
          rw [event, hops]
        simp only [TcpSender.step, hops] at hstep
        cases hstep
        have hp := h.programs j k part p (by rw [hops]; exact List.mem_cons_self)
        obtain ⟨ps, rest, hps, hwire, hrest⟩ := h.wire
        refine ⟨h.tail hops, ?_⟩
        dsimp only
        by_cases hnil : r.accepted (part.bytes p) = []
        · rw [hevent, if_pos hnil, Option.toList_none, List.append_nil, hnil, List.append_nil]
          exact ⟨ps, rest, hps, hwire, hrest⟩
        · rw [if_neg hnil] at hevent
          obtain ⟨ps', rest', hps', heq, hrest'⟩ := hrest.write hp hps (hplace _ hevent)
          rw [hevent, Option.toList_some, List.getLast?_append_of_ne_nil _ (by simp), hwire, heq]
          exact ⟨ps', rest', hps', rfl, hrest'⟩

/-! ## Runs -/

/-- The sender with the log of its accepted writes. -/
abbrev loggedStep := Machine.logged step event

theorem framed_of_reaches (h : Machine.Reaches loggedStep InPlace (.new, []) (s, log)) :
    Framed s log := by
  refine h.invariant (I := fun q => Framed q.1 q.2) framed_new ?_
  rintro ⟨s, log⟩ i ⟨s', log'⟩ u hframed hplace hstep
  obtain ⟨hstep, rfl⟩ := Machine.logged_eq_some.mp hstep
  exact hframed.step hplace hstep

/-- Whatever the receiver has read so far, and in whatever pieces, its frames are packets that were
passed. -/
def Decodes (s : Sender) : Prop :=
  ∀ rounds t out, Fits [] rounds → bytesRead rounds <+: s.wire →
    Machine.run round .new rounds = some (t, out) → ∀ bs ∈ out.flatten, ∃ p ∈ s.passed, p.bytes = bs

theorem Rest.exists_prefix {passed : List Outgoing} {rest : List UInt8} {last : Option Accepted}
    (h : Rest passed rest last) : rest = [] ∨ ∃ p ∈ passed, rest <+: frame headerLen p.bytes := by
  rcases last with _ | ⟨k, part, whole⟩
  · exact .inl h
  · obtain ⟨p, hp, hrest⟩ := h
    have hmem := List.mem_of_getElem? hp
    cases part <;> cases whole
    · exact .inr ⟨p, hmem, hrest⟩
    · exact .inr ⟨p, hmem, by rw [hrest]; exact List.prefix_append _ _⟩
    · exact .inr ⟨p, hmem, hrest⟩
    · exact .inl hrest

theorem Framed.decodes (h : Framed s log) : Decodes s := by
  intro rounds t out hfits hread hrun bs hbs
  obtain ⟨ps, rest, hps, hwire, hrest⟩ := h.wire
  -- the connection is the front of a stream of packets passed
  obtain ⟨qs, hqs, hstream⟩ : ∃ qs : List Outgoing, (∀ q ∈ qs, q ∈ s.passed) ∧
      s.wire <+: stream headerLen (qs.map Outgoing.bytes) := by
    rcases hrest.exists_prefix with rfl | ⟨p, hp, hpre⟩
    · exact ⟨ps, hps, by rw [hwire, List.append_nil]⟩
    · refine ⟨ps ++ [p], fun q hq => ?_, ?_⟩
      · obtain hq | hq := List.mem_append.mp hq
        · exact hps q hq
        · rw [List.mem_singleton.mp hq]
          exact hp
      · rw [hwire, List.map_append, stream_append, List.map_singleton, stream_cons, stream_nil,
          List.append_nil]
        exact (List.prefix_append_right_inj _).mpr hpre
  obtain ⟨t', out', hrun', -, hbuffered⟩ := run_eq valid_new hfits
  cases hrun.symm.trans hrun'
  obtain ⟨hsplit, hall⟩ := run_roundBuffered hbuffered
  rw [buffered_new, List.nil_append] at hsplit
  have hpre := (hread.trans hstream)
  rw [hsplit] at hpre
  have hlen : ∀ q ∈ qs.map Outgoing.bytes, q.length < 256 ^ headerLen := by
    intro q hq
    obtain ⟨p, -, rfl⟩ := List.mem_map.mp hq
    exact p.length_lt
  obtain ⟨rest', heq, -⟩ := prefix_of_stream (by decide) hall hlen hpre
  have hmem : bs ∈ qs.map Outgoing.bytes := by
    rw [heq]
    exact List.mem_append_left _ hbs
  obtain ⟨p, hp, rfl⟩ := List.mem_map.mp hmem
  exact ⟨p, hqs p hp, rfl⟩

/-- **Writes in place.** In every run of the threads in which every write that puts bytes on the
connection does so in place, the receiver gets only packets that were passed. -/
theorem sender_in_place (h : Machine.Reaches loggedStep InPlace (.new, []) (s, log)) :
    Decodes s :=
  (framed_of_reaches h).decodes

/-! ## The mutex of the stream -/

/-- Where a thread is: off the stream, before its header or its payload, or about to let go. -/
inductive Stage
  | outside
  | header (k : ℕ)
  | payload (k : ℕ)
  | closing

/-- A program writes the two parts of one frame between the lock of the stream and its unlock. -/
def Balanced : Stage → List Op → Prop
  | .outside, [] => True
  | .outside, .lock .sock :: ops | .outside, .unlock .sock :: ops => Balanced .outside ops
  | .outside, .lock .stream :: ops => ∃ k, Balanced (.header k) ops
  | .header k, .write k' .header _ :: ops => k' = k ∧ Balanced (.payload k) ops
  | .payload k, .write k' .payload _ :: ops => k' = k ∧ Balanced .closing ops
  | .closing, .unlock .stream :: ops => Balanced .outside ops
  | _, _ => False

theorem balanced_program {site : Site} (h : site ≠ .cookie) (k : ℕ) (p : Outgoing) :
    Balanced .outside (program site k p) := by
  cases site with
  | cookie => exact absurd rfl h
  | iface => exact ⟨k, rfl, rfl, trivial⟩
  | reply | flush => exact ⟨k, rfl, rfl, trivial⟩

section Stages

variable {st : Stage} {ops : List Op} {k : ℕ} {p : Outgoing} {m : Mutex}

theorem Balanced.nil (h : Balanced st []) : st = .outside := by
  cases st with
  | outside => rfl
  | header | payload | closing => exact h.elim

theorem Balanced.lock (h : Balanced st (.lock m :: ops)) : st = .outside := by
  cases st with
  | outside => rfl
  | header | payload | closing => exact h.elim

theorem Balanced.unlock_sock (h : Balanced st (.unlock .sock :: ops)) : st = .outside := by
  cases st with
  | outside => rfl
  | header | payload | closing => exact h.elim

theorem Balanced.unlock_stream (h : Balanced st (.unlock .stream :: ops)) :
    st = .closing ∧ Balanced .outside ops := by
  cases st with
  | closing => exact ⟨rfl, h⟩
  | header | payload | outside => exact h.elim

theorem Balanced.write_header (h : Balanced st (.write k .header p :: ops)) :
    st = .header k ∧ Balanced (.payload k) ops := by
  cases st with
  | header k' => exact ⟨congrArg _ h.1.symm, h.1 ▸ h.2⟩
  | closing | payload | outside => exact h.elim

theorem Balanced.write_payload (h : Balanced st (.write k .payload p :: ops)) :
    st = .payload k ∧ Balanced .closing ops := by
  cases st with
  | payload k' => exact ⟨congrArg _ h.1.symm, h.2⟩
  | closing | header | outside => exact h.elim

end Stages

/-- No cookie reply is passed, and a write is accepted whole. -/
def Whole (q : Sender × List Accepted) : Input → Prop
  | .pass _ site _ => site ≠ .cookie
  | .go i r => ∀ k part p ops, q.1.threads i = .write k part p :: ops →
      r.accepted (part.bytes p) = part.bytes p

/-- A thread is on the stream exactly when it holds the mutex, and it is at its payload exactly when
the last write was its header. -/
structure Exclusive (s : Sender) (log : List Accepted) (stage : Thread → Stage) : Prop where
  balanced : ∀ i, Balanced (stage i) (s.threads i)
  held : ∀ i, stage i ≠ .outside ↔ s.held .stream = some i
  payload : ∀ i k, stage i = .payload k → log.getLast? = some ⟨k, .header, true⟩
  last : ∀ a, log.getLast? = some a →
    a.whole = true ∧ (a.part = .header → ∃ i, stage i = .payload a.frame)

variable {stage : Thread → Stage} {j : Thread} {op : Op} {ops : List Op}

theorem exclusive_new : Exclusive .new [] fun _ => .outside where
  balanced := fun _ => trivial
  held := fun _ => by simp [Sender.new]
  payload := fun _ _ h => by cases h
  last := fun _ h => by cases h

theorem Exclusive.unique (h : Exclusive s log stage) {i : Thread} (hi : stage i ≠ .outside)
    (hj : stage j ≠ .outside) : i = j :=
  Option.some.inj (((h.held i).mp hi).symm.trans ((h.held j).mp hj))

/-- A thread goes on with its program. -/
theorem Exclusive.balanced_update (h : Exclusive s log stage) {st : Stage}
    (hops : Balanced st ops) (i : Thread) :
    Balanced (Function.update stage j st i) (Function.update s.threads j ops i) := by
  by_cases hi : i = j
  · subst hi
    rw [Function.update_self, Function.update_self]
    exact hops
  · rw [Function.update_of_ne hi, Function.update_of_ne hi]
    exact h.balanced i

/-- A thread that stays where it is goes on with its program. -/
theorem Exclusive.stay (h : Exclusive s log stage) (hops : Balanced (stage j) ops)
    {s' : Sender} (hthreads : s'.threads = Function.update s.threads j ops)
    (hheld : s'.held .stream = s.held .stream) : Exclusive s' log stage where
  balanced := fun i => by
    have hi := h.balanced_update (j := j) hops i
    rwa [Function.update_eq_self, ← hthreads] at hi
  held := fun i => by rw [hheld]; exact h.held i
  payload := h.payload
  last := h.last

/-- A thread on the stream stays on it. -/
theorem Exclusive.held_update (h : Exclusive s log stage) {st : Stage} (hj : stage j ≠ .outside)
    (hst : st ≠ .outside) (i : Thread) :
    Function.update stage j st i ≠ .outside ↔ s.held .stream = some i := by
  by_cases hi : i = j
  · subst hi
    rw [Function.update_self, ← h.held i]
    exact iff_of_true hst hj
  · rw [Function.update_of_ne hi]
    exact h.held i

/-- When one thread writes, no other is at its payload. -/
theorem Exclusive.eq_of_update_payload (h : Exclusive s log stage) {st : Stage} {i : Thread}
    {k : ℕ} (hj : stage j ≠ .outside) (hi : Function.update stage j st i = .payload k) :
    st = .payload k := by
  by_cases hij : i = j
  · rwa [hij, Function.update_self] at hi
  · rw [Function.update_of_ne hij] at hi
    exact absurd (h.unique (by simp [hi]) hj) hij

theorem event_whole {k : ℕ} {part : Part} {p : Outgoing} {r : Outcome}
    (hops : s.threads j = .write k part p :: ops)
    (hwhole : r.accepted (part.bytes p) = part.bytes p) :
    event s (.go j r) = some ⟨k, part, true⟩ := by
  rw [event, hops]
  dsimp only
  rw [if_neg (by rw [hwhole]; exact part.bytes_ne_nil p)]
  simp only [hwhole, decide_true]

/-- **One write under the mutex** is in place. -/
theorem Exclusive.write {k : ℕ} {part : Part} {p : Outgoing} {r : Outcome}
    (h : Exclusive s log stage) (hops : s.threads j = .write k part p :: ops)
    (hwhole : r.accepted (part.bytes p) = part.bytes p) :
    InPlace (s, log) (.go j r) ∧ ∃ stage', Exclusive
      { s with threads := Function.update s.threads j ops, wire := s.wire ++ part.bytes p }
      (log ++ [⟨k, part, true⟩]) stage' := by
  have hevent := event_whole hops hwhole
  have hbalanced := h.balanced j
  rw [hops] at hbalanced
  have hlast : (log ++ [(⟨k, part, true⟩ : Accepted)]).getLast? = some ⟨k, part, true⟩ :=
    List.getLast?_concat
  cases part with
  | header =>
    obtain ⟨hstage, hrest⟩ := hbalanced.write_header
    have hj : stage j ≠ .outside := by simp [hstage]
    refine ⟨fun a ha => ?_, Function.update stage j (.payload k), h.balanced_update hrest,
      h.held_update hj (by simp), fun i k' hi => ?_, fun a ha => ?_⟩
    · obtain rfl := Option.some.inj (hevent.symm.trans ha)
      intro b hb
      obtain ⟨hb, hheader⟩ := h.last b hb
      refine ⟨?_, hb⟩
      rcases hpart : b.part with _ | _
      · -- no other thread is at its payload
        obtain ⟨i, hi⟩ := hheader hpart
        rw [h.unique (i := i) (by simp [hi]) hj, hstage] at hi
        cases hi
      · rfl
    · cases h.eq_of_update_payload hj hi
      exact hlast
    · obtain rfl := Option.some.inj (hlast.symm.trans ha)
      exact ⟨rfl, fun _ => ⟨j, Function.update_self ..⟩⟩
  | payload =>
    obtain ⟨hstage, hrest⟩ := hbalanced.write_payload
    have hj : stage j ≠ .outside := by simp [hstage]
    refine ⟨fun a ha => ?_, Function.update stage j .closing, h.balanced_update hrest,
      h.held_update hj (by simp), fun i k' hi => ?_, fun a ha => ?_⟩
    · obtain rfl := Option.some.inj (hevent.symm.trans ha)
      exact h.payload j k hstage
    · cases h.eq_of_update_payload hj hi
    · obtain rfl := Option.some.inj (hlast.symm.trans ha)
      exact ⟨rfl, fun hpart => by cases hpart⟩

/-- A thread takes the mutex. -/
theorem Exclusive.lock (h : Exclusive s log stage) (hops : s.threads j = .lock .stream :: ops)
    (hfree : s.held .stream = none) : ∃ stage', Exclusive
      { s with
        threads := Function.update s.threads j ops
        held := Function.update s.held .stream (some j) } log stage' := by
  have hbalanced := h.balanced j
  rw [hops, hbalanced.lock] at hbalanced
  obtain ⟨k, hrest⟩ := hbalanced
  have houtside : ∀ i, stage i = .outside := by
    intro i
    by_contra hi
    rw [(h.held i).mp hi] at hfree
    cases hfree
  refine ⟨Function.update stage j (.header k), h.balanced_update hrest, fun i => ?_,
    fun i k' hi => ?_, fun a ha => ?_⟩
  · dsimp only
    rw [Function.update_self, Function.update_apply, houtside i]
    by_cases hi : i = j
    · simp [hi]
    · simp [hi, Ne.symm hi]
  · rw [Function.update_apply, houtside i] at hi
    split_ifs at hi
  · obtain ⟨hwhole, hheader⟩ := h.last a ha
    refine ⟨hwhole, fun hpart => ?_⟩
    obtain ⟨i, hi⟩ := hheader hpart
    rw [houtside i] at hi
    cases hi

/-- A thread lets go of the mutex. -/
theorem Exclusive.unlock (h : Exclusive s log stage)
    (hops : s.threads j = .unlock .stream :: ops) : ∃ stage', Exclusive
      { s with
        threads := Function.update s.threads j ops
        held := Function.update s.held .stream none } log stage' := by
  have hbalanced := h.balanced j
  rw [hops] at hbalanced
  obtain ⟨hstage, hrest⟩ := hbalanced.unlock_stream
  have hj : stage j ≠ .outside := by simp [hstage]
  have houtside : ∀ i, Function.update stage j .outside i = .outside := by
    intro i
    rw [Function.update_apply]
    split_ifs with hij
    · rfl
    · by_contra hi
      exact hij (h.unique hi hj)
  refine ⟨Function.update stage j .outside, h.balanced_update hrest, fun i => ?_,
    fun i k' hi => ?_, fun a ha => ?_⟩
  · dsimp only
    rw [houtside i, Function.update_self]
    simp
  · rw [houtside i] at hi
    cases hi
  · obtain ⟨hwhole, hheader⟩ := h.last a ha
    refine ⟨hwhole, fun hpart => ?_⟩
    obtain ⟨i, hi⟩ := hheader hpart
    rw [h.unique (i := i) (by simp [hi]) hj, hstage] at hi
    cases hi

/-- **One step** under the mutex: its bytes are in place. -/
theorem Exclusive.step (h : Exclusive s log stage) (hwhole : Whole (s, log) i)
    (hstep : step s i = some (s', u)) :
    InPlace (s, log) i ∧ ∃ stage', Exclusive s' (log ++ (event s i).toList) stage' := by
  cases i with
  | pass j site p =>
    have hnone : event s (.pass j site p) = none := rfl
    rw [TcpSender.step] at hstep
    split_ifs at hstep with hidle
    cases hstep
    have hbalanced := h.balanced j
    rw [hidle] at hbalanced
    refine ⟨fun a ha => (by rw [hnone] at ha; cases ha), stage, ?_⟩
    rw [hnone, Option.toList_none, List.append_nil]
    have hstay : Balanced (stage j) (program site s.passed.length p) := by
      rw [hbalanced.nil]
      exact balanced_program hwhole _ p
    exact h.stay hstay rfl rfl
  | go j r =>
    rcases hops : s.threads j with _ | ⟨op, ops⟩
    · rw [TcpSender.step, hops] at hstep
      cases hstep
    · have hbalanced := h.balanced j
      rw [hops] at hbalanced
      cases op with
      | write k part p =>
        have hall := hwhole k part p ops hops
        obtain ⟨hplace, stage', hstage'⟩ := h.write hops hall
        rw [event_whole hops hall, Option.toList_some]
        simp only [TcpSender.step, hops] at hstep
        cases hstep
        rw [hall]
        exact ⟨hplace, stage', hstage'⟩
      | lock m =>
        have hnone : event s (.go j r) = none := by rw [event, hops]
        simp only [TcpSender.step, hops] at hstep
        split_ifs at hstep with hfree
        cases hstep
        refine ⟨fun a ha => (by rw [hnone] at ha; cases ha), ?_⟩
        rw [hnone, Option.toList_none, List.append_nil]
        cases m with
        | sock =>
          have hstay : Balanced (stage j) ops := by
            have hstage := hbalanced.lock
            rwa [hstage] at hbalanced ⊢
          exact ⟨stage, h.stay hstay rfl rfl⟩
        | stream => exact h.lock hops (Option.isNone_iff_eq_none.mp hfree)
      | unlock m =>
        have hnone : event s (.go j r) = none := by rw [event, hops]
        simp only [TcpSender.step, hops] at hstep
        cases hstep
        refine ⟨fun a ha => (by rw [hnone] at ha; cases ha), ?_⟩
        rw [hnone, Option.toList_none, List.append_nil]
        cases m with
        | sock =>
          have hstay : Balanced (stage j) ops := by
            have hstage := hbalanced.unlock_sock
            rwa [hstage] at hbalanced ⊢
          exact ⟨stage, h.stay hstay rfl rfl⟩
        | stream => exact h.unlock hops

/-- **Under the mutex of the stream**, when every write is accepted whole and no cookie reply is
sent, every write is in place. -/
theorem mutex_in_place (h : Machine.Reaches loggedStep Whole (.new, []) (s, log)) :
    Machine.Reaches loggedStep InPlace (.new, []) (s, log) := by
  have hall : ∀ q, Machine.Reaches loggedStep Whole (.new, []) q →
      Machine.Reaches loggedStep InPlace (.new, []) q ∧ ∃ stage, Exclusive q.1 q.2 stage := by
    intro q hq
    induction hq with
    | refl => exact ⟨.refl, _, exclusive_new⟩
    | tail _ hwhole hstep ih =>
      obtain ⟨hreaches, stage, hexclusive⟩ := ih
      obtain ⟨hone, hlog⟩ := Machine.logged_eq_some.mp hstep
      obtain ⟨hplace, stage', hexclusive'⟩ := hexclusive.step hwhole hone
      exact ⟨hreaches.tail hplace hstep, stage', by rw [hlog]; exact hexclusive'⟩
  exact (hall _ h).1

/-! ## Concrete runs -/

/-- Three bytes and one byte. -/
def sampleOutgoing : Outgoing × Outgoing :=
  (⟨[1, 2, 3], by decide, by decide⟩, ⟨[9], by decide, by decide⟩)

/-- A thread goes on, and what it writes is accepted. -/
def goOn (i : Thread) : Input := .go i (.ok maxUdpSize)

/-- Two threads of which the second waits for the first. -/
def sampleInputs : List Input :=
  [.pass 0 .iface sampleOutgoing.1, .pass 1 .reply sampleOutgoing.2, goOn 1, goOn 0, goOn 0, goOn 0,
    goOn 0, goOn 1, goOn 1, goOn 1]

theorem sender_in_place_sample :
    ∃ s : Sender, Decodes s ∧ s.wire = [0, 3, 1, 2, 3, 0, 1, 9] := by
  have hrun : (Machine.run loggedStep (.new, []) sampleInputs).map (fun q => q.1.1.wire) =
      some [0, 3, 1, 2, 3, 0, 1, 9] := by decide
  obtain ⟨⟨⟨s, log⟩, us⟩, hrun, hwire⟩ := Option.map_eq_some_iff.mp hrun
  refine ⟨s, sender_in_place (mutex_in_place (Machine.reaches_of_run_of_forall hrun ?_)), hwire⟩
  intro i hi q
  simp only [sampleInputs, List.mem_cons, List.not_mem_nil, or_false] at hi
  rcases hi with rfl | rfl | rfl | rfl | rfl | rfl | rfl | rfl | rfl | rfl
  · exact Site.noConfusion
  · exact Site.noConfusion
  all_goals exact fun k part p ops _ => List.take_of_length_le (part.length_bytes_le p)

/-- **A short write.** The first payload is not accepted, and the receiver gets the second frame in
its place. -/
theorem short_write :
    ¬ ∀ s : Sender, Machine.Reaches step (fun _ _ => True) .new s → Decodes s := by
  intro hclaim
  let inputs := [.pass 0 .iface sampleOutgoing.1, goOn 0, goOn 0, .go 0 .wouldBlock, goOn 0,
    .pass 0 .iface sampleOutgoing.2, goOn 0, goOn 0, goOn 0]
  have hrun : (Machine.run step .new inputs).map
      (fun q => (q.1.wire, q.1.passed.map Outgoing.bytes)) =
        some ([0, 3, 0, 1, 9], [[1, 2, 3], [9]]) := by decide
  obtain ⟨⟨s, us⟩, hrun, heq⟩ := Option.map_eq_some_iff.mp hrun
  obtain ⟨hwire, hpassed⟩ := Prod.mk.inj heq
  have hfits : Fits [] [([0, 3, 0, 1, 9], 100)] := ⟨by decide, by decide, trivial⟩
  obtain ⟨t, out, hread, -, hbuffered⟩ := run_eq valid_new hfits
  have hout : out = [[[0, 1, 9]]] := (Prod.mk.inj (Option.some.inj hbuffered)).2.symm
  have hpre : bytesRead [([0, 3, 0, 1, 9], 100)] <+: s.wire := by
    rw [hwire]
    decide
  obtain ⟨p, hp, hbytes⟩ := hclaim s (Machine.reaches_of_run hrun) _ t out hfits hpre hread
    [0, 1, 9] (by rw [hout]; decide)
  have hmem := List.mem_map_of_mem (f := Outgoing.bytes) hp
  rw [hbytes, hpassed] at hmem
  exact absurd hmem (by decide)

end TcpSender

end NekoLink.Device
