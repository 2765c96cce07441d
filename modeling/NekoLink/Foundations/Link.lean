import NekoLink.Foundations.Runs

/-!
# Two parties over a lossy network

Two machines of one kind and the messages each has sent. A delivery hands a party any message the
other one has sent, so the network may drop, duplicate and reorder them, but makes none up.

* `Party.reaches_b`: what the second party does in a run of the two is a run of its own.
-/

namespace Machine

variable {σ ι ω δ μ ε : Type*}

/-- A machine that talks: the inputs it takes without the network, how a message is delivered, and
the messages an output sends. -/
structure Party (σ ι ω δ μ : Type*) where
  step : σ → ι → Option (σ × ω)
  own : ι → Bool
  deliver : δ → μ → ι
  messages : ω → List μ

/-- Two parties, and what each has sent. -/
structure Link (σ μ : Type*) where
  a : σ
  b : σ
  sentA : List μ
  sentB : List μ

inductive Side
  | a
  | b

/-- An input of the party's own, or the delivery of the `n`-th message of the other side. -/
inductive Move (ι δ : Type*)
  | call (i : ι)
  | deliver (d : δ) (n : ℕ)

namespace Party

variable (P : Party σ ι ω δ μ)

/-- The input a move is, when the other side has sent these messages. -/
def input (sent : List μ) : Move ι δ → Option ι
  | .call i => if P.own i then some i else none
  | .deliver d n => sent[n]?.map (P.deliver d)

/-- One side moves. -/
def move (l : Link σ μ) : Side × Move ι δ → Option (Link σ μ × ω)
  | (.a, m) =>
    (P.input l.sentB m).bind fun i => (P.step l.a i).map fun r =>
      ({ l with a := r.1, sentA := l.sentA ++ P.messages r.2 }, r.2)
  | (.b, m) =>
    (P.input l.sentA m).bind fun i => (P.step l.b i).map fun r =>
      ({ l with b := r.1, sentB := l.sentB ++ P.messages r.2 }, r.2)

/-- The events of the second party. -/
def eventB (event : σ → ι → Option ε) (l : Link σ μ) : Side × Move ι δ → Option ε
  | (.a, _) => none
  | (.b, m) => (P.input l.sentA m).bind (event l.b)

/-- A guard on the second party's inputs. -/
def guardB (Q : σ → ι → Prop) (l : Link σ μ) : Side × Move ι δ → Prop
  | (.a, _) => True
  | (.b, m) => ∀ i, P.input l.sentA m = some i → Q l.b i

variable {P} {event : σ → ι → Option ε} {Q : σ → ι → Prop} {l l' : Link σ μ} {m : Move ι δ} {o : ω}

theorem guardB_true (l : Link σ μ) (m : Side × Move ι δ) : P.guardB (fun _ _ => True) l m := by
  obtain ⟨_ | _, m⟩ := m
  · trivial
  · exact fun _ _ => trivial

/-- A move of the first party is a step of it, and leaves the second one alone. -/
theorem move_a (h : P.move l (.a, m) = some (l', o)) :
    ∃ i, P.input l.sentB m = some i ∧ P.step l.a i = some (l'.a, o) ∧ l'.b = l.b := by
  obtain ⟨i, hi, h⟩ := Option.bind_eq_some_iff.mp h
  obtain ⟨r, hstep, heq⟩ := Option.map_eq_some_iff.mp h
  cases heq
  exact ⟨i, hi, hstep, rfl⟩

/-- A move of the second party is a step of it. -/
theorem move_b (h : P.move l (.b, m) = some (l', o)) :
    ∃ i, P.input l.sentA m = some i ∧ P.step l.b i = some (l'.b, o) := by
  obtain ⟨i, hi, h⟩ := Option.bind_eq_some_iff.mp h
  obtain ⟨r, hstep, heq⟩ := Option.map_eq_some_iff.mp h
  cases heq
  exact ⟨i, hi, hstep⟩

/-- **The second party's part of a run** is a run of it, with the same log. -/
theorem reaches_b {q q' : Link σ μ × List ε}
    (h : Reaches (logged P.move (P.eventB event)) (fun q i => P.guardB Q q.1 i) q q') :
    Reaches (logged P.step event) (fun q i => Q q.1 i) (q.1.b, q.2) (q'.1.b, q'.2) := by
  induction h with
  | refl => exact .refl
  | tail h hQ hstep ih =>
    obtain ⟨hmove, hlog⟩ := logged_eq_some.mp hstep
    rename_i q₁ q₂ i o
    obtain ⟨_ | _, m⟩ := i
    · obtain ⟨-, -, -, hb⟩ := move_a hmove
      rw [hb, hlog]
      simpa [eventB] using ih
    · obtain ⟨i, hi, hi'⟩ := move_b hmove
      have hevent : P.eventB event q₁.1 (.b, m) = event q₁.1.b i := by
        rw [eventB, hi, Option.bind_some]
      refine ih.tail (hQ i hi) (o := o) (logged_eq_some.mpr ⟨hi', ?_⟩)
      rw [hlog, hevent]

end Party

end Machine
