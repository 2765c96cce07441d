import Mathlib.Logic.Basic
import Mathlib.Data.List.Basic

/-!
# Runs of a partial machine

A machine steps from a state on an input to a state and an output, or has no step. `run` feeds it
a list of inputs, and `Reaches` collects the states that guarded steps lead to.

* `Reaches.invariant` is the induction: what holds at first and is kept by every guarded step
  holds in every state reached.
* `reaches_of_run` gets a reached state from a run, and `reaches_of_guarded_run` from a run of the
  machine that checks its guard.
* `logged` is the machine that also keeps a log of what its steps mean, and `Reaches.logged` adds
  the log to a state reached; `Reaches.filterMap_log` keeps a part of each event.
* `Along` says of a machine that always has a step what holds at every input of a run, and
  `along_congr` replaces what is said by what is the same under an invariant.
* `length_le_of_run`: a run whose steps all lower a measure is not longer than the measure.
* `foldlM_invariant` and `exists_foldlM` are the same induction for a fold that may fail.
-/

namespace Machine

variable {σ ι ω ε : Type*}

section

variable (step : σ → ι → Option (σ × ω))

/-- The outputs of a list of inputs, and the last state. -/
def run (s : σ) : List ι → Option (σ × List ω)
  | [] => some (s, [])
  | i :: is =>
    (step s i).bind fun r => (run r.1 is).map fun q => (q.1, r.2 :: q.2)

/-- The states reached from `s₀` by steps that meet the guard `Q`. -/
inductive Reaches (Q : σ → ι → Prop) (s₀ : σ) : σ → Prop
  | refl : Reaches Q s₀ s₀
  | tail {s s' : σ} {i : ι} {o : ω} (h : Reaches Q s₀ s) (hQ : Q s i)
      (hstep : step s i = some (s', o)) : Reaches Q s₀ s'

/-- The machine that stops where the guard `Q` is not met. -/
def guarded (Q : σ → ι → Prop) [∀ s i, Decidable (Q s i)] (s : σ) (i : ι) : Option (σ × ω) :=
  if Q s i then step s i else none

/-- The machine with a log, to which a step adds its event. -/
def logged (event : σ → ι → Option ε) (q : σ × List ε) (i : ι) : Option ((σ × List ε) × ω) :=
  (step q.1 i).map fun r => ((r.1, q.2 ++ (event q.1 i).toList), r.2)

end

variable {step : σ → ι → Option (σ × ω)} {Q Q' : σ → ι → Prop} {I : σ → Prop} {s₀ s s' s'' : σ}
  {event : σ → ι → Option ε}

@[simp] theorem run_nil : run step s [] = some (s, []) := rfl

theorem run_cons_of_step {i : ι} {o : ω} {is : List ι} (h : step s i = some (s', o)) :
    run step s (i :: is) = (run step s' is).map fun q => (q.1, o :: q.2) := by
  rw [run, h, Option.bind_some]

theorem logged_eq_some {q q' : σ × List ε} {i : ι} {o : ω} :
    logged step event q i = some (q', o) ↔
      step q.1 i = some (q'.1, o) ∧ q'.2 = q.2 ++ (event q.1 i).toList := by
  obtain ⟨s', log'⟩ := q'
  constructor
  · intro h
    obtain ⟨⟨s₁, o₁⟩, hstep, heq⟩ := Option.map_eq_some_iff.mp h
    cases heq
    exact ⟨hstep, rfl⟩
  · rintro ⟨hstep, rfl⟩
    rw [logged, hstep, Option.map_some]

theorem logged_of_step {i : ι} {o : ω} (h : step s i = some (s', o)) (log : List ε) :
    logged step event (s, log) i = some ((s', log ++ (event s i).toList), o) :=
  logged_eq_some.mpr ⟨h, rfl⟩

/-- A run of one more input is a step and a run. -/
theorem run_cons_eq_some {i : ι} {is : List ι} {os : List ω} :
    run step s (i :: is) = some (s'', os) ↔
      ∃ s' o os', step s i = some (s', o) ∧ run step s' is = some (s'', os') ∧ os = o :: os' := by
  constructor
  · intro h
    obtain ⟨⟨s', o⟩, hstep, hrest⟩ := Option.bind_eq_some_iff.mp h
    obtain ⟨⟨t, os'⟩, hrun, heq⟩ := Option.map_eq_some_iff.mp hrest
    simp only [Prod.mk.injEq] at heq
    obtain ⟨rfl, rfl⟩ := heq
    exact ⟨s', o, os', hstep, hrun, rfl⟩
  · rintro ⟨s', o, os', hstep, hrun, rfl⟩
    rw [run_cons_of_step hstep, hrun, Option.map_some]

namespace Reaches

/-- **The invariant rule.** -/
theorem invariant (h : Reaches step Q s₀ s) (h0 : I s₀)
    (hkeep : ∀ s i s' o, I s → Q s i → step s i = some (s', o) → I s') : I s := by
  induction h with
  | refl => exact h0
  | tail _ hQ hstep ih => exact hkeep _ _ _ _ ih hQ hstep

theorem mono (h : Reaches step Q s₀ s) (hQ : ∀ s i, Q s i → Q' s i) : Reaches step Q' s₀ s := by
  induction h with
  | refl => exact .refl
  | tail _ hq hstep ih => exact ih.tail (hQ _ _ hq) hstep

theorem trans (h : Reaches step Q s₀ s) (h' : Reaches step Q s s') : Reaches step Q s₀ s' := by
  induction h' with
  | refl => exact h
  | tail _ hq hstep ih => exact ih.tail hq hstep

/-- A first step before the others. -/
theorem head {i : ι} {o : ω} (hQ : Q s i) (hstep : step s i = some (s', o))
    (h : Reaches step Q s' s'') : Reaches step Q s s'' :=
  (Reaches.refl.tail hQ hstep).trans h

/-- Every state reached is reached with some log. -/
theorem logged (event : σ → ι → Option ε) (h : Reaches step Q s₀ s) (log : List ε) :
    ∃ log', Reaches (Machine.logged step event) (fun q i => Q q.1 i) (s₀, log) (s, log') := by
  induction h with
  | refl => exact ⟨log, .refl⟩
  | tail _ hQ hstep ih =>
    obtain ⟨log', h'⟩ := ih
    exact ⟨_, h'.tail hQ (logged_of_step hstep log')⟩

/-- A log of a part of each event. -/
theorem filterMap_log {ε' : Type*} {event' : σ → ι → Option ε'} {f : ε → Option ε'}
    {log log' : List ε} (hevent : ∀ s i, event' s i = (event s i).bind f)
    (h : Reaches (Machine.logged step event) (fun _ _ => True) (s, log) (s', log')) :
    Reaches (Machine.logged step event') (fun _ _ => True) (s, log.filterMap f)
      (s', log'.filterMap f) := by
  generalize hq : (s', log') = q at h
  induction h generalizing s' log' with
  | refl =>
    cases hq
    exact .refl
  | @tail q₁ q₂ i o _ _ hstep ih =>
    obtain ⟨s₁, log₁⟩ := q₁
    subst hq
    obtain ⟨hstep, hlog⟩ := logged_eq_some.mp hstep
    have hpart : log'.filterMap f = log₁.filterMap f ++ (event' s₁ i).toList := by
      have hlog' : log' = log₁ ++ (event s₁ i).toList := hlog
      rw [hlog', List.filterMap_append, hevent]
      cases event s₁ i with
      | none => rfl
      | some e => cases h : f e <;> simp [h]
    exact (ih rfl).tail trivial (logged_eq_some.mpr ⟨hstep, hpart⟩)

end Reaches

/-- A run of inputs that meet the guard wherever they come. -/
theorem reaches_of_run_of_forall {is : List ι} {os : List ω} (h : run step s is = some (s', os))
    (hQ : ∀ i ∈ is, ∀ s, Q s i) : Reaches step Q s s' := by
  induction is generalizing s os with
  | nil =>
    simp only [run_nil, Option.some.injEq, Prod.mk.injEq] at h
    obtain ⟨rfl, -⟩ := h
    exact .refl
  | cons i is ih =>
    obtain ⟨t, o, os', hstep, hrun, -⟩ := run_cons_eq_some.mp h
    exact .head (hQ i List.mem_cons_self s) hstep
      (ih hrun fun j hj => hQ j (List.mem_cons_of_mem _ hj))

theorem reaches_of_run {is : List ι} {os : List ω} (h : run step s is = some (s', os)) :
    Reaches step (fun _ _ => True) s s' :=
  reaches_of_run_of_forall h fun _ _ _ => trivial

/-- A run of the guarded machine meets the guard all along. -/
theorem reaches_of_guarded_run [∀ s i, Decidable (Q s i)] {is : List ι} {os : List ω}
    (h : run (guarded step Q) s is = some (s', os)) : Reaches step Q s s' := by
  induction is generalizing s os with
  | nil =>
    cases h
    exact .refl
  | cons i is ih =>
    obtain ⟨t, o, os', hstep, hrun, -⟩ := run_cons_eq_some.mp h
    rw [guarded] at hstep
    split_ifs at hstep with hQ
    exact .head hQ hstep (ih hrun)

/-- **A run that must end**: under an invariant, each of its steps lowers the measure. -/
theorem length_le_of_run {P : ι → Prop} {w : σ → ℕ} {is : List ι} {os : List ω}
    (h : run step s is = some (s', os)) (hs : I s) (hP : ∀ i ∈ is, P i)
    (hstep : ∀ s i s' o, I s → P i → step s i = some (s', o) → I s' ∧ w s' < w s) :
    is.length ≤ w s := by
  induction is generalizing s os with
  | nil => exact Nat.zero_le _
  | cons i is ih =>
    obtain ⟨t, o, os', hfirst, hrun, -⟩ := run_cons_eq_some.mp h
    obtain ⟨ht, hlt⟩ := hstep s i t o hs (hP i List.mem_cons_self) hfirst
    have hle := ih hrun ht fun j hj => hP j (List.mem_cons_of_mem _ hj)
    rw [List.length_cons]
    omega

/-! ## Logs -/

/-- The last event of a kind, after one more event. -/
theorem find?_reverse_append (log : List ε) (e : ε) (p : ε → Bool) :
    (log ++ [e]).reverse.find? p = if p e then some e else log.reverse.find? p := by
  rw [List.reverse_append, List.reverse_singleton, List.singleton_append, List.find?_cons]
  cases p e <;> rfl

/-! ## Machines that always have a step -/

/-- Every input of a run meets `Q` in the state in which it comes. -/
def Along (next : σ → ι → σ) (Q : σ → ι → Prop) : σ → List ι → Prop
  | _, [] => True
  | s, i :: is => Q s i ∧ Along next Q (next s i) is

section

variable {next : σ → ι → σ} {is : List ι}

theorem along_cons {i : ι} :
    Along next Q s (i :: is) ↔ Q s i ∧ Along next Q (next s i) is := Iff.rfl

/-- What is the same as `Q` under an invariant that `Q` keeps is met along the same runs. -/
theorem along_congr (h0 : I s) (hQ : ∀ s i, I s → (Q s i ↔ Q' s i))
    (hkeep : ∀ s i, I s → Q s i → I (next s i)) : Along next Q s is ↔ Along next Q' s is := by
  induction is generalizing s with
  | nil => exact Iff.rfl
  | cons i is ih =>
    rw [along_cons, along_cons, hQ s i h0]
    exact and_congr_right fun hi => ih (hkeep s i h0 ((hQ s i h0).mpr hi))

/-- What follows from `Q` under an invariant that `Q` keeps is met wherever `Q` is. -/
theorem Along.imp (h : Along next Q s is) (h0 : I s) (hQ : ∀ s i, I s → Q s i → Q' s i)
    (hkeep : ∀ s i, I s → Q s i → I (next s i)) : Along next Q' s is := by
  induction is generalizing s with
  | nil => trivial
  | cons i is ih => exact ⟨hQ s i h0 h.1, ih h.2 (hkeep s i h0 h.1)⟩

end

/-! ## Folds that may fail -/

section

variable {α β : Type*} {f : β → α → Option β} {p : β → Prop} {l : List α} {b b' : β}

/-- What is kept by every step is kept by a fold. -/
theorem foldlM_invariant (hstep : ∀ b b', ∀ a ∈ l, p b → f b a = some b' → p b') (hb : p b)
    (h : l.foldlM f b = some b') : p b' := by
  induction l generalizing b with
  | nil =>
    cases h
    exact hb
  | cons a l ih =>
    rw [List.foldlM_cons] at h
    obtain ⟨b₁, hfirst, hrest⟩ := Option.bind_eq_some_iff.mp h
    exact ih (fun b b' x hx => hstep b b' x (List.mem_cons_of_mem a hx))
      (hstep b b₁ a List.mem_cons_self hb hfirst) hrest

/-- A fold succeeds when every step does from what is kept. -/
theorem exists_foldlM (hstep : ∀ b, ∀ a ∈ l, p b → ∃ b', f b a = some b' ∧ p b') (hb : p b) :
    ∃ b', l.foldlM f b = some b' ∧ p b' := by
  induction l generalizing b with
  | nil => exact ⟨b, rfl, hb⟩
  | cons a l ih =>
    obtain ⟨b₁, hfirst, hb₁⟩ := hstep b a List.mem_cons_self hb
    obtain ⟨b', hrest, hb'⟩ := ih (fun b x hx => hstep b x (List.mem_cons_of_mem a hx)) hb₁
    refine ⟨b', ?_, hb'⟩
    rw [List.foldlM_cons, hfirst]
    exact hrest

end

end Machine
