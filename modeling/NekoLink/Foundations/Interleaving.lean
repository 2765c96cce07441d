import NekoLink.Foundations.Runs
import Mathlib.Algebra.GroupWithZero.Nat
import Mathlib.Data.List.Count
import Mathlib.Logic.Function.Basic

/-!
# Processes over a shared state

A pool has what its processes share and, for each call ever made, where it is. A move lets a call
begin, or one process take an atomic step, which may have to wait. The order of the moves is
arbitrary. A thread that makes one call after another is a process for each of its calls.

* `step_cases` says what a move does.
* `reaches_of_alone` puts the steps of one process on its own into the pool.
* `countP_enter`, `countP_go_same` and `countP_go_new` count the processes of a kind after a move.
* `Tally` ties such a count to the shared state, and `Tally.step` keeps it through a move.
* `sum_set_le` is what a move does to the sum of the weights of the processes.
* `reaches_at`: processes on several shared states are processes on each of them.
* `forall_procs_of_step` keeps what holds of each process by itself, and `forall_at_of_step` what
  holds of each process in the shared state.
* `step_map`: processes seen through a map are processes.
-/

namespace Interleaving

variable {σ κ ν ι : Type*}

structure Pool (σ κ : Type*) where
  shared : σ
  procs : List κ

inductive Move (ν ι : Type*)
  | enter (call : ν)
  | go (i : ℕ) (input : ι)

section

variable (enter : ν → κ) (atomic : ℕ → σ → κ → ι → Option (σ × κ))

def step (p : Pool σ κ) : Move ν ι → Option (Pool σ κ × Unit)
  | .enter call => some ({ p with procs := p.procs ++ [enter call] }, ())
  | .go i input =>
    p.procs[i]?.bind fun k =>
      (atomic i p.shared k input).map fun r => (⟨r.1, p.procs.set i r.2⟩, ())

end

variable {enter : ν → κ} {atomic : ℕ → σ → κ → ι → Option (σ × κ)} {p p' : Pool σ κ}
  {m : Move ν ι} {o : Unit} {i : ℕ} {k k' : κ} {input : ι} {s' : σ}

theorem step_go (hk : p.procs[i]? = some k) (h : atomic i p.shared k input = some (s', k')) :
    step enter atomic p (.go i input) = some (⟨s', p.procs.set i k'⟩, ()) := by
  rw [step, hk, Option.bind_some, h, Option.map_some]

/-- **What a move does.** -/
theorem step_cases (h : step enter atomic p m = some (p', o)) :
    (∃ call, m = .enter call ∧ p' = { p with procs := p.procs ++ [enter call] }) ∨
      ∃ i input k s' k', m = .go i input ∧ p.procs[i]? = some k ∧
        atomic i p.shared k input = some (s', k') ∧ p' = ⟨s', p.procs.set i k'⟩ := by
  cases m with
  | enter call =>
    cases h
    exact Or.inl ⟨call, rfl, rfl⟩
  | go i input =>
    obtain ⟨k, hk, h⟩ := Option.bind_eq_some_iff.mp h
    obtain ⟨⟨s', k'⟩, hatomic, heq⟩ := Option.map_eq_some_iff.mp h
    cases heq
    exact Or.inr ⟨i, input, k, s', k', rfl, hk, hatomic, rfl⟩

theorem length_le_of_step (h : step enter atomic p m = some (p', o)) :
    p.procs.length ≤ p'.procs.length := by
  obtain ⟨call, -, rfl⟩ | ⟨i, input, k, s', k', -, -, -, rfl⟩ := step_cases h
  · rw [List.length_append]
    exact Nat.le_add_right _ _
  · exact Nat.le_of_eq List.length_set.symm

/-! ## A process on its own -/

/-- The steps of process `i` between which no other process takes one. -/
def alone (atomic : ℕ → σ → κ → ι → Option (σ × κ)) (i : ℕ) (q : σ × κ) (input : ι) :
    Option ((σ × κ) × Unit) :=
  (atomic i q.1 q.2 input).map fun q' => (q', ())

theorem alone_eq_some {q q' : σ × κ} (h : atomic i q.1 q.2 input = some q') :
    alone atomic i q input = some (q', ()) := by
  rw [alone, h, Option.map_some]

/-- What a process does on its own, it does in the pool. -/
theorem reaches_of_alone {Q : σ × κ → ι → Prop} {q q' : σ × κ} {procs : List κ}
    (h : Machine.Reaches (alone atomic i) Q q q') (hk : procs[i]? = some q.2) :
    Machine.Reaches (step enter atomic) (fun _ m => ∃ input, m = .go i input) ⟨q.1, procs⟩
      ⟨q'.1, procs.set i q'.2⟩ := by
  obtain ⟨hi, hget⟩ := List.getElem?_eq_some_iff.mp hk
  induction h with
  | refl =>
    rw [← hget, List.set_getElem_self]
    exact .refl
  | @tail q₁ q₂ input _ _ _ hstep ih =>
    obtain ⟨⟨s₂, k₂⟩, hatomic, heq⟩ := Option.map_eq_some_iff.mp hstep
    cases heq
    have hk₁ : (procs.set i q₁.2)[i]? = some q₁.2 := by rw [List.getElem?_set_self hi]
    have hlast := ih.tail ⟨input, rfl⟩ (step_go (p := ⟨q₁.1, procs.set i q₁.2⟩) hk₁ hatomic)
    rwa [List.set_set] at hlast

/-! ## Counting processes -/

section

variable {f : κ → Bool}

theorem countP_enter (procs : List κ) (h : f k = false) :
    (procs ++ [k]).countP f = procs.countP f := by
  rw [List.countP_append, List.countP_singleton, h]
  rfl

/-- A process that stays of the kind, or stays outside it. -/
theorem countP_go_same {procs : List κ} (hk : procs[i]? = some k) (h : f k' = f k) :
    (procs.set i k').countP f = procs.countP f := by
  obtain ⟨hi, rfl⟩ := List.getElem?_eq_some_iff.mp hk
  rw [List.countP_set hi, h]
  have hpos : f procs[i] = true → 0 < procs.countP f :=
    fun hf => List.countP_pos_iff.mpr ⟨_, List.getElem_mem hi, hf⟩
  split_ifs with hf
  · have := hpos hf
    omega
  · rfl

/-- A process that becomes of the kind. -/
theorem countP_go_new {procs : List κ} (hk : procs[i]? = some k) (h : f k = false)
    (h' : f k' = true) : (procs.set i k').countP f = procs.countP f + 1 := by
  obtain ⟨hi, rfl⟩ := List.getElem?_eq_some_iff.mp hk
  rw [List.countP_set hi, h, h']
  rfl

theorem countP_set_add {procs : List κ} (hk : procs[i]? = some k) (k' : κ) :
    (procs.set i k').countP f + (f k).toNat = procs.countP f + (f k').toNat := by
  obtain ⟨hi, rfl⟩ := List.getElem?_eq_some_iff.mp hk
  have hpos : f procs[i] = true → 0 < procs.countP f :=
    fun hf => List.countP_pos_iff.mpr ⟨_, List.getElem_mem hi, hf⟩
  rw [List.countP_set hi]
  cases hf : f procs[i] with
  | false => cases f k' <;> simp
  | true =>
    have := hpos hf
    cases f k' <;> simp <;> omega

theorem countP_pos_of_get {procs : List κ} (hk : procs[i]? = some k) (h : f k = true) :
    0 < procs.countP f :=
  List.countP_pos_iff.mpr ⟨k, List.mem_of_getElem? hk, h⟩

/-- Of a kind that has one process at most there are no two. -/
theorem eq_of_countP_le_one {procs : List κ} {j : ℕ} (hone : procs.countP f ≤ 1)
    (hi : procs[i]? = some k) (hj : procs[j]? = some k') (hk : f k = true) (hk' : f k' = true) :
    i = j := by
  by_contra hij
  obtain ⟨hlt, rfl⟩ := List.getElem?_eq_some_iff.mp hi
  by_cases hnone : ∃ q : κ, f q = false
  · obtain ⟨q, hq⟩ := hnone
    -- Process `i` is taken out of the kind, and process `j` still counts.
    have hset := countP_set_add (f := f) hi q
    rw [hk, hq] at hset
    have hget : (procs.set i q)[j]? = some k' := by rwa [List.getElem?_set_ne hij]
    have hpos := countP_pos_of_get hget hk'
    simp only [Bool.toNat_true, Bool.toNat_false] at hset
    omega
  · have hall : ∀ q, f q = true := fun q => by
      by_contra hq
      exact hnone ⟨q, by rwa [Bool.not_eq_true] at hq⟩
    have hlen : procs.countP f = procs.length := List.countP_eq_length.mpr fun q _ => hall q
    obtain ⟨hlt', -⟩ := List.getElem?_eq_some_iff.mp hj
    omega

end

/-! ## Tallies -/

/-- The shared state counts the processes of a kind. -/
def Tally (f : κ → Bool) (g : σ → ℕ) (p : Pool σ κ) : Prop := p.procs.countP f = g p.shared

namespace Tally

variable {f : κ → Bool} {g : σ → ℕ}

theorem pos (h : Tally f g p) (hk : p.procs[i]? = some k) (hf : f k = true) : 0 < g p.shared :=
  lt_of_lt_of_eq (countP_pos_of_get hk hf) h

/-- A flag of the shared state that says whether there is a process of the kind. -/
theorem eq_true {flag : σ → Bool} (h : Tally f (fun s => (flag s).toNat) p)
    (hk : p.procs[i]? = some k) (hf : f k = true) : flag p.shared = true :=
  Bool.toNat_eq_one.mp (Nat.le_antisymm (Bool.toNat_le _) (h.pos hk hf))

theorem exists_of_eq_true {flag : σ → Bool} (h : Tally f (fun s => (flag s).toNat) p)
    (hflag : flag p.shared = true) : ∃ (j : ℕ) (q : κ), p.procs[j]? = some q ∧ f q = true := by
  have hcount : p.procs.countP f = (flag p.shared).toNat := h
  obtain ⟨q, hq, hf⟩ := List.countP_pos_iff.mp (by rw [hcount, hflag]; decide : 0 < p.procs.countP f)
  obtain ⟨j, hj⟩ := List.mem_iff_getElem?.mp hq
  exact ⟨j, q, hj, hf⟩

theorem unique {flag : σ → Bool} {j : ℕ} (h : Tally f (fun s => (flag s).toNat) p)
    (hi : p.procs[i]? = some k) (hj : p.procs[j]? = some k') (hk : f k = true)
    (hk' : f k' = true) : i = j :=
  eq_of_countP_le_one (Nat.le_trans (Nat.le_of_eq h) (Bool.toNat_le _)) hi hj hk hk'

/-- A process of the kind takes one count with it, wherever it goes. -/
theorem step (h : Tally f g p) (hstep : step enter atomic p m = some (p', o))
    (henter : ∀ call, f (enter call) = false)
    (hgo : ∀ i input k s' k', p.procs[i]? = some k → atomic i p.shared k input = some (s', k') →
      g s' + (f k).toNat = g p.shared + (f k').toNat) : Tally f g p' := by
  obtain ⟨call, -, rfl⟩ | ⟨i, input, k, s', k', -, hk, hatomic, rfl⟩ := step_cases hstep
  · exact (countP_enter _ (henter call)).trans h
  · have hset := countP_set_add (f := f) hk k'
    have hshared := hgo i input k s' k' hk hatomic
    have hcount : p.procs.countP f = g p.shared := h
    show (p.procs.set i k').countP f = g s'
    omega

end Tally

/-! ## Weights -/

/-- The weights of the processes when one of them goes on and each of the others gains `d` at
most. -/
theorem sum_set_le {w w' : κ → ℕ} {d : ℕ} {procs : List κ} (hk : procs[i]? = some k)
    (hd : ∀ q ∈ procs, w' q ≤ w q + d) :
    ((procs.set i k').map w').sum + w k + d ≤ (procs.map w).sum + w' k' + procs.length * d := by
  induction procs generalizing i with
  | nil => simp at hk
  | cons q procs ih =>
    cases i with
    | zero =>
      cases Option.some.inj hk
      have hrest : (procs.map w').sum ≤ (procs.map w).sum + procs.length * d := by
        clear ih hk
        induction procs with
        | nil => simp
        | cons r procs ih =>
          have hr := hd r (by simp)
          have := ih fun q hq => hd q (by
            obtain rfl | hq := List.mem_cons.mp hq
            · simp
            · simp [hq])
          simp only [List.map_cons, List.sum_cons, List.length_cons, Nat.succ_mul]
          omega
      simp only [List.set_cons_zero, List.map_cons, List.sum_cons, List.length_cons, Nat.succ_mul]
      omega
    | succ i =>
      have hq := hd q (by simp)
      have := ih (i := i) hk fun r hr => hd r (List.mem_cons_of_mem q hr)
      simp only [List.set_cons_succ, List.map_cons, List.sum_cons, List.length_cons, Nat.succ_mul]
      omega

/-! ## Runs -/

/-- **What holds of each process by itself**: it holds when a call begins, and a step of a process
gives it again. -/
theorem forall_procs_of_step {L : κ → Prop} (hprocs : ∀ k ∈ p.procs, L k)
    (h : step enter atomic p m = some (p', o)) (henter : ∀ call, m = .enter call → L (enter call))
    (hgo : ∀ i input k s' k', m = .go i input → k ∈ p.procs →
      atomic i p.shared k input = some (s', k') → L k') : ∀ k ∈ p'.procs, L k := by
  obtain ⟨call, hm, rfl⟩ | ⟨i, input, k, s', k', hm, hk, hatomic, rfl⟩ := step_cases h
  · intro q hq
    obtain hq | hq := List.mem_append.mp hq
    · exact hprocs q hq
    · rw [List.mem_singleton.mp hq]
      exact henter call hm
  · intro q hq
    obtain hq | rfl := List.mem_or_eq_of_mem_set hq
    · exact hprocs q hq
    · exact hgo i input k s' _ hm (List.mem_of_getElem? hk) hatomic

/-- **What holds of each process in the shared state**: a step gives it again for the process that
takes it, and leaves it to the others. -/
theorem forall_at_of_step {L : σ → κ → Prop}
    (hprocs : ∀ (j : ℕ) (k : κ), p.procs[j]? = some k → L p.shared k)
    (h : step enter atomic p m = some (p', o)) (henter : ∀ call, L p.shared (enter call))
    (hgo : ∀ i input k s' k', p.procs[i]? = some k → atomic i p.shared k input = some (s', k') →
      L s' k' ∧ ∀ (j : ℕ) (q : κ), j ≠ i → p.procs[j]? = some q → L s' q) :
    ∀ (j : ℕ) (k : κ), p'.procs[j]? = some k → L p'.shared k := by
  obtain ⟨call, -, rfl⟩ | ⟨i, input, k, s', k', -, hk, hatomic, rfl⟩ := step_cases h
  · intro j q hq
    obtain hq | hq := List.mem_append.mp (List.mem_of_getElem? hq)
    · obtain ⟨j', hj'⟩ := List.mem_iff_getElem?.mp hq
      exact hprocs j' q hj'
    · rw [List.mem_singleton.mp hq]
      exact henter call
  · obtain ⟨hself, hothers⟩ := hgo i input k s' k' hk hatomic
    intro j q hq
    by_cases hj : j = i
    · subst hj
      obtain ⟨hlt, -⟩ := List.getElem?_eq_some_iff.mp hk
      rw [List.getElem?_set_self hlt] at hq
      cases hq
      exact hself
    · rw [List.getElem?_set_ne (Ne.symm hj)] at hq
      exact hothers j q hj hq

/-! ## Processes through a map -/

section Map

variable {τ μ ν' ι' : Type*} {enter' : ν' → μ} {atomic' : ℕ → τ → μ → ι' → Option (τ × μ)}

def Pool.map (g : σ → τ) (f : κ → μ) (p : Pool σ κ) : Pool τ μ := ⟨g p.shared, p.procs.map f⟩

/-- **A simulation**: where each step of a process is a step of its image or leaves it alone, so is
each move of the pool. -/
theorem step_map {g : σ → τ} {f : κ → μ} (h : step enter atomic p m = some (p', o))
    (henter : ∀ call, ∃ call', f (enter call) = enter' call')
    (hgo : ∀ i s k input s' k', atomic i s k input = some (s', k') →
      (g s' = g s ∧ f k' = f k) ∨
        ∃ input', atomic' i (g s) (f k) input' = some (g s', f k')) :
    p'.map g f = p.map g f ∨ ∃ m', step enter' atomic' (p.map g f) m' = some (p'.map g f, ()) := by
  obtain ⟨call, -, rfl⟩ | ⟨i, input, k, s', k', -, hk, hatomic, rfl⟩ := step_cases h
  · obtain ⟨call', hcall⟩ := henter call
    refine Or.inr ⟨.enter call', ?_⟩
    simp only [step, Pool.map, List.map_append, List.map_singleton, hcall]
  · have hget : (p.map g f).procs[i]? = some (f k) := by
      simp only [Pool.map, List.getElem?_map, hk, Option.map_some]
    obtain ⟨hg, hf⟩ | ⟨input', himage⟩ := hgo i _ k input s' k' hatomic
    · left
      simp only [Pool.map, hg, List.map_set, hf]
      congr 1
      obtain ⟨hi, hget⟩ := List.getElem?_eq_some_iff.mp hget
      rw [← hget]
      exact List.set_getElem_self hi
    · refine Or.inr ⟨.go i input', ?_⟩
      rw [step_go hget himage]
      simp only [Pool.map, List.map_set]

end Map

/-! ## Several shared states -/

section Family

variable {ξ : Type*} [DecidableEq ξ]

/-- A call on one of several shared states. -/
def enterAt (enter : ν → κ) (call : ξ × ν) : ξ × κ := (call.1, enter call.2)

def atomicAt (atomic : ℕ → σ → κ → ι → Option (σ × κ)) (i : ℕ) (s : ξ → σ) (k : ξ × κ)
    (input : ι) : Option ((ξ → σ) × (ξ × κ)) :=
  (atomic i (s k.1) k.2 input).map fun r => (Function.update s k.1 r.1, (k.1, r.2))

/-- What a pool looks like from one of the states: the calls on the others stay where they are. -/
def Pool.at (idle : κ) (p : Pool (ξ → σ) (ξ × κ)) (x : ξ) : Pool σ κ :=
  ⟨p.shared x, p.procs.map fun k => if k.1 = x then k.2 else idle⟩

theorem length_at (idle : κ) (p : Pool (ξ → σ) (ξ × κ)) (x : ξ) :
    (p.at idle x).procs.length = p.procs.length :=
  List.length_map ..

theorem at_enter (idle : κ) (p : Pool (ξ → σ) (ξ × κ)) (x : ξ) (k : ξ × κ) :
    Pool.at idle { p with procs := p.procs ++ [k] } x =
      { p.at idle x with
        procs := (p.at idle x).procs ++ [if k.1 = x then k.2 else idle] } := by
  rw [Pool.at, List.map_append, List.map_singleton]
  rfl

theorem at_go (idle : κ) (p : Pool (ξ → σ) (ξ × κ)) (x : ξ) (i : ℕ) (s' : σ) (k' : κ) :
    Pool.at idle ⟨Function.update p.shared x s', p.procs.set i (x, k')⟩ x =
      ⟨s', (p.at idle x).procs.set i k'⟩ := by
  simp only [Pool.at, List.map_set, if_pos, Function.update_self]

/-- A step on another state. -/
theorem at_go_other (idle : κ) (p : Pool (ξ → σ) (ξ × κ)) {x y : ξ} (hy : y ≠ x) (i : ℕ) (s' : σ)
    (k k' : κ) (hk : p.procs[i]? = some (y, k)) :
    Pool.at idle ⟨Function.update p.shared y s', p.procs.set i (y, k')⟩ x = p.at idle x := by
  obtain ⟨hi, hget⟩ := List.getElem?_eq_some_iff.mp hk
  have hi' : i < (p.procs.map fun k => if k.1 = x then k.2 else idle).length := by
    rwa [List.length_map]
  have hself : (p.procs.map fun k => if k.1 = x then k.2 else idle)[i] = idle := by
    rw [List.getElem_map, hget]
    exact if_neg hy
  simp only [Pool.at, List.map_set, if_neg hy, Function.update_of_ne hy.symm]
  congr 1
  nth_rewrite 2 [← hself]
  exact List.set_getElem_self hi'

/-- **A run on several states is a run on each of them**: a call on another state is one that
begins and takes no step. -/
theorem reaches_at {Q : Pool (ξ → σ) (ξ × κ) → Move (ξ × ν) ι → Prop}
    {Q' : Pool σ κ → Move ν ι → Prop} {p₀ p : Pool (ξ → σ) (ξ × κ)} (x : ξ) (other : ν)
    (h : Machine.Reaches (step (enterAt enter) (atomicAt atomic)) Q p₀ p)
    (henter : ∀ p p' call, Q p (.enter (x, call)) → Q' p' (.enter call))
    (hother : ∀ p, Q' p (.enter other)) (hgo : ∀ p i input, Q' p (.go i input)) :
    Machine.Reaches (step enter atomic) Q' (p₀.at (enter other) x) (p.at (enter other) x) := by
  induction h with
  | refl => exact .refl
  | @tail p p' m _ _ hQ hstep ih =>
    obtain ⟨⟨y, call⟩, rfl, rfl⟩ | ⟨i, input, ⟨y, k⟩, s', k', rfl, hk, hatomic, rfl⟩ :=
      step_cases hstep
    · rw [at_enter]
      by_cases hy : y = x
      · subst hy
        rw [enterAt, if_pos rfl]
        exact ih.tail (henter p _ call hQ) rfl
      · rw [enterAt, if_neg hy]
        exact ih.tail (hother _) rfl
    · obtain ⟨⟨s₁, k₁⟩, hone, heq⟩ := Option.map_eq_some_iff.mp hatomic
      cases heq
      by_cases hy : y = x
      · subst hy
        have hk' : (p.at (enter other) y).procs[i]? = some k := by
          rw [Pool.at, List.getElem?_map, hk, Option.map_some, if_pos rfl]
        rw [at_go]
        exact ih.tail (hgo _ i input) (step_go (p := p.at (enter other) y) hk' hone)
      · rwa [at_go_other _ _ hy _ _ k _ hk]

end Family

end Interleaving
