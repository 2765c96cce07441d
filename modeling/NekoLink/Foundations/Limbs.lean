import Mathlib.Algebra.Order.Ring.Int
import Mathlib.Data.Int.Init
import Mathlib.Tactic.LinearCombination
import Mathlib.Tactic.Linarith
import Mathlib.Tactic.Ring

/-!
# Numbers in limbs

An integer as the list of its limbs in some base, the least significant first. A limb may be any
integer: it need not be a digit, and may be negative while a borrow is outstanding.

* `value_append`, `value_zipWith_add`, `value_zipWith_sub`: the value of a list built from others.
* `value_carry` and `carryOut_eq`: carries passed from limb to limb leave the digits of the number
  modulo the power of the base, and its quotient.
* `value_mulRows`: schoolbook multiplication, row by row.
* `value_div_pow`, `value_div` and `value_mod`: a number cut between its limbs, and inside the last
  one.
-/

namespace Limbs

/-- The number with the given limbs in base `b`. -/
def value (b : ℤ) : List ℤ → ℤ
  | [] => 0
  | d :: ds => d + b * value b ds

/-- Every limb keeps what is below the base and hands on the rest. -/
def carry (b : ℤ) : ℤ → List ℤ → List ℤ
  | _, [] => []
  | c, d :: ds => (c + d) % b :: carry b ((c + d) / b) ds

/-- What the last limb hands on. -/
def carryOut (b : ℤ) : ℤ → List ℤ → ℤ
  | c, [] => c
  | c, d :: ds => carryOut b ((c + d) / b) ds

/-- All limbs are digits. -/
def IsDigits (b : ℤ) (ds : List ℤ) : Prop := ∀ d ∈ ds, 0 ≤ d ∧ d < b

variable {b c d : ℤ} {ds es : List ℤ}

@[simp] theorem value_nil : value b [] = 0 := rfl

@[simp] theorem value_cons : value b (d :: ds) = d + b * value b ds := rfl

theorem value_append (ds es : List ℤ) :
    value b (ds ++ es) = value b ds + b ^ ds.length * value b es := by
  induction ds with
  | nil => simp
  | cons d ds ih =>
    rw [List.cons_append, value_cons, ih, value_cons, List.length_cons]
    ring

theorem value_zipWith_add (h : ds.length = es.length) :
    value b (List.zipWith (· + ·) ds es) = value b ds + value b es := by
  induction ds generalizing es with
  | nil =>
    obtain rfl := List.eq_nil_of_length_eq_zero h.symm
    rfl
  | cons d ds ih =>
    cases es with
    | nil => cases h
    | cons e es =>
      rw [List.zipWith_cons_cons, value_cons, ih (Nat.succ.inj h), value_cons, value_cons]
      ring

theorem value_zipWith_sub (h : ds.length = es.length) :
    value b (List.zipWith (· - ·) ds es) = value b ds - value b es := by
  induction ds generalizing es with
  | nil =>
    obtain rfl := List.eq_nil_of_length_eq_zero h.symm
    rfl
  | cons d ds ih =>
    cases es with
    | nil => cases h
    | cons e es =>
      rw [List.zipWith_cons_cons, value_cons, ih (Nat.succ.inj h), value_cons, value_cons]
      ring

theorem value_map_mul (k : ℤ) (ds : List ℤ) : value b (ds.map (k * ·)) = k * value b ds := by
  induction ds with
  | nil => rw [List.map_nil, value_nil, mul_zero]
  | cons d ds ih =>
    rw [List.map_cons, value_cons, ih, value_cons]
    ring

/-! ## Digits -/

theorem isDigits_cons : IsDigits b (d :: ds) ↔ (0 ≤ d ∧ d < b) ∧ IsDigits b ds :=
  List.forall_mem_cons

theorem isDigits_append : IsDigits b (ds ++ es) ↔ IsDigits b ds ∧ IsDigits b es := by
  simp only [IsDigits, List.forall_mem_append]

theorem IsDigits.mono (h : IsDigits b ds) (hbc : b ≤ c) : IsDigits c ds :=
  fun d hd => ⟨(h d hd).1, (h d hd).2.trans_le hbc⟩

theorem IsDigits.value_nonneg (hb : 0 ≤ b) (h : IsDigits b ds) : 0 ≤ value b ds := by
  induction ds with
  | nil => exact le_rfl
  | cons d ds ih =>
    obtain ⟨hd, hds⟩ := isDigits_cons.mp h
    exact add_nonneg hd.1 (mul_nonneg hb (ih hds))

theorem IsDigits.value_lt (hb : 0 ≤ b) (h : IsDigits b ds) : value b ds < b ^ ds.length := by
  induction ds with
  | nil => simp
  | cons d ds ih =>
    obtain ⟨hd, hds⟩ := isDigits_cons.mp h
    have hrest : value b ds + 1 ≤ b ^ ds.length := ih hds
    calc value b (d :: ds) < b + b * value b ds := add_lt_add_left hd.2 _
      _ = b * (value b ds + 1) := by ring
      _ ≤ b * b ^ ds.length := mul_le_mul_of_nonneg_left hrest hb
      _ = b ^ (d :: ds).length := by rw [List.length_cons, pow_succ']

/-- The limbs from a place on. -/
theorem value_div_pow (hb : 0 < b) (h : IsDigits b ds) (i : ℕ) :
    value b ds / b ^ i = value b (ds.drop i) := by
  induction i generalizing ds with
  | zero => rw [pow_zero, Int.ediv_one, List.drop_zero]
  | succ i ih =>
    cases ds with
    | nil => rw [value_nil, Int.zero_ediv, List.drop_nil, value_nil]
    | cons d ds =>
      obtain ⟨hd, hds⟩ := isDigits_cons.mp h
      rw [pow_succ', ← Int.ediv_ediv_of_nonneg hb.le, value_cons,
        Int.add_mul_ediv_left _ _ hb.ne', Int.ediv_eq_zero_of_lt hd.1 hd.2, zero_add, ih hds,
        List.drop_succ_cons]

/-! ## Carries -/

@[simp] theorem length_carry (c : ℤ) (ds : List ℤ) : (carry b c ds).length = ds.length := by
  induction ds generalizing c with
  | nil => rfl
  | cons d ds ih => rw [carry, List.length_cons, ih, List.length_cons]

theorem isDigits_carry (hb : 0 < b) (c : ℤ) (ds : List ℤ) : IsDigits b (carry b c ds) := by
  induction ds generalizing c with
  | nil => exact fun d hd => absurd hd List.not_mem_nil
  | cons d ds ih =>
    exact isDigits_cons.mpr ⟨⟨Int.emod_nonneg _ hb.ne', Int.emod_lt_of_pos _ hb⟩, ih _⟩

/-- One limb of a number modulo a power of the base. -/
theorem emod_cons (hb : 0 < b) (c m n : ℤ) :
    c % b + b * ((c / b + n) % m) = (c + b * n) % (b * m) := by
  have hdiv : (c + b * n) / b = c / b + n := Int.add_mul_ediv_left c n hb.ne'
  rw [Int.emod_def (c + b * n), ← Int.ediv_ediv_of_nonneg hb.le, hdiv, Int.emod_def c,
    Int.emod_def (c / b + n)]
  ring

/-- Carrying keeps the number. -/
theorem value_carry_add (c : ℤ) (ds : List ℤ) :
    value b (carry b c ds) + b ^ ds.length * carryOut b c ds = c + value b ds := by
  induction ds generalizing c with
  | nil => simp [carry, carryOut]
  | cons d ds ih =>
    have hlimb := Int.emod_add_mul_ediv (c + d) b
    have hrest := ih ((c + d) / b)
    rw [carry, carryOut, value_cons, value_cons, List.length_cons, pow_succ']
    linear_combination hlimb + b * hrest

/-- **The digits left by carrying** are those of the number modulo the power of the base. -/
theorem value_carry (hb : 0 < b) (c : ℤ) (ds : List ℤ) :
    value b (carry b c ds) = (c + value b ds) % b ^ ds.length := by
  have hdigits := isDigits_carry hb c ds
  have hlt := hdigits.value_lt hb.le
  rw [length_carry] at hlt
  rw [← value_carry_add c ds, Int.add_mul_emod_self_left,
    Int.emod_eq_of_lt (hdigits.value_nonneg hb.le) hlt]

/-- **What is carried out** is the quotient. -/
theorem carryOut_eq (hb : 0 < b) (c : ℤ) (ds : List ℤ) :
    carryOut b c ds = (c + value b ds) / b ^ ds.length := by
  have hdigits := isDigits_carry hb c ds
  have hlt := hdigits.value_lt hb.le
  rw [length_carry] at hlt
  rw [← value_carry_add c ds, Int.add_mul_ediv_left _ _ (pow_pos hb _).ne',
    Int.ediv_eq_zero_of_lt (hdigits.value_nonneg hb.le) hlt, zero_add]

/-! ## Multiplication -/

section

variable {R : Type*} [Add R] [Mul R]

/-- Add a multiple of some limbs; where there is nothing yet, the product itself is put. -/
def mulRow (v : R) : List R → List R → List R
  | [], _ => []
  | y :: ys, [] => v * y :: mulRow v ys []
  | y :: ys, t :: ts => (t + v * y) :: mulRow v ys ts

/-- Schoolbook multiplication: a row for each limb of the one number, one place further on each
time. -/
def mulRows (ys : List R) : List R → List R → List R
  | [], ts => ts
  | x :: xs, ts =>
    match mulRow x ys ts with
    | [] => []
    | t :: ts => t :: mulRows ys xs ts

@[simp] theorem length_mulRow (v : R) (ys ts : List R) : (mulRow v ys ts).length = ys.length := by
  induction ys generalizing ts with
  | nil => rfl
  | cons y ys ih =>
    cases ts with
    | nil => rw [mulRow, List.length_cons, ih, List.length_cons]
    | cons t ts => rw [mulRow, List.length_cons, ih, List.length_cons]

theorem mulRow_ne_nil {ys : List R} (hys : ys ≠ []) (v : R) (ts : List R) :
    ∃ t ts', mulRow v ys ts = t :: ts' ∧ ts'.length + 1 = ys.length := by
  have hlength := length_mulRow v ys ts
  cases hrow : mulRow v ys ts with
  | nil =>
    rw [hrow] at hlength
    exact absurd (List.eq_nil_of_length_eq_zero hlength.symm) hys
  | cons t ts' =>
    rw [hrow] at hlength
    exact ⟨t, ts', rfl, hlength⟩

theorem length_mulRows {ys : List R} (hys : ys ≠ []) (x : R) (xs ts : List R) :
    (mulRows ys (x :: xs) ts).length = ys.length + xs.length := by
  obtain ⟨t, ts', hrow, hlength⟩ := mulRow_ne_nil hys x ts
  induction xs generalizing x t ts ts' with
  | nil => simp only [mulRows, hrow, List.length_cons, hlength, List.length_nil, add_zero]
  | cons x' xs ih =>
    obtain ⟨t'', ts'', hrow', hlength'⟩ := mulRow_ne_nil hys x' ts'
    rw [mulRows, hrow, List.length_cons, ih x' ts' t'' ts'' hrow' hlength', List.length_cons,
      add_assoc]

end

theorem value_mulRow (v : ℤ) {ys ts : List ℤ} (h : ts.length ≤ ys.length) :
    value b (mulRow v ys ts) = value b ts + v * value b ys := by
  induction ys generalizing ts with
  | nil =>
    obtain rfl := List.eq_nil_of_length_eq_zero (Nat.le_zero.mp h)
    simp [mulRow]
  | cons y ys ih =>
    cases ts with
    | nil =>
      rw [mulRow, value_cons, ih (Nat.zero_le _), value_cons, value_nil]
      ring
    | cons t ts =>
      rw [mulRow, value_cons, ih (Nat.succ_le_succ_iff.mp h), value_cons, value_cons]
      ring

/-- **The product of two numbers in limbs.** -/
theorem value_mulRows {ys : List ℤ} (hys : ys ≠ []) {xs ts : List ℤ}
    (h : ts.length ≤ ys.length) :
    value b (mulRows ys xs ts) = value b ts + value b xs * value b ys := by
  induction xs generalizing ts with
  | nil => simp [mulRows]
  | cons x xs ih =>
    have hrow := value_mulRow (b := b) x h
    obtain ⟨t, ts', hcons, hlength⟩ := mulRow_ne_nil hys x ts
    rw [hcons, value_cons] at hrow
    simp only [mulRows, hcons]
    rw [value_cons, ih (by omega), value_cons]
    linear_combination hrow

/-! ## Cutting inside the last limb -/

theorem value_concat (ds : List ℤ) (d : ℤ) :
    value b (ds ++ [d]) = value b ds + b ^ ds.length * d := by
  rw [value_append, value_cons, value_nil, mul_zero, add_zero]

/-- What is above a bound in the last limb. -/
theorem value_div {k : ℤ} (hb : 0 < b) (h : IsDigits b ds) (d : ℤ) :
    value b (ds ++ [d]) / (b ^ ds.length * k) = d / k := by
  have hpow : 0 < b ^ ds.length := pow_pos hb _
  rw [value_concat, ← Int.ediv_ediv_of_nonneg hpow.le, Int.add_mul_ediv_left _ _ hpow.ne',
    Int.ediv_eq_zero_of_lt (h.value_nonneg hb.le) (h.value_lt hb.le), zero_add]

/-- What is below a bound in the last limb. -/
theorem value_mod {k : ℤ} (hb : 0 < b) (h : IsDigits b ds) (d : ℤ) :
    value b (ds ++ [d]) % (b ^ ds.length * k) = value b (ds ++ [d % k]) := by
  rw [Int.emod_def, value_div hb h, value_concat, value_concat, Int.emod_def]
  ring

end Limbs
