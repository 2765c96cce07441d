import Mathlib.Data.Finset.Card
import Mathlib.Data.List.Prime
import Mathlib.Data.Nat.Bitwise
import Mathlib.Data.Nat.Prime.Basic
import Mathlib.Dynamics.PeriodicPts.Defs

/-!
# Orbits of maps

When a map of a finite set has one cycle, and how to compute a power of a map of binary numbers that
respects exclusive or.

* `minimalPeriod_eq_prod`: a period is the least one when none of its primes can be divided out.
* `OneCycle.of_mem`: a set is one cycle when a point has its size as least period.
* `power_columns`: the power of a map from its values at the powers of two, by repeated squaring.
-/

namespace Orbit

open Function

section

variable {α : Type*} {f : α → α} {x y : α} {S : Finset α}

theorem minimalPeriod_eq_prod {ps : List ℕ} (hps : ∀ p ∈ ps, p.Prime)
    (hperiod : IsPeriodicPt f ps.prod x)
    (hshorter : ∀ p ∈ ps, ¬ IsPeriodicPt f (ps.prod / p) x) : minimalPeriod f x = ps.prod := by
  obtain ⟨c, hc⟩ := hperiod.minimalPeriod_dvd
  by_contra hne
  have hone : c ≠ 1 := by
    rintro rfl
    rw [mul_one] at hc
    exact hne hc.symm
  -- a prime of the quotient can be divided out
  obtain ⟨q, hq, d, rfl⟩ := Nat.exists_prime_and_dvd hone
  have hprod : ps.prod = minimalPeriod f x * d * q := by rw [hc, mul_comm q d, mul_assoc]
  obtain ⟨p, hp, hdvd⟩ := (Prime.dvd_prod_iff hq.prime).mp (hprod ▸ Nat.dvd_mul_left q _)
  obtain rfl := (Nat.prime_dvd_prime_iff_eq hq (hps p hp)).mp hdvd
  refine hshorter q hp ?_
  rw [hprod, Nat.mul_div_cancel _ hq.pos]
  exact (isPeriodicPt_minimalPeriod f x).mul_const d

/-- A map of a finite set all of whose points are in one cycle. -/
structure OneCycle (f : α → α) (S : Finset α) : Prop where
  period : ∀ x ∈ S, minimalPeriod f x = S.card
  exists_iterate : ∀ x ∈ S, ∀ y ∈ S, ∃ j < S.card, f^[j] x = y

theorem iterate_mem (hmaps : ∀ x ∈ S, f x ∈ S) (hx : x ∈ S) (j : ℕ) : f^[j] x ∈ S := by
  induction j with
  | zero => exact hx
  | succ j ih =>
    rw [iterate_succ_apply']
    exact hmaps _ ih

/-- The points of a cycle are all the points there are. -/
theorem exists_iterate_of_period (hmaps : ∀ x ∈ S, f x ∈ S) (hx : x ∈ S)
    (hperiod : minimalPeriod f x = S.card) (hy : y ∈ S) : ∃ j < S.card, f^[j] x = y := by
  classical
  have hinj : Set.InjOn (f^[·] x) (Finset.range S.card) := by
    rw [← hperiod, Finset.coe_range]
    exact iterate_injOn_Iio_minimalPeriod
  have hsub : (Finset.range S.card).image (f^[·] x) ⊆ S := by
    intro z hz
    obtain ⟨j, -, rfl⟩ := Finset.mem_image.mp hz
    exact iterate_mem hmaps hx j
  have hall : (Finset.range S.card).image (f^[·] x) = S := by
    refine Finset.eq_of_subset_of_card_le hsub ?_
    rw [Finset.card_image_of_injOn hinj, Finset.card_range]
  rw [← hall] at hy
  obtain ⟨j, hj, rfl⟩ := Finset.mem_image.mp hy
  exact ⟨j, Finset.mem_range.mp hj, rfl⟩

/-- **One point is enough.** -/
theorem OneCycle.of_mem (hmaps : ∀ x ∈ S, f x ∈ S) (hx : x ∈ S)
    (hperiod : minimalPeriod f x = S.card) : OneCycle f S := by
  have hperiodic : x ∈ periodicPts f := by
    rw [← minimalPeriod_pos_iff_mem_periodicPts, hperiod]
    exact Finset.card_pos.mpr ⟨x, hx⟩
  have hall : ∀ y ∈ S, minimalPeriod f y = S.card := by
    intro y hy
    obtain ⟨j, -, rfl⟩ := exists_iterate_of_period hmaps hx hperiod hy
    rw [minimalPeriod_apply_iterate hperiodic, hperiod]
  exact ⟨hall, fun y hy z hz => exists_iterate_of_period hmaps hy (hall y hy) hz⟩

theorem OneCycle.iterate_eq_iff (h : OneCycle f S) (hx : x ∈ S) {d : ℕ} :
    f^[d] x = x ↔ S.card ∣ d := by
  rw [← h.period x hx]
  exact isPeriodicPt_iff_minimalPeriod_dvd

end

/-! ## Maps that respect exclusive or -/

/-- A map that respects exclusive or. -/
def Linear (f : ℕ → ℕ) : Prop := ∀ x y, f (x ^^^ y) = f x ^^^ f y

/-- The values at the first `w` powers of two. -/
def columns (f : ℕ → ℕ) : ℕ → List ℕ
  | 0 => []
  | w + 1 => f 1 :: columns (fun x => f (2 * x)) w

/-- The value at `x` from these values. -/
def combine : List ℕ → ℕ → ℕ
  | [], _ => 0
  | c :: cs, x => (if x % 2 = 1 then c else 0) ^^^ combine cs (x / 2)

/-- The `n`-th power at `x`, for `n` below `2 ^ k`. -/
def power : ℕ → List ℕ → ℕ → ℕ → ℕ
  | 0, _, _, x => x
  | k + 1, cs, n, x =>
    power k (cs.map (combine cs)) (n / 2) (if n % 2 = 1 then combine cs x else x)

section

variable {f g : ℕ → ℕ} {w k n x : ℕ}

theorem Linear.map_zero (hf : Linear f) : f 0 = 0 := by
  have h := hf 0 0
  rwa [Nat.xor_self, Nat.xor_self] at h

theorem Linear.comp (hf : Linear f) (hg : Linear g) : Linear (f ∘ g) := by
  intro x y
  rw [comp_apply, hg, hf]
  rfl

theorem Linear.double (hf : Linear f) : Linear fun x => f (2 * x) := by
  intro x y
  have hdouble : 2 * (x ^^^ y) = 2 * x ^^^ 2 * y := by
    have h := Nat.shiftLeft_xor_distrib (i := 1) (a := x) (b := y)
    simpa only [Nat.shiftLeft_eq, pow_one, mul_comm _ 2] using h
  dsimp only
  rw [hdouble, hf]

/-- The lowest bit apart. -/
theorem mod_two_xor (x : ℕ) : x % 2 ^^^ 2 * (x / 2) = x := by
  have hmod : (x % 2 ^^^ 2 * (x / 2)) % 2 = x % 2 := by
    rw [Nat.xor_mod_two_eq]
    omega
  have hdiv : (x % 2 ^^^ 2 * (x / 2)) / 2 = x / 2 := by
    rw [Nat.xor_div_two, Nat.mul_div_cancel_left _ (by omega), show x % 2 / 2 = 0 by omega,
      Nat.zero_xor]
  omega

theorem combine_columns (hf : Linear f) (hx : x < 2 ^ w) : combine (columns f w) x = f x := by
  induction w generalizing f x with
  | zero =>
    obtain rfl : x = 0 := by omega
    exact hf.map_zero.symm
  | succ w ih =>
    rw [columns, combine, ih hf.double (by omega)]
    have hsplit := hf (x % 2) (2 * (x / 2))
    rw [mod_two_xor] at hsplit
    rw [hsplit]
    split_ifs with hodd
    · rw [hodd]
    · rw [show x % 2 = 0 by omega, hf.map_zero]

theorem map_columns (f g : ℕ → ℕ) (w : ℕ) : (columns f w).map g = columns (g ∘ f) w := by
  induction w generalizing f with
  | zero => rfl
  | succ w ih =>
    rw [columns, List.map_cons, ih]
    rfl

theorem columns_congr (h : ∀ x < 2 ^ w, f x = g x) : columns f w = columns g w := by
  induction w generalizing f g with
  | zero => rfl
  | succ w ih =>
    rw [columns, columns, h 1 (Nat.one_lt_two_pow (by omega)), ih fun x hx => h (2 * x) (by omega)]

/-- The values of the square. -/
theorem square_columns (hf : Linear f) (hmaps : ∀ x < 2 ^ w, f x < 2 ^ w) :
    (columns f w).map (combine (columns f w)) = columns (f ∘ f) w := by
  rw [map_columns]
  exact columns_congr fun x hx => combine_columns hf (hmaps x hx)

/-- **A power is computed** by squaring. -/
theorem power_columns (hf : Linear f) (hmaps : ∀ x < 2 ^ w, f x < 2 ^ w) (hn : n < 2 ^ k)
    (hx : x < 2 ^ w) : power k (columns f w) n x = f^[n] x := by
  induction k generalizing f n x with
  | zero =>
    obtain rfl : n = 0 := by omega
    rfl
  | succ k ih =>
    have hiterate : f^[n] x = (f ∘ f)^[n / 2] (f^[n % 2] x) := by
      have hsquare : (f ∘ f)^[n / 2] = f^[2 * (n / 2)] := (iterate_mul f 2 (n / 2)).symm
      rw [hsquare, ← iterate_add_apply]
      congr 1
      omega
    rw [power, square_columns hf hmaps, hiterate]
    have hhalf : n / 2 < 2 ^ k := by omega
    have hmaps' : ∀ x < 2 ^ w, (f ∘ f) x < 2 ^ w := fun x hx => hmaps _ (hmaps x hx)
    split_ifs with hodd
    · rw [hodd, combine_columns hf hx]
      exact ih (hf.comp hf) hmaps' hhalf (hmaps x hx)
    · rw [show n % 2 = 0 by omega]
      exact ih (hf.comp hf) hmaps' hhalf hx

end

end Orbit
