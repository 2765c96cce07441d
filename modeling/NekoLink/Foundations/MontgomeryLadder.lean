import Mathlib.AlgebraicGeometry.EllipticCurve.Affine.Point
import Mathlib.Tactic.FieldSimp
import Mathlib.Tactic.LinearCombination

/-!
# The Montgomery ladder

Multiples of a point on a curve `y² = x³ + a x² + x`, computed from `x`-coordinates alone. A point is
represented by a pair `X`, `Z` that is a multiple of its coordinates on the projective line.

* `Represents.double`: the double of a point, also of one of order two.
* `Represents.diffAdd`: the sum of two points whose difference is known, also where it is zero.
* `Multiples.ladder`: a bit at a time, the most significant first.
-/

namespace Montgomery

/-! ## Binary digits -/

/-- The number with the given bits, the most significant first, behind the ones so far. -/
def ofBits (m : ℕ) (bits : List Bool) : ℕ := bits.foldl (fun m b => 2 * m + b.toNat) m

/-- The low bits of a number, the most significant first. -/
def bitsBelow (e : ℕ) : ℕ → List Bool
  | 0 => []
  | n + 1 => e.testBit n :: bitsBelow e n

theorem ofBits_append (m : ℕ) (xs ys : List Bool) :
    ofBits m (xs ++ ys) = ofBits (ofBits m xs) ys := List.foldl_append

theorem ofBits_bitsBelow (m e n : ℕ) : ofBits m (bitsBelow e n) = m * 2 ^ n + e % 2 ^ n := by
  induction n generalizing m with
  | zero => simp [ofBits, bitsBelow, Nat.mod_one]
  | succ n ih =>
    have hcons : ofBits m (bitsBelow e (n + 1)) =
        ofBits (2 * m + (e.testBit n).toNat) (bitsBelow e n) := rfl
    rw [hcons, ih, Nat.toNat_testBit, pow_succ, Nat.mod_mul]
    ring

/-! ## A pair of points -/

section

variable {R : Type*} [CommRing R]

/-- The coordinates of two points. -/
structure Coords (R : Type*) where
  X₂ : R
  Z₂ : R
  X₃ : R
  Z₃ : R

/-- The points the other way round. -/
def Coords.swap (c : Coords R) : Coords R := ⟨c.X₃, c.Z₃, c.X₂, c.Z₂⟩

/-- The double of the first point, and the sum of the two. -/
def Coords.step (a24 x₁ : R) (c : Coords R) : Coords R :=
  let AA := (c.X₂ + c.Z₂) ^ 2
  let BB := (c.X₂ - c.Z₂) ^ 2
  let E := AA - BB
  let DA := (c.X₃ - c.Z₃) * (c.X₂ + c.Z₂)
  let CB := (c.X₃ + c.Z₃) * (c.X₂ - c.Z₂)
  ⟨AA * BB, E * (AA + a24 * E), (DA + CB) ^ 2, x₁ * (DA - CB) ^ 2⟩

/-- A bit of the multiple. -/
def Coords.bit (a24 x₁ : R) (c : Coords R) : Bool → Coords R
  | true => (c.swap.step a24 x₁).swap
  | false => c.step a24 x₁

/-- Where the known `x`-coordinate is zero, one of the coordinates of each point stays zero. -/
theorem ladder_of_zero (a24 : R) {c : Coords R} (bits : List Bool)
    (h : c.X₂ * c.Z₂ = 0 ∧ c.X₃ * c.Z₃ = 0) :
    (bits.foldl (Coords.bit a24 0) c).X₂ * (bits.foldl (Coords.bit a24 0) c).Z₂ = 0 := by
  induction bits generalizing c with
  | nil => exact h.1
  | cons b bits ih =>
    refine ih ?_
    cases b with
    | false =>
      simp only [Coords.bit, Coords.step, zero_mul, mul_zero, and_true]
      linear_combination 4 * ((c.X₂ + c.Z₂) ^ 2 * (c.X₂ - c.Z₂) ^ 2) *
        ((c.X₂ + c.Z₂) ^ 2 + a24 * ((c.X₂ + c.Z₂) ^ 2 - (c.X₂ - c.Z₂) ^ 2)) * h.1
    | true =>
      simp only [Coords.bit, Coords.swap, Coords.step, zero_mul, mul_zero, true_and]
      linear_combination 4 * ((c.X₃ + c.Z₃) ^ 2 * (c.X₃ - c.Z₃) ^ 2) *
        ((c.X₃ + c.Z₃) ^ 2 + a24 * ((c.X₃ + c.Z₃) ^ 2 - (c.X₃ - c.Z₃) ^ 2)) * h.2

end

/-! ## The curve -/

open WeierstrassCurve.Affine

variable {K : Type*} [Field K] {a : K}

/-- The curve `y² = x³ + a x² + x`. -/
def curve (a : K) : WeierstrassCurve.Affine K := ⟨0, a, 0, 1, 0⟩

/-- `X` and `Z` are the coordinates of the point on the projective line. -/
def Represents (R : (curve a).Point) (X Z : K) : Prop :=
  ∃ c : K, c ≠ 0 ∧ X = c * R.xRep 0 ∧ Z = c * R.xRep 1

/-- The `x`-coordinate of a point, zero where there is none. -/
def xCoord : (curve a).Point → K
  | .zero => 0
  | .some x _ _ => x

theorem equation_iff_curve {x y : K} :
    (curve a).Equation x y ↔ y ^ 2 = x ^ 3 + a * x ^ 2 + x := by
  simp [equation_iff, curve]

@[simp] theorem negY_curve (x y : K) : (curve a).negY x y = -y := by
  simp [negY, curve]

@[simp] theorem addX_curve (x₁ x₂ ℓ : K) : (curve a).addX x₁ x₂ ℓ = ℓ ^ 2 - a - x₁ - x₂ := by
  simp [addX, curve]

theorem represents_zero {X Z : K} : Represents (0 : (curve a).Point) X Z ↔ X ≠ 0 ∧ Z = 0 := by
  constructor
  · rintro ⟨c, hc, rfl, rfl⟩
    simp [hc]
  · rintro ⟨hX, rfl⟩
    exact ⟨X, hX, by simp, by simp⟩

theorem represents_some {x y X Z : K} {h : (curve a).Nonsingular x y} :
    Represents (.some x y h) X Z ↔ Z ≠ 0 ∧ X = x * Z := by
  constructor
  · rintro ⟨c, hc, rfl, rfl⟩
    simp [hc, mul_comm]
  · rintro ⟨hZ, rfl⟩
    exact ⟨Z, hZ, by simp [mul_comm], by simp⟩

/-- The coordinates determine the `x`-coordinate. -/
theorem Represents.div_eq {R : (curve a).Point} {X Z : K} (h : Represents R X Z) :
    X / Z = xCoord R := by
  cases R with
  | zero =>
    rw [← Point.zero_def, represents_zero] at h
    rw [h.2, div_zero, xCoord]
  | some x y hxy =>
    obtain ⟨hZ, rfl⟩ := represents_some.mp h
    rw [mul_div_cancel_right₀ _ hZ, xCoord]

theorem Represents.neg {R : (curve a).Point} {X Z : K} (h : Represents R X Z) :
    Represents (-R) X Z := by
  rwa [Represents, Point.xRep_neg]

/-- Where the tangent is vertical, `x` is neither one nor minus one. -/
theorem sq_ne_one_of_order_two {x : K} (ha : a ^ 2 ≠ 4) (h : x ^ 3 + a * x ^ 2 + x = 0) :
    x ^ 2 - 1 ≠ 0 := by
  intro hx
  refine ha ?_
  have hmul : a + 2 * x = 0 := by linear_combination h - (x + a) * hx
  linear_combination (a - 2 * x) * hmul + 4 * hx

/-- The slopes of the lines to a point and to its opposite. -/
theorem addX_mul_addX {x₁ y₁ x₂ y₂ : K} (h₁ : y₁ ^ 2 = x₁ ^ 3 + a * x₁ ^ 2 + x₁)
    (h₂ : y₂ ^ 2 = x₂ ^ 3 + a * x₂ ^ 2 + x₂) (hx : x₁ - x₂ ≠ 0) :
    (((y₁ - y₂) / (x₁ - x₂)) ^ 2 - a - x₁ - x₂) *
      ((((y₁ + y₂) / (x₁ - x₂)) ^ 2 - a - x₁ - x₂) * (x₁ - x₂) ^ 2) = (x₁ * x₂ - 1) ^ 2 := by
  field_simp
  have hprod : (y₁ - y₂) ^ 2 * (y₁ + y₂) ^ 2 = (y₁ ^ 2 - y₂ ^ 2) ^ 2 := by ring
  have hsum : (y₁ - y₂) ^ 2 + (y₁ + y₂) ^ 2 = 2 * (y₁ ^ 2 + y₂ ^ 2) := by ring
  rw [h₁, h₂] at hprod hsum
  linear_combination hprod - (x₁ - x₂) ^ 2 * (a + x₁ + x₂) * hsum

variable [DecidableEq K] {R S P : (curve a).Point} {X Z X₂ Z₂ X₃ Z₃ : K}

/-! ## Doubling -/

/-- **The double of a point.** -/
theorem Represents.double (htwo : (2 : K) ≠ 0) (ha : a ^ 2 ≠ 4) (h : Represents R X Z) :
    Represents (R + R) ((X ^ 2 - Z ^ 2) ^ 2) (4 * X * Z * (X ^ 2 + a * X * Z + Z ^ 2)) := by
  cases R with
  | zero =>
    rw [← Point.zero_def] at h ⊢
    obtain ⟨hX, rfl⟩ := represents_zero.mp h
    rw [add_zero, represents_zero]
    constructor
    · simpa using hX
    · ring
  | some x y hxy =>
    obtain ⟨hZ, rfl⟩ := represents_some.mp h
    have heq := equation_iff_curve.mp hxy.left
    by_cases hy : y = 0
    · subst hy
      have hneg : (0 : K) = (curve a).negY x 0 := by rw [negY_curve, neg_zero]
      have hx := sq_ne_one_of_order_two (x := x) ha (by linear_combination -heq)
      rw [Point.add_self_of_Y_eq hneg, represents_zero]
      constructor
      · have hfactor : ((x * Z) ^ 2 - Z ^ 2) ^ 2 = (x ^ 2 - 1) ^ 2 * Z ^ 4 := by ring
        rw [hfactor]
        exact mul_ne_zero (pow_ne_zero 2 hx) (pow_ne_zero 4 hZ)
      · linear_combination -4 * Z ^ 4 * heq
    · have hdouble : 2 * y ≠ 0 := mul_ne_zero htwo hy
      have hneg : y ≠ (curve a).negY x y := by
        rw [negY_curve]
        intro h
        exact hdouble (by linear_combination h)
      have hslope : (curve a).slope x x y y = (3 * x ^ 2 + 2 * a * x + 1) / (2 * y) := by
        rw [slope_of_Y_ne rfl hneg, negY_curve]
        simp only [curve, zero_mul, sub_zero]
        ring
      have hZ' : 4 * (x * Z) * Z * ((x * Z) ^ 2 + a * (x * Z) * Z + Z ^ 2) =
          (2 * y) ^ 2 * Z ^ 4 := by
        linear_combination -4 * Z ^ 4 * heq
      rw [Point.add_self_of_Y_ne hneg, represents_some, hZ', addX_curve, hslope]
      refine ⟨mul_ne_zero (pow_ne_zero 2 hdouble) (pow_ne_zero 4 hZ), ?_⟩
      field_simp
      linear_combination (8 * x + 4 * a) * heq

/-! ## Adding -/

/-- The sum of two points with different `x`-coordinates, and their difference. -/
theorem add_mul_sub {x₁ y₁ x₂ y₂ : K} (h₁ : (curve a).Nonsingular x₁ y₁)
    (h₂ : (curve a).Nonsingular x₂ y₂) (hx : x₁ ≠ x₂) :
    xCoord (.some x₁ y₁ h₁ + .some x₂ y₂ h₂) *
      (xCoord (.some x₁ y₁ h₁ - .some x₂ y₂ h₂) * (x₁ - x₂) ^ 2) = (x₁ * x₂ - 1) ^ 2 := by
  rw [sub_eq_add_neg, Point.neg_some, Point.add_of_X_ne hx, Point.add_of_X_ne hx, xCoord, xCoord,
    addX_curve, addX_curve, slope_of_X_ne hx, slope_of_X_ne hx, negY_curve, sub_neg_eq_add]
  exact addX_mul_addX (equation_iff_curve.mp h₁.left) (equation_iff_curve.mp h₂.left)
    (sub_ne_zero.mpr hx)

/-- Where the double of a point has an `x`-coordinate other than zero, the point's is neither one
nor minus one. -/
theorem sq_ne_one_of_double {x y x₁ : K} {h : (curve a).Nonsingular x y} (htwo : (2 : K) ≠ 0)
    (ha : a ^ 2 ≠ 4) (hx₁ : x₁ ≠ 0)
    (hdouble : Represents (Point.some x y h + Point.some x y h) x₁ 1) : x ^ 2 - 1 ≠ 0 := by
  intro hx
  have hcoord := (represents_some.mpr ⟨one_ne_zero, (mul_one x).symm⟩ :
    Represents (Point.some x y h) x 1).double htwo ha |>.div_eq
  rw [← hdouble.div_eq, one_pow, hx, zero_pow two_ne_zero, zero_div, div_one] at hcoord
  exact hx₁ hcoord.symm

/-- **The sum of two points** whose difference has a known `x`-coordinate, which is not zero. -/
theorem Represents.diffAdd {x₁ : K} (htwo : (2 : K) ≠ 0) (ha : a ^ 2 ≠ 4) (hx₁ : x₁ ≠ 0)
    (hR : Represents R X₂ Z₂) (hS : Represents S X₃ Z₃) (hdiff : Represents (S - R) x₁ 1) :
    Represents (S + R) (4 * (X₂ * X₃ - Z₂ * Z₃) ^ 2) (4 * x₁ * (X₃ * Z₂ - Z₃ * X₂) ^ 2) := by
  have hfour : (4 : K) ≠ 0 := by
    have h := pow_ne_zero 2 htwo
    norm_num at h
    exact h
  cases R with
  | zero =>
    rw [← Point.zero_def] at *
    obtain ⟨hX₂, rfl⟩ := represents_zero.mp hR
    rw [sub_zero] at hdiff
    rw [add_zero]
    cases S with
    | zero =>
      rw [← Point.zero_def, represents_zero] at hdiff
      exact absurd hdiff.2 one_ne_zero
    | some x y h =>
      obtain ⟨hZ₃, rfl⟩ := represents_some.mp hS
      obtain ⟨-, rfl⟩ := represents_some.mp hdiff
      refine represents_some.mpr ⟨?_, by ring⟩
      simp only [mul_zero, zero_sub]
      exact mul_ne_zero (mul_ne_zero hfour hx₁) (pow_ne_zero 2 (neg_ne_zero.mpr
        (mul_ne_zero hZ₃ hX₂)))
  | some x y h =>
    obtain ⟨hZ₂, rfl⟩ := represents_some.mp hR
    cases S with
    | zero =>
      rw [← Point.zero_def] at *
      obtain ⟨hX₃, rfl⟩ := represents_zero.mp hS
      rw [zero_sub, Point.neg_some] at hdiff
      obtain ⟨-, rfl⟩ := represents_some.mp hdiff
      rw [zero_add]
      refine represents_some.mpr ⟨?_, by ring⟩
      simp only [zero_mul, sub_zero]
      exact mul_ne_zero (mul_ne_zero hfour hx₁) (pow_ne_zero 2 (mul_ne_zero hX₃ hZ₂))
    | some x' y' h' =>
      obtain ⟨hZ₃, rfl⟩ := represents_some.mp hS
      have hcoord := hdiff.div_eq
      rw [div_one] at hcoord
      by_cases hx : x' = x
      · subst hx
        obtain heq | hneg := Point.X_eq_iff.mp (rfl : x' = x')
        · rw [heq, sub_self, represents_zero] at hdiff
          exact absurd hdiff.2 one_ne_zero
        · have hopposite : Point.some x' y h = -Point.some x' y' h' := by rw [hneg, neg_neg]
          rw [hopposite, sub_neg_eq_add] at hdiff
          rw [hopposite, add_neg_cancel, represents_zero]
          have hsq := sq_ne_one_of_double htwo ha hx₁ hdiff
          constructor
          · have hX : 4 * (x' * Z₂ * (x' * Z₃) - Z₂ * Z₃) ^ 2 =
                4 * ((x' ^ 2 - 1) * (Z₂ * Z₃)) ^ 2 := by ring
            rw [hX]
            exact mul_ne_zero hfour (pow_ne_zero 2 (mul_ne_zero hsq (mul_ne_zero hZ₂ hZ₃)))
          · ring
      · have hprod := add_mul_sub h' h hx
        rw [← hcoord] at hprod
        have hsub := sub_ne_zero.mpr hx
        rw [Point.add_of_X_ne hx] at hprod ⊢
        rw [represents_some]
        rw [xCoord] at hprod
        have hZ : 4 * x₁ * (x' * Z₃ * Z₂ - Z₃ * (x * Z₂)) ^ 2 =
            4 * (Z₂ * Z₃) ^ 2 * (x₁ * (x' - x) ^ 2) := by ring
        rw [hZ]
        refine ⟨mul_ne_zero (mul_ne_zero hfour (pow_ne_zero 2 (mul_ne_zero hZ₂ hZ₃)))
          (mul_ne_zero hx₁ (pow_ne_zero 2 hsub)), ?_⟩
        linear_combination -4 * (Z₂ * Z₃) ^ 2 * hprod

/-! ## The ladder -/

/-- The pair is that of two multiples of a point. -/
def Multiples (P : (curve a).Point) (m n : ℕ) (c : Coords K) : Prop :=
  Represents (m • P) c.X₂ c.Z₂ ∧ Represents (n • P) c.X₃ c.Z₃

section

variable {a24 x₁ : K} {m n : ℕ} {c : Coords K}

theorem Multiples.swap (h : Multiples P m n c) : Multiples P n m c.swap := ⟨h.2, h.1⟩

/-- A step doubles the first multiple and adds the two, where these are next to each other. -/
theorem Multiples.step (htwo : (2 : K) ≠ 0) (ha : a ^ 2 ≠ 4) (ha24 : 4 * a24 = a - 2)
    (hP : Represents P x₁ 1) (hx₁ : x₁ ≠ 0) (h : Multiples P m n c)
    (hmn : n = m + 1 ∨ m = n + 1) : Multiples P (2 * m) (m + n) (c.step a24 x₁) := by
  have hdiff : Represents (n • P - m • P) x₁ 1 := by
    obtain rfl | rfl := hmn
    · rwa [add_nsmul, one_nsmul, add_sub_cancel_left]
    · rw [add_nsmul, one_nsmul, ← neg_sub, add_sub_cancel_left]
      exact hP.neg
  have hdouble := h.1.double htwo ha
  have hadd := h.1.diffAdd htwo ha hx₁ h.2 hdiff
  refine ⟨?_, ?_⟩
  · rw [two_mul, add_nsmul]
    convert hdouble using 1
    · simp only [Coords.step]
      ring
    · simp only [Coords.step]
      linear_combination (4 * (c.X₂ * c.Z₂) ^ 2) * ha24
  · rw [add_comm m n, add_nsmul]
    convert hadd using 1
    · simp only [Coords.step]
      ring
    · simp only [Coords.step]
      ring

/-- **The ladder** multiplies by the number whose bits it is given. -/
theorem Multiples.ladder (htwo : (2 : K) ≠ 0) (ha : a ^ 2 ≠ 4) (ha24 : 4 * a24 = a - 2)
    (hP : Represents P x₁ 1) (hx₁ : x₁ ≠ 0) (bits : List Bool)
    (h : Multiples P m (m + 1) c) :
    Multiples P (ofBits m bits) (ofBits m bits + 1) (bits.foldl (Coords.bit a24 x₁) c) := by
  induction bits generalizing m c with
  | nil => exact h
  | cons b bits ih =>
    refine ih ?_
    cases b with
    | false =>
      have hstep := h.step htwo ha ha24 hP hx₁ (Or.inl rfl)
      rwa [← add_assoc, ← two_mul] at hstep
    | true =>
      have hstep := (h.swap.step htwo ha ha24 hP hx₁ (Or.inr rfl)).swap
      have hsum : m + 1 + m = 2 * m + 1 := by omega
      rwa [hsum] at hstep

theorem two_nsmul_of_xCoord (hP : xCoord P = 0) : 2 • P = 0 := by
  rw [two_nsmul]
  cases P with
  | zero => exact add_zero _
  | some x y h =>
    have heq := equation_iff_curve.mp h.left
    rw [xCoord] at hP
    subst hP
    have hy : y = 0 := by simpa using heq
    exact Point.add_self_of_Y_eq (by rw [negY_curve, hy, neg_zero])

/-- **The `x`-coordinate of an even multiple**, of every point. -/
theorem xCoord_ladder (htwo : (2 : K) ≠ 0) (ha : a ^ 2 ≠ 4) (ha24 : 4 * a24 = a - 2)
    (P : (curve a).Point) (bits : List Bool) (heven : 2 ∣ ofBits 0 bits) :
    (bits.foldl (Coords.bit a24 (xCoord P)) ⟨1, 0, xCoord P, 1⟩).X₂ /
      (bits.foldl (Coords.bit a24 (xCoord P)) ⟨1, 0, xCoord P, 1⟩).Z₂ =
        xCoord (ofBits 0 bits • P) := by
  by_cases hx : xCoord P = 0
  · obtain ⟨k, hk⟩ := heven
    have hcoords := ladder_of_zero a24 (c := ⟨1, 0, 0, 1⟩) bits ⟨mul_zero _, zero_mul _⟩
    rw [hx, hk, mul_comm 2 k, mul_nsmul', two_nsmul_of_xCoord hx, nsmul_zero]
    obtain hX | hZ := mul_eq_zero.mp hcoords
    · rw [hX, zero_div]
      rfl
    · rw [hZ, div_zero]
      rfl
  · have hP : Represents P (xCoord P) 1 := by
      cases P with
      | zero => exact absurd rfl hx
      | some x y h => exact represents_some.mpr ⟨one_ne_zero, (mul_one x).symm⟩
    have hstart : Multiples P 0 (0 + 1) (⟨1, 0, xCoord P, 1⟩ : Coords K) := by
      refine ⟨?_, ?_⟩
      · rw [zero_nsmul, represents_zero]
        exact ⟨one_ne_zero, rfl⟩
      · rwa [zero_add, one_nsmul]
    exact (hstart.ladder htwo ha ha24 hP hx bits).1.div_eq

end

end Montgomery
