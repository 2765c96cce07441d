import NekoLink.Foundations.Limbs
import NekoLink.Foundations.MachineInts

/-!
# Arithmetic modulo 2^255 - 19

`add`, `sub`, `mul`, `mulA24`, `square`, `reduce` and `reduceQuick` of `Curve25519.java`. A number
is ten limbs of 26 bits, each an `int`; a product is twenty, computed as `long`s. Java's `int` and
`long` wrap around and shift with their sign, as `Int32` and `Int64` do.

* `IsNumber.num_reduceQuick`: the trial subtraction, of a number of 256 bits.
* `isElement_reduce`: a product is folded twice, and subtracted from once.
* `IsElement.num_add`, `IsElement.num_sub`, `IsElement.num_mul`, `IsElement.num_mulA24`: the results
  are the numbers modulo 2^255 - 19, in their one representation, and nothing overflows on the way.
-/

namespace NekoLink.Android

namespace Curve25519

open Limbs MachineInts

/-! ## As the code computes -/

/-- The carry runs through the limbs. -/
def carryLoop : Int32 → List Int32 → List Int32
  | _, [] => []
  | carry, x :: xs =>
    let carry := carry + x
    (carry &&& 0x03FFFFFF) :: carryLoop (carry >>> 26) xs

def reduceQuick (x : List Int32) : List Int32 :=
  -- adding 19 here, the subtraction of 2^255 in the next step
  let t2 := carryLoop 19 x
  -- bit 21 of the last limb is clear if there was a borrow
  let mask := -((t2.getD 9 0 >>> 21) &&& 0x01)
  let nmask := ~~~mask
  let t2 := t2.modify 9 (· &&& 0x001FFFFF)
  List.zipWith (fun x t2 => (x &&& nmask) ||| (t2 &&& mask)) x t2

/-- The loop over the high order half; once that is used up, the carry runs through the rest. -/
def reduceLoop : Int32 → Int32 → List Int32 → List Int32 → List Int32
  | _, _, _, [] => []
  | _, carry, [], x :: xs => carryLoop carry (x :: xs)
  | limb, carry, high :: highs, x :: xs =>
    let limb := limb + high <<< 5
    let carry := carry + ((limb &&& 0x03FFFFFF) * 19 + x)
    (carry &&& 0x03FFFFFF) :: reduceLoop (limb >>> 26) (carry >>> 26) highs xs

/-- `size` is the number of limbs in the high order half of `x`. -/
def reduce (x : List Int32) (size : ℕ) : List Int32 :=
  let limb := x.getD 9 0 >>> 21
  let highs := (x.drop 10).take size
  let x := reduceLoop limb 0 highs ((x.take 10).modify 9 (· &&& 0x001FFFFF))
  let carry := (x.getD 9 0 >>> 21) * 19
  reduceQuick (carryLoop carry (x.modify 9 (· &&& 0x001FFFFF)))

/-- The limbs of a sum from the second one on. -/
def addLoop : Int32 → List Int32 → List Int32 → List Int32
  | carry, x :: xs, y :: ys =>
    let carry := (carry >>> 26) + x + y
    (carry &&& 0x03FFFFFF) :: addLoop carry xs ys
  | _, _, _ => []

@[irreducible]
def add : List Int32 → List Int32 → List Int32
  | x :: xs, y :: ys =>
    let carry := x + y
    reduceQuick ((carry &&& 0x03FFFFFF) :: addLoop carry xs ys)
  | _, _ => []

/-- The limbs of a difference, and the last borrow. -/
def subLoop : Int32 → List Int32 → List Int32 → List Int32 × Int32
  | borrow, x :: xs, y :: ys =>
    let borrow := x - y - ((borrow >>> 26) &&& 0x01)
    let (result, last) := subLoop borrow xs ys
    ((borrow &&& 0x03FFFFFF) :: result, last)
  | borrow, _, _ => ([], borrow)

/-- The borrow runs through the limbs. -/
def borrowLoop : Int32 → List Int32 → List Int32
  | _, [] => []
  | borrow, x :: xs =>
    let borrow := x - ((borrow >>> 26) &&& 0x01)
    (borrow &&& 0x03FFFFFF) :: borrowLoop borrow xs

@[irreducible]
def sub (x y : List Int32) : List Int32 :=
  let (result, borrow) := subLoop 0 x y
  let result :=
    match result with
    | [] => []
    | first :: rest =>
      -- a borrow is repaid with 2^255 - 19
      let borrow := first - (-((borrow >>> 26) &&& 0x01) &&& 19)
      (borrow &&& 0x03FFFFFF) :: borrowLoop borrow rest
  result.modify 9 (· &&& 0x001FFFFF)

/-- The carries of a product, from the second limb on. -/
def narrowLoop : Int64 → List Int64 → List Int32
  | _, [] => []
  | v, t :: ts =>
    let v := (v >>> 26) + t
    (v.toInt32 &&& 0x03FFFFFF) :: narrowLoop v ts

/-- Back to limbs of 26 bits. -/
def narrow : List Int64 → List Int32
  | [] => []
  | v :: ts => (v.toInt32 &&& 0x03FFFFFF) :: narrowLoop v ts

/-- The limbs of a product before the carries; the last of the twenty is never written. -/
def product (x y : List Int32) : List Int64 :=
  mulRows (y.map Int32.toInt64) (x.map Int32.toInt64) [] ++ [0]

@[irreducible]
def mul (x y : List Int32) : List Int32 := reduce (narrow (product x y)) 10

def square (x : List Int32) : List Int32 := mul x x

/-- The limbs of a multiple, and the carry as the last one. -/
def mulA24Loop : Int64 → List Int32 → List Int32
  | carry, [] => [carry.toInt32 &&& 0x03FFFFFF]
  | carry, x :: xs =>
    let carry := carry + 121665 * x.toInt64
    (carry.toInt32 &&& 0x03FFFFFF) :: mulA24Loop (carry >>> 26) xs

@[irreducible]
def mulA24 (x : List Int32) : List Int32 := reduce (mulA24Loop 0 x) 1

/-! ## The number -/

/-- The base. -/
def base : ℤ := 2 ^ 26

/-- The limbs as numbers. -/
def limbs (x : List Int32) : List ℤ := x.map Int32.toInt

/-- The number that the limbs are. -/
def num (x : List Int32) : ℤ := value base (limbs x)

def p : ℤ := 2 ^ 255 - 19

/-- Ten limbs of 26 bits. -/
structure IsNumber (x : List Int32) : Prop where
  length : x.length = 10
  digits : IsDigits base (limbs x)

/-- A number below 2^255 - 19. -/
structure IsElement (x : List Int32) : Prop extends IsNumber x where
  lt : num x < p

@[simp] theorem limbs_nil : limbs [] = [] := rfl

@[simp] theorem limbs_cons (x : Int32) (xs : List Int32) :
    limbs (x :: xs) = x.toInt :: limbs xs := rfl

@[simp] theorem num_nil : num [] = 0 := rfl

@[simp] theorem num_cons (x : Int32) (xs : List Int32) :
    num (x :: xs) = x.toInt + base * num xs := rfl

@[simp] theorem length_limbs (x : List Int32) : (limbs x).length = x.length := List.length_map _

theorem base_pos : 0 < base := by decide

theorem base_eq : base = 67108864 := rfl

section

variable (a : Int32) (v : Int64)

theorem toInt_low : (a &&& 0x03FFFFFF).toInt = a.toInt % base :=
  toInt_and_of_mask a (by decide) (k := 26) rfl

theorem toInt_low_long : (v.toInt32 &&& 0x03FFFFFF).toInt = v.toInt % base :=
  toInt_toInt32_and_of_mask v (by decide) (k := 26) rfl

theorem toInt_top : (a &&& 0x001FFFFF).toInt = a.toInt % 2 ^ 21 :=
  toInt_and_of_mask a (by decide) (k := 21) rfl

theorem toInt_bit : (a &&& 0x01).toInt = a.toInt % 2 :=
  toInt_and_of_mask a (by decide) (k := 1) rfl

theorem toInt_next : (a >>> 26).toInt = a.toInt / base := toInt_shiftRight a rfl

theorem toInt_next_long : (v >>> 26).toInt = v.toInt / base := toInt64_shiftRight v rfl

theorem toInt_above : (a >>> 21).toInt = a.toInt / 2 ^ 21 := toInt_shiftRight a rfl

end

/-! ## The loops -/

section

variable {carry borrow x : Int32} {xs ys : List Int32}

theorem limbs_carryLoop (hcarry : 0 ≤ carry.toInt) (hlt : carry.toInt < base)
    (hxs : IsDigits base (limbs xs)) :
    limbs (carryLoop carry xs) = Limbs.carry base carry.toInt (limbs xs) := by
  induction xs generalizing carry with
  | nil => rfl
  | cons x xs ih =>
    obtain ⟨hx, hxs⟩ := isDigits_cons.mp hxs
    rw [base_eq] at hlt hx
    have hsum : (carry + x).toInt = carry.toInt + x.toInt :=
      toInt_add_of_range (by omega) (by omega)
    rw [carryLoop, limbs_cons, limbs_cons, Limbs.carry, toInt_low, ih, toInt_next, hsum]
    · rw [toInt_next, hsum, base_eq]
      omega
    · rw [toInt_next, hsum, base_eq]
      omega
    · exact hxs

theorem limbs_addLoop (hcarry : 0 ≤ carry.toInt) (hlt : carry.toInt < 2 * base)
    (hxs : IsDigits base (limbs xs)) (hys : IsDigits base (limbs ys)) :
    limbs (addLoop carry xs ys) =
      Limbs.carry base (carry.toInt / base) (List.zipWith (· + ·) (limbs xs) (limbs ys)) := by
  induction xs generalizing carry ys with
  | nil => rfl
  | cons x xs ih =>
    cases ys with
    | nil => rfl
    | cons y ys =>
      obtain ⟨hx, hxs⟩ := isDigits_cons.mp hxs
      obtain ⟨hy, hys⟩ := isDigits_cons.mp hys
      have hnext := toInt_next carry
      rw [base_eq] at hlt hx hy hnext
      have hsum : ((carry >>> 26) + x).toInt = carry.toInt / base + x.toInt := by
        rw [toInt_add_of_range, hnext, base_eq] <;> omega
      have hsum' : ((carry >>> 26) + x + y).toInt = carry.toInt / base + (x.toInt + y.toInt) := by
        rw [base_eq] at hsum
        rw [toInt_add_of_range, hsum, base_eq, add_assoc] <;> omega
      rw [addLoop, limbs_cons, limbs_cons, limbs_cons, List.zipWith_cons_cons, Limbs.carry,
        toInt_low, ih _ _ hxs hys, hsum']
      · rw [hsum', base_eq]
        omega
      · rw [hsum', base_eq]
        omega

/-- A borrow as a bit. -/
theorem toInt_borrowBit (hborrow : -base ≤ borrow.toInt) (hlt : borrow.toInt < base) :
    ((borrow >>> 26) &&& 0x01).toInt = -(borrow.toInt / base) := by
  rw [toInt_bit, toInt_next]
  rw [base_eq] at *
  omega

theorem subLoop_spec (hborrow : -base ≤ borrow.toInt) (hlt : borrow.toInt < base)
    (hxs : IsDigits base (limbs xs)) (hys : IsDigits base (limbs ys)) :
    limbs (subLoop borrow xs ys).1 = Limbs.carry base (borrow.toInt / base)
        (List.zipWith (· - ·) (limbs xs) (limbs ys)) ∧
      (subLoop borrow xs ys).2.toInt / base = carryOut base (borrow.toInt / base)
        (List.zipWith (· - ·) (limbs xs) (limbs ys)) ∧
      -base ≤ (subLoop borrow xs ys).2.toInt ∧ (subLoop borrow xs ys).2.toInt < base := by
  induction xs generalizing borrow ys with
  | nil => exact ⟨rfl, rfl, hborrow, hlt⟩
  | cons x xs ih =>
    cases ys with
    | nil => exact ⟨rfl, rfl, hborrow, hlt⟩
    | cons y ys =>
      obtain ⟨hx, hxs⟩ := isDigits_cons.mp hxs
      obtain ⟨hy, hys⟩ := isDigits_cons.mp hys
      have hbit := toInt_borrowBit hborrow hlt
      have hdiff : (x - y - ((borrow >>> 26) &&& 0x01)).toInt =
          borrow.toInt / base + (x.toInt - y.toInt) := by
        rw [base_eq] at *
        have hsub : (x - y).toInt = x.toInt - y.toInt := by
          rw [toInt_sub_of_range] <;> omega
        rw [toInt_sub_of_range, hsub, hbit] <;> omega
      have hrange : -base ≤ (x - y - ((borrow >>> 26) &&& 0x01)).toInt ∧
          (x - y - ((borrow >>> 26) &&& 0x01)).toInt < base := by
        rw [base_eq] at *
        omega
      obtain ⟨hresult, hlast, hbounds⟩ := ih hrange.1 hrange.2 hxs hys
      rw [limbs_cons, limbs_cons, List.zipWith_cons_cons, Limbs.carry, carryOut, ← hdiff]
      refine ⟨?_, hlast, hbounds⟩
      rw [subLoop, limbs_cons, toInt_low, hresult]

theorem limbs_borrowLoop (hborrow : -base ≤ borrow.toInt) (hlt : borrow.toInt < base)
    (hxs : IsDigits base (limbs xs)) :
    limbs (borrowLoop borrow xs) = Limbs.carry base (borrow.toInt / base) (limbs xs) := by
  induction xs generalizing borrow with
  | nil => rfl
  | cons x xs ih =>
    obtain ⟨hx, hxs⟩ := isDigits_cons.mp hxs
    have hbit := toInt_borrowBit hborrow hlt
    have hdiff : (x - ((borrow >>> 26) &&& 0x01)).toInt = borrow.toInt / base + x.toInt := by
      rw [base_eq] at *
      rw [toInt_sub_of_range, hbit] <;> omega
    have hrange : -base ≤ (x - ((borrow >>> 26) &&& 0x01)).toInt ∧
        (x - ((borrow >>> 26) &&& 0x01)).toInt < base := by
      rw [base_eq] at *
      omega
    rw [borrowLoop, limbs_cons, limbs_cons, Limbs.carry, toInt_low, ih hrange.1 hrange.2 hxs, hdiff]

theorem reduceLoop_nil (limb carry : Int32) (xs : List Int32) :
    reduceLoop limb carry [] xs = carryLoop carry xs := by
  cases xs <;> rfl

/-- The next limb of the high order half just fits an `int`. -/
theorem toInt_addHigh {limb high : Int32} (hlimb : 0 ≤ limb.toInt) (hle : limb.toInt < 32)
    (hhigh : 0 ≤ high.toInt ∧ high.toInt < base) :
    (limb + high <<< 5).toInt = limb.toInt + 32 * high.toInt := by
  rw [base_eq] at hhigh
  have hshift : (high <<< 5).toInt = high.toInt * 2 ^ 5 :=
    toInt_shiftLeft_of_range rfl (by decide) (by omega) (by omega)
  rw [toInt_add_of_range] <;> omega

/-- So does a limb with nineteen times another. -/
theorem toInt_addFolded (limb : Int32) (hcarry : 0 ≤ carry.toInt) (hlt : carry.toInt < 32)
    (hx : 0 ≤ x.toInt ∧ x.toInt < base) :
    (carry + ((limb &&& 0x03FFFFFF) * 19 + x)).toInt =
      carry.toInt + (limb.toInt % base * 19 + x.toInt) := by
  have hmask := toInt_low limb
  have hnineteen : (19 : Int32).toInt = 19 := rfl
  rw [base_eq] at hmask hx ⊢
  have hprod : ((limb &&& 0x03FFFFFF) * 19).toInt = limb.toInt % 67108864 * 19 := by
    rw [toInt_mul_of_range, hmask, hnineteen] <;> rw [hnineteen] <;> omega
  have hsum : ((limb &&& 0x03FFFFFF) * 19 + x).toInt = limb.toInt % 67108864 * 19 + x.toInt := by
    rw [toInt_add_of_range, hprod] <;> omega
  rw [toInt_add_of_range, hsum] <;> omega

/-- **Folding the high order half.** What is above 2^255 is added nineteen times. -/
theorem reduceLoop_spec {limb : Int32} {highs : List Int32} (hlimb : 0 ≤ limb.toInt)
    (hle : limb.toInt < 32) (hcarry : 0 ≤ carry.toInt) (hlt : carry.toInt < 32)
    (hhighs : IsDigits base (limbs highs)) (hxs : IsDigits base (limbs xs))
    (hlength : highs.length ≤ xs.length)
    (hfits : limb.toInt + 32 * num highs < base ^ highs.length) :
    (reduceLoop limb carry highs xs).length = xs.length ∧
    IsDigits base (limbs (reduceLoop limb carry highs xs)) ∧
    num (reduceLoop limb carry highs xs) =
      (carry.toInt + num xs + 19 * (limb.toInt + 32 * num highs)) % base ^ xs.length := by
  induction highs generalizing limb carry xs with
  | nil =>
    have hzero : limb.toInt = 0 := by
      rw [num_nil, List.length_nil, pow_zero] at hfits
      omega
    have hloop := limbs_carryLoop hcarry (by rw [base_eq]; omega) hxs
    refine ⟨?_, ?_, ?_⟩
    · rw [reduceLoop_nil, ← length_limbs, hloop, length_carry, length_limbs]
    · rw [reduceLoop_nil, hloop]
      exact isDigits_carry base_pos _ _
    · rw [reduceLoop_nil, num, hloop, value_carry base_pos, length_limbs, hzero, num_nil]
      simp [num]
  | cons high highs ih =>
    cases xs with
    | nil => cases hlength
    | cons x xs =>
      obtain ⟨hhigh, hhighs⟩ := isDigits_cons.mp hhighs
      obtain ⟨hx, hxs⟩ := isDigits_cons.mp hxs
      have hlimb' := toInt_addHigh hlimb hle hhigh
      have hcarry' := toInt_addFolded (limb + high <<< 5) hcarry hlt hx
      have hnext : (limb + high <<< 5).toInt / base + 32 * num highs < base ^ highs.length := by
        rw [num_cons, List.length_cons, pow_succ'] at hfits
        refine lt_of_eq_of_lt (Int.add_mul_ediv_left _ _ base_pos.ne').symm
          (Int.ediv_lt_of_lt_mul base_pos ?_)
        rw [hlimb']
        linarith
      have hlimbNext := toInt_next (limb + high <<< 5)
      have hcarryNext := toInt_next (carry + ((limb + high <<< 5 &&& 0x03FFFFFF) * 19 + x))
      have hlimbRange : 0 ≤ ((limb + high <<< 5) >>> 26).toInt ∧
          ((limb + high <<< 5) >>> 26).toInt < 32 := by
        rw [base_eq] at hhigh hlimbNext
        omega
      have hcarryRange :
          0 ≤ ((carry + ((limb + high <<< 5 &&& 0x03FFFFFF) * 19 + x)) >>> 26).toInt ∧
          ((carry + ((limb + high <<< 5 &&& 0x03FFFFFF) * 19 + x)) >>> 26).toInt < 32 := by
        rw [base_eq] at hx hcarryNext hcarry'
        omega
      obtain ⟨hlen, hdigits, hnum⟩ := ih hlimbRange.1 hlimbRange.2 hcarryRange.1 hcarryRange.2
        hhighs hxs (Nat.le_of_succ_le_succ hlength) (by rw [hlimbNext]; exact hnext)
      refine ⟨?_, ?_, ?_⟩
      · rw [reduceLoop, List.length_cons, hlen, List.length_cons]
      · rw [reduceLoop, limbs_cons, isDigits_cons, toInt_low]
        exact ⟨⟨Int.emod_nonneg _ base_pos.ne', Int.emod_lt_of_pos _ base_pos⟩, hdigits⟩
      · rw [reduceLoop, num_cons, toInt_low, hnum, hcarryNext, hlimbNext, add_assoc,
          emod_cons base_pos, hcarry', num_cons, num_cons, List.length_cons, pow_succ']
        congr 1
        have hdivmod := Int.emod_add_mul_ediv (limb + high <<< 5).toInt base
        linear_combination 19 * hdivmod + 19 * hlimb'

end

/-! ## The last limb -/

theorem exists_concat {x : List Int32} (h : x.length = 10) :
    ∃ (ds : List Int32) (d : Int32), x = ds ++ [d] ∧ ds.length = 9 := by
  have hne : x ≠ [] := by
    rintro rfl
    cases h
  refine ⟨x.dropLast, x.getLast hne, (List.dropLast_concat_getLast hne).symm, ?_⟩
  rw [List.length_dropLast, h]

section

variable {ds : List Int32} {x y : List Int32}

theorem getD_concat (d : Int32) (h : ds.length = 9) : (ds ++ [d]).getD 9 0 = d := by
  rw [← h, List.getD, List.getElem?_concat_length]
  rfl

theorem modify_concat (f : Int32 → Int32) (d : Int32) (h : ds.length = 9) :
    (ds ++ [d]).modify 9 f = ds ++ [f d] := by
  rw [List.modify_eq_take_drop, List.take_left' h, List.drop_left' h]
  rfl

theorem limbs_append (x y : List Int32) : limbs (x ++ y) = limbs x ++ limbs y := List.map_append

theorem two_pow_255 : (2 ^ 255 : ℤ) = base ^ 9 * 2 ^ 21 := by decide

theorem base_pow_ten : base ^ 10 = 32 * 2 ^ 255 := by decide

/-- **Bit 255 is bit 21 of the last limb.** -/
theorem IsNumber.cut (h : IsNumber x) :
    IsNumber (x.modify 9 (· &&& 0x001FFFFF)) ∧
      num (x.modify 9 (· &&& 0x001FFFFF)) = num x % 2 ^ 255 ∧
      (x.getD 9 0 >>> 21).toInt = num x / 2 ^ 255 := by
  obtain ⟨ds, d, rfl, hlength⟩ := exists_concat h.length
  have hdigits := h.digits
  rw [limbs_append, isDigits_append] at hdigits
  have hlen : (limbs ds).length = 9 := by rw [length_limbs, hlength]
  rw [modify_concat _ _ hlength, getD_concat _ hlength, toInt_above, two_pow_255]
  refine ⟨⟨?_, ?_⟩, ?_, ?_⟩
  · rw [List.length_append, hlength]
    rfl
  · rw [limbs_append, isDigits_append]
    refine ⟨hdigits.1, isDigits_cons.mpr ⟨?_, fun _ h => absurd h List.not_mem_nil⟩⟩
    rw [toInt_top, base_eq]
    omega
  · rw [num, limbs_append, limbs_cons, limbs_nil, toInt_top, num, limbs_append, limbs_cons,
      limbs_nil, ← hlen, value_mod base_pos hdigits.1]
  · rw [num, limbs_append, limbs_cons, limbs_nil, ← hlen, value_div base_pos hdigits.1]

theorem IsNumber.num_nonneg (h : IsNumber x) : 0 ≤ num x := h.digits.value_nonneg base_pos.le

theorem IsNumber.num_lt (h : IsNumber x) : num x < 32 * 2 ^ 255 := by
  have hlt := h.digits.value_lt base_pos.le
  rwa [length_limbs, h.length, base_pow_ten] at hlt

/-- What is left of ten limbs once the carries have run. -/
theorem isNumber_of_carry {c : ℤ} {ds : List ℤ} (h : limbs x = Limbs.carry base c ds)
    (hlength : ds.length = 10) :
    IsNumber x ∧ num x = (c + value base ds) % (32 * 2 ^ 255) := by
  refine ⟨⟨?_, ?_⟩, ?_⟩
  · rw [← length_limbs, h, length_carry, hlength]
  · rw [h]
    exact isDigits_carry base_pos _ _
  · rw [num, h, value_carry base_pos, hlength, base_pow_ten]

theorem IsNumber.num_carryLoop {carry : Int32} (h : IsNumber x) (hcarry : 0 ≤ carry.toInt)
    (hlt : carry.toInt < base) (hfits : carry.toInt + num x < 32 * 2 ^ 255) :
    IsNumber (carryLoop carry x) ∧ num (carryLoop carry x) = carry.toInt + num x := by
  obtain ⟨hnumber, hnum⟩ := isNumber_of_carry (limbs_carryLoop hcarry hlt h.digits)
    (by rw [length_limbs, h.length])
  exact ⟨hnumber, hnum.trans (Int.emod_eq_of_lt (add_nonneg hcarry h.num_nonneg) hfits)⟩

end

/-! ## The trial subtraction -/

section

variable {x y : List Int32}

/-- The mask without bits selects the first number. -/
theorem select_zero (h : x.length = y.length) :
    List.zipWith (fun x t2 : Int32 => (x &&& ~~~0) ||| (t2 &&& 0)) x y = x := by
  refine List.ext_getElem (by rw [List.length_zipWith, h, min_self]) fun i _ _ => ?_
  rw [List.getElem_zipWith, ← Int32.toBitVec_inj]
  simp

/-- The mask with all bits selects the second one. -/
theorem select_neg_one (h : x.length = y.length) :
    List.zipWith (fun x t2 : Int32 => (x &&& ~~~(-1)) ||| (t2 &&& -1)) x y = y := by
  refine List.ext_getElem (by rw [List.length_zipWith, h, min_self]) fun i _ _ => ?_
  rw [List.getElem_zipWith, ← Int32.toBitVec_inj]
  simp

/-- **The trial subtraction** of a number of 256 bits. The last nineteen, which have no bit 255 once
19 is added, are left as they are. -/
theorem IsNumber.num_reduceQuick (h : IsNumber x) (hlt : num x < 2 ^ 256) :
    IsNumber (reduceQuick x) ∧
      num (reduceQuick x) = if p ≤ num x ∧ num x < 2 ^ 256 - 19 then num x - p else num x := by
  have hnineteen : (19 : Int32).toInt = 19 := rfl
  have hnonneg := h.num_nonneg
  obtain ⟨ht2, hnum⟩ := h.num_carryLoop (by decide : 0 ≤ (19 : Int32).toInt) (by decide) (by omega)
  obtain ⟨hcut, hlow, habove⟩ := ht2.cut
  rw [hnum, hnineteen] at hlow habove
  have hbit := toInt_bit ((carryLoop 19 x).getD 9 0 >>> 21)
  rw [habove] at hbit
  rw [reduceQuick, p]
  split_ifs with hp
  · have hset : (carryLoop 19 x).getD 9 0 >>> 21 &&& 0x01 = 1 := by
      rw [← Int32.toInt_inj, hbit]
      show _ = 1
      omega
    rw [hset, select_neg_one (h.length.trans hcut.length.symm)]
    refine ⟨hcut, ?_⟩
    rw [hlow]
    omega
  · have hclear : (carryLoop 19 x).getD 9 0 >>> 21 &&& 0x01 = 0 := by
      rw [← Int32.toInt_inj, hbit]
      show _ = 0
      omega
    have hzero : -(0 : Int32) = 0 := rfl
    rw [hclear, hzero, select_zero (h.length.trans hcut.length.symm)]
    exact ⟨h, rfl⟩

/-- Below twice the modulus the trial subtraction leaves the remainder. -/
theorem IsNumber.isElement_reduceQuick (h : IsNumber x) (hlt : num x < 2 * p) :
    IsElement (reduceQuick x) ∧ num (reduceQuick x) = num x % p := by
  have hnonneg := h.num_nonneg
  rw [p] at *
  obtain ⟨hnumber, hnum⟩ := h.num_reduceQuick (by omega)
  rw [p] at hnum
  split_ifs at hnum with hp
  · exact ⟨⟨hnumber, by rw [p]; omega⟩, by omega⟩
  · exact ⟨⟨hnumber, by rw [p]; omega⟩, by omega⟩

end

/-! ## Sums and differences -/

section

variable {x y : List Int32}

theorem length_zipWith_limbs (f : ℤ → ℤ → ℤ) (hx : IsNumber x) (hy : IsNumber y) :
    (List.zipWith f (limbs x) (limbs y)).length = 10 := by
  rw [List.length_zipWith, length_limbs, length_limbs, hx.length, hy.length, min_self]

/-- **The sum** modulo 2^255 - 19. -/
theorem IsElement.num_add (hx : IsElement x) (hy : IsElement y) :
    IsElement (add x y) ∧ num (add x y) = (num x + num y) % p := by
  have hlengths := length_zipWith_limbs (· + ·) hx.toIsNumber hy.toIsNumber
  have hvalue : value base (List.zipWith (· + ·) (limbs x) (limbs y)) = num x + num y :=
    value_zipWith_add (by rw [length_limbs, length_limbs, hx.length, hy.length])
  have hxlt := hx.lt
  have hylt := hy.lt
  have hxnonneg := hx.num_nonneg
  have hynonneg := hy.num_nonneg
  obtain ⟨x₀, xs, rfl⟩ := List.exists_cons_of_length_eq_add_one hx.length
  obtain ⟨y₀, ys, rfl⟩ := List.exists_cons_of_length_eq_add_one hy.length
  obtain ⟨hx₀, hxs⟩ := isDigits_cons.mp hx.digits
  obtain ⟨hy₀, hys⟩ := isDigits_cons.mp hy.digits
  have hfirst : (x₀ + y₀).toInt = x₀.toInt + y₀.toInt := by
    rw [base_eq] at hx₀ hy₀
    rw [toInt_add_of_range] <;> omega
  have hlimbs : limbs ((x₀ + y₀ &&& 0x03FFFFFF) :: addLoop (x₀ + y₀) xs ys) =
      Limbs.carry base 0 (List.zipWith (· + ·) (limbs (x₀ :: xs)) (limbs (y₀ :: ys))) := by
    rw [limbs_cons, toInt_low, limbs_addLoop _ _ hxs hys, limbs_cons, limbs_cons,
      List.zipWith_cons_cons, Limbs.carry, hfirst, zero_add]
    · rw [hfirst]; omega
    · rw [hfirst]; omega
  obtain ⟨hnumber, hnum⟩ := isNumber_of_carry hlimbs hlengths
  rw [hvalue, zero_add] at hnum
  rw [p] at hxlt hylt
  rw [Int.emod_eq_of_lt (by omega) (by omega)] at hnum
  rw [add, ← hnum]
  refine hnumber.isElement_reduceQuick ?_
  rw [hnum, p]
  omega

/-- Nineteen, if there was a borrow. -/
theorem toInt_repay {borrow : Int32} (hborrow : -base ≤ borrow.toInt) (hlt : borrow.toInt < base) :
    (-((borrow >>> 26) &&& 0x01) &&& 19).toInt = -19 * (borrow.toInt / base) := by
  have hbit := toInt_borrowBit hborrow hlt
  obtain hzero | hone : borrow.toInt / base = 0 ∨ borrow.toInt / base = -1 := by
    rw [base_eq] at *
    omega
  · rw [hzero] at hbit ⊢
    have hclear : (borrow >>> 26) &&& 0x01 = 0 := Int32.toInt_inj.mp hbit
    rw [hclear]
    rfl
  · rw [hone] at hbit ⊢
    have hset : (borrow >>> 26) &&& 0x01 = 1 := Int32.toInt_inj.mp hbit
    rw [hset]
    rfl

/-- The borrow of nineteen, where there is one, runs through the limbs. -/
theorem limbs_repaid {borrow first : Int32} {rest : List Int32} (hborrow : -base ≤ borrow.toInt)
    (hlt : borrow.toInt < base) (h : IsDigits base (limbs (first :: rest))) :
    limbs ((first - (-((borrow >>> 26) &&& 0x01) &&& 19) &&& 0x03FFFFFF) ::
      borrowLoop (first - (-((borrow >>> 26) &&& 0x01) &&& 19)) rest) =
      Limbs.carry base (19 * (borrow.toInt / base)) (limbs (first :: rest)) := by
  obtain ⟨hfirst, hrest⟩ := isDigits_cons.mp h
  have hrepay := toInt_repay hborrow hlt
  have hdiff : (first - (-((borrow >>> 26) &&& 0x01) &&& 19)).toInt =
      19 * (borrow.toInt / base) + first.toInt := by
    rw [base_eq] at *
    rw [toInt_sub_of_range, hrepay] <;> omega
  rw [limbs_cons, toInt_low, limbs_borrowLoop _ _ hrest, limbs_cons, Limbs.carry, hdiff]
  · rw [hdiff]
    rw [base_eq] at *
    omega
  · rw [hdiff]
    rw [base_eq] at *
    omega

/-- A borrow out of the last limb is repaid with 2^255 - 19. -/
theorem repay_emod {d : ℤ} (h : -p < d) (h' : d < p) :
    (19 * (d / (32 * 2 ^ 255)) + d % (32 * 2 ^ 255)) % (32 * 2 ^ 255) % 2 ^ 255 = d % p := by
  rw [p] at *
  obtain hneg | hpos := lt_or_ge d 0
  · have hdiv : d / (32 * 2 ^ 255) = -1 := by omega
    have hmod : d % (32 * 2 ^ 255) = d + 32 * 2 ^ 255 := by omega
    have hrepaid : (19 * -1 + (d + 32 * 2 ^ 255)) % (32 * 2 ^ 255) =
        d + 32 * 2 ^ 255 - 19 := by omega
    have hcut : (d + 32 * 2 ^ 255 - 19) % 2 ^ 255 = d + 2 ^ 255 - 19 := by omega
    have hresult : d % (2 ^ 255 - 19) = d + 2 ^ 255 - 19 := by omega
    rw [hdiv, hmod, hrepaid, hcut, hresult]
  · have hdiv : d / (32 * 2 ^ 255) = 0 := by omega
    have hmod : d % (32 * 2 ^ 255) = d := by omega
    rw [hdiv, hmod]
    omega

/-- **The difference** modulo 2^255 - 19. -/
theorem IsElement.num_sub (hx : IsElement x) (hy : IsElement y) :
    IsElement (sub x y) ∧ num (sub x y) = (num x - num y) % p := by
  have hlengths := length_zipWith_limbs (· - ·) hx.toIsNumber hy.toIsNumber
  have hvalue : value base (List.zipWith (· - ·) (limbs x) (limbs y)) = num x - num y :=
    value_zipWith_sub (by rw [length_limbs, length_limbs, hx.length, hy.length])
  have hxlt := hx.lt
  have hylt := hy.lt
  have hxnonneg := hx.num_nonneg
  have hynonneg := hy.num_nonneg
  have hstart : (0 : Int32).toInt / base = 0 := rfl
  obtain ⟨hresult, hlast, hborrow, hlt⟩ := subLoop_spec (by decide : -base ≤ (0 : Int32).toInt)
    (by decide) hx.digits hy.digits
  rw [hstart] at hresult hlast
  rw [carryOut_eq base_pos, hlengths, hvalue, base_pow_ten, zero_add] at hlast
  obtain ⟨hnumber, hnum⟩ := isNumber_of_carry hresult hlengths
  rw [hvalue, zero_add] at hnum
  rw [sub]
  generalize subLoop 0 x y = loop at *
  obtain ⟨result, borrow⟩ := loop
  obtain ⟨first, rest, rfl⟩ := List.exists_cons_of_length_eq_add_one hnumber.length
  obtain ⟨hrepaid, hnum'⟩ := isNumber_of_carry (limbs_repaid hborrow hlt hnumber.digits)
    (by rw [length_limbs, hnumber.length])
  have hfold : value base (limbs (first :: rest)) = num (first :: rest) := rfl
  rw [hfold, hlast, hnum] at hnum'
  obtain ⟨hcut, hlow, -⟩ := hrepaid.cut
  rw [hnum', repay_emod (by linarith) (by linarith)] at hlow
  exact ⟨⟨hcut, hlow ▸ Int.emod_lt_of_pos _ (by decide)⟩, hlow⟩

end

/-! ## Reduction -/

/-- What is above 2^255 may be folded. -/
theorem fold_emod (v : ℤ) : (v % 2 ^ 255 + 19 * (v / 2 ^ 255)) % p = v % p := by
  have hfold : v % 2 ^ 255 + 19 * (v / 2 ^ 255) = v - p * (v / 2 ^ 255) := by
    rw [p, Int.emod_def]
    ring
  rw [hfold, Int.sub_mul_emod_self_left]

section

variable {x z : List Int32}

/-- The second folding and the trial subtraction. -/
theorem IsNumber.isElement_fold (h : IsNumber x) (hlt : num x < 20 * 2 ^ 255) :
    IsElement (reduceQuick (carryLoop ((x.getD 9 0 >>> 21) * 19) (x.modify 9 (· &&& 0x001FFFFF)))) ∧
      num (reduceQuick (carryLoop ((x.getD 9 0 >>> 21) * 19) (x.modify 9 (· &&& 0x001FFFFF)))) =
        num x % p := by
  have hnonneg := h.num_nonneg
  obtain ⟨hcut, hlow, habove⟩ := h.cut
  have hnineteen : (19 : Int32).toInt = 19 := rfl
  have hcarry : ((x.getD 9 0 >>> 21) * 19).toInt = num x / 2 ^ 255 * 19 := by
    rw [toInt_mul_of_range, habove, hnineteen] <;> rw [habove, hnineteen] <;> omega
  obtain ⟨hnumber, hnum⟩ := hcut.num_carryLoop (by rw [hcarry]; omega)
    (by rw [hcarry, base_eq]; omega) (by rw [hcarry, hlow]; omega)
  rw [hcarry, hlow, add_comm, mul_comm] at hnum
  rw [← fold_emod (num x), ← hnum]
  refine hnumber.isElement_reduceQuick ?_
  rw [hnum, p]
  omega

/-- **Reduction**, where the high order half has the limbs for what is above 2^255. -/
theorem isElement_reduce {size : ℕ} (hlength : z.length = 10 + size) (hsize : size ≤ 10)
    (hz : IsDigits base (limbs z)) (hfits : num z / 2 ^ 255 < base ^ size)
    (hlt : num z < 2 ^ 255 * 2 ^ 255) :
    IsElement (reduce z size) ∧ num (reduce z size) = num z % p := by
  have hsplit : limbs z = limbs (z.take 10) ++ limbs (z.drop 10) := by
    rw [← limbs_append, List.take_append_drop]
  rw [hsplit, isDigits_append] at hz
  have hnumber : IsNumber (z.take 10) := ⟨by rw [List.length_take]; omega, hz.1⟩
  have hhighs : (z.drop 10).length = size := by rw [List.length_drop]; omega
  have hnum : num z = num (z.take 10) + 32 * 2 ^ 255 * num (z.drop 10) := by
    rw [num, hsplit, value_append, length_limbs, hnumber.length, base_pow_ten]
    rfl
  have hnonneg := hnumber.num_nonneg
  have hhighsNonneg : 0 ≤ num (z.drop 10) := hz.2.value_nonneg base_pos.le
  have hbound := hnumber.num_lt
  obtain ⟨hcut, hlow, habove⟩ := hnumber.cut
  have hlimb : z.getD 9 0 = (z.take 10).getD 9 0 := by
    rw [List.getD, List.getD, List.getElem?_take_of_lt (by decide)]
  have hquotient : num (z.take 10) / 2 ^ 255 + 32 * num (z.drop 10) = num z / 2 ^ 255 := by
    rw [hnum]
    omega
  have hremainder : num (z.take 10) % 2 ^ 255 = num z % 2 ^ 255 := by
    rw [hnum]
    omega
  rw [← hlimb] at habove
  obtain ⟨hlen, hdigits, hfolded⟩ := reduceLoop_spec
    (by rw [habove]; omega : 0 ≤ (z.getD 9 0 >>> 21).toInt) (by rw [habove]; omega)
    (by decide : 0 ≤ (0 : Int32).toInt) (by decide) hz.2 hcut.digits
    (by rw [hhighs, hcut.length]; exact hsize) (by rw [habove, hhighs, hquotient]; exact hfits)
  have hzero : (0 : Int32).toInt = 0 := rfl
  rw [habove, hquotient, hlow, hremainder, hcut.length, base_pow_ten, hzero, zero_add,
    Int.emod_eq_of_lt (by omega) (by omega)] at hfolded
  rw [← fold_emod (num z), ← hfolded]
  have hall : (z.drop 10).take size = z.drop 10 := List.take_of_length_le hhighs.le
  rw [reduce, hall]
  exact IsNumber.isElement_fold ⟨hlen.trans hcut.length, hdigits⟩ (by rw [hfolded]; omega)

end

/-! ## Products -/

/-- The limbs of a product before the carries, as numbers. -/
def longs (t : List Int64) : List ℤ := t.map Int64.toInt

@[simp] theorem longs_cons (t : Int64) (ts : List Int64) :
    longs (t :: ts) = t.toInt :: longs ts := rfl

theorem longs_toInt64 (x : List Int32) : longs (x.map Int32.toInt64) = limbs x := by
  rw [longs, limbs, List.map_map]
  exact List.map_congr_left fun a _ => Int32.toInt_toInt64 a

section

variable {v : Int64} {ts ys : List Int64}

theorem limbs_narrowLoop (hv : 0 ≤ v.toInt) (hlt : v.toInt < 2 ^ 62)
    (hts : IsDigits (2 ^ 60) (longs ts)) :
    limbs (narrowLoop v ts) = Limbs.carry base (v.toInt / base) (longs ts) := by
  induction ts generalizing v with
  | nil => rfl
  | cons t ts ih =>
    obtain ⟨ht, hts⟩ := isDigits_cons.mp hts
    have hnext := toInt_next_long v
    have hsum : ((v >>> 26) + t).toInt = v.toInt / base + t.toInt := by
      rw [base_eq] at hnext ⊢
      rw [toInt64_add_of_range, hnext] <;> omega
    have hrange : 0 ≤ ((v >>> 26) + t).toInt ∧ ((v >>> 26) + t).toInt < 2 ^ 62 := by
      rw [base_eq] at hsum
      omega
    rw [narrowLoop, limbs_cons, longs_cons, Limbs.carry, toInt_low_long,
      ih hrange.1 hrange.2 hts, hsum]

theorem limbs_narrow (hts : IsDigits (2 ^ 60) (longs ts)) :
    limbs (narrow ts) = Limbs.carry base 0 (longs ts) := by
  cases ts with
  | nil => rfl
  | cons v ts =>
    obtain ⟨hv, hts⟩ := isDigits_cons.mp hts
    rw [narrow, limbs_cons, longs_cons, Limbs.carry, toInt_low_long,
      limbs_narrowLoop hv.1 (by omega) hts, zero_add]

/-- A row of the product, where the limbs so far leave room for it. -/
theorem longs_mulRow {k : ℤ} (hk : k + base * base ≤ 2 ^ 60) (hpos : 0 ≤ k)
    (hv : 0 ≤ v.toInt ∧ v.toInt < base) (hys : IsDigits base (longs ys))
    (hts : IsDigits k (longs ts)) :
    longs (mulRow v ys ts) = mulRow v.toInt (longs ys) (longs ts) ∧
      IsDigits (k + base * base) (longs (mulRow v ys ts)) := by
  induction ys generalizing ts with
  | nil => exact ⟨rfl, fun _ h => absurd h List.not_mem_nil⟩
  | cons y ys ih =>
    obtain ⟨hy, hys⟩ := isDigits_cons.mp hys
    have hnonneg : 0 ≤ v.toInt * y.toInt := mul_nonneg hv.1 hy.1
    have hlt : v.toInt * y.toInt < base * base := mul_lt_mul'' hv.2 hy.2 hv.1 hy.1
    have hprod : (v * y).toInt = v.toInt * y.toInt := toInt64_mul_of_range (by omega) (by omega)
    cases ts with
    | nil =>
      obtain ⟨hrow, hdigits⟩ := ih hys hts
      refine ⟨?_, ?_⟩
      · rw [mulRow, longs_cons, longs_cons, hrow, hprod]
        rfl
      · rw [mulRow, longs_cons, isDigits_cons, hprod]
        exact ⟨by omega, hdigits⟩
    | cons t ts =>
      obtain ⟨ht, hts⟩ := isDigits_cons.mp hts
      obtain ⟨hrow, hdigits⟩ := ih hys hts
      have hsum : (t + v * y).toInt = t.toInt + v.toInt * y.toInt := by
        rw [toInt64_add_of_range, hprod] <;> omega
      refine ⟨?_, ?_⟩
      · rw [mulRow, longs_cons, longs_cons, longs_cons, hrow, hsum]
        rfl
      · rw [mulRow, longs_cons, isDigits_cons, hsum]
        exact ⟨by omega, hdigits⟩

/-- All rows. -/
theorem longs_mulRows {k : ℤ} (xs : List Int64) (hk : k + xs.length * (base * base) ≤ 2 ^ 60)
    (hpos : 0 ≤ k) (hxs : IsDigits base (longs xs)) (hys : IsDigits base (longs ys))
    (hts : IsDigits k (longs ts)) :
    longs (mulRows ys xs ts) = mulRows (longs ys) (longs xs) (longs ts) ∧
      IsDigits (2 ^ 60) (longs (mulRows ys xs ts)) := by
  induction xs generalizing ts k with
  | nil => exact ⟨rfl, hts.mono (by simpa using hk)⟩
  | cons x xs ih =>
    obtain ⟨hx, hxs⟩ := isDigits_cons.mp hxs
    have hsquare : 0 ≤ base * base := by decide
    have hrest : (0 : ℤ) ≤ xs.length * (base * base) := mul_nonneg (Nat.cast_nonneg _) hsquare
    rw [List.length_cons, Nat.cast_add, Nat.cast_one, add_mul, one_mul] at hk
    obtain ⟨hrow, hdigits⟩ := longs_mulRow (by omega) hpos hx hys hts
    rw [longs_cons, mulRows, mulRows, ← hrow]
    cases hcases : mulRow x ys ts with
    | nil => exact ⟨rfl, fun _ h => absurd h List.not_mem_nil⟩
    | cons t ts' =>
      rw [hcases, longs_cons, isDigits_cons] at hdigits
      obtain ⟨hrows, hdigits'⟩ := ih (by omega) (by omega) hxs hdigits.2
      refine ⟨?_, ?_⟩
      · rw [longs_cons, longs_cons, hrows]
      · rw [longs_cons, isDigits_cons]
        exact ⟨⟨hdigits.1.1, by omega⟩, hdigits'⟩

end

section

variable {x y : List Int32}

/-- **Schoolbook multiplication** stays within a `long`. -/
theorem longs_product (hx : IsNumber x) (hy : IsNumber y) :
    (longs (product x y)).length = 20 ∧ IsDigits (2 ^ 60) (longs (product x y)) ∧
      value base (longs (product x y)) = num x * num y := by
  have hne : y.map Int32.toInt64 ≠ [] := fun h => by
    cases List.map_eq_nil_iff.mp h ▸ hy.length
  have hnone : IsDigits 0 (longs []) := fun _ h => absurd h List.not_mem_nil
  obtain ⟨hrows, hdigits⟩ := longs_mulRows (x.map Int32.toInt64)
    (by rw [List.length_map, hx.length]; decide) le_rfl (by rw [longs_toInt64]; exact hx.digits)
    (by rw [longs_toInt64]; exact hy.digits) hnone
  have hlongs : longs (product x y) =
      longs (mulRows (y.map Int32.toInt64) (x.map Int32.toInt64) []) ++ [0] := List.map_append
  refine ⟨?_, ?_, ?_⟩
  · obtain ⟨x₀, xs, rfl⟩ := List.exists_cons_of_length_eq_add_one hx.length
    have hxs : xs.length = 9 := Nat.succ.inj hx.length
    rw [hlongs, List.length_append, longs, List.length_map, List.map_cons, length_mulRows hne,
      List.length_map, List.length_map, hy.length, hxs]
    rfl
  · rw [hlongs, isDigits_append]
    exact ⟨hdigits, isDigits_cons.mpr ⟨by decide, fun _ h => absurd h List.not_mem_nil⟩⟩
  · have hnil : longs [] = [] := rfl
    have hlimbs : limbs y ≠ [] := fun h => by
      have hlength := hy.length
      rw [← length_limbs, h] at hlength
      cases hlength
    rw [hlongs, hrows, value_concat, longs_toInt64, longs_toInt64, hnil,
      value_mulRows hlimbs (Nat.zero_le _), value_nil, zero_add, mul_zero, add_zero]
    rfl

/-- **The product** modulo 2^255 - 19. -/
theorem IsElement.num_mul (hx : IsElement x) (hy : IsElement y) :
    IsElement (mul x y) ∧ num (mul x y) = num x * num y % p := by
  obtain ⟨hlength, hbound, hvalue⟩ := longs_product hx.toIsNumber hy.toIsNumber
  have hnonneg : 0 ≤ num x * num y := mul_nonneg hx.num_nonneg hy.num_nonneg
  have hlt : num x * num y < 2 ^ 255 * 2 ^ 255 :=
    mul_lt_mul'' (hx.lt.trans (by decide)) (hy.lt.trans (by decide)) hx.num_nonneg hy.num_nonneg
  have hlimbs := limbs_narrow hbound
  have hnum : num (narrow (product x y)) = num x * num y := by
    rw [num, hlimbs, value_carry base_pos, hlength, hvalue, zero_add]
    exact Int.emod_eq_of_lt hnonneg (hlt.trans (by decide))
  have hquotient : num (narrow (product x y)) / 2 ^ 255 < 2 ^ 255 := by
    rw [hnum]
    exact Int.ediv_lt_of_lt_mul (by decide) hlt
  rw [mul, ← hnum]
  refine isElement_reduce ?_ le_rfl ?_ (hquotient.trans (by decide)) (by rw [hnum]; exact hlt)
  · rw [← length_limbs, hlimbs, length_carry, hlength]
  · rw [hlimbs]
    exact isDigits_carry base_pos _ _

theorem limbs_mulA24Loop {carry : Int64} (hcarry : 0 ≤ carry.toInt) (hlt : carry.toInt < base)
    (hx : IsDigits base (limbs x)) :
    limbs (mulA24Loop carry x) =
      Limbs.carry base carry.toInt ((limbs x).map (121665 * ·) ++ [0]) := by
  induction x generalizing carry with
  | nil =>
    rw [mulA24Loop, limbs_cons, toInt_low_long, limbs_nil, List.map_nil, List.nil_append,
      Limbs.carry, Limbs.carry, add_zero]
  | cons x xs ih =>
    obtain ⟨hx, hxs⟩ := isDigits_cons.mp hx
    have hlong : x.toInt64.toInt = x.toInt := Int32.toInt_toInt64 x
    have ha24 : (121665 : Int64).toInt = 121665 := rfl
    have hnext := toInt_next_long (carry + 121665 * x.toInt64)
    rw [base_eq] at *
    have hprod : (121665 * x.toInt64).toInt = 121665 * x.toInt := by
      rw [toInt64_mul_of_range, hlong, ha24] <;> rw [hlong, ha24] <;> omega
    have hsum : (carry + 121665 * x.toInt64).toInt = carry.toInt + 121665 * x.toInt := by
      rw [toInt64_add_of_range, hprod] <;> omega
    rw [mulA24Loop, limbs_cons, limbs_cons, List.map_cons, List.cons_append, Limbs.carry,
      toInt_low_long, base_eq, ih (by omega) (by omega) hxs, hnext, hsum]

/-- **The multiple by a24** modulo 2^255 - 19. -/
theorem IsElement.num_mulA24 (hx : IsElement x) :
    IsElement (mulA24 x) ∧ num (mulA24 x) = 121665 * num x % p := by
  have hlimbs := limbs_mulA24Loop (by decide : 0 ≤ (0 : Int64).toInt) (by decide) hx.digits
  have hlength : ((limbs x).map (121665 * ·) ++ [0]).length = 11 := by
    rw [List.length_append, List.length_map, length_limbs, hx.length]
    rfl
  have hnonneg := hx.num_nonneg
  have hlt := hx.lt
  rw [p] at hlt
  have hbound : 121665 * num x < 2 ^ 255 * 2 ^ 17 := by omega
  have hzero : (0 : Int64).toInt = 0 := rfl
  have hnum : num (mulA24Loop 0 x) = 121665 * num x := by
    rw [num, hlimbs, value_carry base_pos, hlength, value_concat, value_map_mul, hzero, mul_zero,
      add_zero, zero_add]
    exact Int.emod_eq_of_lt (mul_nonneg (by decide) hnonneg) (hbound.trans (by decide))
  have hquotient : num (mulA24Loop 0 x) / 2 ^ 255 < 2 ^ 17 := by
    rw [hnum]
    exact Int.ediv_lt_of_lt_mul (by decide) hbound
  rw [mulA24, ← hnum]
  refine isElement_reduce ?_ (by decide) ?_ (hquotient.trans (by decide))
    (by rw [hnum]; exact hbound.trans (by decide))
  · rw [← length_limbs, hlimbs, length_carry, hlength]
  · rw [hlimbs]
    exact isDigits_carry base_pos _ _

end

end Curve25519

end NekoLink.Android
