import NekoLink.Android.Config
import NekoLink.Android.KeyBytes
import NekoLink.Foundations.LucasTest
import Mathlib.Algebra.Field.ZMod
import Mathlib.FieldTheory.Finite.Basic
import Mathlib.Tactic.NormNum.Prime

/-!
# Public keys on Android

`Key.generatePublicKey` and `Key.generatePrivateKey`, over the curve that Curve25519 is. The modulus
is prime by Lucas's test.

* `prime_prime`: the modulus is prime.
* `eval_eq`: the function multiplies a point by the clamped private key.
* `generatePublicKey_eq`: a public key is a multiple of the base point.
* `secrets_agree`: two sides that exchange public keys compute the same secret.
* `num_start_eq_iff`: the public keys that are reduced before the loop.
-/

namespace NekoLink.Android

theorem Curve25519.length_eval (privateKey : List UInt8) (publicKey : Option (List UInt8)) :
    (eval privateKey publicKey).length = 32 := by
  rw [eval, List.length_map, List.length_range]

namespace Key

/-- The random bytes with the bits that a private key has, and without those that it lacks. -/
def generatePrivateKey (random : Wire.Bytes 32) : Key :=
  ⟨Curve25519.clamp random.toList, (Curve25519.length_clamp _).trans random.toList_length⟩

def generatePublicKey (privateKey : Key) : Key :=
  ⟨Curve25519.eval privateKey.toList none, Curve25519.length_eval _ _⟩

end Key

namespace Curve25519

open Montgomery Wire

/-! ## The modulus is prime -/

def smallDivisors : List ℕ :=
  [2, 3, 5, 7, 13, 19, 31, 47, 107, 127, 223, 353, 2437, 4153, 57467, 65147, 75707, 132049, 430751,
    569003, 1923133, 8574133]

theorem prime_of_mem_smallDivisors : ∀ q ∈ smallDivisors, q.Prime := by
  simp only [smallDivisors, List.forall_mem_cons, List.not_mem_nil, false_imp_iff, implies_true]
  norm_num

/-- The modulus and the large divisors of it less one, and of theirs less one. -/
def certificates : List Lucas.Certificate :=
  [⟨prime, 2, 255,
    [2, 2, 3, 65147, 74058212732561358302231226437062788676166966415465897661863160754340907]⟩,
   ⟨74058212732561358302231226437062788676166966415465897661863160754340907, 2, 236,
    [2, 3, 353, 57467, 132049, 1923133, 31757755568855353, 75445702479781427272750846543864801]⟩,
   ⟨75445702479781427272750846543864801, 7, 116,
    [2, 2, 2, 2, 2, 3, 3, 5, 5, 75707, 72106336199, 1919519569386763]⟩,
   ⟨31757755568855353, 10, 55, [2, 2, 2, 3, 31, 107, 223, 4153, 430751]⟩,
   ⟨1919519569386763, 2, 51, [2, 3, 7, 19, 47, 47, 127, 8574133]⟩,
   ⟨72106336199, 7, 37, [2, 13, 2773320623]⟩,
   ⟨2773320623, 5, 32, [2, 2437, 569003]⟩]

theorem covers_certificates : Lucas.covers smallDivisors certificates = true := by
  decide +kernel

/-- **The modulus is prime**. -/
theorem prime_prime : prime.Prime :=
  Lucas.prime_of_covers prime_of_mem_smallDivisors covers_certificates _ List.mem_cons_self

instance : Fact prime.Prime := ⟨prime_prime⟩

/-! ## The curve -/

theorem natCast_ne_natCast {m n : ℕ} (h : m % prime ≠ n % prime) : (m : ZMod prime) ≠ n :=
  fun heq => h ((ZMod.natCast_eq_natCast_iff' m n prime).mp heq)

theorem two_ne_zero_prime : (2 : ZMod prime) ≠ 0 := by
  exact_mod_cast natCast_ne_natCast (m := 2) (n := 0) (by decide)

theorem sq_ne_four : (486662 : ZMod prime) ^ 2 ≠ 4 := by
  have h : ((486662 ^ 2 : ℕ) : ZMod prime) ≠ (4 : ℕ) := natCast_ne_natCast (by decide)
  rwa [Nat.cast_pow, Nat.cast_ofNat, Nat.cast_ofNat] at h

/-- The curve `y² = x³ + 486662 x² + x` modulo 2^255 - 19. -/
abbrev Curve : WeierstrassCurve.Affine (ZMod prime) := curve 486662

/-- The second coordinate of the base point. -/
def baseY : ℕ := 14781619447589544791020593568409986887264606134616475288964881837755586237401

theorem nonsingular_base : Curve.Nonsingular 9 baseY := by
  have hequation : ((baseY ^ 2 : ℕ) : ZMod prime) = (9 ^ 3 + 486662 * 9 ^ 2 + 9 : ℕ) :=
    (ZMod.natCast_eq_natCast_iff' _ _ prime).mpr (by decide)
  have hdouble : ((2 * baseY : ℕ) : ZMod prime) ≠ (0 : ℕ) := natCast_ne_natCast (by decide)
  rw [WeierstrassCurve.Affine.nonsingular_iff, equation_iff_curve]
  refine ⟨by exact_mod_cast hequation, Or.inr fun h => hdouble ?_⟩
  simp only [curve, zero_mul, sub_zero] at h
  push_cast
  linear_combination h

/-- The base point: its first coordinate is nine. -/
def basePoint : Curve.Point := .some 9 baseY nonsingular_base

/-! ## Before the loop -/

/-- The number of a public key. -/
def publicNumber : Option (List UInt8) → ℕ
  | none => 9
  | some publicKey => leValue publicKey

/-- A public key in range of the trial subtractions. -/
def InRange (publicKey : Option (List UInt8)) : Prop :=
  ∀ k ∈ publicKey, k.length = 32 ∧ leValue k < 2 ^ 256 - 19

theorem isElement_small {n : Int32} (hn : 0 ≤ n.toInt) (hlt : n.toInt < base) :
    IsElement (small n) ∧ toField (small n) = n.toInt := by
  obtain ⟨hnumber, hnum⟩ := isNumber_small hn hlt
  have hp : base < p := by decide
  exact ⟨⟨hnumber, by rw [hnum]; exact hlt.trans hp⟩, by rw [toField, hnum]⟩

section

variable {publicKey : List UInt8}

/-- After the first trial subtraction. -/
theorem num_reduceQuick_unpack (h : publicKey.length = 32) :
    IsNumber (reduceQuick (unpack publicKey)) ∧ num (reduceQuick (unpack publicKey)) =
      if p ≤ leValue publicKey ∧ leValue publicKey < 2 ^ 256 - 19 then leValue publicKey - p
      else leValue publicKey := by
  have hlt := leValue_lt publicKey
  rw [h] at hlt
  obtain ⟨hnumber, hnum⟩ := num_unpack h
  obtain ⟨hnumber', hnum'⟩ := hnumber.num_reduceQuick (by rw [hnum]; omega)
  refine ⟨hnumber', ?_⟩
  rw [hnum', hnum]
  split_ifs <;> omega

theorem start_of_lt (h : publicKey.length = 32) (hlt : leValue publicKey < 2 ^ 256 - 19) :
    IsElement (start (some publicKey)) ∧ num (start (some publicKey)) = leValue publicKey % p := by
  obtain ⟨hnumber, hnum⟩ := num_reduceQuick_unpack h
  have hbound : num (reduceQuick (unpack publicKey)) < 2 * p := by
    rw [hnum, p]
    split_ifs <;> omega
  obtain ⟨helement, hmod⟩ := hnumber.isElement_reduceQuick hbound
  refine ⟨helement, hmod.trans ?_⟩
  rw [hnum]
  split_ifs
  · exact Int.sub_emod_right _ _
  · rfl

/-- The last nineteen numbers of 256 bits are left as they are. -/
theorem num_start_of_le (h : publicKey.length = 32) (hle : 2 ^ 256 - 19 ≤ leValue publicKey) :
    num (start (some publicKey)) = leValue publicKey := by
  have hlt := leValue_lt publicKey
  rw [h] at hlt
  obtain ⟨hnumber, hnum⟩ := num_reduceQuick_unpack h
  rw [if_neg (by omega)] at hnum
  obtain ⟨-, hnum'⟩ := hnumber.num_reduceQuick (by rw [hnum]; omega)
  rwa [hnum, if_neg (by omega)] at hnum'

end

theorem start_spec {publicKey : Option (List UInt8)} (h : InRange publicKey) :
    IsElement (start publicKey) ∧ toField (start publicKey) = publicNumber publicKey := by
  cases publicKey with
  | none => exact isElement_small (n := 9) (by decide) (by decide)
  | some publicKey =>
    obtain ⟨hlength, hlt⟩ := h publicKey rfl
    obtain ⟨helement, hmod⟩ := start_of_lt hlength hlt
    exact ⟨helement, (toField_of_num hmod).trans (Int.cast_natCast _)⟩

/-- **The public keys that are reduced** before the loop; the others are left as they are. -/
theorem num_start_eq_iff (publicKey : Key) :
    (num (start (some publicKey.toList)) = leValue publicKey.toList % p ↔
      leValue publicKey.toList < 2 ^ 256 - 19) ∧
    num (start (some publicKey.toList)) =
      if leValue publicKey.toList < 2 ^ 256 - 19 then leValue publicKey.toList % p
      else leValue publicKey.toList := by
  rcases lt_or_ge (leValue publicKey.toList) (2 ^ 256 - 19) with hlt | hle
  · have hreduced := (start_of_lt publicKey.toList_length hlt).2
    exact ⟨iff_of_true hreduced hlt, by rw [if_pos hlt, hreduced]⟩
  · have hleft := num_start_of_le publicKey.toList_length hle
    refine ⟨iff_of_false (fun h => ?_) (not_lt_of_ge hle), by rw [if_neg (not_lt_of_ge hle), hleft]⟩
    rw [hleft, p] at h
    omega

/-! ## After it -/

theorem mul_pow_eq_div (X Z : ZMod prime) : X * Z ^ (prime - 2) = X / Z := by
  by_cases hZ : Z = 0
  · rw [hZ, div_zero, zero_pow (by decide), mul_zero]
  · have hexp : prime - 2 + 1 = prime - 1 := by decide
    have hfermat : Z ^ (prime - 2) * Z = 1 := by
      rw [← pow_succ, hexp]
      exact ZMod.pow_card_sub_one_eq_one hZ
    rw [div_eq_mul_inv, eq_inv_of_mul_eq_one_left hfermat]

/-- The one number below the modulus that is the element. -/
theorem toNat_num {x : List Int32} (hx : IsElement x) : (num x).toNat = (toField x).val := by
  have hval : ((toField x).val : ℤ) = num x % prime := ZMod.val_intCast (num x)
  rw [Int.emod_eq_of_lt hx.num_nonneg (hx.lt.trans_eq p_eq)] at hval
  omega

/-! ## The function -/

/-- **The function multiplies a point** by the clamped private key, given its first coordinate. -/
theorem eval_eq {privateKey : List UInt8} {publicKey : Option (List UInt8)}
    (hprivate : privateKey.length = 32) (hpublic : InRange publicKey) (P : Curve.Point)
    (hP : xCoord P = publicNumber publicKey) :
    eval privateKey publicKey =
      leBytes 32 (xCoord (leValue (clamp privateKey) • P)).val := by
  obtain ⟨hstart, hfield⟩ := start_spec hpublic
  obtain ⟨hone, hone'⟩ := isElement_small (n := 1) (by decide) (by decide)
  obtain ⟨hzero, hzero'⟩ := isElement_small (n := 0) (by decide) (by decide)
  let state : State := ⟨small 1, small 0, start publicKey, small 1⟩
  have hstate : state.AreElements := ⟨hone, hzero, hstart, hone⟩
  have hcoords : state.coords = ⟨1, 0, xCoord P, 1⟩ := by
    rw [State.coords, hone', hzero', hfield, hP, Int32.toInt_one, Int32.toInt_zero, Int.cast_one,
      Int.cast_zero]
  obtain ⟨helements, hladder⟩ := coords_evalCurve hprivate hstart hstate
  obtain ⟨hrecip, hpow⟩ := recip_spec helements.z_2
  have hresult := helements.x_2.mul hrecip
  have heven := even_clamp hprivate
  rw [← ofBits_keyBits hprivate] at heven ⊢
  have hpoint := xCoord_ladder two_ne_zero_prime sq_ne_four
    (by norm_num : (4 : ZMod prime) * 121665 = 486662 - 2) P (keyBits privateKey) heven
  rw [hcoords, hfield, ← hP] at hladder
  rw [← hpoint, ← hladder, eval, pack_eq hresult.toIsNumber, toNat_num hresult,
    toField_mul helements.x_2 hrecip, hpow, mul_pow_eq_div]
  rfl

/-! ## Keys -/

theorem clamp_clamp (s : List UInt8) : clamp (clamp s) = clamp s := by
  refine List.ext_getElem (by rw [length_clamp]) fun i h _ => ?_
  simp only [clamp, List.getElem_modify]
  split_ifs with hlast hfirst hfirst
  · omega
  · have hbits : ∀ b : UInt8, (((b &&& 127) ||| 64) &&& 127) ||| 64 = (b &&& 127) ||| 64 :=
      forall_byte (by decide +kernel)
    exact hbits _
  · rw [UInt8.and_assoc, UInt8.and_self]
  · rfl

/-- The multiple of the base point by a private key, once it is clamped. -/
def publicPoint (privateKey : Key) : Curve.Point := leValue (clamp privateKey.toList) • basePoint

theorem xCoord_basePoint : xCoord basePoint = (publicNumber none : ZMod prime) := by
  rw [basePoint, xCoord, publicNumber, Nat.cast_ofNat]

theorem toList_generatePublicKey (privateKey : Key) :
    privateKey.generatePublicKey.toList = leBytes 32 (xCoord (publicPoint privateKey)).val := by
  have hrange : InRange none := fun _ h => by cases h
  exact eval_eq privateKey.toList_length hrange basePoint xCoord_basePoint

theorem leValue_generatePublicKey (privateKey : Key) :
    leValue privateKey.generatePublicKey.toList = (xCoord (publicPoint privateKey)).val := by
  have hlt := ZMod.val_lt (xCoord (publicPoint privateKey))
  have hprime : prime < 256 ^ 32 := by decide
  rw [toList_generatePublicKey, leValue_leBytes_of_lt (hlt.trans hprime)]

/-- **A public key** is the first coordinate of a multiple of the base point, below the modulus. For
a generated private key the multiple is its number. -/
theorem generatePublicKey_eq (privateKey : Key) (random : Bytes 32) :
    privateKey.generatePublicKey.toList = leBytes 32 (xCoord (publicPoint privateKey)).val ∧
      leValue privateKey.generatePublicKey.toList < prime ∧
      publicPoint (Key.generatePrivateKey random) =
        leValue (Key.generatePrivateKey random).toList • basePoint := by
  refine ⟨toList_generatePublicKey privateKey, ?_, ?_⟩
  · rw [leValue_generatePublicKey]
    exact ZMod.val_lt _
  · exact congrArg (leValue · • basePoint) (clamp_clamp _)

/-- What a private key makes of another's public key. -/
theorem eval_generatePublicKey (a b : Key) :
    eval a.toList (some b.generatePublicKey.toList) =
      leBytes 32 (xCoord (leValue (clamp a.toList) • publicPoint b)).val := by
  have hlt := ZMod.val_lt (xCoord (publicPoint b))
  have hprime : prime < 2 ^ 256 - 19 := by decide
  refine eval_eq a.toList_length (fun k hk => ?_) _ ?_
  · cases hk
    exact ⟨List.Vector.toList_length _, by rw [leValue_generatePublicKey]; omega⟩
  · rw [publicNumber, leValue_generatePublicKey, ZMod.natCast_val, ZMod.cast_id]

/-- **Two sides that exchange public keys** compute the same secret. -/
theorem secrets_agree (a b : Key) :
    eval a.toList (some b.generatePublicKey.toList) =
      eval b.toList (some a.generatePublicKey.toList) := by
  rw [eval_generatePublicKey, eval_generatePublicKey, publicPoint, publicPoint, ← mul_nsmul',
    ← mul_nsmul', mul_comm]

end Curve25519

end NekoLink.Android
