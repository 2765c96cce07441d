import NekoLink.Android.Field25519
import NekoLink.Foundations.Bytes
import NekoLink.Foundations.MontgomeryLadder
import Mathlib.Data.ZMod.Basic

/-!
# The Curve25519 function on Android

`Curve25519.eval` of `Curve25519.java`, the one caller of which is `Key.generatePublicKey`.

* `toField_pow250`, `toField_recip`: the powers of a number.
* `coords_evalCurve`: the loop over the bits of the private key is the ladder over the field.
* `num_unpack`, `pack_eq`: the bytes of a number.
-/

namespace NekoLink.Android

namespace Curve25519

open Limbs MachineInts Wire
open Montgomery (bitsBelow)

/-! ## As the code computes -/

/-- A byte as an `int`, with its sign. -/
def intOf (b : UInt8) : Int32 := b.toInt8.toInt32

/-- The cast of an `int` to a byte. -/
def byteOf (a : Int32) : UInt8 := a.toInt8.toUInt8

/-- Conditional swap: `select` is 1 to swap, 0 to leave as is. -/
def cswap (select : Int32) (x y : List Int32) : List Int32 × List Int32 :=
  let select := -select
  (List.zipWith (fun x y => x ^^^ (select &&& (x ^^^ y))) x y,
    List.zipWith (fun x y => y ^^^ (select &&& (x ^^^ y))) x y)

/-- The numbers the ladder goes on with. -/
structure State where
  x_2 : List Int32
  z_2 : List Int32
  x_3 : List Int32
  z_3 : List Int32

def State.cswap (select : Int32) (s : State) : State :=
  let (x_2, x_3) := Curve25519.cswap select s.x_2 s.x_3
  let (z_2, z_3) := Curve25519.cswap select s.z_2 s.z_3
  ⟨x_2, z_2, x_3, z_3⟩

/-- Evaluates the curve for a bit, once the numbers are swapped. -/
def State.step (x_1 : List Int32) (s : State) : State :=
  let A := add s.x_2 s.z_2
  let AA := square A
  let B := sub s.x_2 s.z_2
  let BB := square B
  let E := sub AA BB
  let C := add s.x_3 s.z_3
  let D := sub s.x_3 s.z_3
  let DA := mul D A
  let CB := mul C B
  ⟨mul AA BB, mul (add (mulA24 E) AA) E, square (add DA CB), mul (square (sub DA CB)) x_1⟩

/-- The loop over the bits of `s`, from bit `sbit` of byte `sposn` down. -/
def evalLoop (s : List UInt8) (x_1 : List Int32) (sposn sbit : ℕ) (svalue swap : Int32)
    (state : State) : State :=
  let select := (svalue >>> Int32.ofNat sbit) &&& 0x01
  -- swap, but only if the previous bit did not
  let state := (state.cswap (swap ^^^ select)).step x_1
  match sbit, sposn with
  | sbit + 1, sposn => evalLoop s x_1 sposn sbit svalue select state
  | 0, 0 => state.cswap select
  | 0, 1 => evalLoop s x_1 0 7 (intOf (s.getD 0 0) &&& 0xF8) select state
  | 0, sposn + 2 => evalLoop s x_1 (sposn + 1) 7 (intOf (s.getD (sposn + 1) 0)) select state
termination_by (sposn, sbit)

/-- The bits that a private key has or lacks, as `Key.generatePrivateKey` sets them. -/
def clamp (privateKey : List UInt8) : List UInt8 :=
  ((privateKey.modify 0 (· &&& 248)).modify 31 (· &&& 127)).modify 31 (· ||| 64)

/-- Evaluates the curve for every bit of a secret key. -/
def evalCurve (s : List UInt8) (x_1 : List Int32) (state : State) : State :=
  evalLoop s x_1 31 6 (intOf (s.getD 31 0) ||| 0x40) 0 state

/-- `square`, a number of times. -/
def squares (n : ℕ) (x : List Int32) : List Int32 := square^[n] x

/-- The result and `A` once the ten bits are copied upwards. -/
def pow250Copies : ℕ → List Int32 → List Int32 → List Int32 × List Int32
  | 0, result, A => (result, A)
  | n + 1, result, A =>
    let A := squares 10 A
    pow250Copies n (mul result A) A

/-- The result once the gaps between the copies are filled. -/
def pow250Fill : ℕ → List Int32 → List Int32 → List Int32
  | 0, result, _ => result
  | n + 1, result, A =>
    let A := square A
    pow250Fill n (mul result A) A

def pow250 (x : List Int32) : List Int32 :=
  let A := squares 9 (square x)
  let (result, _) := pow250Copies 23 (mul A x) A
  let A := square result
  pow250Fill 8 (mul result A) A

def recip (x : List Int32) : List Int32 :=
  let result := pow250 x
  let result := mul (square (square result)) x
  let result := mul (square (square result)) x
  mul (square result) x

/-- A byte of the public key in its place. -/
def unpackByte (x_1 : List Int32) (index : ℕ) (publicByte : UInt8) : List Int32 :=
  let bit := index * 8 % 26
  let word := index * 8 / 26
  let value := intOf publicByte &&& 0xFF
  if bit ≤ 26 - 8 then
    x_1.modify word (· ||| value <<< Int32.ofNat bit)
  else
    (x_1.modify word fun x => (x ||| value <<< Int32.ofNat bit) &&& 0x03FFFFFF).modify (word + 1)
      (· ||| value >>> Int32.ofNat (26 - bit))

/-- The public key in limbs. -/
def unpack (publicKey : List UInt8) : List Int32 :=
  (List.range 32).foldl (fun x_1 index => unpackByte x_1 index (publicKey.getD index 0))
    (List.replicate 10 0)

/-- A byte of the result. -/
def packByte (x_2 : List Int32) (index : ℕ) : UInt8 :=
  let bit := index * 8 % 26
  let word := index * 8 / 26
  if bit ≤ 26 - 8 then
    byteOf (x_2.getD word 0 >>> Int32.ofNat bit)
  else
    byteOf ((x_2.getD word 0 >>> Int32.ofNat bit) |||
      (x_2.getD (word + 1) 0 <<< Int32.ofNat (26 - bit)))

/-- A limb on its own. -/
def small (n : Int32) : List Int32 := n :: List.replicate 9 0

/-- The first coordinate of the point; `null` stands for the base point. -/
def start (publicKey : Option (List UInt8)) : List Int32 :=
  match publicKey with
  | some publicKey => reduceQuick (reduceQuick (unpack publicKey))
  | none => small 9

def eval (privateKey : List UInt8) (publicKey : Option (List UInt8)) : List UInt8 :=
  let x_1 := start publicKey
  let state := evalCurve privateKey x_1 ⟨small 1, small 0, x_1, small 1⟩
  let x_2 := mul state.x_2 (recip state.z_2)
  (List.range 32).map (packByte x_2)

/-! ## In the field -/

/-- The modulus. -/
def prime : ℕ := 2 ^ 255 - 19

theorem p_eq : p = (prime : ℤ) := rfl

/-- The number modulo 2^255 - 19. -/
def toField (x : List Int32) : ZMod prime := (num x : ℤ)

theorem toField_of_num {x : List Int32} {n : ℤ} (h : num x = n % p) : toField x = (n : ℤ) := by
  rw [toField, h, p_eq, ZMod.intCast_mod]

section

variable {x y : List Int32}

theorem IsElement.add (hx : IsElement x) (hy : IsElement y) : IsElement (add x y) :=
  (hx.num_add hy).1

theorem IsElement.sub (hx : IsElement x) (hy : IsElement y) : IsElement (sub x y) :=
  (hx.num_sub hy).1

theorem IsElement.mul (hx : IsElement x) (hy : IsElement y) : IsElement (mul x y) :=
  (hx.num_mul hy).1

theorem IsElement.square (hx : IsElement x) : IsElement (square x) := hx.mul hx

theorem IsElement.mulA24 (hx : IsElement x) : IsElement (mulA24 x) := hx.num_mulA24.1

theorem toField_add (hx : IsElement x) (hy : IsElement y) :
    toField (add x y) = toField x + toField y := by
  rw [toField_of_num (hx.num_add hy).2, Int.cast_add]
  rfl

theorem toField_sub (hx : IsElement x) (hy : IsElement y) :
    toField (sub x y) = toField x - toField y := by
  rw [toField_of_num (hx.num_sub hy).2, Int.cast_sub]
  rfl

theorem toField_mul (hx : IsElement x) (hy : IsElement y) :
    toField (mul x y) = toField x * toField y := by
  rw [toField_of_num (hx.num_mul hy).2, Int.cast_mul]
  rfl

theorem toField_square (hx : IsElement x) : toField (square x) = toField x ^ 2 := by
  rw [square, toField_mul hx hx, sq]

theorem toField_mulA24 (hx : IsElement x) : toField (mulA24 x) = 121665 * toField x := by
  rw [toField_of_num hx.num_mulA24.2, Int.cast_mul]
  rfl

/-! ## The reciprocal -/

theorem squares_spec (n : ℕ) (hx : IsElement x) :
    IsElement (squares n x) ∧ toField (squares n x) = toField x ^ 2 ^ n := by
  induction n with
  | zero => exact ⟨hx, (pow_one _).symm⟩
  | succ n ih =>
    have hsucc : squares (n + 1) x = square (squares n x) := Function.iterate_succ_apply' _ _ _
    rw [hsucc]
    refine ⟨ih.1.square, ?_⟩
    rw [toField_square ih.1, ih.2, ← pow_mul, ← pow_succ]

/-- The number with a bit at every tenth place, `n` of them. -/
def spaced : ℕ → ℕ
  | 0 => 0
  | n + 1 => spaced n + 2 ^ (10 * n)

section

variable {f : ZMod prime} {result A : List Int32} {k : ℕ}

theorem pow250Copies_spec (n : ℕ) (hresult : IsElement result) (hA : IsElement A)
    (hr : toField result = f ^ spaced (k + 1)) (ha : toField A = f ^ 2 ^ (10 * k)) :
    IsElement (pow250Copies n result A).1 ∧
      toField (pow250Copies n result A).1 = f ^ spaced (k + 1 + n) := by
  induction n generalizing result A k with
  | zero => exact ⟨hresult, hr⟩
  | succ n ih =>
    obtain ⟨hA', ha'⟩ := squares_spec 10 hA
    have hpow : toField (squares 10 A) = f ^ 2 ^ (10 * (k + 1)) := by
      rw [ha', ha, ← pow_mul, ← pow_add, mul_add]
    have hprod : toField (mul result (squares 10 A)) = f ^ spaced (k + 1 + 1) := by
      rw [toField_mul hresult hA', hr, hpow, ← pow_add]
      rfl
    have hrec := ih (hresult.mul hA') hA' hprod hpow
    have hcount : k + 1 + 1 + n = k + 1 + (n + 1) := by omega
    rwa [hcount] at hrec

theorem pow250Fill_spec (n : ℕ) (hresult : IsElement result) (hA : IsElement A)
    (hr : toField result = f ^ (2 ^ (k + 1) - 1)) (ha : toField A = f ^ 2 ^ k) :
    IsElement (pow250Fill n result A) ∧
      toField (pow250Fill n result A) = f ^ (2 ^ (k + 1 + n) - 1) := by
  induction n generalizing result A k with
  | zero => exact ⟨hresult, hr⟩
  | succ n ih =>
    have hpow : toField (square A) = f ^ 2 ^ (k + 1) := by
      rw [toField_square hA, ha, ← pow_mul, ← pow_succ]
    have hexp : 2 ^ (k + 1) - 1 + 2 ^ (k + 1) = 2 ^ (k + 1 + 1) - 1 := by
      have hpos := Nat.two_pow_pos (k + 1)
      rw [pow_succ 2 (k + 1)]
      omega
    have hprod : toField (mul result (square A)) = f ^ (2 ^ (k + 1 + 1) - 1) := by
      rw [toField_mul hresult hA.square, hr, hpow, ← pow_add, hexp]
    have hrec := ih (hresult.mul hA.square) hA.square hprod hpow
    have hcount : k + 1 + 1 + n = k + 1 + (n + 1) := by omega
    rwa [hcount] at hrec

end

/-- **`x` to the power of 2^250 - 1.** -/
theorem pow250_spec (hx : IsElement x) :
    IsElement (pow250 x) ∧ toField (pow250 x) = toField x ^ (2 ^ 250 - 1) := by
  obtain ⟨hA, ha⟩ := squares_spec 9 hx.square
  rw [toField_square hx, ← pow_mul] at ha
  have hstart : toField (mul (squares 9 (square x)) x) = toField x ^ spaced (1 + 1) := by
    rw [toField_mul hA hx, ha, ← pow_succ]
    rfl
  obtain ⟨hcopies, hc⟩ := pow250Copies_spec 23 (hA.mul hx) hA hstart ha
  generalize hcopied : (pow250Copies 23 (mul (squares 9 (square x)) x)
    (squares 9 (square x))).1 = copied at hcopies hc
  have hexp : 2 ^ (1 + 1) - 1 = 2 + 1 := rfl
  have hthree : toField (mul copied (square copied)) =
      (toField x ^ spaced (1 + 1 + 23)) ^ (2 ^ (1 + 1) - 1) := by
    rw [toField_mul hcopies hcopies.square, toField_square hcopies, hc, ← pow_succ', hexp]
  have htwo : toField (square copied) = (toField x ^ spaced (1 + 1 + 23)) ^ 2 ^ 1 := by
    rw [toField_square hcopies, hc, pow_one]
  obtain ⟨hfill, hf⟩ := pow250Fill_spec 8 (hcopies.mul hcopies.square) hcopies.square hthree htwo
  have heq : pow250 x = pow250Fill 8 (mul copied (square copied)) (square copied) := by
    rw [pow250, ← hcopied]
  have hall : spaced (1 + 1 + 23) * (2 ^ (1 + 1 + 8) - 1) = 2 ^ 250 - 1 := by decide
  rw [heq]
  refine ⟨hfill, ?_⟩
  rw [hf, ← pow_mul, hall]

/-- **`x` to the power of p - 2.** -/
theorem recip_spec (hx : IsElement x) :
    IsElement (recip x) ∧ toField (recip x) = toField x ^ (prime - 2) := by
  obtain ⟨h, hpow⟩ := pow250_spec hx
  have h₁ := h.square.square.mul hx
  have h₂ := h₁.square.square.mul hx
  refine ⟨h₂.square.mul hx, ?_⟩
  rw [recip, toField_mul h₂.square hx, toField_square h₂, toField_mul h₁.square.square hx,
    toField_square h₁.square, toField_square h₁, toField_mul h.square.square hx,
    toField_square h.square, toField_square h, hpow]
  have hexp : ((((2 ^ 250 - 1) * 2 * 2 + 1) * 2 * 2 + 1) * 2 + 1) = prime - 2 := by decide
  rw [← hexp]
  ring

end

/-! ## The ladder -/

/-- The numbers of the ladder in the field. -/
def State.coords (s : State) : Montgomery.Coords (ZMod prime) :=
  ⟨toField s.x_2, toField s.z_2, toField s.x_3, toField s.z_3⟩

structure State.AreElements (s : State) : Prop where
  x_2 : IsElement s.x_2
  z_2 : IsElement s.z_2
  x_3 : IsElement s.x_3
  z_3 : IsElement s.z_3

section

variable {s : State} {x_1 : List Int32}

/-- A step of the loop is a step over the field. -/
theorem State.AreElements.step (h : s.AreElements) (hx_1 : IsElement x_1) :
    (s.step x_1).AreElements ∧
      (s.step x_1).coords = s.coords.step 121665 (toField x_1) := by
  have hA := h.x_2.add h.z_2
  have hB := h.x_2.sub h.z_2
  have hE := hA.square.sub hB.square
  have hDA := (h.x_3.sub h.z_3).mul hA
  have hCB := (h.x_3.add h.z_3).mul hB
  have hZ := hE.mulA24.add hA.square
  refine ⟨⟨hA.square.mul hB.square, hZ.mul hE, (hDA.add hCB).square,
    (hDA.sub hCB).square.mul hx_1⟩, ?_⟩
  have hAA : toField (square (add s.x_2 s.z_2)) = (toField s.x_2 + toField s.z_2) ^ 2 := by
    rw [toField_square hA, toField_add h.x_2 h.z_2]
  have hBB : toField (square (sub s.x_2 s.z_2)) = (toField s.x_2 - toField s.z_2) ^ 2 := by
    rw [toField_square hB, toField_sub h.x_2 h.z_2]
  have hDA' := toField_mul (h.x_3.sub h.z_3) hA
  rw [toField_sub h.x_3 h.z_3, toField_add h.x_2 h.z_2] at hDA'
  have hCB' := toField_mul (h.x_3.add h.z_3) hB
  rw [toField_add h.x_3 h.z_3, toField_sub h.x_2 h.z_2] at hCB'
  have hE' := toField_sub hA.square hB.square
  rw [hAA, hBB] at hE'
  have hx_2 := toField_mul hA.square hB.square
  rw [hAA, hBB] at hx_2
  have hz_2 := toField_mul hZ hE
  rw [toField_add hE.mulA24 hA.square, toField_mulA24 hE, hE', hAA, add_comm, mul_comm] at hz_2
  have hx_3 := toField_square (hDA.add hCB)
  rw [toField_add hDA hCB, hDA', hCB'] at hx_3
  have hz_3 := toField_mul (hDA.sub hCB).square hx_1
  rw [toField_square (hDA.sub hCB), toField_sub hDA hCB, hDA', hCB', mul_comm] at hz_3
  simp only [State.coords, State.step, Montgomery.Coords.step]
  rw [hx_2, hz_2, hx_3, hz_3]

theorem cswap_zero {x y : List Int32} (h : x.length = y.length) : cswap 0 x y = (x, y) := by
  refine Prod.ext (List.ext_getElem (by simp [cswap, h]) fun i _ _ => ?_)
    (List.ext_getElem (by simp [cswap, h]) fun i _ _ => ?_)
  · simp [cswap]
  · simp [cswap]

theorem cswap_one {x y : List Int32} (h : x.length = y.length) : cswap 1 x y = (y, x) := by
  have hxor : ∀ a b : Int32, a ^^^ (a ^^^ b) = b := fun a b => by
    rw [← Int32.xor_assoc, Int32.xor_self, Int32.zero_xor]
  have hxor' : ∀ a b : Int32, b ^^^ (a ^^^ b) = a := fun a b => by rw [Int32.xor_comm a, hxor]
  refine Prod.ext (List.ext_getElem (by simp [cswap, h]) fun i _ _ => ?_)
    (List.ext_getElem (by simp [cswap, h]) fun i _ _ => ?_)
  · simp [cswap, hxor]
  · simp [cswap, hxor']

end

/-! ## The bits of the key -/

/-- The bits of the first bytes, the highest first. -/
def bitsFrom (s : List UInt8) : ℕ → List Bool
  | 0 => []
  | n + 1 => bitsBelow (s.getD n 0).toNat 8 ++ bitsFrom s n

/-- An `int` with the low bits of a byte. -/
def Reads (svalue : Int32) (b : UInt8) (n : ℕ) : Prop :=
  ∀ k < n, (svalue >>> Int32.ofNat k) &&& 0x01 = if b.toNat.testBit k then 1 else 0

theorem forall_byte {P : UInt8 → Prop} (h : ∀ n < 256, P (UInt8.ofNat n)) (b : UInt8) : P b := by
  have hb := h b.toNat b.toNat_lt
  rwa [UInt8.ofNat_toNat] at hb

theorem reads_intOf (b : UInt8) : Reads (intOf b) b 8 := by
  refine forall_byte (P := fun b => Reads (intOf b) b 8) ?_ b
  unfold Reads
  decide +kernel

theorem reads_first (b : UInt8) : Reads (intOf b &&& 0xF8) (b &&& 248) 8 := by
  refine forall_byte (P := fun b => Reads (intOf b &&& 0xF8) (b &&& 248) 8) ?_ b
  unfold Reads
  decide +kernel

theorem reads_last (b : UInt8) : Reads (intOf b ||| 0x40) ((b &&& 127) ||| 64) 7 := by
  refine forall_byte (P := fun b => Reads (intOf b ||| 0x40) ((b &&& 127) ||| 64) 7) ?_ b
  unfold Reads
  decide +kernel

section

variable {s : List UInt8} {x_1 : List Int32} {state : State} {swap : Int32}
  {c : Montgomery.Coords (ZMod prime)}

theorem getD_clamp_zero (h : s.length = 32) : (clamp s).getD 0 0 = s.getD 0 0 &&& 248 := by
  simp [clamp, List.getD, h]

theorem getD_clamp_last (h : s.length = 32) :
    (clamp s).getD 31 0 = (s.getD 31 0 &&& 127) ||| 64 := by
  simp [clamp, List.getD, h]

theorem getD_clamp {i : ℕ} (hi : i ≠ 0) (h31 : i ≠ 31) : (clamp s).getD i 0 = s.getD i 0 := by
  simp [clamp, List.getD, hi.symm, h31.symm]

/-- The numbers are those of the ladder, once they are swapped back. -/
structure Runs (state : State) (swap : Int32) (c : Montgomery.Coords (ZMod prime)) : Prop where
  areElements : state.AreElements
  coords : swap = 0 ∧ state.coords = c ∨ swap = 1 ∧ state.coords = c.swap

theorem Runs.swapBack (h : Runs state swap c) :
    (state.cswap swap).AreElements ∧ (state.cswap swap).coords = c := by
  have hx := h.areElements.x_2.length.trans h.areElements.x_3.length.symm
  have hz := h.areElements.z_2.length.trans h.areElements.z_3.length.symm
  obtain ⟨rfl, rfl⟩ | ⟨rfl, hc⟩ := h.coords
  · rw [State.cswap, cswap_zero hx, cswap_zero hz]
    exact ⟨h.areElements, rfl⟩
  · rw [State.cswap, cswap_one hx, cswap_one hz]
    refine ⟨⟨h.areElements.x_3, h.areElements.z_3, h.areElements.x_2, h.areElements.z_2⟩, ?_⟩
    have hback := congrArg Montgomery.Coords.swap hc
    exact hback

/-- Swapping lazily: only where a bit differs from the one before. -/
theorem Runs.xor (h : Runs state swap c) (b : Bool) :
    Runs state (swap ^^^ if b then 1 else 0) (if b then c.swap else c) := by
  refine ⟨h.areElements, ?_⟩
  obtain ⟨rfl, hc⟩ | ⟨rfl, hc⟩ := h.coords
  · cases b with
    | false => exact Or.inl ⟨rfl, hc⟩
    | true => exact Or.inr ⟨rfl, hc⟩
  · cases b with
    | false => exact Or.inr ⟨rfl, hc⟩
    | true => exact Or.inl ⟨rfl, hc⟩

/-- **A bit of the key.** -/
theorem Runs.bit (h : Runs state swap c) (hx_1 : IsElement x_1) (b : Bool) :
    Runs ((state.cswap (swap ^^^ if b then 1 else 0)).step x_1) (if b then 1 else 0)
      (c.bit 121665 (toField x_1) b) := by
  obtain ⟨helements, hcoords⟩ := (h.xor b).swapBack
  obtain ⟨hstep, hc⟩ := helements.step hx_1
  rw [hcoords] at hc
  refine ⟨hstep, ?_⟩
  cases b with
  | false => exact Or.inl ⟨rfl, hc⟩
  | true => exact Or.inr ⟨rfl, hc⟩

/-- What the loop does once a byte is used up. -/
def nextByte (s : List UInt8) (x_1 : List Int32) : ℕ → Int32 → State → State
  | 0, swap, state => state.cswap swap
  | 1, swap, state => evalLoop s x_1 0 7 (intOf (s.getD 0 0) &&& 0xF8) swap state
  | sposn + 2, swap, state => evalLoop s x_1 (sposn + 1) 7 (intOf (s.getD (sposn + 1) 0)) swap state

theorem evalLoop_zero (sposn : ℕ) (svalue : Int32) :
    evalLoop s x_1 sposn 0 svalue swap state =
      nextByte s x_1 sposn ((svalue >>> Int32.ofNat 0) &&& 0x01)
        ((state.cswap (swap ^^^ ((svalue >>> Int32.ofNat 0) &&& 0x01))).step x_1) := by
  rw [evalLoop.eq_def]
  obtain _ | _ | sposn := sposn <;> rfl

/-- **The bits of a byte.** -/
theorem Runs.evalLoop_eq {svalue : Int32} {b : UInt8} (hx_1 : IsElement x_1) (sposn sbit : ℕ)
    (hreads : Reads svalue b (sbit + 1)) (h : Runs state swap c) :
    ∃ state' swap', evalLoop s x_1 sposn sbit svalue swap state =
        nextByte s x_1 sposn swap' state' ∧
      Runs state' swap'
        ((bitsBelow b.toNat (sbit + 1)).foldl (Montgomery.Coords.bit 121665 (toField x_1)) c) := by
  induction sbit generalizing state swap c with
  | zero =>
    refine ⟨_, _, evalLoop_zero sposn svalue, ?_⟩
    rw [hreads 0 (by decide)]
    exact h.bit hx_1 _
  | succ sbit ih =>
    rw [evalLoop, hreads (sbit + 1) (by omega)]
    exact ih (fun k hk => hreads k (by omega)) (h.bit hx_1 _)

/-- The bytes below, down to the first one. -/
theorem Runs.nextByte (hs : s.length = 32) (hx_1 : IsElement x_1) {sposn : ℕ} (hsposn : sposn ≤ 31)
    (h : Runs state swap c) :
    (nextByte s x_1 sposn swap state).AreElements ∧
      (Curve25519.nextByte s x_1 sposn swap state).coords =
        (bitsFrom (clamp s) sposn).foldl (Montgomery.Coords.bit 121665 (toField x_1)) c := by
  induction sposn generalizing state swap c with
  | zero => exact h.swapBack
  | succ sposn ih =>
    rw [bitsFrom, List.foldl_append]
    obtain _ | sposn := sposn
    · rw [getD_clamp_zero hs]
      obtain ⟨state', swap', heq, hruns⟩ := h.evalLoop_eq hx_1 0 7 (reads_first (s.getD 0 0))
      rw [Curve25519.nextByte, heq]
      exact ih (by omega) hruns
    · rw [getD_clamp (by omega) (by omega)]
      obtain ⟨state', swap', heq, hruns⟩ :=
        h.evalLoop_eq hx_1 (sposn + 1) 7 (reads_intOf (s.getD (sposn + 1) 0))
      rw [Curve25519.nextByte, heq]
      exact ih (by omega) hruns

/-- The bits of a clamped key, the highest first. -/
def keyBits (s : List UInt8) : List Bool :=
  bitsBelow ((clamp s).getD 31 0).toNat 7 ++ bitsFrom (clamp s) 31

/-- **The loop is the ladder** for the bits of the clamped key. -/
theorem coords_evalCurve (hs : s.length = 32) (hx_1 : IsElement x_1) (h : state.AreElements) :
    (evalCurve s x_1 state).AreElements ∧
      (evalCurve s x_1 state).coords =
        (keyBits s).foldl (Montgomery.Coords.bit 121665 (toField x_1)) state.coords := by
  have hruns : Runs state 0 state.coords := ⟨h, Or.inl ⟨rfl, rfl⟩⟩
  obtain ⟨state', swap', heq, hruns'⟩ := hruns.evalLoop_eq hx_1 31 6 (reads_last (s.getD 31 0))
  rw [evalCurve, heq, keyBits, List.foldl_append, getD_clamp_last hs]
  exact hruns'.nextByte hs hx_1 le_rfl

end

end Curve25519

end NekoLink.Android
