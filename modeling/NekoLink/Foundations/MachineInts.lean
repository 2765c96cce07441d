import Mathlib.Algebra.Order.Ring.Int
import Mathlib.Data.Int.Init
import Mathlib.Tactic.NormNum

/-!
# Machine integers without overflow

Sums, differences and products of 32-bit and 64-bit integers that stay in range are those of the
integers; a mask of low bits is a remainder and a shift to the right a quotient, of negative numbers
too.

* `Int32.toInt_add_of_range` and its like: arithmetic in range.
* `Int32.toInt_and_mask`, `Int32.toInt_shiftRight`: digits of an integer.
-/

namespace MachineInts

theorem bmod_eq_self {w : ℕ} {n : ℤ} (hw : 0 < w) (h : -2 ^ (w - 1) ≤ n) (h' : n < 2 ^ (w - 1)) :
    n.bmod (2 ^ w) = n := by
  obtain ⟨v, rfl⟩ : ∃ v, w = v + 1 := ⟨w - 1, by omega⟩
  rw [Nat.add_sub_cancel] at h h'
  have hpow : ((2 ^ (v + 1) : ℕ) : ℤ) = 2 * 2 ^ v := by
    rw [Nat.cast_pow, Nat.cast_ofNat, pow_succ']
  exact Int.bmod_eq_of_le_mul_two (by omega) (by omega)

/-! ## Masks and shifts -/

/-- A mask of low bits leaves the remainder. -/
theorem toInt_and_mask {w k : ℕ} (a : BitVec w) (hk : k < w) :
    (a &&& BitVec.ofNat w (2 ^ k - 1)).toInt = a.toInt % 2 ^ k := by
  have hpos := Nat.two_pow_pos k
  have hpow : 2 ^ k < 2 ^ w := Nat.pow_lt_pow_right (by decide) hk
  have hnat : (a &&& BitVec.ofNat w (2 ^ k - 1)).toNat = a.toNat % 2 ^ k := by
    rw [BitVec.toNat_and, BitVec.toNat_ofNat, Nat.mod_eq_of_lt (by omega),
      Nat.and_two_pow_sub_one_eq_mod]
  have hlt : a.toNat % 2 ^ k < 2 ^ k := Nat.mod_lt _ (Nat.two_pow_pos k)
  have hdouble : 2 ^ (k + 1) ≤ 2 ^ w := Nat.pow_le_pow_right (by decide) hk
  have hdvd : (2 ^ k : ℤ) ∣ (2 ^ w : ℕ) := by
    rw [Nat.cast_pow]
    exact pow_dvd_pow _ hk.le
  rw [BitVec.toInt_eq_toNat_of_lt (by rw [hnat]; omega), hnat, BitVec.toInt_eq_toNat_bmod,
    ← Int.emod_emod_of_dvd _ hdvd, Int.bmod_emod, Int.emod_emod_of_dvd _ hdvd]
  norm_cast

theorem toInt_and_of_mask {m : Int32} {k : ℕ} (a : Int32) (hk : k < 32)
    (hm : m.toBitVec = BitVec.ofNat 32 (2 ^ k - 1)) : (a &&& m).toInt = a.toInt % 2 ^ k := by
  rw [← Int32.toInt_toBitVec, Int32.toBitVec_and, hm, toInt_and_mask _ hk, Int32.toInt_toBitVec]

theorem toInt_toInt32_and_of_mask {m : Int32} {k : ℕ} (a : Int64) (hk : k < 32)
    (hm : m.toBitVec = BitVec.ofNat 32 (2 ^ k - 1)) : (a.toInt32 &&& m).toInt = a.toInt % 2 ^ k := by
  have hdvd : (2 ^ k : ℤ) ∣ (2 ^ 32 : ℕ) := pow_dvd_pow 2 hk.le
  rw [toInt_and_of_mask _ hk hm, Int64.toInt_toInt32, ← Int.emod_emod_of_dvd _ hdvd, Int.bmod_emod,
    Int.emod_emod_of_dvd _ hdvd]

/-- A shift to the right keeps the quotient, rounded down. -/
theorem toInt_shiftRight {s : Int32} {k : ℕ} (a : Int32) (hs : (s.toBitVec.smod 32).toNat = k) :
    (a >>> s).toInt = a.toInt / 2 ^ k := by
  rw [← Int32.toInt_toBitVec, Int32.toBitVec_shiftRight, BitVec.sshiftRight',
    BitVec.toInt_sshiftRight, hs, Int.shiftRight_eq_div_pow, Int32.toInt_toBitVec]
  norm_cast

theorem toInt64_shiftRight {s : Int64} {k : ℕ} (a : Int64) (hs : (s.toBitVec.smod 64).toNat = k) :
    (a >>> s).toInt = a.toInt / 2 ^ k := by
  rw [← Int64.toInt_toBitVec, Int64.toBitVec_shiftRight, BitVec.sshiftRight',
    BitVec.toInt_sshiftRight, hs, Int.shiftRight_eq_div_pow, Int64.toInt_toBitVec]
  norm_cast

theorem toInt_emod_two_pow {w k : ℕ} (a : BitVec w) (hk : k ≤ w) :
    a.toInt % 2 ^ k = (a.toNat : ℤ) % 2 ^ k := by
  have hdvd : (2 ^ k : ℤ) ∣ (2 ^ w : ℕ) := by
    rw [Nat.cast_pow]
    exact pow_dvd_pow _ hk
  rw [BitVec.toInt_eq_toNat_bmod, ← Int.emod_emod_of_dvd _ hdvd, Int.bmod_emod,
    Int.emod_emod_of_dvd _ hdvd]

/-- Bits put above those that are there are added. -/
theorem toInt_or_shiftLeft {s : Int32} {k n : ℕ} (a v : Int32)
    (hs : (s.toBitVec.smod 32).toNat = k) (hk : k < 32) (hn : n ≤ 32) (ha : 0 ≤ a.toInt)
    (hlt : a.toInt < 2 ^ k) :
    (a ||| v <<< s).toInt % 2 ^ n = (a.toInt + v.toInt * 2 ^ k) % 2 ^ n := by
  have hnat : (a.toBitVec.toNat : ℤ) = a.toInt := by
    have hcond := BitVec.toInt_eq_toNat_cond a.toBitVec
    rw [Int32.toInt_toBitVec] at hcond
    split_ifs at hcond <;> omega
  have hlow : a.toBitVec.toNat < 2 ^ k := by
    rw [← hnat] at hlt
    exact_mod_cast hlt
  have hhigh : v.toBitVec.toNat <<< k % 2 ^ 32 = (v.toBitVec.toNat % 2 ^ (32 - k)) <<< k := by
    have hpow : 2 ^ 32 = 2 ^ (32 - k) * 2 ^ k := by rw [← pow_add, Nat.sub_add_cancel hk.le]
    rw [Nat.shiftLeft_eq, Nat.shiftLeft_eq, hpow, Nat.mul_mod_mul_right]
  have hor : (a ||| v <<< s).toBitVec.toNat =
      a.toBitVec.toNat + v.toBitVec.toNat * 2 ^ k % 2 ^ 32 := by
    rw [Int32.toBitVec_or, Int32.toBitVec_shiftLeft, BitVec.shiftLeft_eq', hs, BitVec.toNat_or,
      BitVec.toNat_shiftLeft, hhigh, Nat.or_comm, ← Nat.shiftLeft_add_eq_or_of_lt hlow, ← hhigh,
      Nat.shiftLeft_eq, add_comm]
  have hdvd : (2 ^ n : ℤ) ∣ 4294967296 := pow_dvd_pow 2 hn
  have hv := toInt_emod_two_pow v.toBitVec hn
  rw [Int32.toInt_toBitVec] at hv
  rw [← Int32.toInt_toBitVec, toInt_emod_two_pow _ hn, hor, ← hnat]
  push_cast
  rw [Int.add_emod, Int.emod_emod_of_dvd _ hdvd, Int.mul_emod, ← hv, ← Int.mul_emod, ← Int.add_emod]

/-! ## Arithmetic in range -/

section

variable {a b : Int32}

theorem toInt_add_of_range (h : -2 ^ 31 ≤ a.toInt + b.toInt) (h' : a.toInt + b.toInt < 2 ^ 31) :
    (a + b).toInt = a.toInt + b.toInt := by
  rw [Int32.toInt_add]
  exact bmod_eq_self (by decide) h h'

theorem toInt_sub_of_range (h : -2 ^ 31 ≤ a.toInt - b.toInt) (h' : a.toInt - b.toInt < 2 ^ 31) :
    (a - b).toInt = a.toInt - b.toInt := by
  rw [Int32.toInt_sub]
  exact bmod_eq_self (by decide) h h'

theorem toInt_mul_of_range (h : -2 ^ 31 ≤ a.toInt * b.toInt) (h' : a.toInt * b.toInt < 2 ^ 31) :
    (a * b).toInt = a.toInt * b.toInt := by
  rw [Int32.toInt_mul]
  exact bmod_eq_self (by decide) h h'

theorem toInt_shiftLeft_of_range {s : Int32} {k : ℕ} (hs : (s.toBitVec.smod 32).toNat = k)
    (hk : k < 31) (h : -2 ^ 31 ≤ a.toInt * 2 ^ k) (h' : a.toInt * 2 ^ k < 2 ^ 31) :
    (a <<< s).toInt = a.toInt * 2 ^ k := by
  have hpow : (BitVec.twoPow 32 k).toInt = 2 ^ k := by
    rw [BitVec.toInt_twoPow, if_neg (by omega), if_neg (by omega)]
  rw [← Int32.toInt_toBitVec, Int32.toBitVec_shiftLeft, BitVec.shiftLeft_eq', hs,
    BitVec.shiftLeft_eq_mul_twoPow, BitVec.toInt_mul, hpow, Int32.toInt_toBitVec]
  exact bmod_eq_self (by decide) h h'

end

section

variable {a b : Int64}

theorem toInt64_add_of_range (h : -2 ^ 63 ≤ a.toInt + b.toInt) (h' : a.toInt + b.toInt < 2 ^ 63) :
    (a + b).toInt = a.toInt + b.toInt := by
  rw [Int64.toInt_add]
  exact bmod_eq_self (by decide) h h'

theorem toInt64_mul_of_range (h : -2 ^ 63 ≤ a.toInt * b.toInt) (h' : a.toInt * b.toInt < 2 ^ 63) :
    (a * b).toInt = a.toInt * b.toInt := by
  rw [Int64.toInt_mul]
  exact bmod_eq_self (by decide) h h'

end

end MachineInts
