import Mathlib.Data.Vector.Basic
import Mathlib.Tactic.Linarith
import Mathlib.Tactic.Ring

/-!
# Byte strings

Fixed-length byte strings, ranges of a byte string, and the little- and big-endian encodings of
natural numbers at a given width.

* `slice l i j` is the range `l[i..j]`; `slice_append_left`, `slice_append_right` and
  `slice_append_zero` compute the ranges of a concatenation, which is how a message laid out
  field by field is read back.
* `leValue_leBytes` and `leBytes_leValue` say that `leBytes w` and `leValue` are inverse on the
  numbers below `256 ^ w` and the strings of length `w`; `beValue_beBytes` and
  `beBytes_beValue` are the same for the big-endian order.
-/

namespace Wire

/-- A byte string of length `n`. -/
abbrev Bytes (n : ℕ) := List.Vector UInt8 n

/-- The byte string of `n` zeros. -/
def zeros (n : ℕ) : Bytes n := ⟨List.replicate n 0, List.length_replicate⟩

/-- A byte string with its own length. -/
def ofList (l : List UInt8) : Bytes l.length := ⟨l, rfl⟩

@[simp] theorem toList_ofList (l : List UInt8) : (ofList l).toList = l := rfl

/-! ## Ranges -/

section Slice

variable {α : Type*} {a b : List α} {i j : ℕ}

/-- The range `l[i..j]`. -/
def slice (l : List α) (i j : ℕ) : List α := (l.drop i).take (j - i)

theorem length_slice {l : List α} (h : j ≤ l.length) : (slice l i j).length = j - i := by
  simp only [slice, List.length_take, List.length_drop]
  omega

theorem slice_append_left (h : j ≤ a.length) : slice (a ++ b) i j = slice a i j := by
  rcases le_total i j with hij | hij
  · simp only [slice]
    rw [List.drop_append_of_le_length (by omega), List.take_append_of_le_length]
    rw [List.length_drop]
    omega
  · simp [slice, Nat.sub_eq_zero_of_le hij]

theorem slice_append_right (h : a.length ≤ i) :
    slice (a ++ b) i j = slice b (i - a.length) (j - a.length) := by
  simp only [slice, List.drop_append, List.drop_eq_nil_of_le h, List.nil_append]
  congr 1
  omega

/-- The first field of a concatenation. -/
theorem slice_append_zero (h : a.length = j) : slice (a ++ b) 0 j = a := by
  rw [slice_append_left h.ge]
  simp [slice, ← h]

/-- A cut behind a slice keeps it. -/
theorem slice_take {l : List α} {n : ℕ} (h : j ≤ n) : slice (l.take n) i j = slice l i j := by
  rw [slice, slice, List.drop_take, List.take_take, min_eq_left (by omega)]

theorem slice_zero_length {l : List α} (h : l.length = j) : slice l 0 j = l := by
  simp [slice, ← h]

end Slice

/-! ## Little-endian numbers -/

/-- The `w` little-endian bytes of `n`. -/
def leBytes : ℕ → ℕ → List UInt8
  | 0, _ => []
  | w + 1, n => UInt8.ofNat n :: leBytes w (n / 256)

/-- The number a byte string denotes, least significant byte first. -/
def leValue : List UInt8 → ℕ
  | [] => 0
  | b :: l => b.toNat + 256 * leValue l

@[simp] theorem length_leBytes (w n : ℕ) : (leBytes w n).length = w := by
  induction w generalizing n with
  | zero => rfl
  | succ w ih => rw [leBytes, List.length_cons, ih]

theorem leValue_leBytes (w n : ℕ) : leValue (leBytes w n) = n % 256 ^ w := by
  induction w generalizing n with
  | zero => simp [leBytes, leValue, Nat.mod_one]
  | succ w ih =>
    rw [leBytes, leValue, ih, pow_succ', Nat.mod_mul]
    simp

theorem leValue_leBytes_of_lt {w n : ℕ} (h : n < 256 ^ w) : leValue (leBytes w n) = n := by
  rw [leValue_leBytes, Nat.mod_eq_of_lt h]

theorem leValue_lt (l : List UInt8) : leValue l < 256 ^ l.length := by
  induction l with
  | nil => simp [leValue]
  | cons b l ih =>
    have hb := b.toNat_lt
    rw [leValue, List.length_cons, pow_succ']
    omega

theorem leBytes_leValue (l : List UInt8) : leBytes l.length (leValue l) = l := by
  induction l with
  | nil => rfl
  | cons b l ih =>
    have hb := b.toNat_lt
    have hdiv : (b.toNat + 256 * leValue l) / 256 = leValue l := by omega
    have hmod : UInt8.ofNat (b.toNat + 256 * leValue l) = b := by
      apply UInt8.toNat_inj.mp
      rw [UInt8.toNat_ofNat']
      omega
    rw [leValue, List.length_cons, leBytes, hdiv, ih, hmod]

theorem leValue_append (l m : List UInt8) :
    leValue (l ++ m) = leValue l + 256 ^ l.length * leValue m := by
  induction l with
  | nil => simp [leValue]
  | cons b l ih =>
    rw [List.cons_append, leValue, ih, leValue, List.length_cons]
    ring

/-- The bytes one by one. -/
theorem getElem_leBytes {w n i : ℕ} (h : i < (leBytes w n).length) :
    (leBytes w n)[i] = UInt8.ofNat (n / 256 ^ i) := by
  induction w generalizing n i with
  | zero => cases h
  | succ w ih =>
    cases i with
    | zero => simp [leBytes]
    | succ i =>
      simp only [leBytes, List.getElem_cons_succ]
      rw [ih, Nat.div_div_eq_div_mul, ← pow_succ']

/-! ## Big-endian numbers -/

/-- The `w` big-endian bytes of `n`. -/
def beBytes (w n : ℕ) : List UInt8 := (leBytes w n).reverse

/-- The number a byte string denotes, most significant byte first. -/
def beValue (l : List UInt8) : ℕ := leValue l.reverse

@[simp] theorem length_beBytes (w n : ℕ) : (beBytes w n).length = w := by
  rw [beBytes, List.length_reverse, length_leBytes]

theorem beValue_beBytes_of_lt {w n : ℕ} (h : n < 256 ^ w) : beValue (beBytes w n) = n := by
  rw [beValue, beBytes, List.reverse_reverse, leValue_leBytes_of_lt h]

theorem beValue_lt (l : List UInt8) : beValue l < 256 ^ l.length := by
  rw [beValue, ← List.length_reverse]
  exact leValue_lt _

theorem beBytes_beValue (l : List UInt8) : beBytes l.length (beValue l) = l := by
  rw [beBytes, beValue, ← List.length_reverse, leBytes_leValue, List.reverse_reverse]

end Wire
