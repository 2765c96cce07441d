import Mathlib.Data.Nat.Notation
import Mathlib.Data.List.Basic

/-!
# UTF-8 with replacement

A decoder that never fails: every maximal part of a sequence that cannot be completed becomes one
replacement character. It takes byte after byte and keeps the sequence it is in.

* `decodeLossy_encode`: what a text is encoded to is decoded to the text.
-/

namespace Text

/-- A sequence that has begun: how many bytes are missing, the least and the greatest value that the
next one may have, and the bits so far. -/
structure Begun where
  missing : ℕ
  lo : ℕ
  hi : ℕ
  bits : ℕ

def replacement : Char := Char.ofNat 0xFFFD

/-- A byte between two sequences. After some leading bytes the next one has a smaller range, so that
no sequence is longer than it need be, stands for a surrogate or exceeds the last character. -/
def lead (b : ℕ) : List Char × Option Begun :=
  if b < 0x80 then ([Char.ofNat b], none)
  else if b < 0xC2 then ([replacement], none)
  else if b < 0xE0 then ([], some ⟨1, 0x80, 0xBF, b % 0x20⟩)
  else if b = 0xE0 then ([], some ⟨2, 0xA0, 0xBF, 0⟩)
  else if b = 0xED then ([], some ⟨2, 0x80, 0x9F, 0xD⟩)
  else if b < 0xF0 then ([], some ⟨2, 0x80, 0xBF, b % 0x10⟩)
  else if b = 0xF0 then ([], some ⟨3, 0x90, 0xBF, 0⟩)
  else if b < 0xF4 then ([], some ⟨3, 0x80, 0xBF, b % 0x08⟩)
  else if b = 0xF4 then ([], some ⟨3, 0x80, 0x8F, 4⟩)
  else ([replacement], none)

/-- One more byte: the characters that it completes or gives up, and the sequence after it. -/
def feed : Option Begun → ℕ → List Char × Option Begun
  | none, b => lead b
  | some p, b =>
    if p.lo ≤ b ∧ b ≤ p.hi then
      let bits := p.bits * 0x40 + b % 0x40
      if p.missing = 1 then ([Char.ofNat bits], none)
      else ([], some ⟨p.missing - 1, 0x80, 0xBF, bits⟩)
    else (replacement :: (lead b).1, (lead b).2)

/-- The characters of some bytes behind a sequence that has begun. -/
def decodeFrom : Option Begun → List UInt8 → List Char
  | none, [] => []
  | some _, [] => [replacement]
  | p, b :: bs => (feed p b.toNat).1 ++ decodeFrom (feed p b.toNat).2 bs

def decodeLossy (bs : List UInt8) : List Char := decodeFrom none bs

/-- A byte of which no more than its value matters. -/
theorem decodeFrom_cons {p p' : Option Begun} {n : ℕ} {cs : List Char} (hn : n < 256)
    (hfeed : feed p n = (cs, p')) (bs : List UInt8) :
    decodeFrom p (UInt8.ofNat n :: bs) = cs ++ decodeFrom p' bs := by
  have hb : (UInt8.ofNat n).toNat = n := by
    rw [UInt8.toNat_ofNat']
    exact Nat.mod_eq_of_lt hn
  rw [decodeFrom, hb, hfeed]

/-- A byte in the middle of a sequence. -/
theorem feed_middle {missing lo hi bits b : ℕ} (hlo : lo ≤ b) (hhi : b ≤ hi) :
    feed (some ⟨missing + 2, lo, hi, bits⟩) b =
      ([], some ⟨missing + 1, 0x80, 0xBF, bits * 0x40 + b % 0x40⟩) := by
  rw [feed, if_pos ⟨hlo, hhi⟩, if_neg (by simp)]
  rfl

/-- The last byte of a sequence. -/
theorem feed_last {lo hi bits b : ℕ} (hlo : lo ≤ b) (hhi : b ≤ hi) :
    feed (some ⟨1, lo, hi, bits⟩) b = ([Char.ofNat (bits * 0x40 + b % 0x40)], none) := by
  rw [feed, if_pos ⟨hlo, hhi⟩, if_pos rfl]

/-! ## Leading bytes

What the leading byte of a character's code makes of the next byte's range. -/

theorem feed_one {v : ℕ} (h : v ≤ 0x7F) : feed none v = ([Char.ofNat v], none) :=
  if_pos (Nat.lt_succ_of_le h)

theorem feed_two {v : ℕ} (hlo : 0x7F < v) (hhi : v ≤ 0x7FF) :
    feed none (v / 64 % 0x20 + 0xC0) = ([], some ⟨1, 0x80, 0xBF, v / 64⟩) := by
  have hbits : (v / 64 % 0x20 + 0xC0) % 0x20 = v / 64 := by omega
  rw [feed, lead, if_neg (by omega), if_neg (by omega), if_pos (by omega), hbits]

theorem feed_three {v : ℕ} (hlo : 0x7FF < v) (hhi : v ≤ 0xFFFF)
    (hvalid : v < 0xD800 ∨ 0xDFFF < v) :
    ∃ lo hi, feed none (v / 4096 % 0x10 + 0xE0) = ([], some ⟨2, lo, hi, v / 4096⟩) ∧
      lo ≤ v / 64 % 0x40 + 0x80 ∧ v / 64 % 0x40 + 0x80 ≤ hi := by
  rw [feed, lead, if_neg (by omega), if_neg (by omega), if_neg (by omega)]
  by_cases hzero : v / 4096 = 0
  · refine ⟨0xA0, 0xBF, ?_, by omega, by omega⟩
    rw [if_pos (by omega), hzero]
  rw [if_neg (by omega)]
  by_cases hsurrogate : v / 4096 = 0xD
  · -- the second half of these would be surrogates
    refine ⟨0x80, 0x9F, ?_, by omega, by omega⟩
    rw [if_pos (by omega), hsurrogate]
  · have hbits : (v / 4096 % 0x10 + 0xE0) % 0x10 = v / 4096 := by omega
    refine ⟨0x80, 0xBF, ?_, by omega, by omega⟩
    rw [if_neg (by omega), if_pos (by omega), hbits]

theorem feed_four {v : ℕ} (hlo : 0xFFFF < v) (hhi : v < 0x110000) :
    ∃ lo hi, feed none (v / 262144 % 0x08 + 0xF0) = ([], some ⟨3, lo, hi, v / 262144⟩) ∧
      lo ≤ v / 4096 % 0x40 + 0x80 ∧ v / 4096 % 0x40 + 0x80 ≤ hi := by
  rw [feed, lead, if_neg (by omega), if_neg (by omega), if_neg (by omega), if_neg (by omega),
    if_neg (by omega), if_neg (by omega)]
  by_cases hzero : v / 262144 = 0
  · refine ⟨0x90, 0xBF, ?_, by omega, by omega⟩
    rw [if_pos (by omega), hzero]
  rw [if_neg (by omega)]
  by_cases hlast : v / 262144 = 4
  · refine ⟨0x80, 0x8F, ?_, by omega, by omega⟩
    rw [if_neg (by omega), if_pos (by omega), hlast]
  · have hbits : (v / 262144 % 0x08 + 0xF0) % 0x08 = v / 262144 := by omega
    refine ⟨0x80, 0xBF, ?_, by omega, by omega⟩
    rw [if_pos (by omega), hbits]

/-! ## Characters -/

theorem decodeFrom_encodeChar (c : Char) (bs : List UInt8) :
    decodeFrom none (String.utf8EncodeChar c ++ bs) = c :: decodeFrom none bs := by
  have hvalid : c.val.toNat < 0xD800 ∨ 0xDFFF < c.val.toNat ∧ c.val.toNat < 0x110000 := c.valid
  have hc : Char.ofNat c.val.toNat = c := Char.ofNat_toNat c
  unfold String.utf8EncodeChar
  dsimp only
  generalize c.val.toNat = v at *
  split_ifs with hone htwo hthree
  · rw [List.singleton_append, decodeFrom_cons (by omega) (feed_one hone), hc]
    rfl
  · have hv : v / 64 * 0x40 + (v % 0x40 + 0x80) % 0x40 = v := by omega
    rw [List.cons_append, decodeFrom_cons (by omega) (feed_two (by omega) htwo),
      List.singleton_append,
      decodeFrom_cons (by omega) (feed_last (by omega) (by omega)), hv, hc]
    rfl
  · obtain ⟨lo, hi, hlead, hge, hle⟩ := feed_three (by omega) hthree (by omega)
    have hv : (v / 4096 * 0x40 + (v / 64 % 0x40 + 0x80) % 0x40) * 0x40 +
        (v % 0x40 + 0x80) % 0x40 = v := by omega
    rw [List.cons_append, decodeFrom_cons (by omega) hlead, List.cons_append,
      decodeFrom_cons (by omega) (feed_middle hge hle), List.singleton_append,
      decodeFrom_cons (by omega) (feed_last (by omega) (by omega)), hv, hc]
    rfl
  · obtain ⟨lo, hi, hlead, hge, hle⟩ := feed_four (v := v) (by omega) (by omega)
    have hv : ((v / 262144 * 0x40 + (v / 4096 % 0x40 + 0x80) % 0x40) * 0x40 +
        (v / 64 % 0x40 + 0x80) % 0x40) * 0x40 + (v % 0x40 + 0x80) % 0x40 = v := by omega
    rw [List.cons_append, decodeFrom_cons (by omega) hlead, List.cons_append,
      decodeFrom_cons (by omega) (feed_middle hge hle), List.cons_append,
      decodeFrom_cons (by omega) (feed_middle (by omega) (by omega)),
      List.singleton_append,
      decodeFrom_cons (by omega) (feed_last (by omega) (by omega)), hv, hc]
    rfl

/-- **A text comes back.** -/
theorem decodeLossy_encode (s : List Char) : decodeLossy (s.flatMap String.utf8EncodeChar) = s := by
  rw [decodeLossy]
  induction s with
  | nil => rfl
  | cons c s ih => rw [List.flatMap_cons, decodeFrom_encodeChar, ih]

end Text
