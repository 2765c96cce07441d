import NekoLink.Android.Config

/-!
# Keys as text on Android

What `Key.toBase64` writes, `Key.fromBase64` reads. The class computes the digits without branches,
so that a digit is a sum of masks.

* `digitValue_base64Char`: a digit that is written has its value.
* `fromBase64_toBase64`: a key is read back.
* `of_mem_toBase64`: the characters of a key.
-/

namespace NekoLink.Android

open Wire Noise Device

namespace Key

/-- The value of a digit. -/
def digitValue (c : Char) : BitVec 32 :=
  -1
    + ((((int 'A' - 1 - int c) &&& (int c - (int 'Z' + 1))) >>> 8) &&& (int c - 64))
    + ((((int 'a' - 1 - int c) &&& (int c - (int 'z' + 1))) >>> 8) &&& (int c - 70))
    + ((((int '0' - 1 - int c) &&& (int c - (int '9' + 1))) >>> 8) &&& (int c + 5))
    + ((((int '+' - 1 - int c) &&& (int c - (int '+' + 1))) >>> 8) &&& 63)
    + ((((int '/' - 1 - int c) &&& (int c - (int '/' + 1))) >>> 8) &&& 64)

theorem decodeBase64_eq (c₀ c₁ c₂ c₃ : Char) :
    decodeBase64 c₀ c₁ c₂ c₃ =
      digitValue c₀ <<< 18 ||| digitValue c₁ <<< 12 ||| digitValue c₂ <<< 6 ||| digitValue c₃ := rfl

theorem digitValue_base64Char :
    ∀ n < 64, digitValue (base64Char (BitVec.ofNat 32 n)) = BitVec.ofNat 32 n := by
  decide +kernel

/-- Four digits are the digits of a number. -/
theorem shiftLeft_or {a b c d : ℕ} (ha : a < 64) (hb : b < 64) (hc : c < 64) (hd : d < 64) :
    (BitVec.ofNat 32 a <<< 18 ||| BitVec.ofNat 32 b <<< 12 ||| BitVec.ofNat 32 c <<< 6 |||
      BitVec.ofNat 32 d).toNat = ((a * 64 + b) * 64 + c) * 64 + d := by
  have hor : ∀ x y i : ℕ, y < 2 ^ i → x * 2 ^ i ||| y = x * 2 ^ i + y := fun x y i hy => by
    rw [← Nat.shiftLeft_eq, Nat.shiftLeft_add_eq_or_of_lt hy]
  simp only [BitVec.toNat_or, BitVec.toNat_shiftLeft, BitVec.toNat_ofNat, Nat.shiftLeft_eq]
  rw [Nat.mod_eq_of_lt (a := a) (by omega), Nat.mod_eq_of_lt (a := b) (by omega),
    Nat.mod_eq_of_lt (a := c) (by omega), Nat.mod_eq_of_lt (a := d) (by omega),
    Nat.mod_eq_of_lt (by omega), Nat.mod_eq_of_lt (by omega), Nat.mod_eq_of_lt (by omega),
    hor _ _ 18 (by omega)]
  have h1 : a * 2 ^ 18 + b * 2 ^ 12 = (a * 64 + b) * 2 ^ 12 := by ring
  rw [h1, hor _ _ 12 (by omega)]
  have h2 : (a * 64 + b) * 2 ^ 12 + c * 2 ^ 6 = ((a * 64 + b) * 64 + c) * 2 ^ 6 := by ring
  rw [h2, hor _ _ 6 (by omega)]
  norm_num

/-- Digits that are written are read back as one number. -/
theorem toNat_decodeBase64 {a b c d : ℕ} (ha : a < 64) (hb : b < 64) (hc : c < 64) (hd : d < 64) :
    (decodeBase64 (base64Char (BitVec.ofNat 32 a)) (base64Char (BitVec.ofNat 32 b))
      (base64Char (BitVec.ofNat 32 c)) (base64Char (BitVec.ofNat 32 d))).toNat =
      ((a * 64 + b) * 64 + c) * 64 + d := by
  rw [decodeBase64_eq, digitValue_base64Char a ha, digitValue_base64Char b hb,
    digitValue_base64Char c hc, digitValue_base64Char d hd, shiftLeft_or ha hb hc hd]

/-- The number of three bytes. -/
theorem toNat_decodeBase64_bytes (b₀ b₁ b₂ : UInt8) :
    (decodeBase64 (base64Char (BitVec.ofNat 32 (b₀.toNat / 4)))
      (base64Char (BitVec.ofNat 32 (b₀.toNat % 4 * 16 + b₁.toNat / 16)))
      (base64Char (BitVec.ofNat 32 (b₁.toNat % 16 * 4 + b₂.toNat / 64)))
      (base64Char (BitVec.ofNat 32 (b₂.toNat % 64)))).toNat =
      b₀.toNat * 65536 + b₁.toNat * 256 + b₂.toNat := by
  have h₀ := b₀.toNat_lt
  have h₁ := b₁.toNat_lt
  have h₂ := b₂.toNat_lt
  rw [toNat_decodeBase64 (by omega) (by omega) (by omega) (by omega)]
  omega

section

variable {val : BitVec 32}

theorem byteAt_eq {b : UInt8} {shift : ℕ} (h : val.toNat / 2 ^ shift % 256 = b.toNat) :
    byteAt val shift = b := by
  rw [byteAt, BitVec.toNat_ushiftRight, Nat.shiftRight_eq_div_pow, h, UInt8.ofNat_toNat]

/-- The sign of a number of 24 bits. -/
theorem sign_eq_zero (h : val.toNat < 2 ^ 31) : val >>> 31 = 0 := by
  apply BitVec.eq_of_toNat_eq
  rw [BitVec.toNat_ushiftRight, Nat.shiftRight_eq_div_pow, Nat.div_eq_of_lt h]
  rfl

/-- The low byte of a number. -/
theorem low_eq_zero (h : val.toNat % 256 = 0) : val &&& 0xff = 0 := by
  apply BitVec.eq_of_toNat_eq
  rw [BitVec.toNat_and]
  exact (Nat.and_two_pow_sub_one_eq_mod val.toNat 8).trans h

end

/-- Bytes in groups of three, and two at the end. -/
@[elab_as_elim]
theorem groups_induction {motive : (bytes : List UInt8) → bytes.length % 3 = 2 → Prop}
    (two : ∀ b₀ b₁, motive [b₀, b₁] rfl)
    (three : ∀ b₀ b₁ b₂ rest (hrest : rest.length % 3 = 2)
      (h : (b₀ :: b₁ :: b₂ :: rest).length % 3 = 2),
      motive rest hrest → motive (b₀ :: b₁ :: b₂ :: rest) h) :
    ∀ (bytes : List UInt8) (h : bytes.length % 3 = 2), motive bytes h
  | [], h => absurd h (by simp)
  | [_], h => absurd h (by simp)
  | [b₀, b₁], _ => two b₀ b₁
  | b₀ :: b₁ :: b₂ :: rest, h => by
    have hrest : rest.length % 3 = 2 := by
      simp only [List.length_cons] at h
      omega
    exact three b₀ b₁ b₂ rest hrest h (groups_induction two three rest hrest)

section

variable {bytes : List UInt8}

theorem length_encodeChunks (h : bytes.length % 3 = 2) :
    (encodeChunks bytes).length = 4 * (bytes.length / 3) + 4 := by
  induction bytes, h using groups_induction with
  | two b₀ b₁ => simp [encodeChunks, encodeBase64]
  | three b₀ b₁ b₂ rest hrest h ih =>
    rw [encodeChunks, List.length_append, ih]
    simp only [encodeBase64, List.length_map, List.length_cons, List.length_nil]
    omega

theorem getLast_encodeChunks (h : bytes.length % 3 = 2) :
    (encodeChunks bytes).getLast? = some '=' := by
  induction bytes, h using groups_induction with
  | two b₀ b₁ => rfl
  | three b₀ b₁ b₂ rest hrest h ih =>
    rw [encodeChunks, List.getLast?_append, ih]
    rfl

/-- Chunks are read back. -/
theorem decodeChunks_encodeChunks (h : bytes.length % 3 = 2) :
    decodeChunks (encodeChunks bytes) = (bytes, 0) := by
  induction bytes, h using groups_induction with
  | two b₀ b₁ =>
    have hval := toNat_decodeBase64_bytes b₀ b₁ 0
    have hlast : base64Char (BitVec.ofNat 32 ((0 : UInt8).toNat % 64)) = 'A' := by decide
    have hzero : (0 : UInt8).toNat = 0 := rfl
    have h₀ := b₀.toNat_lt
    have h₁ := b₁.toNat_lt
    rw [hlast, hzero] at hval
    rw [encodeChunks, encodeBase64, hzero]
    simp only [List.map_cons, List.take_succ_cons, List.take_zero, List.cons_append,
      List.nil_append]
    rw [decodeChunks, byteAt_eq (b := b₀) (by omega), byteAt_eq (b := b₁) (by omega),
      sign_eq_zero (by omega), low_eq_zero (by omega)]
    rfl
  | three b₀ b₁ b₂ rest hrest h ih =>
    -- the chunk is not the last one
    obtain ⟨c, cs, hcs⟩ : ∃ c cs, encodeChunks rest = c :: cs := by
      refine List.exists_cons_of_ne_nil fun hnil => ?_
      have hlen := length_encodeChunks hrest
      rw [hnil] at hlen
      simp at hlen
    have hval := toNat_decodeBase64_bytes b₀ b₁ b₂
    have h₀ := b₀.toNat_lt
    have h₁ := b₁.toNat_lt
    have h₂ := b₂.toNat_lt
    rw [encodeChunks, encodeBase64]
    simp only [List.map_cons, List.map_nil, List.cons_append, List.nil_append]
    rw [hcs, decodeChunks, ← hcs, ih]
    · rw [byteAt_eq (b := b₀) (by omega), byteAt_eq (b := b₁) (by omega),
        byteAt_eq (b := b₂) (by omega), sign_eq_zero (by omega)]
      rfl
    · simp

end

/-- **A key is read back.** -/
theorem fromBase64_toBase64 (key : Key) : fromBase64 key.toBase64 = some key := by
  have hkey : key.toList.length = 32 := key.toList_length
  have hmod : key.toList.length % 3 = 2 := by omega
  have hlen := length_encodeChunks hmod
  have hlast := getLast_encodeChunks hmod
  rw [List.getLast?_eq_getElem?, hlen, hkey] at hlast
  have hget : (encodeChunks key.toList).getD 43 'A' = '=' := by
    rw [List.getD_eq_getElem?_getD, hlast]
    rfl
  have hform : ¬((encodeChunks key.toList).length ≠ 44 ∨
      (encodeChunks key.toList).getD 43 'A' ≠ '=') := by
    rw [hget, hlen, hkey]
    simp
  rw [fromBase64, toBase64, if_neg hform, decodeChunks_encodeChunks hmod]
  simp only [dif_pos hkey]
  rfl

/-- The characters of a key. -/
theorem of_mem_toBase64 {key : Key} {c : Char} (h : c ∈ key.toBase64) :
    c.isAlphanum = true ∨ c = '+' ∨ c = '/' ∨ c = '=' := by
  have hdigit : ∀ n < 64, (base64Char (BitVec.ofNat 32 n)).isAlphanum = true ∨
      base64Char (BitVec.ofNat 32 n) = '+' ∨ base64Char (BitVec.ofNat 32 n) = '/' := by
    decide +kernel
  have hdigits : ∀ b₀ b₁ b₂ : UInt8, ∀ c ∈ encodeBase64 b₀ b₁ b₂,
      c.isAlphanum = true ∨ c = '+' ∨ c = '/' ∨ c = '=' := by
    intro b₀ b₁ b₂ c hc
    have h₀ := b₀.toNat_lt
    have h₁ := b₁.toNat_lt
    have h₂ := b₂.toNat_lt
    obtain ⟨n, hn, rfl⟩ := List.mem_map.mp hc
    have hlt : n < 64 := by
      simp only [List.mem_cons, List.not_mem_nil, or_false] at hn
      omega
    rcases hdigit n hlt with hal | hplus | hslash
    · exact .inl hal
    · exact .inr (.inl hplus)
    · exact .inr (.inr (.inl hslash))
  rw [toBase64] at h
  generalize key.toList = bytes at h
  induction bytes using encodeChunks.induct with
  | case1 b₀ b₁ b₂ rest ih =>
    rw [encodeChunks] at h
    rcases List.mem_append.mp h with h | h
    · exact hdigits _ _ _ c h
    · exact ih h
  | case2 b₀ b₁ =>
    rw [encodeChunks] at h
    rcases List.mem_append.mp h with h | h
    · exact hdigits _ _ _ c (List.mem_of_mem_take h)
    · exact .inr (.inr (.inr (List.mem_singleton.mp h)))
  | case3 bytes h3 h2 =>
    rw [encodeChunks] at h
    · cases h
    · exact h3
    · exact h2

end Key

end NekoLink.Android
