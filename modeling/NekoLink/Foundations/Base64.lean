import Mathlib.Data.List.Basic

/-!
# Base64

The standard encoding of byte strings, three bytes in four digits. A last group that is not full is
padded.

* `digits_injective`: different strings have different digits.
* `Strict`: what a decoder accepts that insists on the padding; `strict_decode`: there is one.
* `Lenient`: what a decoder accepts for which the padding is optional; `lenient_decodeLenient`.
-/

namespace Base64

/-- The digits, from 0 to 63. -/
def alphabet : List Char :=
  "ABCDEFGHIJKLMNOPQRSTUVWXYZabcdefghijklmnopqrstuvwxyz0123456789+/".toList

def digit (n : ℕ) : Char := alphabet.getD n 'A'

/-- The value of a digit. -/
def value (c : Char) : ℕ := alphabet.idxOf c

/-- The digits of a byte string. -/
def digits : List UInt8 → List Char
  | b₀ :: b₁ :: b₂ :: bytes =>
    digit (b₀.toNat / 4) :: digit (b₀.toNat % 4 * 16 + b₁.toNat / 16) ::
      digit (b₁.toNat % 16 * 4 + b₂.toNat / 64) :: digit (b₂.toNat % 64) :: digits bytes
  | [b₀, b₁] =>
    [digit (b₀.toNat / 4), digit (b₀.toNat % 4 * 16 + b₁.toNat / 16), digit (b₁.toNat % 16 * 4)]
  | [b₀] => [digit (b₀.toNat / 4), digit (b₀.toNat % 4 * 16)]
  | [] => []

/-- The padding of `n` bytes. -/
def padding (n : ℕ) : ℕ := (3 - n % 3) % 3

def encode (bytes : List UInt8) : List Char :=
  digits bytes ++ List.replicate (padding bytes.length) '='

/-- The bytes whose digits these are; a string of other characters is read as something. -/
def read : List Char → List UInt8
  | c₀ :: c₁ :: c₂ :: c₃ :: s =>
    UInt8.ofNat (value c₀ * 4 + value c₁ / 16) ::
      UInt8.ofNat (value c₁ % 16 * 16 + value c₂ / 4) ::
      UInt8.ofNat (value c₂ % 4 * 64 + value c₃) :: read s
  | [c₀, c₁, c₂] =>
    [UInt8.ofNat (value c₀ * 4 + value c₁ / 16), UInt8.ofNat (value c₁ % 16 * 16 + value c₂ / 4)]
  | [c₀, c₁] => [UInt8.ofNat (value c₀ * 4 + value c₁ / 16)]
  | _ => []

/-! ## Digits -/

section

variable {bytes bytes' : List UInt8} {n : ℕ}

theorem value_digit (h : n < 64) : value (digit n) = n := by
  have hall : ∀ i ∈ List.range 64, value (digit i) = i := by decide +kernel
  exact hall n (List.mem_range.mpr h)

theorem digit_mem (n : ℕ) : digit n ∈ alphabet := by
  rw [digit, List.getD_eq_getElem?_getD]
  rcases Nat.lt_or_ge n alphabet.length with hlt | hge
  · rw [List.getElem?_eq_getElem hlt]
    exact List.getElem_mem hlt
  · rw [List.getElem?_eq_none hge]
    decide

theorem mem_alphabet {c : Char} (h : c ∈ digits bytes) : c ∈ alphabet := by
  induction bytes using digits.induct with
  | case1 b₀ b₁ b₂ bytes ih =>
    simp only [digits, List.mem_cons] at h
    rcases h with rfl | rfl | rfl | rfl | h
    · exact digit_mem _
    · exact digit_mem _
    · exact digit_mem _
    · exact digit_mem _
    · exact ih h
  | case2 b₀ b₁ =>
    simp only [digits, List.mem_cons, List.not_mem_nil, or_false] at h
    rcases h with rfl | rfl | rfl <;> exact digit_mem _
  | case3 b₀ =>
    simp only [digits, List.mem_cons, List.not_mem_nil, or_false] at h
    rcases h with rfl | rfl <;> exact digit_mem _
  | case4 => cases h

/-- The padding is not a digit. -/
theorem eq_not_mem_digits : '=' ∉ digits bytes := fun h => absurd (mem_alphabet h) (by decide)

theorem length_digits (bytes : List UInt8) :
    (digits bytes).length = (4 * bytes.length + 2) / 3 := by
  induction bytes using digits.induct with
  | case1 b₀ b₁ b₂ bytes ih =>
    simp only [digits, List.length_cons, ih]
    omega
  | case2 | case3 => simp [digits]
  | case4 => rfl

/-- The padding fills the last group of four. -/
theorem padding_eq (n : ℕ) : padding n = (4 - (4 * n + 2) / 3 % 4) % 4 := by
  rw [padding]
  obtain ⟨q, rfl | rfl | rfl⟩ : ∃ q, n = 3 * q ∨ n = 3 * q + 1 ∨ n = 3 * q + 2 :=
    ⟨n / 3, by omega⟩
  · rw [show (4 * (3 * q) + 2) / 3 = 4 * q by omega]
    omega
  · rw [show (4 * (3 * q + 1) + 2) / 3 = 4 * q + 2 by omega]
    omega
  · rw [show (4 * (3 * q + 2) + 2) / 3 = 4 * q + 3 by omega]
    omega

private theorem toNat_byte {b : UInt8} (h : n = b.toNat) : UInt8.ofNat n = b := by
  rw [h, UInt8.ofNat_toNat]

theorem read_digits (bytes : List UInt8) : read (digits bytes) = bytes := by
  induction bytes using digits.induct with
  | case1 b₀ b₁ b₂ bytes ih =>
    have h₀ := b₀.toNat_lt
    have h₁ := b₁.toNat_lt
    have h₂ := b₂.toNat_lt
    simp only [digits, read, ih]
    rw [value_digit (by omega), value_digit (by omega), value_digit (by omega),
      value_digit (by omega), toNat_byte (b := b₀) (by omega), toNat_byte (b := b₁) (by omega),
      toNat_byte (b := b₂) (by omega)]
  | case2 b₀ b₁ =>
    have h₀ := b₀.toNat_lt
    have h₁ := b₁.toNat_lt
    simp only [digits, read]
    rw [value_digit (by omega), value_digit (by omega), value_digit (by omega),
      toNat_byte (b := b₀) (by omega), toNat_byte (b := b₁) (by omega)]
  | case3 b₀ =>
    have h₀ := b₀.toNat_lt
    simp only [digits, read]
    rw [value_digit (by omega), value_digit (by omega), toNat_byte (b := b₀) (by omega)]
  | case4 => rfl

theorem digits_injective : Function.Injective digits :=
  Function.LeftInverse.injective read_digits

/-- The digits end where the padding begins. -/
theorem takeWhile_digits (bytes : List UInt8) (n : ℕ) :
    (digits bytes ++ List.replicate n '=').takeWhile (· ≠ '=') = digits bytes := by
  have hall : ∀ c ∈ digits bytes, decide (c ≠ '=') = true :=
    fun c hc => decide_eq_true fun heq => eq_not_mem_digits (heq ▸ hc)
  rw [List.takeWhile_append_of_pos hall]
  cases n with
  | zero => exact List.append_nil _
  | succ n =>
    rw [List.replicate_succ, List.takeWhile_cons_of_neg (by decide), List.append_nil]

theorem eq_of_padded {m : ℕ}
    (h : digits bytes ++ List.replicate n '=' = digits bytes' ++ List.replicate m '=') :
    bytes = bytes' ∧ n = m := by
  have hdigits := congrArg (List.takeWhile (· ≠ '=')) h
  rw [takeWhile_digits, takeWhile_digits] at hdigits
  obtain rfl := digits_injective hdigits
  have hpads := congrArg List.length (List.append_cancel_left h)
  rw [List.length_replicate, List.length_replicate] at hpads
  exact ⟨rfl, hpads⟩

end

/-! ## Decoders -/

/-- A decoder that accepts what `encode` writes and nothing else. -/
def Strict (decode : List Char → Option (List UInt8)) : Prop :=
  ∀ s bytes, decode s = some bytes ↔ s = encode bytes

/-- A decoder that also accepts it without some of the padding. -/
def Lenient (decode : List Char → Option (List UInt8)) : Prop :=
  ∀ s bytes, decode s = some bytes ↔
    ∃ n ≤ padding bytes.length, s = digits bytes ++ List.replicate n '='

def decode (s : List Char) : Option (List UInt8) :=
  let bytes := read (s.takeWhile (· ≠ '='))
  if s = encode bytes then some bytes else none

def decodeLenient (s : List Char) : Option (List UInt8) :=
  let bytes := read (s.takeWhile (· ≠ '='))
  let n := s.length - (digits bytes).length
  if n ≤ padding bytes.length ∧ s = digits bytes ++ List.replicate n '=' then some bytes else none

theorem strict_decode : Strict decode := by
  intro s bytes
  rw [decode]
  constructor
  · intro h
    split_ifs at h with henc
    rw [← Option.some.inj h]
    exact henc
  · rintro rfl
    have hread : read ((encode bytes).takeWhile (· ≠ '=')) = bytes := by
      rw [encode, takeWhile_digits, read_digits]
    rw [hread]
    exact if_pos rfl

theorem lenient_decodeLenient : Lenient decodeLenient := by
  intro s bytes
  rw [decodeLenient]
  constructor
  · intro h
    split_ifs at h with hpad
    rw [← Option.some.inj h]
    exact ⟨_, hpad⟩
  · rintro ⟨n, hn, rfl⟩
    rw [takeWhile_digits, read_digits, List.length_append, List.length_replicate,
      Nat.add_sub_cancel_left]
    exact if_pos ⟨hn, rfl⟩

section

variable {decode : List Char → Option (List UInt8)} {bytes : List UInt8} {n : ℕ}

theorem Strict.decode_encode (h : Strict decode) (bytes : List UInt8) :
    decode (encode bytes) = some bytes := (h _ _).mpr rfl

/-- With another padding nothing is decoded. -/
theorem Strict.decode_eq_none (h : Strict decode) (hn : n ≠ padding bytes.length) :
    decode (digits bytes ++ List.replicate n '=') = none := by
  rw [Option.eq_none_iff_forall_ne_some]
  intro bytes' hdecode
  obtain ⟨rfl, rfl⟩ := eq_of_padded ((h _ _).mp hdecode)
  exact hn rfl

end

end Base64
