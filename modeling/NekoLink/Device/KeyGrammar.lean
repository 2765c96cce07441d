import NekoLink.Device.Serialization
import NekoLink.Foundations.Base64

/-!
# The grammar of keys

A key is written as 64 hexadecimal digits or as base64, with the padding or without. `from_str` of
`serialization.rs` takes a string of 64 bytes apart two bytes at a time, and reads each slice as an
integer with an optional sign.

* `hexKey_eq_none_iff`: a slice ends within a character.
* `hexKey_eq_some_iff`: what is read of a string of hexadecimal digits and signs.
* **`fromStr_correct_iff`**: keys are read by their grammar exactly unless a slice ends within a
  character, or all slices are numbers and there is a sign.
-/

namespace NekoLink.KeyBytes

open Wire

/-! ## The grammar -/

/-- The value of a hexadecimal digit. -/
def hexValue (c : Char) : Option ℕ :=
  if c.isDigit then some (c.toNat - '0'.toNat)
  else if 'a' ≤ c ∧ c ≤ 'f' then some (c.toNat - 'a'.toNat + 10)
  else if 'A' ≤ c ∧ c ≤ 'F' then some (c.toNat - 'A'.toNat + 10)
  else none

/-- The values of the hexadecimal digits of a byte string. -/
def hexValues (key : List UInt8) : List (Option ℕ) :=
  key.flatMap fun b => [some (b.toNat / 16), some (b.toNat % 16)]

/-- The ways to write a key: in hexadecimal digits, and in base64 with and without the padding. -/
def Writes (key : Bytes 32) (s : List Char) : Prop :=
  s.map hexValue = hexValues key.toList ∨ s = Base64.encode key.toList ∨
    s = Base64.digits key.toList

/-- Nothing panics, and the keys that are read are those that are written. -/
def Correct (P : Parsers) (s : List Char) : Prop :=
  ∃ result, fromStr P s = some result ∧ ∀ key, result = some key ↔ Writes key s

/-! ## What is misread -/

/-- A digit, before which a digit or a plus sign comes. -/
def IsPair (c d : Char) : Prop := ((hexValue c).isSome ∨ c = '+') ∧ (hexValue d).isSome

inductive Pairs : List Char → Prop
  | nil : Pairs []
  | cons {c d : Char} {s : List Char} : IsPair c d → Pairs s → Pairs (c :: d :: s)

/-- Pairs, and then a slice of two bytes that ends within a character. -/
inductive Cuts : List Char → Prop
  | first {c : Char} {s : List Char} : 3 ≤ c.utf8Size → Cuts (c :: s)
  | second {c d : Char} {s : List Char} : c.utf8Size = 1 → 1 < d.utf8Size → Cuts (c :: d :: s)
  | pair {c d : Char} {s : List Char} : IsPair c d → Cuts s → Cuts (c :: d :: s)

/-- The length in bytes. -/
def byteLength (s : List Char) : ℕ := (s.flatMap String.utf8EncodeChar).length

/-- A string of 64 bytes in which a slice ends within a character, or all slices are numbers and
there is a sign. -/
def Misread (s : List Char) : Prop := byteLength s = 64 ∧ (Cuts s ∨ Pairs s ∧ '+' ∈ s)

/-! ## Characters as bytes -/

section

variable {c d : Char} {b : UInt8} {s : List Char}

theorem isContinuation_iff : isContinuation b = true ↔ 128 ≤ b.toNat ∧ b.toNat < 192 := by
  have hall : ∀ n : Fin 256,
      isContinuation (UInt8.ofNat n) = decide (128 ≤ n.val ∧ n.val < 192) := by decide +kernel
  have hb := hall ⟨b.toNat, b.toNat_lt⟩
  rw [UInt8.ofNat_toNat] at hb
  rw [hb, decide_eq_true_eq]

theorem isContinuation_eq_false (h : b.toNat < 128 ∨ 192 ≤ b.toNat) : isContinuation b = false :=
  Bool.eq_false_iff.mpr fun hcont => by
    have := isContinuation_iff.mp hcont
    omega

/-- The bytes of a character: the first starts it, and the others go on with it. -/
theorem utf8EncodeChar_cases (c : Char) :
    (c.utf8Size = 1 ∧ c.toNat < 128 ∧ String.utf8EncodeChar c = [UInt8.ofNat c.toNat]) ∨
    ∃ b b' bytes, String.utf8EncodeChar c = b :: b' :: bytes ∧ 192 ≤ b.toNat ∧
      isContinuation b' = true ∧ c.utf8Size = bytes.length + 2 ∧
      ∀ b'' ∈ bytes.head?, isContinuation b'' = true := by
  have hlength := String.length_utf8EncodeChar c
  unfold String.utf8EncodeChar at *
  dsimp only at *
  split_ifs at * with h₁ h₂ h₃
  · exact Or.inl ⟨hlength.symm, Nat.lt_succ_of_le h₁, rfl⟩
  · refine Or.inr ⟨_, _, [], rfl, ?_, isContinuation_iff.mpr ?_, hlength.symm, nofun⟩
    · rw [UInt8.toNat_ofNat']
      omega
    · rw [UInt8.toNat_ofNat']
      omega
  · refine Or.inr ⟨_, _, [_], rfl, ?_, isContinuation_iff.mpr ?_, hlength.symm, ?_⟩
    · rw [UInt8.toNat_ofNat']
      omega
    · rw [UInt8.toNat_ofNat']
      omega
    · rintro b'' ⟨⟩
      refine isContinuation_iff.mpr ?_
      rw [UInt8.toNat_ofNat']
      omega
  · refine Or.inr ⟨_, _, [_, _], rfl, ?_, isContinuation_iff.mpr ?_, hlength.symm, ?_⟩
    · rw [UInt8.toNat_ofNat']
      omega
    · rw [UInt8.toNat_ofNat']
      omega
    · rintro b'' ⟨⟩
      refine isContinuation_iff.mpr ?_
      rw [UInt8.toNat_ofNat']
      omega

/-- A string does not start within a character. -/
theorem head_not_continuation (s : List Char) :
    ((s.flatMap String.utf8EncodeChar).head?.any isContinuation) = false := by
  cases s with
  | nil => rfl
  | cons c s =>
    rw [List.flatMap_cons]
    obtain ⟨-, hlt, heq⟩ | ⟨b, b', bytes, heq, hge, -⟩ := utf8EncodeChar_cases c
    · rw [heq]
      refine isContinuation_eq_false (Or.inl ?_)
      rw [UInt8.toNat_ofNat']
      omega
    · rw [heq]
      exact isContinuation_eq_false (Or.inr hge)

end

/-! ## Slices -/

/-- The number that two characters are read as. -/
def pairValue (c d : Char) : Option UInt8 :=
  if c = '+' then (hexValue d).map UInt8.ofNat
  else (hexValue c).bind fun x => (hexValue d).map fun y => UInt8.ofNat (16 * x + y)

inductive Reads : List Char → List UInt8 → Prop
  | nil : Reads [] []
  | cons {c d : Char} {s : List Char} {b : UInt8} {key : List UInt8} :
    pairValue c d = some b → Reads s key → Reads (c :: d :: s) (b :: key)

section

variable {c d : Char} {b : UInt8} {s : List Char} {key : List UInt8}

theorem hexValue_lt {x : ℕ} (h : hexValue c = some x) : x < 16 ∧ c.toNat < 128 := by
  have hle : ∀ a b : Char, a ≤ b ↔ a.toNat ≤ b.toNat := fun a b => Iff.rfl
  rw [hexValue] at h
  split_ifs at h with h₁ h₂ h₃
  · simp only [Char.isDigit, Bool.and_eq_true, decide_eq_true_eq] at h₁
    have hlow : 48 ≤ c.toNat := h₁.1
    have hhigh : c.toNat ≤ 57 := h₁.2
    have hx := Option.some.inj h
    rw [show '0'.toNat = 48 from rfl] at hx
    omega
  · rw [hle, hle, show 'a'.toNat = 97 from rfl, show 'f'.toNat = 102 from rfl] at h₂
    have hx := Option.some.inj h
    rw [show 'a'.toNat = 97 from rfl] at hx
    omega
  · rw [hle, hle, show 'A'.toNat = 65 from rfl, show 'F'.toNat = 70 from rfl] at h₃
    have hx := Option.some.inj h
    rw [show 'A'.toNat = 65 from rfl] at hx
    omega

theorem hexDigit_ofNat (hc : c.toNat < 128) :
    hexDigit (UInt8.ofNat c.toNat) = (hexValue c).map UInt8.ofNat := by
  have hall : ∀ n : Fin 128,
      hexDigit (UInt8.ofNat n) = (hexValue (Char.ofNat n)).map UInt8.ofNat := by decide +kernel
  have h := hall ⟨c.toNat, hc⟩
  rwa [show Char.ofNat (⟨c.toNat, hc⟩ : Fin 128).val = c from Char.ofNat_toNat c] at h

theorem fromHex_ofNat (hc : c.toNat < 128) (hd : d.toNat < 128) :
    fromHex (UInt8.ofNat c.toNat) (UInt8.ofNat d.toNat) = pairValue c d := by
  have hplus : UInt8.ofNat c.toNat = 0x2b ↔ c = '+' := by
    rw [← UInt8.toNat_inj, UInt8.toNat_ofNat', Nat.mod_eq_of_lt (by omega)]
    exact Char.toNat_inj (d := '+')
  rw [fromHex, pairValue, hexDigit_ofNat hc, hexDigit_ofNat hd]
  simp only [hplus]
  split_ifs
  · rfl
  · rcases hx : hexValue c with _ | x
    · rfl
    · rcases hy : hexValue d with _ | y
      · rfl
      · simp only [Option.map_some, Option.bind_some]
        rw [UInt8.ofNat_add, UInt8.ofNat_mul]
        rfl

theorem pairValue_isSome : (pairValue c d).isSome ↔ IsPair c d := by
  rw [pairValue, IsPair]
  by_cases hplus : c = '+'
  · rw [if_pos hplus, Option.isSome_map]
    exact ⟨fun h => ⟨Or.inr hplus, h⟩, And.right⟩
  · rw [if_neg hplus]
    rcases hexValue c with _ | x <;> rcases hexValue d with _ | y <;> simp [hplus]

theorem IsPair.lt (h : IsPair c d) : c.toNat < 128 ∧ d.toNat < 128 := by
  obtain ⟨hc | rfl, hd⟩ := h
  · obtain ⟨x, hx⟩ := Option.isSome_iff_exists.mp hc
    obtain ⟨y, hy⟩ := Option.isSome_iff_exists.mp hd
    exact ⟨(hexValue_lt hx).2, (hexValue_lt hy).2⟩
  · obtain ⟨y, hy⟩ := Option.isSome_iff_exists.mp hd
    exact ⟨by decide, (hexValue_lt hy).2⟩

theorem size_of_lt (h : c.toNat < 128) : c.utf8Size = 1 :=
  Char.utf8Size_eq_one_iff.mpr (Nat.lt_succ_iff.mp h)

theorem lt_of_size (h : c.utf8Size = 1) : c.toNat < 128 :=
  Nat.lt_succ_of_le (Char.utf8Size_eq_one_iff.mp h)

/-- A slice of two ASCII characters. -/
theorem hexKey_pair (hc : c.toNat < 128) (hd : d.toNat < 128) :
    hexKey ((c :: d :: s).flatMap String.utf8EncodeChar) =
      (pairValue c d).elim (some none) fun b =>
        (hexKey (s.flatMap String.utf8EncodeChar)).map fun key => key.map (b :: ·) := by
  have hbytes : ∀ c : Char, c.toNat < 128 → String.utf8EncodeChar c = [UInt8.ofNat c.toNat] := by
    intro c hc
    obtain ⟨-, -, heq⟩ | ⟨b, b', bytes, -, -, -, hsize, -⟩ := utf8EncodeChar_cases c
    · exact heq
    · rw [size_of_lt hc] at hsize
      omega
  have hstart : isContinuation (UInt8.ofNat c.toNat) = false := by
    refine isContinuation_eq_false (Or.inl ?_)
    rw [UInt8.toNat_ofNat']
    omega
  rw [List.flatMap_cons, List.flatMap_cons, hbytes c hc, hbytes d hd, List.singleton_append,
    List.singleton_append, hexKey, hstart, head_not_continuation, fromHex_ofNat hc hd]
  rcases pairValue c d with _ | b <;> rfl

/-- A slice that is a character of two bytes. -/
theorem hexKey_two (h : c.utf8Size = 2) :
    hexKey ((c :: s).flatMap String.utf8EncodeChar) = some none := by
  obtain ⟨hone, -⟩ | ⟨b, b', bytes, heq, hge, -, hsize, -⟩ := utf8EncodeChar_cases c
  · omega
  · obtain rfl : bytes = [] := List.eq_nil_of_length_eq_zero (by omega)
    have hhex : fromHex b b' = none := by
      have hgt : ∀ a : UInt8, a.toNat < 192 → ¬b ≤ a := by
        intro a ha hle
        have := UInt8.le_iff_toNat_le.mp hle
        omega
      have hdigit : hexDigit b = none := by
        rw [hexDigit, if_neg fun hb => hgt _ (by decide) hb.2,
          if_neg fun hb => hgt _ (by decide) hb.2, if_neg fun hb => hgt _ (by decide) hb.2]
      rw [fromHex, if_neg (by rintro rfl; exact absurd hge (by decide)), hdigit]
    rw [List.flatMap_cons, heq, List.cons_append, List.cons_append, List.nil_append, hexKey,
      isContinuation_eq_false (Or.inr hge), head_not_continuation, hhex]
    rfl

/-- A slice that ends within its first character. -/
theorem hexKey_first (h : 3 ≤ c.utf8Size) :
    hexKey ((c :: s).flatMap String.utf8EncodeChar) = none := by
  obtain ⟨hone, -⟩ | ⟨b, b', bytes, heq, -, -, hsize, hhead⟩ := utf8EncodeChar_cases c
  · omega
  · cases bytes with
    | nil =>
      rw [List.length_nil] at hsize
      omega
    | cons b'' bytes =>
      rw [List.flatMap_cons, heq, List.cons_append, List.cons_append, List.cons_append, hexKey,
        List.head?_cons, Option.any_some, hhead b'' rfl, Bool.or_true, if_pos rfl]

/-- A slice that ends within its second character. -/
theorem hexKey_second (hc : c.utf8Size = 1) (hd : 1 < d.utf8Size) :
    hexKey ((c :: d :: s).flatMap String.utf8EncodeChar) = none := by
  obtain ⟨-, -, hfirst⟩ | ⟨b, b', bytes, -, -, -, hsize, -⟩ := utf8EncodeChar_cases c
  · obtain ⟨hone, -⟩ | ⟨b, b', bytes, heq, -, hcont, -, -⟩ := utf8EncodeChar_cases d
    · omega
    · rw [List.flatMap_cons, List.flatMap_cons, hfirst, heq, List.singleton_append,
        List.cons_append, List.cons_append, hexKey, List.head?_cons, Option.any_some, hcont,
        Bool.or_true, if_pos rfl]
  · omega

end

/-! ## What is read -/

section

variable {c d : Char} {s : List Char} {key : List UInt8}

/-- **Where a slice ends within a character**, and only there, nothing is returned. -/
theorem hexKey_eq_none_iff : ∀ s : List Char,
    hexKey (s.flatMap String.utf8EncodeChar) = none ↔ Cuts s
  | [] => iff_of_false nofun nofun
  | [c] => by
    obtain hsize | hsize | hsize : c.utf8Size = 1 ∨ c.utf8Size = 2 ∨ 3 ≤ c.utf8Size := by
      have := c.utf8Size_pos
      omega
    · refine iff_of_false (fun h => ?_) ?_
      · obtain ⟨-, -, heq⟩ | ⟨b, b', bytes, -, -, -, hsize', -⟩ := utf8EncodeChar_cases c
        · rw [List.flatMap_cons, heq] at h
          cases h
        · omega
      · rintro (hwide | -)
        omega
    · refine iff_of_false (fun h => ?_) ?_
      · rw [hexKey_two hsize] at h
        cases h
      · rintro (hwide | -)
        omega
    · exact iff_of_true (hexKey_first hsize) (.first hsize)
  | c :: d :: s => by
    obtain hsize | hsize | hsize : c.utf8Size = 1 ∨ c.utf8Size = 2 ∨ 3 ≤ c.utf8Size := by
      have := c.utf8Size_pos
      omega
    · obtain hsecond | hsecond : d.utf8Size = 1 ∨ 1 < d.utf8Size := by
        have := d.utf8Size_pos
        omega
      · rw [hexKey_pair (lt_of_size hsize) (lt_of_size hsecond)]
        rcases hvalue : pairValue c d with _ | b
        · refine iff_of_false nofun ?_
          rintro (hwide | ⟨-, hwide⟩ | ⟨hpair, -⟩)
          · omega
          · omega
          · rw [← pairValue_isSome, hvalue] at hpair
            cases hpair
        · have hpair : IsPair c d := pairValue_isSome.mp (by rw [hvalue]; rfl)
          rw [Option.elim_some, Option.map_eq_none_iff, hexKey_eq_none_iff s]
          refine ⟨.pair hpair, ?_⟩
          rintro (hwide | ⟨-, hwide⟩ | ⟨-, hrest⟩)
          · omega
          · omega
          · exact hrest
      · exact iff_of_true (hexKey_second hsize hsecond) (.second hsize hsecond)
    · refine iff_of_false (fun h => ?_) ?_
      · rw [hexKey_two hsize] at h
        cases h
      · rintro (hwide | ⟨hone, -⟩ | ⟨hpair, -⟩)
        · omega
        · omega
        · have := size_of_lt hpair.lt.1
          omega
    · exact iff_of_true (hexKey_first hsize) (.first hsize)

theorem byteLength_cons (c : Char) (s : List Char) :
    byteLength (c :: s) = c.utf8Size + byteLength s := by
  rw [byteLength, List.flatMap_cons, List.length_append, String.length_utf8EncodeChar, byteLength]

theorem Reads.length (h : Reads s key) : byteLength s = 2 * key.length := by
  induction h with
  | nil => rfl
  | cons hvalue _ ih =>
    have hpair := pairValue_isSome.mp (Option.isSome_of_eq_some hvalue)
    rw [byteLength_cons, byteLength_cons, size_of_lt hpair.lt.1, size_of_lt hpair.lt.2, ih,
      List.length_cons]
    omega

/-- **What is read** of a string of an even number of bytes. -/
theorem hexKey_eq_some_iff : ∀ (s : List Char) (key : List UInt8), byteLength s % 2 = 0 →
    (hexKey (s.flatMap String.utf8EncodeChar) = some (some key) ↔ Reads s key)
  | [], key, _ => by
    constructor
    · intro h
      cases h
      exact .nil
    · rintro ⟨⟩
      rfl
  | [c], key, heven => by
    rw [byteLength_cons, show byteLength [] = 0 from rfl] at heven
    refine iff_of_false (fun h => ?_) nofun
    obtain hsize | hsize : c.utf8Size = 2 ∨ 3 ≤ c.utf8Size := by
      have := c.utf8Size_pos
      omega
    · rw [hexKey_two hsize] at h
      cases h
    · rw [hexKey_first hsize] at h
      cases h
  | c :: d :: s, key, heven => by
    by_cases hascii : c.toNat < 128 ∧ d.toNat < 128
    · rw [byteLength_cons, byteLength_cons, size_of_lt hascii.1, size_of_lt hascii.2] at heven
      rw [hexKey_pair hascii.1 hascii.2]
      rcases hvalue : pairValue c d with _ | b
      · refine iff_of_false nofun ?_
        rintro (_ | ⟨hsome, -⟩)
        rw [hvalue] at hsome
        cases hsome
      · rw [Option.elim_some]
        constructor
        · intro h
          obtain ⟨key', hkey', heq⟩ := Option.map_eq_some_iff.mp h
          obtain ⟨rest, rfl, rfl⟩ := Option.map_eq_some_iff.mp heq
          exact .cons hvalue ((hexKey_eq_some_iff s rest (by omega)).mp hkey')
        · rintro (_ | ⟨hsome, hrest⟩)
          rw [hvalue] at hsome
          cases hsome
          rw [(hexKey_eq_some_iff s _ (by omega)).mpr hrest]
          rfl
    · refine iff_of_false (fun h => ?_) ?_
      · obtain hsize | hsize | hsize : c.utf8Size = 1 ∨ c.utf8Size = 2 ∨ 3 ≤ c.utf8Size := by
          have := c.utf8Size_pos
          omega
        · have hsecond : 1 < d.utf8Size := by
            by_contra hle
            have := d.utf8Size_pos
            exact hascii ⟨lt_of_size hsize, lt_of_size (by omega)⟩
          rw [hexKey_second hsize hsecond] at h
          cases h
        · rw [hexKey_two hsize] at h
          cases h
        · rw [hexKey_first hsize] at h
          cases h
      · rintro (_ | ⟨hsome, -⟩)
        exact hascii (pairValue_isSome.mp (Option.isSome_of_eq_some hsome)).lt

/-- Two digits that stand for a byte. -/
theorem pairValue_eq_some_iff {b : UInt8} (hplus : c ≠ '+') :
    pairValue c d = some b ↔
      hexValue c = some (b.toNat / 16) ∧ hexValue d = some (b.toNat % 16) := by
  have hb := b.toNat_lt
  rw [pairValue, if_neg hplus, Option.bind_eq_some_iff]
  constructor
  · rintro ⟨x, hx, h⟩
    obtain ⟨y, hy, rfl⟩ := Option.map_eq_some_iff.mp h
    have hxlt := (hexValue_lt hx).1
    have hylt := (hexValue_lt hy).1
    rw [UInt8.toNat_ofNat', Nat.mod_eq_of_lt (by omega), hx, hy]
    exact ⟨congrArg some (by omega), congrArg some (by omega)⟩
  · rintro ⟨hx, hy⟩
    refine ⟨_, hx, Option.map_eq_some_iff.mpr ⟨_, hy, ?_⟩⟩
    rw [Nat.div_add_mod, UInt8.ofNat_toNat]

/-- **Hexadecimal digits** are what is read without a sign. -/
theorem map_hexValue_iff : ∀ (s : List Char) (key : List UInt8),
    s.map hexValue = hexValues key ↔ Reads s key ∧ '+' ∉ s
  | [], [] => iff_of_true rfl ⟨.nil, nofun⟩
  | [], b :: key => iff_of_false nofun (by rintro ⟨⟨⟩, -⟩)
  | [c], [] => iff_of_false nofun (by rintro ⟨⟨⟩, -⟩)
  | [c], b :: key => iff_of_false (fun h => by
      have := congrArg List.length h
      simp [hexValues] at this) (by rintro ⟨⟨⟩, -⟩)
  | c :: d :: s, [] => iff_of_false nofun (by rintro ⟨⟨⟩, -⟩)
  | c :: d :: s, b :: key => by
    have hrest := map_hexValue_iff s key
    have hplus : hexValue '+' = none := rfl
    have hsplit : (c :: d :: s).map hexValue = hexValues (b :: key) ↔
        (hexValue c = some (b.toNat / 16) ∧ hexValue d = some (b.toNat % 16)) ∧
          s.map hexValue = hexValues key := by
      simp only [hexValues, List.flatMap_cons, List.map_cons, List.cons_append, List.nil_append,
        List.cons.injEq, and_assoc]
    rw [hsplit, hrest]
    constructor
    · rintro ⟨hpair, hreads, hnot⟩
      have hc : c ≠ '+' := by
        rintro rfl
        rw [hplus] at hpair
        cases hpair.1
      have hd : d ≠ '+' := by
        rintro rfl
        rw [hplus] at hpair
        cases hpair.2
      refine ⟨.cons ((pairValue_eq_some_iff hc).mpr hpair) hreads, ?_⟩
      simp only [List.mem_cons, not_or]
      exact ⟨hc.symm, hd.symm, hnot⟩
    · rintro ⟨⟨⟩ | ⟨hvalue, hreads⟩, hnot⟩
      simp only [List.mem_cons, not_or] at hnot
      exact ⟨(pairValue_eq_some_iff (Ne.symm hnot.1)).mp hvalue, hreads, hnot.2.2⟩

theorem Reads.pairs (h : Reads s key) : Pairs s := by
  induction h with
  | nil => exact .nil
  | cons hvalue _ ih => exact .cons (pairValue_isSome.mp (Option.isSome_of_eq_some hvalue)) ih

theorem Pairs.reads (h : Pairs s) : ∃ key, Reads s key := by
  induction h with
  | nil => exact ⟨[], .nil⟩
  | cons hpair _ ih =>
    obtain ⟨key, hkey⟩ := ih
    obtain ⟨b, hb⟩ := Option.isSome_iff_exists.mp (pairValue_isSome.mpr hpair)
    exact ⟨b :: key, .cons hb hkey⟩

end

/-! ## Keys -/

section

variable {P : Parsers} {s : List Char} {key : Bytes 32}

theorem byteLength_append (s s' : List Char) :
    byteLength (s ++ s') = byteLength s + byteLength s' := by
  rw [byteLength, List.flatMap_append, List.length_append, byteLength, byteLength]

theorem byteLength_of_ascii (h : ∀ c ∈ s, c.toNat < 128) : byteLength s = s.length := by
  induction s with
  | nil => rfl
  | cons c s ih =>
    rw [byteLength_cons, size_of_lt (h c List.mem_cons_self),
      ih fun d hd => h d (List.mem_cons_of_mem _ hd), List.length_cons, Nat.add_comm]

theorem byteLength_digits (bytes : List UInt8) :
    byteLength (Base64.digits bytes) = (4 * bytes.length + 2) / 3 := by
  have hall : Base64.alphabet.all (fun c => decide (c.toNat < 128)) = true := by decide
  have hascii : ∀ c ∈ Base64.alphabet, c.toNat < 128 := by
    simpa only [List.all_eq_true, decide_eq_true_eq] using hall
  rw [byteLength_of_ascii fun c hc => hascii c (Base64.mem_alphabet hc), Base64.length_digits]

theorem byteLength_unpadded (key : Bytes 32) : byteLength (Base64.digits key.toList) = 43 := by
  rw [byteLength_digits, List.Vector.toList_length]

theorem encode_key (key : Bytes 32) :
    Base64.encode key.toList = Base64.digits key.toList ++ ['='] := by
  rw [Base64.encode, List.Vector.toList_length]
  rfl

theorem byteLength_encode (key : Bytes 32) : byteLength (Base64.encode key.toList) = 44 := by
  rw [encode_key, byteLength_append, byteLength_unpadded]
  rfl

theorem byteLength_hex (h : s.map hexValue = hexValues key.toList) : byteLength s = 64 := by
  rw [((map_hexValue_iff _ _).mp h).1.length, List.Vector.toList_length]

theorem bind_ofList_eq_some_iff {o : Option (List UInt8)} :
    o.bind ofList = some key ↔ o = some key.toList := by
  rw [Option.bind_eq_some_iff]
  constructor
  · rintro ⟨bytes, rfl, h⟩
    rw [ofList] at h
    split_ifs at h
    cases h
    rfl
  · rintro rfl
    exact ⟨_, rfl, dif_pos key.toList_length⟩

/-- Text of a key with its padding or without. -/
theorem lenient_key (hP : Base64.Lenient P.base64Decode) :
    P.base64Decode s = some key.toList ↔
      s = Base64.encode key.toList ∨ s = Base64.digits key.toList := by
  rw [hP s key.toList, List.Vector.toList_length, encode_key]
  constructor
  · rintro ⟨n, hn, rfl⟩
    obtain rfl | rfl : n = 0 ∨ n = 1 := by
      have hpad : Base64.padding 32 = 1 := rfl
      omega
    · exact Or.inr (List.append_nil _)
    · exact Or.inl rfl
  · rintro (rfl | rfl)
    · exact ⟨1, le_rfl, rfl⟩
    · exact ⟨0, Nat.zero_le _, (List.append_nil _).symm⟩

theorem writes_of_byteLength (h : byteLength s = 64) :
    Writes key s ↔ s.map hexValue = hexValues key.toList := by
  refine ⟨?_, Or.inl⟩
  rintro (hhex | rfl | rfl)
  · exact hhex
  · rw [byteLength_encode] at h
    omega
  · rw [byteLength_unpadded] at h
    omega

theorem fromStr_eq (P : Parsers) (s : List Char) :
    fromStr P s =
      if byteLength s = 64 then
        (hexKey (s.flatMap String.utf8EncodeChar)).map fun key => key.bind ofList
      else if byteLength s = 43 then some ((P.base64Decode (s ++ ['='])).bind ofList)
      else if byteLength s = 44 then some ((P.base64Decode s).bind ofList)
      else some none :=
  rfl

/-- Base64 is read by its grammar. -/
theorem correct_of_ne (hP : Base64.Lenient P.base64Decode) (h : byteLength s ≠ 64) :
    Correct P s := by
  have hnot : ∀ key : Bytes 32, s.map hexValue ≠ hexValues key.toList :=
    fun key hhex => h (byteLength_hex hhex)
  rw [Correct, fromStr_eq, if_neg h]
  by_cases h43 : byteLength s = 43
  · rw [if_pos h43]
    refine ⟨_, rfl, fun key => ?_⟩
    rw [bind_ofList_eq_some_iff, lenient_key hP, encode_key]
    constructor
    · rintro (heq | heq)
      · exact Or.inr (Or.inr (List.append_cancel_right heq))
      · have hlast : '=' ∈ s ++ ['='] := List.mem_append_right _ List.mem_cons_self
        rw [heq] at hlast
        exact absurd hlast Base64.eq_not_mem_digits
    · rintro (hhex | rfl | rfl)
      · exact absurd hhex (hnot key)
      · rw [byteLength_encode] at h43
        omega
      · exact Or.inl rfl
  · rw [if_neg h43]
    by_cases h44 : byteLength s = 44
    · rw [if_pos h44]
      refine ⟨_, rfl, fun key => ?_⟩
      rw [bind_ofList_eq_some_iff, lenient_key hP]
      exact ⟨Or.inr, fun hwrites => hwrites.resolve_left (hnot key)⟩
    · rw [if_neg h44]
      refine ⟨_, rfl, fun key => iff_of_false nofun ?_⟩
      rintro (hhex | rfl | rfl)
      · exact hnot key hhex
      · exact h44 (byteLength_encode key)
      · exact h43 (byteLength_unpadded key)

/-- Hexadecimal digits are read, whatever else is a key. -/
theorem fromStr_of_hex (h : s.map hexValue = hexValues key.toList) :
    fromStr P s = some (some key) := by
  have hlength := byteLength_hex h
  rw [fromStr_eq, if_pos hlength,
    (hexKey_eq_some_iff s _ (by omega)).mpr ((map_hexValue_iff _ _).mp h).1]
  exact congrArg some (dif_pos key.toList_length)

/-- **Keys are read by their grammar** exactly unless a slice ends within a character, or all slices
are numbers and there is a sign. -/
theorem fromStr_correct_iff (hP : Base64.Lenient P.base64Decode) (s : List Char) :
    Correct P s ↔ ¬Misread s := by
  by_cases h : byteLength s = 64
  · have hreads : ∀ key : List UInt8, Reads s key → key.length = 32 := by
      intro key hkey
      have := hkey.length
      omega
    rw [Correct, fromStr_eq, if_pos h]
    constructor
    · rintro ⟨result, hresult, hall⟩ ⟨-, hcuts | ⟨hpairs, hplus⟩⟩
      · rw [(hexKey_eq_none_iff s).mpr hcuts] at hresult
        cases hresult
      · obtain ⟨key, hkey⟩ := hpairs.reads
        rw [(hexKey_eq_some_iff s key (by omega)).mpr hkey] at hresult
        have hsome : result = some ⟨key, hreads key hkey⟩ := by
          rw [← Option.some.inj hresult]
          exact dif_pos (hreads key hkey)
        have hhex := (writes_of_byteLength h).mp ((hall _).mp hsome)
        exact ((map_hexValue_iff _ _).mp hhex).2 hplus
    · intro hnot
      obtain ⟨key, hkey⟩ := Option.ne_none_iff_exists'.mp
        fun hnone => hnot ⟨h, Or.inl ((hexKey_eq_none_iff s).mp hnone)⟩
      refine ⟨key.bind ofList, by rw [hkey]; rfl, fun key' => ?_⟩
      rw [bind_ofList_eq_some_iff, writes_of_byteLength h, map_hexValue_iff,
        ← hexKey_eq_some_iff s _ (by omega), hkey, Option.some.injEq]
      refine ⟨fun hsome => ⟨hsome, fun hplus => hnot ⟨h, Or.inr ⟨?_, hplus⟩⟩⟩, And.left⟩
      rw [hsome] at hkey
      exact ((hexKey_eq_some_iff s _ (by omega)).mp hkey).pairs
  · exact iff_of_true (correct_of_ne hP h) fun hmisread => h hmisread.1

end

/-- The lenient decoder, and no addresses. -/
def sampleParsers : Parsers where
  base64Decode := Base64.decodeLenient
  ipAddr _ := none
  socketAddr _ := none

theorem fromStr_correct_iff_sample :
    Correct sampleParsers "YmFzZTY0IGlzIGEgdmVyeSBvcmRpbmFyeSBrZXkgISE=".toList ↔
      ¬Misread "YmFzZTY0IGlzIGEgdmVyeSBvcmRpbmFyeSBrZXkgISE=".toList :=
  fromStr_correct_iff Base64.lenient_decodeLenient _

/-- A letter, a letter with an accent and 61 digits: the first slice ends within the second
character. -/
theorem slice_within_character :
    ¬ ∀ s : List Char, Correct sampleParsers s := by
  intro hall
  obtain ⟨result, hresult, -⟩ := hall ('a' :: 'é' :: List.replicate 61 '0')
  have hnone : fromStr sampleParsers ('a' :: 'é' :: List.replicate 61 '0') = none := by
    decide +kernel
  rw [hnone] at hresult
  cases hresult

end NekoLink.KeyBytes
