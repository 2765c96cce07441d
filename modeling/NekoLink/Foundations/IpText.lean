import NekoLink.Foundations.Bytes

/-!
# Internet addresses as text

The dotted notation of four bytes and the colon notation of sixteen, written and read. A reader
takes an address from the front of a text and leaves the rest; it fails as a whole.

* `readNumber_append`: digits are read up to the next character that is none.
* `readIpv4_append`: four bytes that are written are read back, whatever follows them but a digit.
* `readIpv6_cons`: no address starts with another character than a digit or a colon.
-/

namespace Text

open Wire

/-! ## Numbers -/

/-- `char::to_digit` -/
def toDigit (radix : ℕ) (c : Char) : Option ℕ :=
  (if '0' ≤ c ∧ c ≤ '9' then some (c.toNat - '0'.toNat)
  else if 'a' ≤ c ∧ c ≤ 'z' then some (c.toNat - 'a'.toNat + 10)
  else if 'A' ≤ c ∧ c ≤ 'Z' then some (c.toNat - 'A'.toNat + 10)
  else none).filter (· < radix)

def isDigitOf (radix : ℕ) (c : Char) : Bool := (toDigit radix c).isSome

def digitsValue (radix : ℕ) (digits : List Char) : ℕ :=
  digits.foldl (fun n c => n * radix + (toDigit radix c).getD 0) 0

/-- All the digits in front have to be a number of at most `maxDigits` that is at most `bound`. -/
def readNumber (radix maxDigits : ℕ) (allowZeroPrefix : Bool) (bound : ℕ) (s : List Char) :
    Option (ℕ × List Char) :=
  let digits := s.takeWhile (isDigitOf radix)
  if digits = [] ∨ maxDigits < digits.length ∨ bound < digitsValue radix digits then none
  else if !allowZeroPrefix && digits.head? = some '0' && 1 < digits.length then none
  else some (digitsValue radix digits, s.dropWhile (isDigitOf radix))

/-- All but the first of a sequence have the separator before them. -/
def readSeparator {α : Type} (sep : Char) (index : ℕ) (inner : List Char → Option (α × List Char))
    (s : List Char) : Option (α × List Char) :=
  if index = 0 then inner s
  else
    match s with
    | [] => none
    | c :: s => if c = sep then inner s else none

/-! ## Four bytes -/

def writeIpv4 (octets : Bytes 4) : List Char :=
  List.intercalate ['.'] (octets.toList.map fun b => Nat.toDigits 10 b.toNat)

/-- The octets from `index` on. -/
def readOctets : (n index : ℕ) → List Char → Option (Bytes n × List Char)
  | 0, _, s => some (.nil, s)
  | n + 1, index, s =>
    (readSeparator '.' index (readNumber 10 3 false 255) s).bind fun (octet, s) =>
      (readOctets n (index + 1) s).map fun (octets, s) => (.cons (UInt8.ofNat octet) octets, s)

def readIpv4 (s : List Char) : Option (Bytes 4 × List Char) := readOctets 4 0 s

/-! ## Sixteen bytes -/

/-- The sixteen-bit groups of an address. -/
def segments (octets : Bytes 16) : List ℕ :=
  (List.range 8).map fun i => beValue (slice octets.toList (2 * i) (2 * i + 2))

/-- The address of eight groups. -/
def ofSegments (groups : List ℕ) (h : groups.length = 8) : Bytes 16 :=
  ⟨groups.flatMap (beBytes 2), by simp [List.length_flatMap, h]⟩

structure Span where
  start : ℕ
  len : ℕ

/-- The first of the longest runs of zeros, behind `i` groups. -/
def longestZeros (longest current : Span) (i : ℕ) : List ℕ → Span
  | [] => longest
  | segment :: rest =>
    if segment = 0 then
      let current := ⟨if current.len = 0 then i else current.start, current.len + 1⟩
      longestZeros (if longest.len < current.len then current else longest) current (i + 1) rest
    else longestZeros longest ⟨0, 0⟩ (i + 1) rest

def writeSegments (groups : List ℕ) : List Char :=
  List.intercalate [':'] (groups.map (Nat.toDigits 16))

/-- An IPv4-mapped address ends in the dotted notation; in any other one the longest run of zeros is
left out, when there are two at least. -/
def writeIpv6 (octets : Bytes 16) : List Char :=
  if octets.toList.take 12 = List.replicate 10 0 ++ [0xFF, 0xFF] then
    "::ffff:".toList ++ writeIpv4 ⟨octets.toList.drop 12, by simp⟩
  else
    let groups := segments octets
    let zeroes := longestZeros ⟨0, 0⟩ ⟨0, 0⟩ 0 groups
    if 1 < zeroes.len then
      writeSegments (groups.take zeroes.start) ++ "::".toList ++
        writeSegments (groups.drop (zeroes.start + zeroes.len))
    else writeSegments groups

/-- The groups from `index` on, `n` at most, and whether the last two were in the dotted notation,
which takes two. -/
def readGroups : (n index : ℕ) → List Char → List ℕ × Bool × List Char
  | 0, _, s => ([], false, s)
  | n + 1, index, s =>
    match if 0 < n then readSeparator ':' index readIpv4 s else none with
    | some (octets, s) =>
      ([beValue (octets.toList.take 2), beValue (octets.toList.drop 2)], true, s)
    | none =>
      match readSeparator ':' index (readNumber 16 4 true 0xFFFF) s with
      | none => ([], false, s)
      | some (group, s) =>
        (group :: (readGroups n (index + 1) s).1, (readGroups n (index + 1) s).2)

theorem length_readGroups (n index : ℕ) (s : List Char) : (readGroups n index s).1.length ≤ n := by
  induction n generalizing index s with
  | zero => exact Nat.zero_le _
  | succ n ih =>
    rw [readGroups]
    split
    · rename_i hread
      split_ifs at hread with hn
      exact Nat.succ_le_succ hn
    · split
      · exact Nat.zero_le _
      · exact Nat.succ_le_succ (ih _ _)

/-- The groups that an ellipsis stands for fill the address. -/
theorem length_expanded {front back : List ℕ} (hfront : front.length ≤ 8)
    (hback : back.length ≤ 8 - (front.length + 1)) :
    (front ++ List.replicate (8 - back.length - front.length) 0 ++ back).length = 8 := by
  simp only [List.length_append, List.length_replicate]
  omega

/-- Either eight groups, or two colons between those before them and those after. -/
def readIpv6 (s : List Char) : Option (Bytes 16 × List Char) :=
  let head := readGroups 8 0 s
  if h : head.1.length = 8 then some (ofSegments head.1 h, head.2.2)
  else if head.2.1 then none
  else
    match head.2.2 with
    | ':' :: ':' :: s =>
      let tail := readGroups (8 - (head.1.length + 1)) 0 s
      have htail : tail.1.length ≤ 8 - (head.1.length + 1) := length_readGroups ..
      have hhead : head.1.length ≤ 8 := length_readGroups ..
      some (ofSegments (head.1 ++ List.replicate (8 - tail.1.length - head.1.length) 0 ++ tail.1)
        (length_expanded hhead htail), tail.2.2)
    | _ => none

/-! ## What is written is read -/

section

variable {radix : ℕ} {rest : List Char}

theorem takeWhile_of_head {p : Char → Bool} (h : ∀ c ∈ rest.head?, p c = false) :
    rest.takeWhile p = [] ∧ rest.dropWhile p = rest := by
  rcases rest with _ | ⟨c, rest⟩
  · exact ⟨rfl, rfl⟩
  · have hc : ¬ p c = true := by simp [h c rfl]
    exact ⟨List.takeWhile_cons_of_neg hc, List.dropWhile_cons_of_neg hc⟩

/-- A reader of digits stops at the next character that is none. -/
theorem readNumber_append {digits : List Char} (hdigits : ∀ c ∈ digits, isDigitOf radix c = true)
    (hrest : ∀ c ∈ rest.head?, isDigitOf radix c = false) (maxDigits : ℕ) (allowZeroPrefix : Bool)
    (bound : ℕ) :
    readNumber radix maxDigits allowZeroPrefix bound (digits ++ rest) =
      (readNumber radix maxDigits allowZeroPrefix bound digits).map fun r => (r.1, rest) := by
  obtain ⟨htake, hdrop⟩ := takeWhile_of_head hrest
  have hall : digits.takeWhile (isDigitOf radix) = digits := by
    have h : (digits ++ []).takeWhile (isDigitOf radix) = digits ++ [] :=
      List.takeWhile_append_of_pos hdigits
    rwa [List.append_nil] at h
  rw [readNumber, readNumber, List.takeWhile_append_of_pos hdigits,
    List.dropWhile_append_of_pos hdigits, htake, hdrop, List.append_nil, hall]
  split_ifs <;> rfl

/-- A byte has three digits at most, and no zero in front of another. -/
theorem readNumber_toDigits : ∀ n < 256, (∀ c ∈ Nat.toDigits 10 n, isDigitOf 10 c = true) ∧
    readNumber 10 3 false 255 (Nat.toDigits 10 n) = some (n, []) := by
  have hall : ∀ n < 256, (Nat.toDigits 10 n).all (isDigitOf 10) = true ∧
      readNumber 10 3 false 255 (Nat.toDigits 10 n) = some (n, []) := by
    decide +kernel
  exact fun n hn => (hall n hn).imp_left List.all_eq_true.mp

theorem readNumber_octet (octet : UInt8) (hrest : ∀ c ∈ rest.head?, isDigitOf 10 c = false) :
    readNumber 10 3 false 255 (Nat.toDigits 10 octet.toNat ++ rest) = some (octet.toNat, rest) := by
  obtain ⟨hdigits, hread⟩ := readNumber_toDigits octet.toNat octet.toNat_lt
  rw [readNumber_append hdigits hrest, hread, Option.map_some]

/-- The first octet. -/
theorem readOctets_first (n : ℕ) (octet : UInt8)
    (hrest : ∀ c ∈ rest.head?, isDigitOf 10 c = false) :
    readOctets (n + 1) 0 (Nat.toDigits 10 octet.toNat ++ rest) =
      (readOctets n 1 rest).map fun r => (.cons octet r.1, r.2) := by
  have hseparator : readSeparator '.' 0 (readNumber 10 3 false 255)
      (Nat.toDigits 10 octet.toNat ++ rest) = some (octet.toNat, rest) :=
    readNumber_octet octet hrest
  rw [readOctets, hseparator, Option.bind_some]
  dsimp only
  rw [UInt8.ofNat_toNat]

/-- An octet behind a dot. -/
theorem readOctets_next (n index : ℕ) (octet : UInt8)
    (hrest : ∀ c ∈ rest.head?, isDigitOf 10 c = false) :
    readOctets (n + 1) (index + 1) ('.' :: (Nat.toDigits 10 octet.toNat ++ rest)) =
      (readOctets n (index + 2) rest).map fun r => (.cons octet r.1, r.2) := by
  have hseparator : readSeparator '.' (index + 1) (readNumber 10 3 false 255)
      ('.' :: (Nat.toDigits 10 octet.toNat ++ rest)) = some (octet.toNat, rest) := by
    rw [← readNumber_octet octet hrest]
    rfl
  rw [readOctets, hseparator, Option.bind_some]
  dsimp only
  rw [UInt8.ofNat_toNat]

/-- **Four bytes are read back**, whatever follows them but a digit. -/
theorem readIpv4_append (octets : Bytes 4) (hrest : ∀ c ∈ rest.head?, isDigitOf 10 c = false) :
    readIpv4 (writeIpv4 octets ++ rest) = some (octets, rest) := by
  match octets with
  | ⟨[a, b, c, d], hlen⟩ =>
    have hdot : ∀ s : List Char, ∀ c ∈ ('.' :: s).head?, isDigitOf 10 c = false := by
      rintro s c ⟨⟩
      rfl
    have htext : writeIpv4 ⟨[a, b, c, d], hlen⟩ ++ rest =
        Nat.toDigits 10 a.toNat ++ '.' :: (Nat.toDigits 10 b.toNat ++ '.' ::
          (Nat.toDigits 10 c.toNat ++ '.' :: (Nat.toDigits 10 d.toNat ++ rest))) := by
      simp [writeIpv4, List.intercalate, List.intersperse, List.Vector.toList]
    rw [htext, readIpv4, readOctets_first 3 a (hdot _), readOctets_next 2 0 b (hdot _),
      readOctets_next 1 1 c (hdot _), readOctets_next 0 2 d hrest]
    rfl

/-- A number starts with a digit. -/
theorem readNumber_cons {c : Char} (hc : isDigitOf radix c = false) (s : List Char) (m : ℕ)
    (z : Bool) (b : ℕ) : readNumber radix m z b (c :: s) = none := by
  rw [readNumber, List.takeWhile_cons_of_neg (by simp [hc]), if_pos (Or.inl rfl)]

theorem readIpv4_cons {c : Char} (hc : isDigitOf 10 c = false) (s : List Char) :
    readIpv4 (c :: s) = none := by
  rw [readIpv4, readOctets, readSeparator, if_pos rfl, readNumber_cons hc]
  rfl

/-- Sixteen bytes start with a digit or a colon. -/
theorem readIpv6_cons {c : Char} (hc : isDigitOf 10 c = false) (hc' : isDigitOf 16 c = false)
    (hcolon : c ≠ ':') (s : List Char) : readIpv6 (c :: s) = none := by
  have hgroups : readGroups 8 0 (c :: s) = ([], false, c :: s) := by
    rw [readGroups, readSeparator, if_pos rfl, readSeparator, if_pos rfl, readIpv4_cons hc,
      readNumber_cons hc']
    rfl
  unfold readIpv6
  simp only [hgroups]
  rw [dif_neg (by simp), if_neg (by simp)]
  split
  · rename_i heq
    exact absurd (List.cons.inj heq).1 hcolon
  · rfl

end

end Text
