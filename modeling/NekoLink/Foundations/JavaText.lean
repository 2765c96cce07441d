import Mathlib.Data.List.Forall2
import Mathlib.Data.List.Perm.Subperm
import NekoLink.Foundations.Lines

/-!
# Text as Java reads it

The lines of a reader, `String.trim`, `equalsIgnoreCase`, and lists of elements between commas. What
the classes of a regular expression have beyond ASCII depends on the library, so they are a
parameter.

* `readLines_unlines`: lines that are written are read back.
* `of_mem_readLines`: no line that is read has an end of a line in it.
* `split_items`: elements between commas are split again, up to the blanks at the end.
* `item_of_mem_split`: what elements that are split look like.
-/

namespace JavaText

open Text

/-! ## Characters -/

/-- The classes `\s` and `\w` of regular expressions. With Unicode they have characters beyond ASCII
too. -/
structure CharClasses where
  isSpace : Char → Bool
  isWord : Char → Bool
  space : isSpace ' ' = true
  graphic : ∀ c, ' ' < c → c < '\x7f' → isSpace c = false
  alphanum : ∀ c : Char, c.isAlphanum = true → isWord c = true
  word : ∀ c, isWord c = true → c.isAlphanum = true ∨ c = '_' ∨ '\x7f' < c

/-- What `String.trim` takes away. -/
def isBlank (c : Char) : Bool := c ≤ ' '

/-- A character without its case, for the comparison with a letter of ASCII. -/
def foldCase (c : Char) : Char :=
  if c = '\u0131' ∨ c = '\u0130' then 'i'
  else if c = '\u017f' then 's'
  else if c = '\u212a' then 'k'
  else c.toLower

/-- `String.equalsIgnoreCase`, where one of the two is ASCII -/
def equalsIgnoreCase (s t : List Char) : Bool := s.map foldCase = t.map foldCase

/-- `String.toLowerCase(Locale.ENGLISH)`, as far as letters of ASCII come out of it. -/
def toLowerCase (s : List Char) : List Char :=
  s.map fun c => if c = '\u212a' then 'k' else c.toLower

namespace CharClasses

variable (K : CharClasses) {c : Char}

theorem not_isWord (halphanum : c.isAlphanum = false) (hscore : c ≠ '_') (hle : c ≤ '\x7f') :
    K.isWord c = false := by
  by_contra h
  obtain h | h | h := K.word c (eq_true_of_ne_false h)
  · rw [halphanum] at h
    cases h
  · exact hscore h
  · exact absurd hle (Char.not_le.mpr h)

variable {K} in
theorem not_isBlank_of_isWord (h : K.isWord c = true) : isBlank c = false := by
  have hall : ∀ n < 33, (Char.ofNat n).isAlphanum = false := by decide
  rw [isBlank, decide_eq_false_iff_not]
  intro hle
  have hlt : c.toNat < 33 := Nat.lt_succ_of_le hle
  have halphanum := hall _ hlt
  rw [Char.ofNat_toNat] at halphanum
  rw [K.not_isWord halphanum ?_ ?_] at h
  · cases h
  · rintro rfl
    exact absurd hle (by decide)
  · exact Char.le_trans hle (by decide)

theorem not_isSpace_of_isAlphanum (h : c.isAlphanum = true) : K.isSpace c = false := by
  delta Char.isAlphanum Char.isAlpha Char.isUpper Char.isLower Char.isDigit at h
  simp only [Bool.or_eq_true, Bool.and_eq_true, decide_eq_true_eq, UInt32.le_iff_toNat_le,
    ge_iff_le] at h
  have hgraphic : 32 < c.val.toNat ∧ c.val.toNat < 127 := by
    obtain ((⟨hlow, hhigh⟩ | ⟨hlow, hhigh⟩) | ⟨hlow, hhigh⟩) := h
    all_goals
      exact ⟨Nat.lt_of_lt_of_le (by decide) hlow, Nat.lt_of_le_of_lt hhigh (by decide)⟩
  exact K.graphic c (UInt32.lt_iff_toNat_lt.mpr hgraphic.1) (UInt32.lt_iff_toNat_lt.mpr hgraphic.2)

end CharClasses

/-! ## The ends of a text -/

section

variable {p q : Char → Bool} {s t : List Char}

theorem dropWhile_of_head (h : ∀ c ∈ s.head?, p c = false) : s.dropWhile p = s := by
  rcases s with _ | ⟨c, s⟩
  · rfl
  · rw [List.dropWhile_cons_of_neg (by simp [h c rfl])]

theorem rdropWhile_of_getLast (h : ∀ c ∈ s.getLast?, p c = false) : s.rdropWhile p = s := by
  rw [List.rdropWhile_eq_self_iff]
  intro hne hlast
  rw [h _ (List.getLast?_eq_some_getLast hne)] at hlast
  cases hlast

/-- What is left has no such character at its beginning. -/
theorem head_dropWhile (s : List Char) : ∀ c ∈ (s.dropWhile p).head?, p c = false := by
  intro c hc
  have hnot := List.head?_dropWhile_not p s
  rw [Option.mem_def.mp hc] at hnot
  simpa using hnot

theorem getLast_rdropWhile (s : List Char) : ∀ c ∈ (s.rdropWhile p).getLast?, p c = false := by
  intro c hc
  rw [List.rdropWhile, List.getLast?_reverse] at hc
  exact head_dropWhile _ c hc

theorem head_rdropWhile (h : ∀ c ∈ s.head?, q c = false) :
    ∀ c ∈ (s.rdropWhile p).head?, q c = false := by
  intro c hc
  obtain ⟨back, heq⟩ := List.rdropWhile_prefix p (l := s)
  refine h c ?_
  rw [← heq, List.head?_append, Option.mem_def.mp hc]
  rfl

theorem rdropWhile_append : (s ++ t).rdropWhile p =
    if t.rdropWhile p = [] then s.rdropWhile p else s ++ t.rdropWhile p := by
  simp only [List.rdropWhile, List.reverse_append, List.dropWhile_append, List.isEmpty_iff,
    List.reverse_eq_nil_iff]
  split_ifs
  · rfl
  · rw [List.reverse_append, List.reverse_reverse]

end

/-- `String.trim` -/
def trim (s : List Char) : List Char := (s.dropWhile isBlank).rdropWhile isBlank

theorem mem_of_mem_trim {s : List Char} {c : Char} (h : c ∈ trim s) : c ∈ s :=
  (List.dropWhile_suffix isBlank).subset ((List.rdropWhile_prefix isBlank _).subset h)

/-! ## Lines -/

/-- The lines from here on, when a part of the first one has been read. A line ends at a newline, a
carriage return or both. -/
def readLinesFrom (line : List Char) : List Char → List (List Char)
  | [] => if line = [] then [] else [line]
  | '\r' :: '\n' :: rest => line :: readLinesFrom [] rest
  | c :: rest =>
    if c = '\n' ∨ c = '\r' then line :: readLinesFrom [] rest else readLinesFrom (line ++ [c]) rest

/-- The lines of a `BufferedReader` -/
def readLines (s : List Char) : List (List Char) := readLinesFrom [] s

/-- A text within one line. -/
def OneLine (s : List Char) : Prop := '\n' ∉ s ∧ '\r' ∉ s

theorem readLinesFrom_append {line : List Char} (start rest : List Char) (h : OneLine line) :
    readLinesFrom start (line ++ '\n' :: rest) = (start ++ line) :: readLines rest := by
  induction line generalizing start with
  | nil =>
    rw [List.nil_append, readLinesFrom, if_pos (.inl rfl), List.append_nil, readLines]
    exact fun rest' h' => absurd h' (by decide)
  | cons c line ih =>
    obtain ⟨hnewline, hreturn⟩ := h
    rw [List.mem_cons, not_or] at hnewline hreturn
    have hc : ¬(c = '\n' ∨ c = '\r') :=
      not_or.mpr ⟨fun heq => hnewline.1 heq.symm, fun heq => hreturn.1 heq.symm⟩
    rw [List.cons_append, readLinesFrom, if_neg hc, ih _ ⟨hnewline.2, hreturn.2⟩, List.append_assoc,
      List.singleton_append]
    exact fun rest' h' => absurd (.inr h') hc

/-- **Lines are read back.** -/
theorem readLines_unlines {ls : List (List Char)} (h : ∀ l ∈ ls, OneLine l) :
    readLines (unlines ls) = ls := by
  induction ls with
  | nil => rfl
  | cons l ls ih =>
    have hsplit : unlines (l :: ls) = l ++ '\n' :: unlines ls := by simp [unlines]
    rw [hsplit, readLines, readLinesFrom_append _ _ (h l List.mem_cons_self), List.nil_append,
      ih fun k hk => h k (List.mem_cons_of_mem _ hk)]

theorem of_mem_readLinesFrom {start s line : List Char} (hstart : OneLine start)
    (h : line ∈ readLinesFrom start s) : OneLine line := by
  have hnil : OneLine [] := ⟨List.not_mem_nil, List.not_mem_nil⟩
  induction start, s using readLinesFrom.induct with
  | case1 => cases h
  | case2 start hne =>
    rw [readLinesFrom, if_neg hne] at h
    rwa [List.mem_singleton.mp h]
  | case3 start rest ih =>
    rw [readLinesFrom] at h
    rcases List.mem_cons.mp h with rfl | h
    · exact hstart
    · exact ih hnil h
  | case4 start c rest hreturn hc ih =>
    rw [readLinesFrom, if_pos hc] at h
    · rcases List.mem_cons.mp h with rfl | h
      · exact hstart
      · exact ih hnil h
    · exact hreturn
  | case5 start c rest hreturn hc ih =>
    rw [readLinesFrom, if_neg hc] at h
    · refine ih ⟨fun hmem => ?_, fun hmem => ?_⟩ h
      · rcases List.mem_append.mp hmem with hmem | hmem
        · exact hstart.1 hmem
        · exact hc (.inl (List.mem_singleton.mp hmem).symm)
      · rcases List.mem_append.mp hmem with hmem | hmem
        · exact hstart.2 hmem
        · exact hc (.inr (List.mem_singleton.mp hmem).symm)
    · exact hreturn

/-- **No line has an end of a line in it.** -/
theorem of_mem_readLines {s line : List Char} (h : line ∈ readLines s) : OneLine line :=
  of_mem_readLinesFrom ⟨List.not_mem_nil, List.not_mem_nil⟩ h

/-! ## Lists -/

/-- Elements with commas between them. -/
def join (values : List (List Char)) : List Char := ", ".toList.intercalate values

section

variable (K : CharClasses)

/-- The parts behind a comma; the spaces next to a comma belong to it. -/
def stripRest : List (List Char) → List (List Char)
  | [] => []
  | [last] => [last.dropWhile K.isSpace]
  | part :: parts => (part.dropWhile K.isSpace).rdropWhile K.isSpace :: stripRest parts

def stripParts : List (List Char) → List (List Char)
  | [] => []
  | [only] => [only]
  | first :: parts => first.rdropWhile K.isSpace :: stripRest K parts

/-- `Pattern.split` at `\s*,\s*`: the empty parts at the end are left out, and a text without a
match is its own part. -/
def split (value : List Char) : List (List Char) :=
  if ',' ∉ value then [value] else (stripParts K (value.splitOn ',')).rdropWhile (· = [])

/-- An element that begins behind a comma as it is. -/
structure Item (a : List Char) : Prop where
  comma : ',' ∉ a
  head : ∀ c ∈ a.head?, K.isSpace c = false

end

section

variable {K : CharClasses} {α : Type*} {a last value : List Char} {init parts : List (List Char)}

theorem intercalate_cons (sep : List α) (x : List α) (xs : List (List α)) :
    ∃ rest, sep.intercalate (x :: xs) = x ++ rest := by
  rcases xs with _ | ⟨y, xs⟩
  · exact ⟨[], by rw [List.intercalate_singleton, List.append_nil]⟩
  · exact ⟨sep ++ sep.intercalate (y :: xs), by
      rw [List.intercalate_cons_cons, List.append_assoc]⟩

theorem intercalate_concat (sep : List α) {xs : List (List α)} (hne : xs ≠ []) (x : List α) :
    sep.intercalate (xs ++ [x]) = sep.intercalate xs ++ sep ++ x := by
  induction xs with
  | nil => exact absurd rfl hne
  | cons y xs ih =>
    rcases xs with _ | ⟨z, xs⟩
    · rw [List.singleton_append, List.intercalate_cons_cons, List.intercalate_singleton,
        List.intercalate_singleton]
    · rw [List.cons_append, List.cons_append, List.intercalate_cons_cons, ← List.cons_append,
        ih (List.cons_ne_nil _ _), List.intercalate_cons_cons]
      simp only [List.append_assoc]

/-- No part has the separator in it. -/
theorem not_mem_of_mem_splitOn {sep : Char} {s part : List Char} (h : part ∈ s.splitOn sep) :
    sep ∉ part := by
  induction s generalizing part with
  | nil =>
    rw [List.splitOn_nil, List.mem_singleton] at h
    rw [h]
    exact List.not_mem_nil
  | cons c s ih =>
    rw [List.splitOn_cons_eq_if_modifyHead] at h
    split_ifs at h with hc
    · rcases List.mem_cons.mp h with rfl | h
      · exact List.not_mem_nil
      · exact ih h
    · rcases hparts : s.splitOn sep with _ | ⟨first, rest⟩
      · exact absurd hparts (List.splitOn_ne_nil _ _)
      · rw [hparts, List.modifyHead_cons] at h
        rcases List.mem_cons.mp h with rfl | h
        · rw [List.mem_cons, not_or]
          exact ⟨fun heq => hc (beq_iff_eq.mpr heq.symm), ih (hparts ▸ List.mem_cons_self)⟩
        · exact ih (hparts ▸ List.mem_cons_of_mem _ h)

theorem mem_intercalate {sep : Char} {part : List Char} {c : Char} (hpart : part ∈ parts)
    (hc : c ∈ part) : c ∈ [sep].intercalate parts := by
  induction parts with
  | nil => cases hpart
  | cons first parts ih =>
    rcases List.mem_cons.mp hpart with rfl | hpart
    · obtain ⟨rest, heq⟩ := intercalate_cons [sep] part parts
      rw [heq]
      exact List.mem_append_left _ hc
    · rw [List.intercalate_cons_of_ne_nil (List.ne_nil_of_mem hpart)]
      exact List.mem_append_right _ (ih hpart)

/-! ## What is split -/

theorem of_mem_stripRest (h : a ∈ stripRest K parts) :
    (∀ c ∈ a.head?, K.isSpace c = false) ∧ ∃ part ∈ parts, a ⊆ part := by
  induction parts using stripRest.induct with
  | case1 => cases h
  | case2 last =>
    rw [stripRest, List.mem_singleton] at h
    subst h
    exact ⟨head_dropWhile _, last, List.mem_singleton_self _, (List.dropWhile_suffix _).subset⟩
  | case3 part parts hne ih =>
    rw [stripRest] at h
    · rcases List.mem_cons.mp h with rfl | h
      · exact ⟨head_rdropWhile (head_dropWhile _), part, List.mem_cons_self,
          fun c hc => (List.dropWhile_suffix _).subset ((List.rdropWhile_prefix _ _).subset hc)⟩
      · obtain ⟨hhead, other, hother, hsub⟩ := ih h
        exact ⟨hhead, other, List.mem_cons_of_mem _ hother, hsub⟩
    · exact hne

/-- **What a part of a list looks like.** -/
theorem item_of_mem_split (hhead : ∀ c ∈ value.head?, K.isSpace c = false)
    (h : a ∈ split K value) : Item K a ∧ a ⊆ value := by
  rw [split] at h
  split_ifs at h with hcomma
  · replace h := (List.rdropWhile_prefix _ _).subset h
    have hjoin : [','].intercalate (value.splitOn ',') = value := List.intercalate_splitOn ','
    have hcommas : ∀ part ∈ value.splitOn ',', ',' ∉ part := fun _ => not_mem_of_mem_splitOn
    have hparts := List.splitOn_ne_nil ',' value
    generalize value.splitOn ',' = parts at h hjoin hcommas hparts
    have hsub : ∀ part ∈ parts, part ⊆ value := fun part hpart c hc =>
      hjoin ▸ mem_intercalate hpart hc
    rcases parts with _ | ⟨first, _ | ⟨next, parts⟩⟩
    · exact absurd rfl hparts
    · rw [stripParts, List.mem_singleton] at h
      subst h
      rw [List.intercalate_singleton] at hjoin
      exact ⟨⟨hcommas _ List.mem_cons_self, hjoin ▸ hhead⟩, hsub _ List.mem_cons_self⟩
    · rw [stripParts] at h
      · have hfirst : ∀ c ∈ first.head?, K.isSpace c = false := by
          intro c hc
          obtain ⟨rest, heq⟩ := intercalate_cons [','] first (next :: parts)
          refine hhead c ?_
          rw [← hjoin, heq, List.head?_append, Option.mem_def.mp hc]
          rfl
        rcases List.mem_cons.mp h with rfl | h
        · have hfront : first.rdropWhile K.isSpace ⊆ first := (List.rdropWhile_prefix _ _).subset
          exact ⟨⟨fun hmem => hcommas _ List.mem_cons_self (hfront hmem), head_rdropWhile hfirst⟩,
            fun c hc => hsub _ List.mem_cons_self (hfront hc)⟩
        · obtain ⟨hhead', part, hpart, hin⟩ := of_mem_stripRest h
          have hmem := List.mem_cons_of_mem first hpart
          exact ⟨⟨fun hc => hcommas _ hmem (hin hc), hhead'⟩, fun c hc => hsub _ hmem (hin hc)⟩
      · simp
  · rw [List.mem_singleton.mp h]
    exact ⟨⟨hcomma, hhead⟩, List.Subset.refl _⟩

/-! ## What is joined -/

/-- The value of an attribute as it is read, once the blanks at the end of its line are trimmed and
those in front of it are skipped. -/
def settle (K : CharClasses) (value : List Char) : List Char :=
  (value.rdropWhile isBlank).dropWhile K.isSpace

theorem settle_eq_self (hhead : ∀ c ∈ value.head?, K.isSpace c = false)
    (hlast : ∀ c ∈ value.getLast?, isBlank c = false) : settle K value = value := by
  rw [settle, rdropWhile_of_getLast hlast, dropWhile_of_head hhead]

/-- An element at the end of a list is without its blanks. -/
theorem Item.settle_eq (h : Item K a) : settle K a = a.rdropWhile isBlank :=
  dropWhile_of_head (head_rdropWhile h.head)

theorem settle_space (value : List Char) : settle K (' ' :: value) = settle K value := by
  rw [settle, settle, show ' ' :: value = [' '] ++ value from rfl, rdropWhile_append]
  split_ifs with hblank
  · rw [hblank]
    rfl
  · rw [List.singleton_append, List.dropWhile_cons_of_pos K.space]

theorem join_cons (a : List Char) (values : List (List Char)) :
    join (a :: values) = [','].intercalate (a :: values.map (' ' :: ·)) := by
  induction values generalizing a with
  | nil => rfl
  | cons b values ih =>
    rw [join, List.intercalate_cons_cons, ← join, ih, List.map_cons, List.intercalate_cons_cons]
    rcases values with _ | ⟨c, values⟩
    · simp
    · simp [List.intercalate_cons_cons]

/-- The characters of a list. -/
theorem of_mem_join {values : List (List Char)} {c : Char} (h : c ∈ join values) :
    c = ',' ∨ c = ' ' ∨ ∃ b ∈ values, c ∈ b := by
  rcases values with _ | ⟨a, values⟩
  · cases h
  · rw [join_cons] at h
    obtain rfl | ⟨part, hpart, hc⟩ := of_mem_intercalate h
    · exact .inl rfl
    · rcases List.mem_cons.mp hpart with rfl | hpart
      · exact .inr (.inr ⟨_, List.mem_cons_self, hc⟩)
      · obtain ⟨b, hb, rfl⟩ := List.mem_map.mp hpart
        rcases List.mem_cons.mp hc with rfl | hc
        · exact .inr (.inl rfl)
        · exact .inr (.inr ⟨b, List.mem_cons_of_mem _ hb, hc⟩)

theorem mem_of_mem_settle {c : Char} (h : c ∈ settle K value) : c ∈ value :=
  (List.rdropWhile_prefix _ _).subset ((List.dropWhile_suffix _).subset h)

/-- The parts of a list whose last element is trimmed. -/
theorem settle_join (hitem : Item K a) (init : List (List Char)) (last : List Char) :
    settle K (join (a :: init ++ [last])) =
      [','].intercalate (a :: init.map (' ' :: ·) ++ [(' ' :: last).rdropWhile isBlank]) := by
  have hjoin : join (a :: init ++ [last]) =
      [','].intercalate (a :: init.map (' ' :: ·)) ++ [','] ++ (' ' :: last) := by
    rw [List.cons_append, join_cons, List.map_append, List.map_singleton, ← List.cons_append,
      intercalate_concat _ (List.cons_ne_nil _ _)]
  have hend : ([','].intercalate (a :: init.map (' ' :: ·)) ++ [',']).rdropWhile isBlank =
      [','].intercalate (a :: init.map (' ' :: ·)) ++ [','] := by
    refine rdropWhile_of_getLast fun c hc => ?_
    rw [List.getLast?_concat] at hc
    cases hc
    rfl
  have htrim : (join (a :: init ++ [last])).rdropWhile isBlank =
      [','].intercalate (a :: init.map (' ' :: ·)) ++ [','] ++
        (' ' :: last).rdropWhile isBlank := by
    rw [hjoin, rdropWhile_append]
    split_ifs with htail
    · rw [hend, htail, List.append_nil]
    · rfl
  rw [settle, htrim, intercalate_concat _ (List.cons_ne_nil _ _)]
  refine dropWhile_of_head fun c hc => ?_
  rcases a with _ | ⟨d, a⟩
  · -- an empty element leaves the comma behind it
    obtain rfl : ',' = c := by
      rcases init with _ | ⟨b, init⟩
      · simpa using hc
      · simpa [List.intercalate_cons_cons] using hc
    exact K.graphic _ (by decide) (by decide)
  · obtain ⟨rest, heq⟩ := intercalate_cons [','] (d :: a) (init.map (' ' :: ·))
    rw [heq] at hc
    cases hc
    exact hitem.head _ rfl

theorem stripRest_items (hitems : ∀ b ∈ init, Item K b) (tail : List Char) :
    stripRest K (init.map (' ' :: ·) ++ [tail]) =
      init.map (·.rdropWhile K.isSpace) ++ [tail.dropWhile K.isSpace] := by
  induction init with
  | nil => rfl
  | cons b init ih =>
    obtain ⟨hitem, hrest⟩ := List.forall_mem_cons.mp hitems
    have hhead : (' ' :: b).dropWhile K.isSpace = b := by
      rw [List.dropWhile_cons_of_pos K.space, dropWhile_of_head hitem.head]
    rw [List.map_cons, List.cons_append, stripRest, hhead, ih hrest, List.map_cons,
      List.cons_append]
    simp

/-- **A list is split again**, with its last element trimmed and the others without the spaces in
front of a comma. Empty elements at the end are lost. -/
theorem split_items (hitems : ∀ b ∈ init ++ [last], Item K b) (hne : init ≠ []) :
    split K (settle K (join (init ++ [last]))) =
      (init.map (·.rdropWhile K.isSpace) ++ [last.rdropWhile isBlank]).rdropWhile (· = []) := by
  obtain ⟨a, init, rfl⟩ := List.exists_cons_of_ne_nil hne
  have hinit : ∀ b ∈ a :: init, Item K b := fun b hb => hitems b (List.mem_append_left _ hb)
  have hlast : Item K last := hitems last (by simp)
  have htail : ',' ∉ (' ' :: last).rdropWhile isBlank := by
    intro hmem
    rcases List.mem_cons.mp ((List.rdropWhile_prefix _ _).subset hmem) with heq | hmem
    · exact absurd heq (by decide)
    · exact hlast.comma hmem
  have hparts : ∀ part ∈ a :: init.map (' ' :: ·) ++ [(' ' :: last).rdropWhile isBlank],
      ',' ∉ part := by
    intro part hpart
    rw [List.cons_append, List.mem_cons, List.mem_append, List.mem_map, List.mem_singleton] at hpart
    obtain rfl | ⟨b, hb, rfl⟩ | rfl := hpart
    · exact (hinit _ List.mem_cons_self).comma
    · rw [List.mem_cons, not_or]
      exact ⟨by decide, (hinit _ (List.mem_cons_of_mem _ hb)).comma⟩
    · exact htail
  have hdrop : ((' ' :: last).rdropWhile isBlank).dropWhile K.isSpace = last.rdropWhile isBlank :=
    (settle_space last).trans hlast.settle_eq
  rw [settle_join (hinit a List.mem_cons_self), split, if_neg, List.splitOn_intercalate _ hparts
    (by simp)]
  · rw [List.cons_append, stripParts,
      stripRest_items fun b hb => hinit b (List.mem_cons_of_mem _ hb), hdrop]
    · rfl
    · simp
  · rw [intercalate_concat _ (List.cons_ne_nil _ _), not_not]
    simp

/-- A list of one element. -/
theorem split_item (h : Item K last) :
    split K (settle K (join [last])) = [last.rdropWhile isBlank] := by
  rw [join, List.intercalate_singleton, h.settle_eq, split, if_pos]
  exact fun hmem => h.comma ((List.rdropWhile_prefix _ _).subset hmem)

variable (K) in
/-- A list that is read back: items, of which the last is not empty and does not end in a blank, and
the others do not end in a space. -/
structure Listable (values : List (List Char)) : Prop where
  item : ∀ a ∈ values, Item K a
  inner : ∀ a ∈ values.dropLast, ∀ c ∈ a.getLast?, K.isSpace c = false
  closed : ∀ a ∈ values.getLast?, a ≠ [] ∧ ∀ c ∈ a.getLast?, isBlank c = false

/-- **A list is read back.** -/
theorem Listable.split_eq {values : List (List Char)} (h : Listable K values) (hne : values ≠ []) :
    split K (settle K (join values)) = values ∧ settle K (join values) ≠ [] := by
  obtain ⟨init, last, rfl⟩ := (List.eq_nil_or_concat' values).resolve_left hne
  obtain ⟨hlast, hblank⟩ := h.closed last (by simp)
  have hsplit : split K (settle K (join (init ++ [last]))) = init ++ [last] := by
    rcases eq_or_ne init [] with rfl | hinit
    · rw [List.nil_append, split_item (h.item last (by simp)), rdropWhile_of_getLast hblank]
    · have hinner : init.map (·.rdropWhile K.isSpace) = init := by
        refine (List.map_congr_left fun a ha => ?_).trans (List.map_id _)
        exact rdropWhile_of_getLast (h.inner a (by simpa using ha))
      rw [split_items h.item hinit, hinner, rdropWhile_of_getLast hblank,
        List.rdropWhile_concat_neg]
      simpa using hlast
  refine ⟨hsplit, fun hnil => ?_⟩
  rw [hnil] at hsplit
  have hmem : last ∈ split K [] := hsplit ▸ by simp
  exact hlast (List.mem_singleton.mp hmem)

/-- Texts that are cut at their ends and have the same length together are not cut. -/
theorem eq_of_forall₂_prefix {xs ys : List (List Char)} (h : List.Forall₂ (· <+: ·) xs ys)
    (hsum : (ys.map List.length).sum ≤ (xs.map List.length).sum) : xs = ys := by
  induction h with
  | nil => rfl
  | @cons x y xs ys hxy hrest ih =>
    have hle : (xs.map List.length).sum ≤ (ys.map List.length).sum := by
      clear ih hsum
      induction hrest with
      | nil => exact le_rfl
      | cons hxy _ ih => exact Nat.add_le_add hxy.length_le ih
    simp only [List.map_cons, List.sum_cons] at hsum
    have hlength := hxy.length_le
    rw [hxy.eq_of_length (by omega), ih (by omega)]

/-- **Only such a list** is read back: a list of as many parts that has all elements has nothing
else. -/
theorem listable_of_split {values : List (List Char)} (hitem : ∀ a ∈ values, Item K a)
    (hnodup : values.Nodup)
    (h : ∀ a ∈ values, settle K (join values) ≠ [] ∧ a ∈ split K (settle K (join values))) :
    Listable K values := by
  obtain rfl | ⟨init, last, rfl⟩ := List.eq_nil_or_concat' values
  · exact ⟨hitem, fun a ha => absurd ha List.not_mem_nil, fun a ha => nomatch ha⟩
  let parts := init.map (·.rdropWhile K.isSpace) ++ [last.rdropWhile isBlank]
  have hcut : List.Forall₂ (· <+: ·) parts (init ++ [last]) := by
    refine List.rel_append ?_ (.cons (List.rdropWhile_prefix _ _) .nil)
    rw [List.forall₂_map_left_iff, List.forall₂_same]
    exact fun a _ => List.rdropWhile_prefix _ _
  have hsplit : split K (settle K (join (init ++ [last]))) <+: parts := by
    rcases eq_or_ne init [] with rfl | hinit
    · exact (split_item (hitem last (by simp))).symm ▸ List.prefix_rfl
    · rw [split_items hitem hinit]
      exact List.rdropWhile_prefix _ _
  have hsub : (init ++ [last]).Subperm (split K (settle K (join (init ++ [last])))) :=
    hnodup.subperm fun a ha => (h a ha).2
  -- there are as many elements as parts, so the split has all parts
  have hall : split K (settle K (join (init ++ [last]))) = parts :=
    hsplit.eq_of_length_le (hcut.length_eq.le.trans hsub.length_le)
  have hperm : (init ++ [last]).Perm parts :=
    (hall ▸ hsub).perm_of_length_le hcut.length_eq.le
  have heq : parts = init ++ [last] :=
    eq_of_forall₂_prefix hcut (hperm.map List.length).sum_nat.le
  obtain ⟨hinit, hlast⟩ := List.append_inj heq (by simp)
  replace hlast : last.rdropWhile isBlank = last := List.singleton_inj.mp hlast
  refine ⟨hitem, fun a ha => ?_, fun a ha => ?_⟩
  · rw [List.dropLast_concat, ← hinit, List.mem_map] at ha
    obtain ⟨b, -, rfl⟩ := ha
    exact getLast_rdropWhile b
  · rw [List.getLast?_concat, Option.mem_some_iff] at ha
    subst ha
    refine ⟨?_, hlast ▸ getLast_rdropWhile last⟩
    rintro rfl
    rcases eq_or_ne init [] with rfl | hne
    · exact (h [] (by simp)).1 rfl
    · rw [heq, split_items hitem hne, List.rdropWhile_concat_pos _ _ _ (by simp)] at hall
      have hlength := (List.rdropWhile_prefix (· = []) (init.map (·.rdropWhile K.isSpace))).length_le
      rw [hall] at hlength
      simp only [List.length_append, List.length_singleton, List.length_map] at hlength
      exact Nat.not_succ_le_self _ hlength

end

end JavaText
