import Mathlib.Algebra.GroupWithZero.Nat
import Mathlib.Data.List.Basic
import Mathlib.Data.List.DropRight

/-!
# Text made of lines

A reader takes lines from a stream and pops the last character of each, which is the newline unless
the stream ends before it.

* `Reader.commands_append`: a line that ends in a newline is read back.
* `Reader.commands_lines`: so is a list of them.
* `exists_of_prefix_unlines`: lines that are cut are some of them and the beginning of the next.
* `Reader.commands_unfinished`: what is read of an unfinished line.
* `splitOnce_append`, `rsplitOnce_append`: two parts are split at the first, or the last, separator.
* `lines_unlines`: lines that are written are the lines of the text.
* `stripPrefix_entry`: a line `key=value` is found under its own key and under no other.
* `trim_between`: blanks around a text without blanks are trimmed.
-/

namespace Text

/-- What a stream still delivers: text, and then its end, or a failure when it is `failing`. -/
structure Reader where
  text : List Char
  failing : Bool

/-- The commands from here on, when a part of the first line has been read. At its end the stream
gives an empty line. -/
def commandsFrom (failing : Bool) (line : List Char) : List Char → List (List Char)
  | [] => if failing then [] else if line = [] then [[]] else [line.dropLast, []]
  | c :: rest =>
    if c = '\n' then line :: commandsFrom failing [] rest
    else commandsFrom failing (line ++ [c]) rest

/-- The lines read one after the other, up to a failure, each without its last character. -/
def Reader.commands (r : Reader) : List (List Char) := commandsFrom r.failing [] r.text

/-- Lines with their newlines. -/
def unlines (lines : List (List Char)) : List Char := lines.flatMap fun line => line ++ ['\n']

section

variable {failing : Bool} {line : List Char}

theorem commandsFrom_append (start : List Char) (rest : List Char) (h : '\n' ∉ line) :
    commandsFrom failing start (line ++ '\n' :: rest) =
      (start ++ line) :: commandsFrom failing [] rest := by
  induction line generalizing start with
  | nil =>
    rw [List.nil_append, commandsFrom, if_pos rfl, List.append_nil]
  | cons c line ih =>
    have hc : c ≠ '\n' := fun heq => h (heq ▸ List.mem_cons_self)
    have hline : '\n' ∉ line := fun hmem => h (List.mem_cons_of_mem _ hmem)
    rw [List.cons_append, commandsFrom, if_neg hc, ih _ hline, List.append_assoc]
    rfl

/-- A line is read back. -/
theorem Reader.commands_append (rest : List Char) (h : '\n' ∉ line) :
    Reader.commands ⟨line ++ '\n' :: rest, failing⟩ = line :: Reader.commands ⟨rest, failing⟩ :=
  commandsFrom_append [] rest h

/-- **Lines are read back.** -/
theorem Reader.commands_lines {lines : List (List Char)} (rest : List Char)
    (h : ∀ line ∈ lines, '\n' ∉ line) :
    Reader.commands ⟨unlines lines ++ rest, failing⟩ =
      lines ++ Reader.commands ⟨rest, failing⟩ := by
  induction lines with
  | nil => rfl
  | cons line lines ih =>
    have hsplit : unlines (line :: lines) ++ rest = line ++ '\n' :: (unlines lines ++ rest) := by
      simp [unlines]
    rw [hsplit, Reader.commands_append _ (h line List.mem_cons_self),
      ih fun line hline => h line (List.mem_cons_of_mem _ hline), List.cons_append]

end

/-! ## A text that is cut -/

/-- The length in bytes. -/
def byteLength (s : List Char) : ℕ := (s.map Char.utf8Size).sum

/-- The first bytes of a text, and then its end. Bytes that end within a character cannot be read
as text. -/
def cut : ℕ → List Char → Reader
  | _, [] => ⟨[], false⟩
  | n, c :: s =>
    if n = 0 then ⟨[], false⟩
    else if n < c.utf8Size then ⟨[], true⟩
    else
      let r := cut (n - c.utf8Size) s
      ⟨c :: r.text, r.failing⟩

/-- What comes after the last newline. -/
def unfinished (s : List Char) : List Char := s.rtakeWhile (· ≠ '\n')

theorem cut_prefix (n : ℕ) (s : List Char) : (cut n s).text <+: s := by
  induction s generalizing n with
  | nil => exact List.prefix_rfl
  | cons c s ih =>
    rw [cut]
    split_ifs
    · exact List.nil_prefix
    · exact List.nil_prefix
    · exact (List.prefix_cons_inj c).mpr (ih _)

theorem cut_ne {n : ℕ} {s : List Char} (h : n < byteLength s) : (cut n s).text ≠ s := by
  induction s generalizing n with
  | nil => exact absurd h (Nat.not_lt_zero n)
  | cons c s ih =>
    rw [cut]
    split_ifs with hzero hlt
    · exact (List.cons_ne_nil c s).symm
    · exact (List.cons_ne_nil c s).symm
    · rw [byteLength, List.map_cons, List.sum_cons] at h
      intro heq
      have hrest : n - c.utf8Size < byteLength s := by
        rw [byteLength]
        omega
      exact ih hrest (List.tail_eq_of_cons_eq heq)

/-- What is cut from lines is some of them and the beginning of the next. -/
theorem exists_of_prefix_unlines {ls : List (List Char)} {text : List Char}
    (h : text <+: unlines ls) (hne : text ≠ unlines ls) :
    ∃ k, ∃ hk : k < ls.length, ∃ rest, text = unlines (ls.take k) ++ rest ∧ rest <+: ls[k] := by
  induction ls generalizing text with
  | nil => exact absurd (List.prefix_nil.mp h) hne
  | cons l ls ih =>
    have hsplit : unlines (l :: ls) = (l ++ ['\n']) ++ unlines ls := List.flatMap_cons
    rw [hsplit] at h hne
    by_cases hfirst : text <+: l
    · exact ⟨0, Nat.succ_pos _, text, rfl, hfirst⟩
    · have hline : l ++ ['\n'] <+: text := by
        obtain hle | hge := List.prefix_or_prefix_of_prefix h (List.prefix_append _ _)
        · obtain rfl | hle := List.prefix_concat_iff.mp hle
          · exact List.prefix_rfl
          · exact absurd hle hfirst
        · exact hge
      obtain ⟨text', rfl⟩ := hline
      obtain ⟨k, hk, rest, rfl, hrest⟩ := ih ((List.prefix_append_right_inj _).mp h)
        fun heq => hne (congrArg _ heq)
      refine ⟨k + 1, Nat.succ_lt_succ hk, rest, ?_, hrest⟩
      rw [List.take_succ_cons, ← List.append_assoc]
      rfl

section

variable {failing : Bool} {rest : List Char}

theorem commandsFrom_unfinished (start : List Char) (h : '\n' ∉ rest) :
    commandsFrom failing start rest = if failing then [] else
      if start ++ rest = [] then [[]] else [(start ++ rest).dropLast, []] := by
  induction rest generalizing start with
  | nil => rw [commandsFrom, List.append_nil]
  | cons c rest ih =>
    have hc : c ≠ '\n' := fun heq => h (heq ▸ List.mem_cons_self)
    have hrest : '\n' ∉ rest := fun hmem => h (List.mem_cons_of_mem _ hmem)
    rw [commandsFrom, if_neg hc, ih _ hrest, List.append_assoc, List.singleton_append]

/-- The last line is read without its last character, and then the end as an empty line. -/
theorem Reader.commands_unfinished (h : '\n' ∉ rest) :
    Reader.commands ⟨rest, failing⟩ = if failing then [] else
      if rest = [] then [[]] else [rest.dropLast, []] :=
  commandsFrom_unfinished [] h

theorem unfinished_append (s : List Char) (h : '\n' ∉ rest) :
    unfinished (s ++ '\n' :: rest) = rest := by
  rw [unfinished, List.rtakeWhile, List.reverse_append, List.reverse_cons, List.append_assoc,
    List.takeWhile_append_of_pos]
  · simp
  · intro c hc
    exact decide_eq_true fun heq => h (heq ▸ List.mem_reverse.mp hc)

theorem unfinished_of_not_mem (h : '\n' ∉ rest) : unfinished rest = rest := by
  rw [unfinished, List.rtakeWhile_eq_self_iff]
  intro c hc
  exact decide_eq_true fun heq => h (heq ▸ hc)

theorem unfinished_unlines (ls : List (List Char)) (h : '\n' ∉ rest) :
    unfinished (unlines ls ++ rest) = rest := by
  rcases List.eq_nil_or_concat ls with rfl | ⟨ls, l, rfl⟩
  · exact unfinished_of_not_mem h
  · have hsplit : unlines (ls.concat l) ++ rest = (unlines ls ++ l) ++ '\n' :: rest := by
      simp [unlines]
    rw [hsplit, unfinished_append _ h]

/-- The newlines count the complete lines. -/
theorem count_unlines {ls : List (List Char)} (hls : ∀ l ∈ ls, '\n' ∉ l) (h : '\n' ∉ rest) :
    (unlines ls ++ rest).count '\n' = ls.length := by
  induction ls with
  | nil => exact List.count_eq_zero.mpr h
  | cons l ls ih =>
    have hsplit : unlines (l :: ls) ++ rest = l ++ '\n' :: (unlines ls ++ rest) := by
      simp [unlines]
    rw [hsplit, List.count_append, List.count_cons_self, List.length_cons,
      ih fun k hk => hls k (List.mem_cons_of_mem _ hk),
      List.count_eq_zero.mpr (hls l List.mem_cons_self), Nat.zero_add]

end

/-- `splitn(2, sep)`, when there are two parts. -/
def splitOnce (sep : Char) : List Char → Option (List Char × List Char)
  | [] => none
  | c :: rest =>
    if c = sep then some ([], rest)
    else (splitOnce sep rest).map fun (key, val) => (c :: key, val)

theorem splitOnce_append {sep : Char} {key : List Char} (h : sep ∉ key) (val : List Char) :
    splitOnce sep (key ++ sep :: val) = some (key, val) := by
  induction key with
  | nil => rw [List.nil_append, splitOnce, if_pos rfl]
  | cons c key ih =>
    have hc : c ≠ sep := fun heq => h (heq ▸ List.mem_cons_self)
    rw [List.cons_append, splitOnce, if_neg hc, ih fun hmem => h (List.mem_cons_of_mem _ hmem),
      Option.map_some]

/-- `rsplitn(2, sep)`, when there are two parts: what is before the last separator, and behind
it. -/
def rsplitOnce (sep : Char) (s : List Char) : Option (List Char × List Char) :=
  (splitOnce sep s.reverse).map fun (tail, host) => (host.reverse, tail.reverse)

theorem rsplitOnce_append {sep : Char} {tail : List Char} (h : sep ∉ tail) (host : List Char) :
    rsplitOnce sep (host ++ sep :: tail) = some (host, tail) := by
  have hrev : (host ++ sep :: tail).reverse = tail.reverse ++ sep :: host.reverse := by simp
  rw [rsplitOnce, hrev, splitOnce_append (fun hmem => h (List.mem_reverse.mp hmem)),
    Option.map_some]
  dsimp only
  rw [List.reverse_reverse, List.reverse_reverse]

/-- What is in a text with separators: they, and the parts. -/
theorem of_mem_intercalate {sep : Char} {parts : List (List Char)} {c : Char}
    (h : c ∈ [sep].intercalate parts) : c = sep ∨ ∃ part ∈ parts, c ∈ part := by
  induction parts with
  | nil => cases h
  | cons part parts ih =>
    rcases parts with _ | ⟨next, parts⟩
    · rw [List.intercalate_singleton] at h
      exact .inr ⟨part, List.mem_cons_self, h⟩
    · rw [List.intercalate_cons_cons] at h
      rcases List.mem_append.mp h with h | h
      · rcases List.mem_append.mp h with h | h
        · exact .inr ⟨part, List.mem_cons_self, h⟩
        · exact .inl (List.mem_singleton.mp h)
      · obtain heq | ⟨other, hother, hc⟩ := ih h
        · exact .inl heq
        · exact .inr ⟨other, List.mem_cons_of_mem _ hother, hc⟩

/-! ## The lines of a text -/

/-- A carriage return before the newline goes with it. -/
def dropReturn (line : List Char) : List Char :=
  if line.getLast? = some '\r' then line.dropLast else line

/-- The lines from here on, when a part of the first one has been read. -/
def linesFrom (line : List Char) : List Char → List (List Char)
  | [] => if line = [] then [] else [line]
  | c :: rest =>
    if c = '\n' then dropReturn line :: linesFrom [] rest else linesFrom (line ++ [c]) rest

/-- `str::lines` -/
def lines (s : List Char) : List (List Char) := linesFrom [] s

theorem linesFrom_append {line : List Char} (start rest : List Char) (h : '\n' ∉ line) :
    linesFrom start (line ++ '\n' :: rest) = dropReturn (start ++ line) :: lines rest := by
  induction line generalizing start with
  | nil => rw [List.nil_append, linesFrom, if_pos rfl, List.append_nil, lines]
  | cons c line ih =>
    have hc : c ≠ '\n' := fun heq => h (heq ▸ List.mem_cons_self)
    have hline : '\n' ∉ line := fun hmem => h (List.mem_cons_of_mem _ hmem)
    rw [List.cons_append, linesFrom, if_neg hc, ih _ hline, List.append_assoc,
      List.singleton_append]

theorem dropReturn_of_not_mem {line : List Char} (h : '\r' ∉ line) : dropReturn line = line := by
  unfold dropReturn
  rw [if_neg fun hlast => h (List.mem_of_getLast? hlast)]

/-- **Lines that are written are the lines of the text.** -/
theorem lines_unlines {ls : List (List Char)} (h : ∀ l ∈ ls, '\n' ∉ l ∧ '\r' ∉ l) :
    lines (unlines ls) = ls := by
  induction ls with
  | nil => rfl
  | cons l ls ih =>
    obtain ⟨hnewline, hreturn⟩ := h l List.mem_cons_self
    have hsplit : unlines (l :: ls) = l ++ '\n' :: unlines ls := by simp [unlines]
    rw [hsplit, lines, linesFrom_append _ _ hnewline, List.nil_append,
      dropReturn_of_not_mem hreturn, ih fun k hk => h k (List.mem_cons_of_mem _ hk)]

/-! ## Keys and values -/

/-- A line with a key and a value. -/
def entry (key value : List Char) : List Char := key ++ '=' :: value

/-- What comes after a prefix, when the text starts with it. -/
def stripPrefix (pre s : List Char) : Option (List Char) :=
  if pre.isPrefixOf s then some (s.drop pre.length) else none

theorem stripPrefix_entry {key key' : List Char} (h : '=' ∉ key) (h' : '=' ∉ key')
    (value : List Char) :
    stripPrefix (key ++ ['=']) (entry key' value) = if key = key' then some value else none := by
  unfold stripPrefix entry
  induction key generalizing key' with
  | nil =>
    cases key' with
    | nil => simp
    | cons c key' =>
      have hc : '=' ≠ c := fun heq => h' (heq ▸ List.mem_cons_self)
      simp [hc]
  | cons c key ih =>
    have hc : c ≠ '=' := fun heq => h (heq ▸ List.mem_cons_self)
    cases key' with
    | nil => simp [hc]
    | cons c' key' =>
      have htail := ih (fun hmem => h (List.mem_cons_of_mem _ hmem))
        (fun hmem => h' (List.mem_cons_of_mem _ hmem))
      by_cases heq : c = c'
      · subst heq
        simpa using htail
      · simp [heq]

/-! ## Blanks -/

/-- `char::is_whitespace` -/
def isWhitespace (c : Char) : Bool :=
  (9 ≤ c.toNat && c.toNat ≤ 13) || (0x2000 ≤ c.toNat && c.toNat ≤ 0x200a) ||
    c.toNat ∈ [0x20, 0x85, 0xa0, 0x1680, 0x2028, 0x2029, 0x202f, 0x205f, 0x3000]

/-- `str::trim` -/
def trim (s : List Char) : List Char := (s.dropWhile isWhitespace).rdropWhile isWhitespace

/-- A text without blanks. -/
def Solid (s : List Char) : Prop := ∀ c ∈ s, isWhitespace c = false

instance (s : List Char) : Decidable (Solid s) :=
  List.decidableBAll (fun c => isWhitespace c = false) s

theorem Solid.append {s s' : List Char} (h : Solid s) (h' : Solid s') : Solid (s ++ s') := by
  intro c hc
  rcases List.mem_append.mp hc with hc | hc
  · exact h c hc
  · exact h' c hc

theorem Solid.entry {key value : List Char} (h : Solid key) (h' : Solid value) :
    Solid (entry key value) := by
  refine h.append fun c hc => ?_
  rcases List.mem_cons.mp hc with rfl | hc
  · decide
  · exact h' c hc

theorem Solid.not_mem {s : List Char} (h : Solid s) {c : Char} (hc : isWhitespace c = true) :
    c ∉ s := by
  intro hmem
  rw [h c hmem] at hc
  cases hc

/-- Blanks around a text without blanks are trimmed. -/
theorem trim_between {before s after : List Char} (hbefore : before.all isWhitespace = true)
    (hafter : after.all isWhitespace = true) (h : Solid s) : trim (before ++ s ++ after) = s := by
  rw [List.all_eq_true] at hbefore hafter
  unfold trim
  rw [List.append_assoc, List.dropWhile_append_of_pos hbefore]
  cases s with
  | nil =>
    rw [List.nil_append, List.dropWhile_eq_nil_iff.mpr hafter]
    rfl
  | cons c s =>
    have hstart : ((c :: s) ++ after).dropWhile isWhitespace = (c :: s) ++ after := by
      rw [List.cons_append, List.dropWhile_cons_of_neg]
      rw [h c List.mem_cons_self]
      exact Bool.false_ne_true
    have hend : (c :: s).rdropWhile isWhitespace = c :: s := by
      rw [List.rdropWhile_eq_self_iff]
      intro hne hlast
      rw [h _ (List.getLast_mem hne)] at hlast
      cases hlast
    rw [hstart, List.rdropWhile, List.reverse_append,
      List.dropWhile_append_of_pos fun d hd => hafter d (List.mem_reverse.mp hd)]
    exact hend

/-- Blanks before a text without blanks are trimmed. -/
theorem trim_indent {blanks s : List Char} (hblanks : blanks.all isWhitespace = true)
    (h : Solid s) : trim (blanks ++ s) = s := by
  rw [← List.append_nil (blanks ++ s)]
  exact trim_between hblanks List.all_nil h

theorem trim_of_solid {s : List Char} (h : Solid s) : trim s = s :=
  trim_indent List.all_nil h

end Text
