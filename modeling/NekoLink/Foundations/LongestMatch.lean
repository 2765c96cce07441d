import Mathlib.Data.List.AList
import Mathlib.Data.List.MinMax

/-!
# Longest prefix match

A table maps prefixes of addresses to data, and is asked for the longest prefix that contains an
address. `Table` has the operations and `LawfulTable` says what they mean through `exactMatch`.

* `find_eq_some`: the longest match in terms of exact matches.
* `PrefixMap` is a table that is lawful: a list of entries with distinct keys.
-/

namespace Routing

/-- Prefixes of addresses: one address is in at most one prefix of a length. -/
class Prefix (N : Type*) (A : outParam Type*) where
  Contains : N → A → Prop
  length : N → ℕ
  eq_of_contains {m n : N} {a : A} (hm : Contains m a) (hn : Contains n a)
    (hlength : length m = length n) : m = n

/-- The longest prefix in the domain of a map that contains an address, and its data. -/
structure IsLongest {N A D : Type*} [Prefix N A] (lookup : N → Option D) (a : A) (n : N) (d : D) :
    Prop where
  contains : Prefix.Contains n a
  lookup_eq : lookup n = some d
  length_le : ∀ m e, lookup m = some e → Prefix.Contains m a → Prefix.length m ≤ Prefix.length n

/-- A table has one longest match at most. -/
theorem IsLongest.unique {N A D : Type*} [Prefix N A] {lookup : N → Option D} {a : A} {m n : N}
    {d e : D} (h : IsLongest lookup a m d) (h' : IsLongest lookup a n e) : m = n ∧ d = e := by
  have hlength := le_antisymm (h'.length_le _ _ h.lookup_eq h.contains)
    (h.length_le _ _ h'.lookup_eq h'.contains)
  obtain rfl := Prefix.eq_of_contains h.contains h'.contains hlength
  exact ⟨rfl, Option.some.inj (h.lookup_eq.symm.trans h'.lookup_eq)⟩

/-- The operations of a table from prefixes to data. -/
class Table (T : Type → Type) (N A : outParam Type) where
  new {D : Type} : T D
  /-- The new table, and the data an equal prefix had. -/
  insert {D : Type} (t : T D) (n : N) (d : D) : T D × Option D
  exactMatch {D : Type} (t : T D) (n : N) : Option D
  longestMatch {D : Type} (t : T D) (a : A) : Option (N × D)
  /-- Only the entries that the predicate selects. -/
  retain {D : Type} (t : T D) (keep : N → D → Bool) : T D
  iter {D : Type} (t : T D) : List (N × D)

open Table

/-- The operations do what their names say: `insert` replaces an equal prefix and
`longestMatch` finds the longest one. -/
class LawfulTable (T : Type → Type) (N A : outParam Type) [Prefix N A] [Table T N A] : Prop where
  exactMatch_new {D : Type} (n : N) : exactMatch (new : T D) n = none
  exactMatch_insert_self {D : Type} (t : T D) (n : N) (d : D) :
    exactMatch (insert t n d).1 n = some d
  exactMatch_insert_of_ne {D : Type} (t : T D) {m n : N} (d : D) (hne : m ≠ n) :
    exactMatch (insert t n d).1 m = exactMatch t m
  insert_snd {D : Type} (t : T D) (n : N) (d : D) : (insert t n d).2 = exactMatch t n
  exactMatch_retain {D : Type} (t : T D) (keep : N → D → Bool) (n : N) :
    exactMatch (retain t keep) n = (exactMatch t n).filter (keep n)
  longestMatch_eq_some {D : Type} (t : T D) (a : A) (n : N) (d : D) :
    longestMatch t a = some (n, d) ↔ IsLongest (exactMatch t) a n d
  mem_iter {D : Type} (t : T D) (n : N) (d : D) : (n, d) ∈ iter t ↔ exactMatch t n = some d

section Laws

variable {T : Type → Type} {N A D : Type} [Prefix N A] [Table T N A] [LawfulTable T N A] {t : T D}
  {a : A} {d : D}

/-- A prefix that contains the address is enough for a longest match. -/
theorem exists_longestMatch {n : N} (hn : exactMatch t n = some d) (ha : Prefix.Contains n a) :
    ∃ m e, longestMatch t a = some (m, e) := by
  classical
  let matching := (iter t).filter fun e => Prefix.Contains e.1 a
  have hmem : (n, d) ∈ matching :=
    List.mem_filter.mpr ⟨(LawfulTable.mem_iter t n d).mpr hn, decide_eq_true ha⟩
  obtain ⟨⟨m, e⟩, hmax⟩ : ∃ e, e ∈ matching.argmax fun e => Prefix.length e.1 :=
    Option.ne_none_iff_exists'.mp fun hnone =>
      List.ne_nil_of_mem hmem (List.argmax_eq_none.mp hnone)
  obtain ⟨hiter, hm⟩ := List.mem_filter.mp (List.argmax_mem hmax)
  refine ⟨m, e, (LawfulTable.longestMatch_eq_some t a m e).mpr
    ⟨of_decide_eq_true hm, (LawfulTable.mem_iter t m e).mp hiter, fun k f hk hka => ?_⟩⟩
  exact List.le_of_mem_argmax (a := (k, f))
    (List.mem_filter.mpr ⟨(LawfulTable.mem_iter t k f).mpr hk, decide_eq_true hka⟩) hmax

/-- **The data found for an address** is that of its longest prefix. -/
theorem find_eq_some :
    (longestMatch t a).map Prod.snd = some d ↔ ∃ n, IsLongest (exactMatch t) a n d := by
  constructor
  · intro h
    obtain ⟨⟨n, e⟩, hsome, rfl⟩ := Option.map_eq_some_iff.mp h
    exact ⟨n, (LawfulTable.longestMatch_eq_some t a n e).mp hsome⟩
  · rintro ⟨n, hn⟩
    rw [(LawfulTable.longestMatch_eq_some t a n d).mpr hn, Option.map_some]

theorem find_isSome :
    ((longestMatch t a).map Prod.snd).isSome ↔
      ∃ n, Prefix.Contains n a ∧ (exactMatch t n).isSome := by
  rw [Option.isSome_map, Option.isSome_iff_exists]
  constructor
  · rintro ⟨⟨n, d⟩, hsome⟩
    obtain ⟨ha, hn, -⟩ := (LawfulTable.longestMatch_eq_some t a n d).mp hsome
    exact ⟨n, ha, by rw [hn, Option.isSome_some]⟩
  · rintro ⟨n, ha, hn⟩
    obtain ⟨d, hd⟩ := Option.isSome_iff_exists.mp hn
    obtain ⟨m, e, hsome⟩ := exists_longestMatch hd ha
    exact ⟨(m, e), hsome⟩

end Laws

/-! ## A lawful table -/

/-- The entries of a table, with distinct prefixes. -/
def PrefixMap (N : Type) (D : Type) : Type := AList fun _ : N => D

namespace PrefixMap

variable {N A D : Type} [DecidableEq N] [Prefix N A] [∀ n a, Decidable (Prefix.Contains (N := N) n a)]

/-- The entries that a predicate selects. -/
def retained (t : AList fun _ : N => D) (keep : N → D → Bool) : AList fun _ : N => D :=
  ⟨t.entries.filter fun e => keep e.1 e.2, t.nodupKeys.sublist List.filter_sublist⟩

/-- The entries whose prefix contains an address. -/
def matching (t : AList fun _ : N => D) (a : A) : List (Σ _ : N, D) :=
  t.entries.filter fun e => Prefix.Contains e.1 a

instance : Table (PrefixMap N) N A where
  new {D} := (∅ : AList fun _ : N => D)
  insert t n d := (AList.insert n d t, AList.lookup n t)
  exactMatch t n := AList.lookup n t
  longestMatch t a := ((matching t a).argmax fun e => Prefix.length e.1).map fun e => (e.1, e.2)
  retain t keep := retained t keep
  iter t := t.entries.map fun e => (e.1, e.2)

theorem mem_entries {t : AList fun _ : N => D} {n : N} {d : D} :
    (⟨n, d⟩ : Σ _ : N, D) ∈ t.entries ↔ AList.lookup n t = some d := by
  rw [← AList.mem_lookup_iff, Option.mem_def]

theorem lookup_retained (t : AList fun _ : N => D) (keep : N → D → Bool) (n : N) :
    AList.lookup n (retained t keep) = (AList.lookup n t).filter (keep n) := by
  apply Option.ext
  intro d
  rw [← mem_entries, retained, List.mem_filter, mem_entries, Option.filter_eq_some_iff]

theorem mem_map_entries {t : AList fun _ : N => D} {n : N} {d : D} :
    (n, d) ∈ t.entries.map (fun e => (e.1, e.2)) ↔ AList.lookup n t = some d := by
  rw [← mem_entries, List.mem_map]
  constructor
  · rintro ⟨⟨m, e⟩, hmem, heq⟩
    cases heq
    exact hmem
  · intro hmem
    exact ⟨_, hmem, rfl⟩

theorem mem_matching {t : AList fun _ : N => D} {a : A} {n : N} {d : D} :
    (⟨n, d⟩ : Σ _ : N, D) ∈ matching t a ↔ AList.lookup n t = some d ∧ Prefix.Contains n a := by
  rw [matching, List.mem_filter, mem_entries, decide_eq_true_eq]

theorem longestMatch_iff (t : AList fun _ : N => D) (a : A) (n : N) (d : D) :
    longestMatch (T := PrefixMap N) t a = some (n, d) ↔
      IsLongest (fun m => AList.lookup m t) a n d := by
  constructor
  · intro h
    obtain ⟨⟨m, e⟩, hmax, heq⟩ := Option.map_eq_some_iff.mp h
    cases heq
    obtain ⟨hlookup, hm⟩ := mem_matching.mp (List.argmax_mem hmax)
    exact ⟨hm, hlookup, fun k f hk hka =>
      List.le_of_mem_argmax (a := (⟨k, f⟩ : Σ _ : N, D)) (mem_matching.mpr ⟨hk, hka⟩) hmax⟩
  · intro h
    have hmem := mem_matching.mpr ⟨h.lookup_eq, h.contains⟩
    obtain ⟨⟨m, e⟩, hmax⟩ : ∃ e, e ∈ (matching t a).argmax fun e => Prefix.length e.1 :=
      Option.ne_none_iff_exists'.mp fun hnone =>
        List.ne_nil_of_mem hmem (List.argmax_eq_none.mp hnone)
    obtain ⟨hlookup, hm⟩ := mem_matching.mp (List.argmax_mem hmax)
    have hlongest : IsLongest (fun m => AList.lookup m t) a m e := ⟨hm, hlookup, fun k f hk hka =>
      List.le_of_mem_argmax (a := (⟨k, f⟩ : Σ _ : N, D)) (mem_matching.mpr ⟨hk, hka⟩) hmax⟩
    obtain ⟨rfl, rfl⟩ := hlongest.unique h
    exact Option.map_eq_some_iff.mpr ⟨_, hmax, rfl⟩

instance : LawfulTable (PrefixMap N) N A where
  exactMatch_new n := AList.lookup_empty n
  exactMatch_insert_self t _ _ := AList.lookup_insert t
  exactMatch_insert_of_ne _ _ _ _ hne := AList.lookup_insert_ne hne
  insert_snd _ _ _ := rfl
  exactMatch_retain t keep n := lookup_retained t keep n
  longestMatch_eq_some t a n d := longestMatch_iff t a n d
  mem_iter _ _ _ := mem_map_entries

end PrefixMap

end Routing
