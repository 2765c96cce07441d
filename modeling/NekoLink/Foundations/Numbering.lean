import Mathlib.Data.List.Nodup
import Mathlib.Data.List.Range

/-!
# Numbers given out under keys

A log of pairs of a key and a number. `numbers` are those of one key, and `Numbered m` says that
each key has a counter modulo `m` of its own, which starts at zero.

* `nodup_iff`: the pairs are distinct when the numbers of each key are.
* `Numbered.append`: the next number of a key is how many it has had, modulo `m`.
* `Numbered.nodup_iff`: the pairs are distinct exactly when no key has had more than `m` numbers.
-/

namespace Numbering

variable {κ : Type*} [DecidableEq κ] {m : ℕ} {l : List (κ × ℕ)} {e : κ × ℕ} {k : κ}

/-- The numbers of a key, in order. -/
def numbers (l : List (κ × ℕ)) (k : κ) : List ℕ :=
  l.filterMap fun e => if e.1 = k then some e.2 else none

@[simp] theorem numbers_nil : numbers ([] : List (κ × ℕ)) k = [] := rfl

theorem numbers_append (l l' : List (κ × ℕ)) (k : κ) :
    numbers (l ++ l') k = numbers l k ++ numbers l' k := List.filterMap_append

theorem numbers_singleton : numbers [e] k = if e.1 = k then [e.2] else [] := by
  rw [numbers]
  split_ifs with h
  · simp [h]
  · simp [h]

theorem numbers_cons : numbers (e :: l) k = if e.1 = k then e.2 :: numbers l k else numbers l k := by
  have happend := numbers_append [e] l k
  rw [List.singleton_append, numbers_singleton] at happend
  rw [happend]
  split_ifs <;> rfl

/-- All entries have one key. -/
theorem numbers_map (ns : List ℕ) : numbers (ns.map (k, ·)) k = ns := by
  rw [numbers, List.filterMap_map]
  refine (List.filterMap_congr fun n _ => ?_).trans List.filterMap_some
  exact if_pos rfl

theorem length_numbers_le : (numbers l k).length ≤ l.length := List.length_filterMap_le _ _

theorem mem_numbers {n : ℕ} : n ∈ numbers l k ↔ (k, n) ∈ l := by
  rw [numbers, List.mem_filterMap]
  constructor
  · rintro ⟨⟨k', n'⟩, hmem, hif⟩
    split_ifs at hif with hk
    cases hif
    cases hk
    exact hmem
  · intro hmem
    exact ⟨(k, n), hmem, if_pos rfl⟩

/-- A key of no entry has no numbers. -/
theorem numbers_eq_nil (h : ∀ e ∈ l, e.1 ≠ k) : numbers l k = [] := by
  rw [List.eq_nil_iff_forall_not_mem]
  intro n hn
  exact h _ (mem_numbers.mp hn) rfl

theorem nodup_iff : l.Nodup ↔ ∀ k, (numbers l k).Nodup := by
  induction l with
  | nil => simp
  | cons e l ih =>
    rw [List.nodup_cons, ih]
    constructor
    · rintro ⟨hnot, hall⟩ k
      rw [numbers_cons]
      split_ifs with hk
      · subst hk
        exact List.nodup_cons.mpr ⟨fun hmem => hnot (mem_numbers.mp hmem), hall _⟩
      · exact hall k
    · intro hall
      constructor
      · have hself := hall e.1
        rw [numbers_cons, if_pos rfl] at hself
        exact fun hmem => (List.nodup_cons.mp hself).1 (mem_numbers.mpr hmem)
      · intro k
        have hk := hall k
        rw [numbers_cons] at hk
        split_ifs at hk
        · exact (List.nodup_cons.mp hk).2
        · exact hk

/-- A counter modulo `m` repeats itself from the `m`-th value on. -/
theorem nodup_range_mod {n : ℕ} (hm : 0 < m) : ((List.range n).map (· % m)).Nodup ↔ n ≤ m := by
  constructor
  · intro hnodup
    by_contra hlt
    have hzero : 0 ∈ List.range n := List.mem_range.mpr (by omega)
    have hwrap : m ∈ List.range n := List.mem_range.mpr (by omega)
    have hsame := List.inj_on_of_nodup_map hnodup hzero hwrap
    rw [Nat.zero_mod, Nat.mod_self] at hsame
    exact hm.ne (hsame rfl)
  · intro hle
    refine List.nodup_range.map_on fun x hx y hy hxy => ?_
    rw [List.mem_range] at hx hy
    rwa [Nat.mod_eq_of_lt (by omega), Nat.mod_eq_of_lt (by omega)] at hxy

/-- The numbers of each key are those of a counter modulo `m`. -/
def Numbered (m : ℕ) (l : List (κ × ℕ)) : Prop :=
  ∀ k, numbers l k = (List.range (numbers l k).length).map (· % m)

namespace Numbered

theorem nil : Numbered m ([] : List (κ × ℕ)) := fun _ => rfl

/-- The counter of a key is where its next number comes from. -/
theorem append (h : Numbered m l) (k : κ) : Numbered m (l ++ [(k, (numbers l k).length % m)]) := by
  intro k'
  rw [numbers_append, numbers_singleton]
  by_cases hk : k = k'
  · subst hk
    rw [if_pos rfl, List.length_append, List.length_singleton, List.range_succ, List.map_append,
      ← h k]
    rfl
  · rw [if_neg hk, List.append_nil]
    exact h k'

theorem nodup_iff (h : Numbered m l) (hm : 0 < m) :
    l.Nodup ↔ ∀ k, (numbers l k).length ≤ m := by
  rw [Numbering.nodup_iff]
  refine forall_congr' fun k => ?_
  rw [h k, nodup_range_mod hm, List.length_map, List.length_range]

end Numbered

end Numbering
