import Mathlib.Data.List.Basic
import Mathlib.Logic.Function.Basic

/-!
# Slots

A vector of slots, which may be empty, under the numbers that somebody else hands out. `put` makes
the vector long enough; `take` empties a slot, and has no answer out of range.

* `get_put`, `get_take`: the slots after each.
-/

namespace Slots

variable {α : Type*} {s s' : List (Option α)} {i : ℕ} {a : α} {o : Option α}

/-- What is in a slot. -/
def get (s : List (Option α)) (i : ℕ) : Option α := s[i]?.join

/-- Fill a slot. -/
def put (s : List (Option α)) (i : ℕ) (a : α) : List (Option α) :=
  (s ++ List.replicate (i + 1 - s.length) none).set i (some a)

/-- Empty a slot, with what was in it. -/
def take (s : List (Option α)) (i : ℕ) : Option (List (Option α) × Option α) :=
  s[i]?.map fun o => (s.set i none, o)

/-- New slots are empty. -/
theorem get_append_replicate (n : ℕ) : get (s ++ List.replicate n none) = get s := by
  funext i
  rw [get, get, List.getElem?_append]
  split_ifs with hlt
  · rfl
  · rw [List.getElem?_replicate, List.getElem?_eq_none (Nat.le_of_not_lt hlt)]
    split_ifs <;> rfl

/-- The slots after a write in range. -/
theorem get_set (h : i < s.length) : get (s.set i o) = Function.update (get s) i o := by
  funext j
  rw [get]
  by_cases hj : j = i
  · subst hj
    rw [List.getElem?_set_self h, Function.update_self, Option.join_some]
  · rw [List.getElem?_set_ne (Ne.symm hj), Function.update_of_ne hj, get]

theorem get_put : get (put s i a) = Function.update (get s) i (some a) := by
  have hlt : i < (s ++ List.replicate (i + 1 - s.length) none).length := by
    rw [List.length_append, List.length_replicate]
    omega
  rw [put, get_set hlt, get_append_replicate]

theorem get_take (h : take s i = some (s', o)) :
    get s' = Function.update (get s) i none ∧ o = get s i := by
  obtain ⟨o', ho, heq⟩ := Option.map_eq_some_iff.mp h
  obtain ⟨rfl, rfl⟩ := Prod.mk.inj heq
  exact ⟨get_set (List.getElem?_eq_some_iff.mp ho).1, by rw [get, ho, Option.join_some]⟩

end Slots
