import Mathlib.Data.List.Basic
import Mathlib.Tactic.Common

/-!
# Lists cut into pieces of one size

`toChunks` cuts a list into pieces of a size, of which the last may be smaller. `Coalesced` says
that pieces are of this kind, so that cutting what they were put together to gives them back.

* `toChunks_flatten`: pieces of one size are recovered.
* `flatMap_eq_flatMap_iff`: two ways to list pieces agree when they agree piece by piece, if one of
  them never has more.
-/

namespace Chunks

variable {α β : Type*} {n : ℕ}

/-- Pieces of size `n`, but for the last, which may be smaller and is not empty. -/
inductive Coalesced (n : ℕ) : List (List α) → Prop
  | last {xs : List α} (hne : xs ≠ []) (hle : xs.length ≤ n) : Coalesced n [xs]
  | cons {xs : List α} {xss : List (List α)} (hlen : xs.length = n) (hxss : Coalesced n xss) :
    Coalesced n (xs :: xss)

/-! ## The loop of `toChunks` -/

/-- Pieces that are ready do not matter to the loop. -/
theorem go_acc (xs : List α) (acc : Array α) (ready : Array (List α)) :
    List.toChunks.go n xs acc ready = ready.toList ++ List.toChunks.go n xs acc #[] := by
  induction xs generalizing acc ready with
  | nil => simp [List.toChunks.go]
  | cons x xs ih =>
    rw [List.toChunks.go, List.toChunks.go]
    split
    · rw [ih, ih _ (Array.push #[] acc.toList)]
      simp
    · rw [ih]

/-- What fits in the piece that is being filled is put there. -/
theorem go_append (xs ys : List α) (acc : Array α) (ready : Array (List α))
    (h : acc.size + xs.length ≤ n) :
    List.toChunks.go n (xs ++ ys) acc ready = List.toChunks.go n ys (acc ++ xs) ready := by
  induction xs generalizing acc with
  | nil => simp
  | cons x xs ih =>
    rw [List.length_cons] at h
    rw [List.cons_append, List.toChunks.go, if_neg (by simp; omega), ih _ (by simp; omega)]
    simp

theorem toChunks_of_length_le {xs : List α} (hne : xs ≠ []) (hle : xs.length ≤ n) :
    xs.toChunks n = [xs] := by
  obtain ⟨x, xs, rfl⟩ := List.exists_cons_of_ne_nil hne
  rw [List.length_cons] at hle
  obtain ⟨n, rfl⟩ : ∃ m, n = m + 1 := ⟨n - 1, by omega⟩
  have h := go_append xs [] #[x] #[] (n := n + 1) (by simp; omega)
  rw [List.append_nil] at h
  rw [List.toChunks, h, List.toChunks.go]
  · simp
  · omega

/-- A whole piece, and the pieces of what follows it. -/
theorem toChunks_append {xs ys : List α} (hxs : xs ≠ []) (hlen : xs.length = n) (hys : ys ≠ []) :
    (xs ++ ys).toChunks n = xs :: ys.toChunks n := by
  obtain ⟨x, xs, rfl⟩ := List.exists_cons_of_ne_nil hxs
  obtain ⟨y, ys, rfl⟩ := List.exists_cons_of_ne_nil hys
  rw [List.length_cons] at hlen
  obtain ⟨n, rfl⟩ : ∃ m, n = m + 1 := ⟨n - 1, by omega⟩
  rw [List.cons_append, List.toChunks, go_append _ _ _ _ (by simp; omega), List.toChunks.go,
    if_pos (by simp; omega), go_acc, List.toChunks]
  · simp
  · omega
  · omega

theorem Coalesced.pos {xss : List (List α)} (h : Coalesced n xss) : 0 < n := by
  induction h with
  | last hne hle => exact Nat.lt_of_lt_of_le (List.length_pos_of_ne_nil hne) hle
  | cons _ _ ih => exact ih

theorem Coalesced.flatten_ne_nil {xss : List (List α)} (h : Coalesced n xss) :
    xss.flatten ≠ [] := by
  induction h with
  | last hne hle => rwa [List.flatten_singleton]
  | cons hlen hxss ih => exact fun heq => ih (List.append_eq_nil_iff.mp heq).2

/-- **Pieces of one size are recovered** from what they were put together to. -/
theorem toChunks_flatten {xss : List (List α)} (h : Coalesced n xss) :
    xss.flatten.toChunks n = xss := by
  induction h with
  | last hne hle => rw [List.flatten_singleton, toChunks_of_length_le hne hle]
  | cons hlen hxss ih =>
    rw [List.flatten_cons, toChunks_append (List.ne_nil_of_length_pos (hlen ▸ hxss.pos)) hlen
      hxss.flatten_ne_nil, ih]

/-! ## Piece by piece -/

theorem length_flatMap_le {f g : β → List α} {l : List β}
    (h : ∀ x ∈ l, (f x).length ≤ (g x).length) : (l.flatMap f).length ≤ (l.flatMap g).length := by
  induction l with
  | nil => exact Nat.le_refl _
  | cons x l ih =>
    rw [List.flatMap_cons, List.flatMap_cons, List.length_append, List.length_append]
    exact Nat.add_le_add (h x List.mem_cons_self) (ih fun y hy => h y (List.mem_cons_of_mem _ hy))

/-- Two lists of which the first halves and the second halves cannot make up for each other. -/
theorem append_eq_append_iff_of_length_le {xs xs' ys ys' : List α} (hxs : xs.length ≤ xs'.length)
    (hys : ys.length ≤ ys'.length) : xs ++ ys = xs' ++ ys' ↔ xs = xs' ∧ ys = ys' := by
  constructor
  · intro h
    have hlen := congrArg List.length h
    rw [List.length_append, List.length_append] at hlen
    exact List.append_inj h (by omega)
  · rintro ⟨rfl, rfl⟩
    rfl

/-- **Two ways to list pieces**, of which one never has more. -/
theorem flatMap_eq_flatMap_iff {f g : β → List α} {l : List β}
    (h : ∀ x ∈ l, (f x).length ≤ (g x).length) :
    l.flatMap f = l.flatMap g ↔ ∀ x ∈ l, f x = g x := by
  induction l with
  | nil => simp
  | cons x l ih =>
    have hl : ∀ y ∈ l, (f y).length ≤ (g y).length := fun y hy => h y (List.mem_cons_of_mem _ hy)
    rw [List.flatMap_cons, List.flatMap_cons, append_eq_append_iff_of_length_le
      (h x List.mem_cons_self) (length_flatMap_le hl), ih hl, List.forall_mem_cons]

end Chunks
