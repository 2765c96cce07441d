import Mathlib.Data.Finset.Lattice.Fold
import Mathlib.Data.Finset.Insert
import Mathlib.Data.Nat.ModEq
import Mathlib.Order.Lattice.Nat
import Mathlib.Tactic.Linarith

/-!
# Sliding replay windows

A receiver that accepts each counter at most once and forgets what lies more than `width` behind.
The specification keeps the whole set of accepted counters: `accepts width seen c` says that `c`
is new and not too old, and `receive` adds it. A cyclic bit array of `width` bits is enough to
decide it; `Tracks` relates the two, and `Tracks.insert_lt` and `Tracks.insert_ge` are the two
updates, behind the highest counter and past it.
-/

namespace Replay

/-- One more than the highest counter of `seen`, `0` when there is none. -/
def next (seen : Finset ℕ) : ℕ := seen.sup (· + 1)

variable {width c d : ℕ} {seen seen' : Finset ℕ}

@[simp] theorem next_empty : next ∅ = 0 := rfl

theorem lt_next (h : c ∈ seen) : c < next seen :=
  Nat.lt_of_succ_le (Finset.le_sup (f := (· + 1)) h)

theorem next_insert (c : ℕ) (seen : Finset ℕ) : next (insert c seen) = max (c + 1) (next seen) :=
  Finset.sup_insert

theorem next_mono (h : seen ⊆ seen') : next seen ≤ next seen' := Finset.sup_mono h

theorem next_le (h : ∀ c ∈ seen, c < d) : next seen ≤ d := Finset.sup_le h

/-- The counter is new and at most `width` behind the next one. -/
def accepts (width : ℕ) (seen : Finset ℕ) (c : ℕ) : Prop := c ∉ seen ∧ next seen ≤ c + width

instance (width : ℕ) (seen : Finset ℕ) (c : ℕ) : Decidable (accepts width seen c) :=
  inferInstanceAs (Decidable (_ ∧ _))

/-- The counters seen after `c` is offered. -/
def receive (width : ℕ) (seen : Finset ℕ) (c : ℕ) : Finset ℕ :=
  if accepts width seen c then insert c seen else seen

theorem receive_of_accepts (h : accepts width seen c) : receive width seen c = insert c seen :=
  if_pos h

theorem receive_of_not_accepts (h : ¬ accepts width seen c) : receive width seen c = seen :=
  if_neg h

/-- The bit array, indexed modulo `width`, is right about every counter that is not too old. -/
def Tracks (width : ℕ) (bit : ℕ → Bool) (seen : Finset ℕ) : Prop :=
  ∀ c, c < next seen → next seen ≤ c + width → (bit (c % width) = true ↔ c ∈ seen)

variable {bit bit' : ℕ → Bool}

theorem tracks_empty : Tracks width bit ∅ := fun _ h => absurd h (Nat.not_lt_zero _)

/-- Two counters of one window share a bit only when they are equal. -/
theorem eq_of_mod_eq (h : c % width = d % width) (hc : c < d + width) (hd : d < c + width) :
    c = d := by
  have key : ∀ a b : ℕ, a ≤ b → b < a + width → a % width = b % width → a = b := by
    intro a b hab hlt heq
    have hdvd : width ∣ b - a := (Nat.modEq_iff_dvd' hab).mp heq
    have := Nat.eq_zero_of_dvd_of_lt hdvd (by omega)
    omega
  rcases le_total c d with hcd | hcd
  · exact key c d hcd hd h
  · exact (key d c hcd hc h.symm).symm

/-- Adding a counter behind the highest one sets one bit. -/
theorem Tracks.insert_lt (h : Tracks width bit seen) (hc : c < next seen)
    (hold : next seen ≤ c + width) (hset : bit' (c % width) = true)
    (hkeep : ∀ i < width, i ≠ c % width → bit' i = bit i) : Tracks width bit' (insert c seen) := by
  have hnext : next (insert c seen) = next seen := by
    rw [next_insert]
    exact max_eq_right hc
  intro d hd hdold
  rw [hnext] at hd hdold
  have hpos : 0 < width := by omega
  by_cases hdc : d = c
  · subst hdc
    simp [hset]
  · have hbit : bit' (d % width) = bit (d % width) :=
      hkeep _ (Nat.mod_lt _ hpos) fun he => hdc (eq_of_mod_eq he (by omega) (by omega))
    rw [hbit, h d hd hdold, Finset.mem_insert]
    simp [hdc]

/-- Adding a counter at or past the next one sets its bit and clears those skipped. -/
theorem Tracks.insert_ge (h : Tracks width bit seen) (hc : next seen ≤ c)
    (hset : bit' (c % width) = true)
    (hclear : ∀ k, next seen ≤ k → k < c → c < k + width → bit' (k % width) = false)
    (hkeep : ∀ i < width, (∀ k, next seen ≤ k → k ≤ c → k % width ≠ i) → bit' i = bit i) :
    Tracks width bit' (insert c seen) := by
  have hnext : next (insert c seen) = c + 1 := by
    rw [next_insert]
    exact max_eq_left (by omega)
  intro d hd hdold
  rw [hnext] at hd hdold
  have hpos : 0 < width := by omega
  by_cases hdc : d = c
  · subst hdc
    simp [hset]
  · by_cases hdn : next seen ≤ d
    · -- a skipped counter: its bit is cleared, and it was never seen
      have hnot : d ∉ insert c seen := by
        rw [Finset.mem_insert]
        rintro (rfl | hs)
        · exact hdc rfl
        · exact absurd (lt_next hs) (by omega)
      simp [hclear d hdn (by omega) (by omega), hnot]
    · -- a counter of the old window that is still in the new one: its bit is not touched
      have hbit : bit' (d % width) = bit (d % width) := by
        refine hkeep _ (Nat.mod_lt _ hpos) fun k hk hkc he => ?_
        have := eq_of_mod_eq he (by omega) (by omega)
        omega
      rw [hbit, h d (by omega) (by omega), Finset.mem_insert]
      simp [hdc]

end Replay
