import Mathlib.Data.List.Basic

/-!
# Buffers that are sent when they are full

Elements are put in a buffer of a certain capacity, and the whole buffer is sent in one call when it
is full and when it is asked for. `delivered` is what was sent and is still to be sent.

* `delivered_push`, `delivered_flush`: nothing is lost, doubled or moved.
* `Below.push`: there is always room for one more.
-/

namespace Batching

variable {α : Type*} {capacity : ℕ}

structure Buffer (α : Type*) where
  pending : List α
  calls : List (List α)

namespace Buffer

variable (b : Buffer α)

/-- Send what is there, if anything is. -/
def flush : Buffer α :=
  if b.pending = [] then b else { pending := [], calls := b.calls ++ [b.pending] }

/-- Put an element in the buffer, and send the buffer if it is full. -/
def push (capacity : ℕ) (a : α) : Buffer α :=
  let b' : Buffer α := { b with pending := b.pending ++ [a] }
  if b'.pending.length = capacity then b'.flush else b'

def delivered : List α := b.calls.flatten ++ b.pending

/-- There is room for one more. -/
def Below (capacity : ℕ) : Prop := b.pending.length < capacity

variable {b} {a : α}

@[simp] theorem delivered_flush : b.flush.delivered = b.delivered := by
  rw [flush]
  split_ifs with h
  · rfl
  · simp [delivered]

@[simp] theorem pending_flush : b.flush.pending = [] := by
  rw [flush]
  split_ifs with h
  · exact h
  · rfl

@[simp] theorem delivered_push : (b.push capacity a).delivered = b.delivered ++ [a] := by
  rw [push]
  dsimp only
  split_ifs
  · rw [delivered_flush]
    simp [delivered]
  · simp [delivered]

theorem Below.push (h : b.Below capacity) : (b.push capacity a).Below capacity := by
  rw [Below] at h
  rw [Below, Buffer.push]
  dsimp only
  split_ifs with hfull
  · rw [pending_flush, List.length_nil]
    omega
  · rw [List.length_append, List.length_singleton] at hfull ⊢
    omega

theorem Below.flush (h : b.Below capacity) : b.flush.Below capacity := by
  rw [Below] at h
  rw [Below, pending_flush, List.length_nil]
  omega

end Buffer

end Batching
