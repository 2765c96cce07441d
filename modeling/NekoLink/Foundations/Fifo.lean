import Mathlib.Data.List.Rotate

/-!
# Queues of bounded length

What happens to a queue that takes at most `depth` entries, and the history of what arrived at it
and left it since it was last cleared.

* `InOrder.next`: what has left the queue and what is in it are together what arrived, in the same
  order and each entry once.
-/

namespace Fifo

variable {α : Type*}

inductive Event (α : Type*)
  | arrive (a : α)
  | depart
  | clear

/-- What arrived at a queue that had room for it, and what left it. -/
structure History (α : Type*) where
  arrived : List α
  departed : List α

def History.new : History α := ⟨[], []⟩

section

variable (depth : ℕ)

/-- The queue after an event. -/
def next (queue : List α) : Event α → List α
  | .arrive a => if queue.length < depth then queue ++ [a] else queue
  | .depart => queue.tail
  | .clear => []

/-- Its history after an event. -/
def History.next (history : History α) (queue : List α) : Event α → History α
  | .arrive a =>
    if queue.length < depth then { history with arrived := history.arrived ++ [a] } else history
  | .depart => { history with departed := history.departed ++ queue.head?.toList }
  | .clear => .new

/-- Nothing was lost, nothing came twice, and nothing overtook anything. -/
structure InOrder (history : History α) (queue : List α) : Prop where
  arrived : history.arrived = history.departed ++ queue
  bounded : queue.length ≤ depth

end

variable {depth : ℕ} {history : History α} {queue queue' : List α}

theorem inOrder_new : InOrder depth History.new ([] : List α) := ⟨rfl, Nat.zero_le _⟩

/-- **The events of a queue keep its order.** -/
theorem InOrder.next (h : InOrder depth history queue) (e : Event α) :
    InOrder depth (history.next depth queue e) (next depth queue e) := by
  cases e with
  | arrive a =>
    unfold History.next Fifo.next
    dsimp only
    split_ifs with hroom
    · refine ⟨?_, ?_⟩
      · rw [h.arrived, List.append_assoc]
      · rw [List.length_append, List.length_singleton]
        omega
    · exact h
  | depart =>
    refine ⟨?_, ?_⟩
    · unfold History.next Fifo.next
      rw [h.arrived, List.append_assoc]
      cases queue <;> rfl
    · exact (List.length_tail ▸ Nat.sub_le _ _).trans h.bounded
  | clear => exact inOrder_new

/-- Under one history there is one queue in order. -/
theorem InOrder.eq_iff (h : InOrder depth history queue) :
    InOrder depth history queue' ↔ queue' = queue := by
  refine ⟨fun h' => ?_, fun heq => heq ▸ h⟩
  exact List.append_cancel_left (h'.arrived.symm.trans h.arrived)

end Fifo
