import Mathlib.Algebra.Order.BigOperators.Group.List
import NekoLink.Device.RecvBatches

/-!
# The budget of the receive loop

The loop of `register_udp_handler` over the batches of `recvmmsg` is to end after `MAX_ITR` packets.
Its counter is a `usize` that the size of each batch is taken from, and it is compared with zero
only afterwards. What arrives is a sequence of batches, empty ones when there is nothing more.

* `loop_read`: the handler reads the batches that the counter is reached at.
* `endsWithinBudget_iff`: when the loop ends within its budget.
* `full_batches_never_end`: full batches that keep arriving are read for ever.
-/

namespace NekoLink.Device

open Wire

variable {ipProtocol : Option UInt8} {usizeBits : ℕ} {iter : BitVec usizeBits} {count : ℕ → ℕ}

/-- The loop ends with a batch of this size. -/
def Ends (iter : BitVec usizeBits) (count : ℕ) : Prop :=
  count = 0 ∨ iter - BitVec.ofNat usizeBits count = 0 ∨ count < maxPacketCount

instance (iter : BitVec usizeBits) (count : ℕ) : Decidable (Ends iter count) :=
  inferInstanceAs (Decidable (_ ∨ _ ∨ _))

/-- The counter when a batch is to be read, `none` when the loop has ended before. -/
def iterAt : BitVec usizeBits → (ℕ → ℕ) → ℕ → Option (BitVec usizeBits)
  | iter, _, 0 => some iter
  | iter, count, n + 1 =>
    if Ends iter (count 0) then none
    else iterAt (iter - BitVec.ofNat usizeBits (count 0)) (fun k => count (k + 1)) n

/-- The sizes of the batches that arrive. -/
def counts (arrivals : ℕ → Batch ipProtocol) (n : ℕ) : ℕ := (arrivals n).messages.length

theorem counts_le (arrivals : ℕ → Batch ipProtocol) (n : ℕ) :
    counts arrivals n ≤ maxPacketCount :=
  (arrivals n).length_le

/-! ## What the handler reads -/

/-- The loop ends with the batch, or it goes on with the counter that is left. -/
theorem loop_cons_cases {S D : Type*} {H : BatchHandler S D} {K : Kernel} {batch : Batch ipProtocol}
    {rest read : List (Batch ipProtocol)} {draws : ℕ → ℕ → ℕ → D} {hdrs : List RecvHdr} {s s' : S}
    (h : H.loop K iter draws hdrs (batch :: rest) s = some (s', read)) :
    (Ends iter batch.messages.length ∧ read = [batch]) ∨
      (¬ Ends iter batch.messages.length ∧ ∃ s₁ draws' hdrs' read',
        H.loop K (iter - BitVec.ofNat usizeBits batch.messages.length) draws' hdrs' rest s₁ =
          some (s', read') ∧ read = batch :: read') := by
  rw [BatchHandler.loop] at h
  dsimp only at h
  by_cases hzero : batch.messages.length = 0
  · rw [if_pos hzero] at h
    cases h
    exact .inl ⟨.inl hzero, rfl⟩
  · rw [if_neg hzero] at h
    obtain ⟨s₁, -, h⟩ := Option.bind_eq_some_iff.mp h
    by_cases hend : iter - BitVec.ofNat usizeBits batch.messages.length = 0 ∨
      batch.messages.length < maxPacketCount
    · rw [if_pos hend] at h
      cases h
      exact .inl ⟨.inr hend, rfl⟩
    · rw [if_neg hend] at h
      obtain ⟨⟨s₂, read'⟩, hrest, heq⟩ := Option.map_eq_some_iff.mp h
      cases heq
      exact .inr ⟨fun hends => hends.elim hzero hend, _, _, _, read', hrest, rfl⟩

/-- **The handler reads the batches that the counter is reached at.** -/
theorem loop_read {S D : Type*} {H : BatchHandler S D} {K : Kernel}
    {arrivals : ℕ → Batch ipProtocol} {n : ℕ} {draws : ℕ → ℕ → ℕ → D} {hdrs : List RecvHdr}
    {s s' : S}
    {read : List (Batch ipProtocol)}
    (h : H.loop K iter draws hdrs ((List.range n).map arrivals) s = some (s', read)) :
    read = (List.range read.length).map arrivals ∧ read.length ≤ n ∧
      ∀ k < n, (iterAt iter (counts arrivals) k).isSome = true ↔ k < read.length := by
  induction n generalizing iter arrivals draws hdrs s read with
  | zero =>
    cases h
    exact ⟨rfl, le_rfl, fun k hk => absurd hk (Nat.not_lt_zero k)⟩
  | succ n ih =>
    rw [List.range_succ_eq_map, List.map_cons, List.map_map] at h
    obtain ⟨hend, rfl⟩ | ⟨hend, s₁, draws', hdrs', read', hrest, rfl⟩ := loop_cons_cases h
    · refine ⟨rfl, Nat.succ_le_succ (Nat.zero_le n), fun k hk => ?_⟩
      cases k with
      | zero => simp [iterAt]
      | succ k =>
        rw [iterAt, if_pos (show Ends iter (counts arrivals 0) from hend)]
        simp
    · have hnext : (List.range n).map (arrivals ∘ Nat.succ) =
          (List.range n).map fun k => arrivals (k + 1) := rfl
      rw [hnext] at hrest
      obtain ⟨hread, hle, hreached⟩ := ih hrest
      refine ⟨?_, Nat.succ_le_succ hle, fun k hk => ?_⟩
      · rw [List.length_cons, List.range_succ_eq_map, List.map_cons, List.map_map]
        exact congrArg _ hread
      · cases k with
        | zero => simp [iterAt]
        | succ k =>
          rw [iterAt, if_neg (show ¬ Ends iter (counts arrivals 0) from hend), List.length_cons,
            Nat.succ_lt_succ_iff]
          exact hreached k (Nat.lt_of_succ_lt_succ hk)

/-! ## The budget -/

/-- An invocation keeps to its budget, and ends. -/
structure EndsWithinBudget (usizeBits : ℕ) (arrivals : ℕ → Batch ipProtocol) : Prop where
  no_underflow : ∀ n iter, iterAt (BitVec.ofNat usizeBits maxItr) (counts arrivals) n = some iter →
    counts arrivals n ≤ iter.toNat
  /-- whatever goes on arriving -/
  ends : ∀ n, 2 ≤ n → iterAt (BitVec.ofNat usizeBits maxItr) (counts arrivals) n = none
  reads : ∀ {S D : Type} (H : BatchHandler S D) (K : Kernel) (n : ℕ) (draws : ℕ → ℕ → ℕ → D)
    (hdrs : List RecvHdr) (s s' : S) (read : List (Batch ipProtocol)),
    H.loop K (BitVec.ofNat usizeBits maxItr) draws hdrs ((List.range n).map arrivals) s =
      some (s', read) →
    read.length ≤ 2 ∧ (read.map fun batch => batch.messages.length).sum ≤ maxItr + maxPacketCount

/-- The counter after a first batch. -/
theorem iterAt_front (iter : BitVec usizeBits) (count : ℕ → ℕ) (n : ℕ) :
    iterAt iter count (n + 1) = if Ends iter (count 0) then none
      else iterAt (iter - BitVec.ofNat usizeBits (count 0)) (fun k => count (k + 1)) n := rfl

/-- The counter after one batch more. -/
theorem iterAt_succ (n : ℕ) :
    iterAt iter count (n + 1) = (iterAt iter count n).bind fun iter =>
      if Ends iter (count n) then none else some (iter - BitVec.ofNat usizeBits (count n)) := by
  induction n generalizing iter count with
  | zero => rw [iterAt, iterAt, Option.bind_some, iterAt]
  | succ n ih =>
    rw [iterAt_front, iterAt_front iter count n]
    by_cases hend : Ends iter (count 0)
    · rw [if_pos hend, if_pos hend, Option.bind_none]
    · rw [if_neg hend, if_neg hend]
      exact ih

theorem iterAt_eq_none_of_le {m n : ℕ} (h : iterAt iter count m = none) (hn : m ≤ n) :
    iterAt iter count n = none := by
  induction n, hn using Nat.le_induction with
  | base => exact h
  | succ n _ ih => rw [iterAt_succ, ih, Option.bind_none]

/-- What is left after a full batch. -/
theorem sub_maxPacketCount (husize : 7 ≤ usizeBits) :
    BitVec.ofNat usizeBits maxItr - BitVec.ofNat usizeBits maxPacketCount =
      BitVec.ofNat usizeBits (maxItr - maxPacketCount) := by
  have hpow : 2 ^ 7 ≤ 2 ^ usizeBits := Nat.pow_le_pow_right (by decide) husize
  exact BitVec.ofNat_sub_ofNat_of_le _ _ (lt_of_lt_of_le (by decide) hpow) (by decide)

theorem toNat_ofNat_usize (husize : 7 ≤ usizeBits) {n : ℕ} (hn : n < 128) :
    (BitVec.ofNat usizeBits n).toNat = n := by
  have hpow : 2 ^ 7 ≤ 2 ^ usizeBits := Nat.pow_le_pow_right (by decide) husize
  rw [BitVec.toNat_ofNat]
  exact Nat.mod_eq_of_lt (by omega)

/-- A second batch is read after a full one only. -/
theorem iterAt_one (husize : 7 ≤ usizeBits) (hcount : count 0 ≤ maxPacketCount) :
    iterAt (BitVec.ofNat usizeBits maxItr) count 1 =
      if count 0 = maxPacketCount then some (BitVec.ofNat usizeBits (maxItr - maxPacketCount))
      else none := by
  rw [iterAt]
  by_cases hfull : count 0 = maxPacketCount
  · have hleft : BitVec.ofNat usizeBits (maxItr - maxPacketCount) ≠ 0 := by
      intro hzero
      have hvalue := congrArg BitVec.toNat hzero
      rw [toNat_ofNat_usize husize (by decide)] at hvalue
      simp [maxItr, maxPacketCount] at hvalue
    have hend : ¬ Ends (BitVec.ofNat usizeBits maxItr) (count 0) := by
      rw [hfull, Ends, sub_maxPacketCount husize]
      rintro (h | h | h)
      · cases h
      · exact hleft h
      · exact lt_irrefl _ h
    rw [if_neg hend, if_pos hfull, hfull, sub_maxPacketCount husize]
    rfl
  · rw [if_neg hfull, if_pos (.inr (.inr (lt_of_le_of_ne hcount hfull)))]

/-- When no third batch is reached, the handler reads two at most. -/
theorem reads_of_ends {arrivals : ℕ → Batch ipProtocol}
    (hends : iterAt (BitVec.ofNat usizeBits maxItr) (counts arrivals) 2 = none) {S D : Type}
    (H : BatchHandler S D) (K : Kernel) (n : ℕ) (draws : ℕ → ℕ → ℕ → D) (hdrs : List RecvHdr)
    (s s' : S) (read : List (Batch ipProtocol))
    (h : H.loop K (BitVec.ofNat usizeBits maxItr) draws hdrs ((List.range n).map arrivals) s =
      some (s', read)) :
    read.length ≤ 2 ∧
      (read.map fun batch => batch.messages.length).sum ≤ maxItr + maxPacketCount := by
  obtain ⟨-, hle, hreached⟩ := loop_read h
  have hlength : read.length ≤ 2 := by
    by_contra hmore
    have hthird := (hreached 2 (by omega)).mpr (by omega)
    rw [hends] at hthird
    cases hthird
  have hsum := List.sum_le_card_nsmul (read.map fun batch => batch.messages.length) maxPacketCount
    (by
      intro k hk
      obtain ⟨batch, -, rfl⟩ := List.mem_map.mp hk
      exact batch.length_le)
  rw [List.length_map, nsmul_eq_mul, Nat.cast_id] at hsum
  refine ⟨hlength, hsum.trans ?_⟩
  calc read.length * maxPacketCount ≤ 2 * maxPacketCount := Nat.mul_le_mul_right _ hlength
    _ ≤ maxItr + maxPacketCount := by decide

/-- **The receive loop ends within its budget, exactly when a full batch is not followed by more
messages than the counter has left.** -/
theorem endsWithinBudget_iff (husize : 7 ≤ usizeBits) (arrivals : ℕ → Batch ipProtocol) :
    EndsWithinBudget usizeBits arrivals ↔
      ¬ (counts arrivals 0 = maxPacketCount ∧ maxItr - maxPacketCount < counts arrivals 1) := by
  have hone := iterAt_one husize (counts_le arrivals 0)
  constructor
  · rintro hends ⟨hfull, hmore⟩
    rw [if_pos hfull] at hone
    have hle := hends.no_underflow 1 _ hone
    rw [toNat_ofNat_usize husize (by decide)] at hle
    omega
  · intro hfew
    have hends : iterAt (BitVec.ofNat usizeBits maxItr) (counts arrivals) 2 = none := by
      rw [iterAt_succ, hone]
      split_ifs with hfull
      · have hless : counts arrivals 1 < maxPacketCount := by
          have hle : counts arrivals 1 ≤ maxItr - maxPacketCount :=
            not_lt.mp fun hmore => hfew ⟨hfull, hmore⟩
          exact lt_of_le_of_lt hle (by decide)
        rw [Option.bind_some, if_pos (.inr (.inr hless))]
      · rfl
    refine ⟨fun n iter hreached => ?_, fun n hn => iterAt_eq_none_of_le hends hn,
      reads_of_ends hends⟩
    match n with
    | 0 =>
      obtain rfl := Option.some.inj hreached
      rw [toNat_ofNat_usize husize (by decide)]
      exact (counts_le arrivals 0).trans (by decide)
    | 1 =>
      rw [hone] at hreached
      split_ifs at hreached with hfull
      obtain rfl := Option.some.inj hreached
      rw [toNat_ofNat_usize husize (by decide)]
      exact not_lt.mp fun hmore => hfew ⟨hfull, hmore⟩
    | n + 2 =>
      rw [iterAt_eq_none_of_le hends (Nat.le_add_left 2 n)] at hreached
      cases hreached

/-- A full batch, and nothing more. -/
def fullBatch : Batch none where
  messages := List.replicate maxPacketCount (oneDatagram 0)
  length_le := by rw [List.length_replicate]

def emptyBatch : Batch none := ⟨[], Nat.zero_le _⟩

theorem endsWithinBudget_iff_sample :
    EndsWithinBudget 64 fun n => if n = 0 then fullBatch else emptyBatch :=
  (endsWithinBudget_iff (by decide) _).mpr (by decide)

/-! ## Batches that keep arriving -/

/-- **Full batches that keep arriving are read for ever**: the counter wraps around, and it never
becomes zero. -/
theorem full_batches_never_end (husize : 7 ≤ usizeBits) (hfull : ∀ n, count n = maxPacketCount)
    (n : ℕ) : ∃ iter, iterAt (BitVec.ofNat usizeBits maxItr) count n = some iter ∧
      iter.toNat % maxPacketCount = maxItr % maxPacketCount := by
  have hdvd : maxPacketCount ∣ 2 ^ usizeBits := pow_dvd_pow 2 (le_trans (by decide : 6 ≤ 7) husize)
  induction n with
  | zero => exact ⟨_, rfl, by rw [toNat_ofNat_usize husize (by decide)]⟩
  | succ n ih =>
    obtain ⟨iter, hreached, hmod⟩ := ih
    have hleft : (iter - BitVec.ofNat usizeBits maxPacketCount).toNat % maxPacketCount =
        maxItr % maxPacketCount := by
      rw [BitVec.toNat_sub, toNat_ofNat_usize husize (by decide), Nat.mod_mod_of_dvd _ hdvd]
      obtain ⟨m, hm⟩ := hdvd
      have hpos : 0 < 2 ^ usizeBits := Nat.two_pow_pos _
      simp only [maxPacketCount, maxItr] at hm hmod ⊢
      omega
    have hend : ¬ Ends iter (count n) := by
      rw [hfull, Ends]
      rintro (h | h | h)
      · cases h
      · rw [h] at hleft
        simp [maxPacketCount, maxItr] at hleft
      · exact lt_irrefl _ h
    refine ⟨iter - BitVec.ofNat usizeBits (count n), ?_, by rw [hfull]; exact hleft⟩
    rw [iterAt_succ, hreached, Option.bind_some, if_neg hend]

/-- With full batches the counter is below the size of the second one. -/
theorem sustained_underflow : ¬ EndsWithinBudget 64 fun _ => fullBatch := by
  intro hends
  have hone : iterAt (BitVec.ofNat 64 maxItr) (counts fun _ => fullBatch) 1 =
      some (BitVec.ofNat 64 (maxItr - maxPacketCount)) := iterAt_one (by decide) (counts_le _ 0)
  have hle := hends.no_underflow 1 _ hone
  exact absurd hle (by decide)

end NekoLink.Device
