import NekoLink.Foundations.Window
import NekoLink.Noise.Prims

/-!
# The receiving-counter validator

`ReceivingKeyCounterValidator` of `session.rs`: the highest counter and a cyclic bitmap of 1024
bits in sixteen words. An addition of the source that can leave `u64` is checked and gives `none`.

* `Represents v seen` relates a validator to the set of the counters it has accepted.
* `willAccept_spec` and `markDidReceive_spec` say that on a counter below `2 ^ 64 - 1024` the two
  stages answer `Replay.accepts 1024` and that marking performs `Replay.receive 1024`.
-/

namespace NekoLink.Noise

open Replay

def wordSize : ℕ := 64

def nWords : ℕ := 16

def nBits : ℕ := wordSize * nWords

/-- A `u64` addition in a checked build. -/
def checkedAdd (a b : ℕ) : Option ℕ := if a + b < 2 ^ 64 then some (a + b) else none

theorem checkedAdd_of_lt {a b : ℕ} (h : a + b < 2 ^ 64) : checkedAdd a b = some (a + b) := if_pos h

structure ReceivingKeyCounterValidator where
  next : ℕ
  /-- Used to estimate packet loss -/
  receiveCnt : ℕ
  bitmap : Fin nWords → BitVec 64

namespace ReceivingKeyCounterValidator

/-- `Default::default()` -/
def default : ReceivingKeyCounterValidator := ⟨0, 0, fun _ => 0⟩

/-- The word that holds the bit of a counter. -/
def word (idx : ℕ) : Fin nWords :=
  ⟨idx % nBits / wordSize, Nat.div_lt_of_lt_mul (Nat.mod_lt _ (by decide))⟩

/-- The place of a counter's bit in its word. -/
def bit (idx : ℕ) : ℕ := idx % nBits % wordSize

variable (v : ReceivingKeyCounterValidator)

def setBit (idx : ℕ) : ReceivingKeyCounterValidator :=
  { v with bitmap := Function.update v.bitmap (word idx) (v.bitmap (word idx) ||| 1#64 <<< bit idx) }

def clearBit (idx : ℕ) : ReceivingKeyCounterValidator :=
  { v with
    bitmap := Function.update v.bitmap (word idx) (v.bitmap (word idx) &&& ~~~(1#64 <<< bit idx)) }

/-- Clear the word that contains `idx`. -/
def clearWord (idx : ℕ) : ReceivingKeyCounterValidator :=
  { v with bitmap := Function.update v.bitmap (word idx) 0 }

def checkBit (idx : ℕ) : Bool := (v.bitmap (word idx) >>> bit idx) &&& 1#64 == 1#64

/-- `Ok` if the counter was not yet received, and is not too far back. -/
def willAccept (counter : ℕ) : Option (Except WireGuardError Unit) :=
  if v.next ≤ counter then some (.ok ())
  else
    (checkedAdd counter nBits).map fun limit =>
      if limit < v.next then .error .invalidCounter
      else if !v.checkBit counter then .ok ()
      else .error .duplicateCounter

/-- Clear until `i` is aligned to the word size. -/
def clearToWord (v : ReceivingKeyCounterValidator) (i counter : ℕ) :
    ReceivingKeyCounterValidator × ℕ :=
  if i % wordSize ≠ 0 ∧ i < counter then clearToWord (v.clearBit i) (i + 1) counter else (v, i)
termination_by counter - i

/-- Clear a whole word at a time; the mask `0u64.wrapping_sub(64)` clears the low six bits. -/
def clearWords (v : ReceivingKeyCounterValidator) (i counter : ℕ) :
    ReceivingKeyCounterValidator × ℕ :=
  if i + wordSize < counter then
    clearWords (v.clearWord i) ((i + wordSize) / wordSize * wordSize) counter
  else (v, i)
termination_by counter - i
decreasing_by
  simp only [wordSize] at *
  omega

/-- Clear any remaining bits. -/
def clearBits (v : ReceivingKeyCounterValidator) (i counter : ℕ) : ReceivingKeyCounterValidator :=
  if i < counter then clearBits (v.clearBit i) (i + 1) counter else v
termination_by counter - i

/-- The counters from `next` up to `counter` are skipped: mark them unused. -/
def skipTo (counter : ℕ) : ReceivingKeyCounterValidator :=
  if nBits ≤ counter - v.next then { v with bitmap := fun _ => 0 }
  else
    let (v₁, i₁) := clearToWord v v.next counter
    let (v₂, i₂) := clearWords v₁ i₁ counter
    clearBits v₂ i₂ counter

/-- Marks the counter as received, and says whether it is still good. Past the first check
`counter + 1024` is in range, and so is every other sum. -/
def markDidReceive (counter : ℕ) :
    Option (ReceivingKeyCounterValidator × Except WireGuardError Unit) :=
  (checkedAdd counter nBits).map fun limit =>
    if limit < v.next then (v, .error .invalidCounter)
    else if counter = v.next then ({ v.setBit counter with next := v.next + 1 }, .ok ())
    else if counter < v.next then
      if v.checkBit counter then (v, .error .invalidCounter) else (v.setBit counter, .ok ())
    else ({ (v.skipTo counter).setBit counter with next := counter + 1 }, .ok ())

/-! ## The bits -/

variable {v} {w : ReceivingKeyCounterValidator} {i j c : ℕ}

theorem checkBit_eq_getLsbD : v.checkBit i = (v.bitmap (word i)).getLsbD (bit i) := by
  rw [checkBit, Bool.eq_iff_iff, beq_iff_eq]
  constructor
  · intro h
    have := congrArg (·.getLsbD 0) h
    simpa using this
  · intro h
    apply BitVec.eq_of_getLsbD_eq
    intro k _
    rcases k with _ | k <;> simp [h]

/-- A bit is found again by its word and its place in the word. -/
theorem mod_eq_iff : i % nBits = j % nBits ↔ word i = word j ∧ bit i = bit j := by
  simp only [word, bit, Fin.mk.injEq]
  constructor
  · intro h
    rw [h]
    exact ⟨rfl, rfl⟩
  · rintro ⟨hw, hb⟩
    rw [← Nat.div_add_mod (i % nBits) wordSize, hw, hb, Nat.div_add_mod]

theorem bit_lt : bit i < 64 := Nat.mod_lt _ (by decide)

theorem checkBit_mod : v.checkBit (i % nBits) = v.checkBit i := by
  simp only [checkBit, word, bit, Nat.mod_mod]

@[simp] theorem checkBit_setBit :
    (v.setBit j).checkBit i = true ↔ v.checkBit i = true ∨ i % nBits = j % nBits := by
  rw [mod_eq_iff, checkBit_eq_getLsbD, checkBit_eq_getLsbD, setBit]
  by_cases h : word i = word j
  · have := @bit_lt i
    simp only [h, Function.update_self, BitVec.getLsbD_or, BitVec.getLsbD_shiftLeft,
      BitVec.getLsbD_one, Bool.or_eq_true, Bool.and_eq_true, decide_eq_true_eq,
      Bool.not_eq_true', decide_eq_false_iff_not, true_and]
    constructor
    · rintro (hv | ⟨⟨_, hge⟩, hsub⟩)
      · exact Or.inl hv
      · exact Or.inr (by omega)
    · rintro (hv | he)
      · exact Or.inl hv
      · exact Or.inr ⟨⟨this, by omega⟩, by omega⟩
  · simp [h]

@[simp] theorem checkBit_clearBit :
    (v.clearBit j).checkBit i = true ↔ v.checkBit i = true ∧ i % nBits ≠ j % nBits := by
  rw [Ne, mod_eq_iff, checkBit_eq_getLsbD, checkBit_eq_getLsbD, clearBit]
  by_cases h : word i = word j
  · have := @bit_lt i
    simp only [h, Function.update_self, BitVec.getLsbD_and, BitVec.getLsbD_not,
      BitVec.getLsbD_shiftLeft, BitVec.getLsbD_one, Bool.and_eq_true, Bool.not_eq_true',
      Bool.and_eq_false_imp, decide_eq_true_eq, decide_eq_false_iff_not, true_and]
    constructor
    · rintro ⟨hv, _, hne⟩
      exact ⟨hv, fun he => hne ⟨this, by omega⟩ (by decide) (by omega)⟩
    · rintro ⟨hv, hne⟩
      exact ⟨hv, this, fun _ _ => by omega⟩
  · simp [h]

@[simp] theorem checkBit_clearWord :
    (v.clearWord j).checkBit i = true ↔ v.checkBit i = true ∧ word i ≠ word j := by
  rw [checkBit_eq_getLsbD, checkBit_eq_getLsbD, clearWord]
  by_cases h : word i = word j
  · simp [h]
  · simp [h]

/-! ## The loops

Each loop clears the bits of a range of counters, and the three ranges join. -/

/-- `w` is `v` with the bits of the counters from `i` up to `j` cleared. -/
structure Cleared (v w : ReceivingKeyCounterValidator) (i j : ℕ) : Prop where
  next_eq : w.next = v.next
  receiveCnt_eq : w.receiveCnt = v.receiveCnt
  checkBit_iff : ∀ k, w.checkBit k = true ↔
    v.checkBit k = true ∧ ∀ c, i ≤ c → c < j → k % nBits ≠ c % nBits

namespace Cleared

theorem refl (h : j ≤ i) : Cleared v v i j :=
  ⟨rfl, rfl, fun _ => ⟨fun hk => ⟨hk, fun _ _ _ => by omega⟩, And.left⟩⟩

theorem trans {u : ReceivingKeyCounterValidator} {k : ℕ} (h : Cleared v w i j)
    (h' : Cleared w u j k) (hij : i ≤ j) (hjk : j ≤ k) : Cleared v u i k := by
  refine ⟨h'.next_eq.trans h.next_eq, h'.receiveCnt_eq.trans h.receiveCnt_eq, fun b => ?_⟩
  rw [h'.checkBit_iff, h.checkBit_iff]
  constructor
  · rintro ⟨⟨hb, hlo⟩, hhi⟩
    refine ⟨hb, fun c hic hck => ?_⟩
    rcases lt_or_ge c j with hcj | hcj
    · exact hlo c hic hcj
    · exact hhi c hcj hck
  · rintro ⟨hb, hall⟩
    exact ⟨⟨hb, fun c hic hcj => hall c hic (by omega)⟩, fun c hjc hck => hall c (by omega) hck⟩

end Cleared

theorem cleared_clearBit : Cleared v (v.clearBit i) i (i + 1) := by
  refine ⟨rfl, rfl, fun k => ?_⟩
  rw [checkBit_clearBit]
  constructor
  · rintro ⟨hk, hne⟩
    refine ⟨hk, fun c hic hci => ?_⟩
    obtain rfl : c = i := by omega
    exact hne
  · rintro ⟨hk, hall⟩
    exact ⟨hk, hall i le_rfl (by omega)⟩

/-- An aligned word holds the bits of the next 64 counters. -/
theorem cleared_clearWord (h : i % wordSize = 0) :
    Cleared v (v.clearWord i) i (i + wordSize) := by
  refine ⟨rfl, rfl, fun k => ?_⟩
  rw [checkBit_clearWord, Ne, Fin.ext_iff]
  simp only [word, nBits, nWords, wordSize] at h ⊢
  constructor
  · rintro ⟨hk, hne⟩
    exact ⟨hk, fun c hic hci => by omega⟩
  · rintro ⟨hk, hall⟩
    refine ⟨hk, fun he => hall (i + k % 64) (by omega) (by omega) (by omega)⟩

theorem clearToWord_spec (v : ReceivingKeyCounterValidator) (i counter : ℕ) (h : i ≤ counter) :
    Cleared v (clearToWord v i counter).1 i (clearToWord v i counter).2 ∧
      i ≤ (clearToWord v i counter).2 ∧ (clearToWord v i counter).2 ≤ counter ∧
      ((clearToWord v i counter).2 % wordSize = 0 ∨ (clearToWord v i counter).2 = counter) := by
  fun_induction clearToWord v i counter with
  | case1 v i hcond ih =>
    obtain ⟨hclear, hle, hle', hend⟩ := ih (by omega)
    exact ⟨cleared_clearBit.trans hclear (by omega) hle, by omega, hle', hend⟩
  | case2 v i hcond =>
    have hend : i % wordSize = 0 ∨ i = counter := by omega
    exact ⟨Cleared.refl le_rfl, le_rfl, h, hend⟩

theorem clearWords_spec (v : ReceivingKeyCounterValidator) (i counter : ℕ)
    (h : i ≤ counter) (hi : i % wordSize = 0 ∨ i = counter) :
    Cleared v (clearWords v i counter).1 i (clearWords v i counter).2 ∧
      i ≤ (clearWords v i counter).2 ∧ (clearWords v i counter).2 ≤ counter := by
  fun_induction clearWords v i counter with
  | case1 v i hcond ih =>
    have halign : i % wordSize = 0 := by omega
    have hnext : (i + wordSize) / wordSize * wordSize = i + wordSize := by
      simp only [wordSize] at halign ⊢
      omega
    rw [hnext] at ih ⊢
    have hzero : (i + wordSize) % wordSize = 0 := by rw [Nat.add_mod_right, halign]
    obtain ⟨hclear, hle, hle'⟩ := ih (by omega) (Or.inl hzero)
    exact ⟨(cleared_clearWord halign).trans hclear (by omega) hle, by omega, hle'⟩
  | case2 v i hcond => exact ⟨Cleared.refl le_rfl, le_rfl, h⟩

theorem clearBits_spec (v : ReceivingKeyCounterValidator) (i counter : ℕ) (h : i ≤ counter) :
    Cleared v (clearBits v i counter) i counter := by
  fun_induction clearBits v i counter with
  | case1 v i hcond ih => exact cleared_clearBit.trans (ih (by omega)) (by omega) (by omega)
  | case2 v i hcond => exact Cleared.refl (by omega)

/-- Skipping to a counter in the window clears exactly the bits of those skipped. -/
theorem skipTo_of_lt (h : v.next ≤ c) (hlt : c - v.next < nBits) :
    Cleared v (v.skipTo c) v.next c := by
  rw [skipTo, if_neg (by omega)]
  obtain ⟨h₁, hle₁, hle₁', hend⟩ := clearToWord_spec v v.next c h
  obtain ⟨h₂, hle₂, hle₂'⟩ :=
    clearWords_spec (clearToWord v v.next c).1 (clearToWord v v.next c).2 c hle₁' hend
  exact h₁.trans (h₂.trans (clearBits_spec _ _ c hle₂') hle₂ hle₂') hle₁ hle₁'

/-- Skipping past the window clears everything. -/
theorem skipTo_of_ge (h : nBits ≤ c - v.next) : (v.skipTo c).checkBit i = false := by
  rw [skipTo, if_pos h, checkBit_eq_getLsbD]
  simp

theorem skipTo_clears (hk : v.next ≤ i) (hkc : i < c) : (v.skipTo c).checkBit i = false := by
  by_cases hge : nBits ≤ c - v.next
  · exact skipTo_of_ge hge
  · rw [← Bool.not_eq_true, (skipTo_of_lt (by omega) (by omega)).checkBit_iff]
    rintro ⟨_, hall⟩
    exact hall i hk hkc rfl

theorem skipTo_keeps (hc : v.next ≤ c)
    (hk : ∀ k, v.next ≤ k → k < c → k % nBits ≠ i % nBits) :
    (v.skipTo c).checkBit i = v.checkBit i := by
  by_cases hge : nBits ≤ c - v.next
  · -- every bit belongs to some counter skipped
    simp only [nBits, wordSize, nWords] at hge hk
    exact absurd (by omega) (hk (v.next + (i + 1024 - v.next % 1024) % 1024) (by omega) (by omega))
  · rw [Bool.eq_iff_iff, (skipTo_of_lt hc (by omega)).checkBit_iff]
    exact ⟨And.left, fun h => ⟨h, fun k hlo hhi he => hk k hlo hhi he.symm⟩⟩

@[simp] theorem next_setBit : (v.setBit i).next = v.next := rfl

@[simp] theorem receiveCnt_setBit : (v.setBit i).receiveCnt = v.receiveCnt := rfl

/-! ## The validator decides the replay window -/

/-- The validator stands for the set of the counters it has accepted. -/
structure Represents (v : ReceivingKeyCounterValidator) (seen : Finset ℕ) : Prop where
  next_eq : v.next = Replay.next seen
  tracks : Tracks nBits v.checkBit seen

variable {seen : Finset ℕ}

theorem represents_default : Represents default ∅ := ⟨rfl, tracks_empty⟩

theorem Represents.checkBit_iff (h : Represents v seen) (hc : c < v.next)
    (hold : v.next ≤ c + nBits) : v.checkBit c = true ↔ c ∈ seen := by
  rw [h.next_eq] at hc hold
  have := h.tracks c hc hold
  rwa [checkBit_mod] at this

theorem Represents.accepts_iff_of_lt (h : Represents v seen) (hc : c < v.next)
    (hold : v.next ≤ c + nBits) : accepts nBits seen c ↔ v.checkBit c = false := by
  rw [accepts, ← h.checkBit_iff hc hold, ← h.next_eq]
  simp [hold]

theorem Represents.accepts_of_ge (h : Represents v seen) (hc : v.next ≤ c) :
    accepts nBits seen c := by
  rw [h.next_eq] at hc
  exact ⟨fun hmem => absurd (lt_next hmem) (by omega), by omega⟩

theorem Represents.not_accepts_of_lt (h : Represents v seen) (hc : c + nBits < v.next) :
    ¬ accepts nBits seen c := by
  rw [h.next_eq] at hc
  rintro ⟨_, hold⟩
  omega

/-- **The first stage.** The quick check accepts exactly what the window accepts. -/
theorem willAccept_spec (h : Represents v seen) (hc : c + nBits < 2 ^ 64) :
    ∃ r, v.willAccept c = some r ∧ (r = .ok () ↔ accepts nBits seen c) := by
  rw [willAccept, checkedAdd_of_lt hc, Option.map_some]
  by_cases hnext : v.next ≤ c
  · rw [if_pos hnext]
    exact ⟨_, rfl, by simp [h.accepts_of_ge hnext]⟩
  · rw [if_neg hnext]
    refine ⟨_, rfl, ?_⟩
    split_ifs with hold hbit
    · simp [h.not_accepts_of_lt hold]
    · have ha := h.accepts_iff_of_lt (show c < v.next by omega) (by omega)
      simpa [ha] using hbit
    · have ha := h.accepts_iff_of_lt (show c < v.next by omega) (by omega)
      simpa [ha] using hbit

/-- The quick check answers on every counter when the next one is not near the end. -/
theorem willAccept_isSome (h : v.next + nBits ≤ 2 ^ 64) (c : ℕ) : ∃ r, v.willAccept c = some r := by
  rw [willAccept]
  by_cases hnext : v.next ≤ c
  · rw [if_pos hnext]
    exact ⟨_, rfl⟩
  · rw [if_neg hnext, checkedAdd_of_lt (by omega)]
    exact ⟨_, rfl⟩

/-- The quick check only ever complains about the counter. -/
theorem willAccept_error {e : WireGuardError} (h : v.willAccept c = some (.error e)) :
    e = .invalidCounter ∨ e = .duplicateCounter := by
  rw [willAccept] at h
  by_cases hnext : v.next ≤ c
  · rw [if_pos hnext] at h
    cases h
  · rw [if_neg hnext] at h
    obtain ⟨limit, -, heq⟩ := Option.map_eq_some_iff.mp h
    split_ifs at heq <;> cases heq
    · exact Or.inl rfl
    · exact Or.inr rfl

/-- Marking a counter of the window sets its bit. -/
theorem Represents.setBit_of_lt (h : Represents v seen) (hc : c < v.next)
    (hold : v.next ≤ c + nBits) : Represents (v.setBit c) (insert c seen) := by
  have hc' := hc
  have hold' := hold
  rw [h.next_eq] at hc' hold'
  refine ⟨?_, h.tracks.insert_lt hc' hold' ?_ fun i hi hne => ?_⟩
  · rw [next_setBit, h.next_eq, next_insert]
    exact (max_eq_right hc').symm
  · rw [checkBit_setBit, Nat.mod_mod]
    exact Or.inr rfl
  · rw [Bool.eq_iff_iff, checkBit_setBit, Nat.mod_eq_of_lt hi]
    simp [hne]

/-- Marking a counter past the next one, once those skipped are cleared. -/
theorem Represents.setBit_skipTo (h : Represents v seen) (hc : v.next ≤ c) :
    Represents { (v.skipTo c).setBit c with next := c + 1 } (insert c seen) := by
  have hc' := hc
  rw [h.next_eq] at hc'
  have hbit : ∀ i, checkBit { (v.skipTo c).setBit c with next := c + 1 } i =
      ((v.skipTo c).setBit c).checkBit i := fun _ => rfl
  refine ⟨?_, h.tracks.insert_ge hc' ?_ (fun k hk hkc hck => ?_) fun i hi hne => ?_⟩
  · rw [next_insert]
    exact (max_eq_left (hc'.trans (Nat.le_succ c))).symm
  · rw [hbit, checkBit_setBit, Nat.mod_mod]
    exact Or.inr rfl
  · rw [← h.next_eq] at hk
    rw [hbit, ← Bool.not_eq_true, checkBit_setBit, checkBit_mod, skipTo_clears hk hkc, Nat.mod_mod]
    rintro (hf | he)
    · cases hf
    · exact absurd (eq_of_mod_eq he (by omega) (by omega)) (by omega)
  · rw [hbit, Bool.eq_iff_iff, checkBit_setBit, Nat.mod_eq_of_lt hi, skipTo_keeps hc]
    · simp [(hne c hc' le_rfl).symm]
    · intro k hk hkc
      rw [h.next_eq] at hk
      rw [Nat.mod_eq_of_lt hi]
      exact hne k hk hkc.le

/-- Skipping nothing clears nothing: the next counter in order. -/
theorem Represents.setBit_next (h : Represents v seen) (hc : c = v.next) :
    Represents { v.setBit c with next := c + 1 } (insert c seen) := by
  have hskip : ∀ i, (v.skipTo c).checkBit i = v.checkBit i :=
    fun i => skipTo_keeps hc.ge fun k hk hkc => by omega
  have hrep := h.setBit_skipTo hc.ge
  refine ⟨hrep.next_eq, fun d hd hdold => ?_⟩
  rw [← hrep.tracks d hd hdold]
  have hset : ((v.setBit c).checkBit (d % nBits) = true) ↔
      ((v.skipTo c).setBit c).checkBit (d % nBits) = true := by
    rw [checkBit_setBit, checkBit_setBit, hskip]
  exact hset

/-- **The second stage.** Marking succeeds exactly on what the window accepts, leaves a refused
validator as it was, and represents the window after the counter was offered. -/
theorem markDidReceive_spec (h : Represents v seen) (hc : c + nBits < 2 ^ 64) :
    ∃ w r, v.markDidReceive c = some (w, r) ∧ (r = .ok () ↔ accepts nBits seen c) ∧
      (¬ accepts nBits seen c → w = v) ∧ Represents w (receive nBits seen c) := by
  rw [markDidReceive, checkedAdd_of_lt hc, Option.map_some]
  split_ifs with hold heq hlt hbit
  · have hna := h.not_accepts_of_lt hold
    refine ⟨_, _, rfl, by simp [hna], fun _ => rfl, ?_⟩
    rwa [receive_of_not_accepts hna]
  · have ha := h.accepts_of_ge heq.ge
    refine ⟨_, _, rfl, by simp [ha], fun hna => absurd ha hna, ?_⟩
    rw [receive_of_accepts ha]
    rw [← heq]
    exact h.setBit_next heq
  · have hna : ¬ accepts nBits seen c := by
      rw [h.accepts_iff_of_lt hlt (by omega), hbit]
      simp
    refine ⟨_, _, rfl, by simp [hna], fun _ => rfl, ?_⟩
    rwa [receive_of_not_accepts hna]
  · have ha : accepts nBits seen c := by
      rw [h.accepts_iff_of_lt hlt (by omega)]
      simpa using hbit
    refine ⟨_, _, rfl, by simp [ha], fun hna => absurd ha hna, ?_⟩
    rw [receive_of_accepts ha]
    exact h.setBit_of_lt hlt (by omega)
  · have ha := h.accepts_of_ge (by omega : v.next ≤ c)
    refine ⟨_, _, rfl, by simp [ha], fun hna => absurd ha hna, ?_⟩
    rw [receive_of_accepts ha]
    exact h.setBit_skipTo (by omega)

end ReceivingKeyCounterValidator

end NekoLink.Noise
