import Mathlib.Data.Nat.Bitwise
import Mathlib.Data.Set.Function

/-!
# Peer indices

`IndexLfsr` of `device/mod.rs`: a shift register over the nonzero 24-bit numbers. Its fields keep
the bounds, so the subtraction in `next` never wraps around.

* `injOn_shift`: the register's step is injective on the nonzero 24-bit numbers.
* `next_drawn`: until `next` asserts, it draws an index below `2 ^ 24` that it has not drawn before.
-/

namespace NekoLink.Device

/-- 24-bit polynomial for randomness. -/
def lfsrPoly : UInt32 := 0xd80000

/-- One step of the register. -/
def shift (lfsr : UInt32) : UInt32 := (lfsr >>> 1) ^^^ ((0 - (lfsr &&& 1)) &&& lfsrPoly)

/-- A random nonzero 24-bit integer is one of these. -/
def Is24Bit (x : UInt32) : Prop := x ≠ 0 ∧ x.toNat < 2 ^ 24

variable {x y : UInt32}

theorem toNat_and_one (x : UInt32) : (x &&& 1).toNat = x.toNat % 2 := by
  rw [UInt32.toNat_and]
  exact Nat.and_one_is_mod _

/-- The step in arithmetic: halve, and flip some bits of an odd number. -/
theorem toNat_shift (x : UInt32) :
    (shift x).toNat = if x.toNat % 2 = 0 then x.toNat / 2 else (x.toNat / 2) ^^^ 0xd80000 := by
  have hhalf : (x >>> 1).toNat = x.toNat / 2 := by
    rw [UInt32.toNat_shiftRight]
    exact Nat.shiftRight_one _
  have hbit := toNat_and_one x
  rw [shift, UInt32.toNat_xor, hhalf]
  split_ifs with hpar
  · have hzero : x &&& 1 = 0 := UInt32.toNat_inj.mp (by rw [hbit, hpar]; rfl)
    rw [hzero]
    exact Nat.xor_zero _
  · have hone : x &&& 1 = 1 := UInt32.toNat_inj.mp (by rw [hbit]; simp; omega)
    rw [hone]
    rfl

/-- The polynomial's highest bit tells an odd predecessor from an even one. -/
theorem testBit_shift (hx : x.toNat < 2 ^ 24) :
    (shift x).toNat.testBit 23 = decide (x.toNat % 2 = 1) := by
  have hlow : (x.toNat / 2).testBit 23 = false := Nat.testBit_lt_two_pow (by omega)
  rw [toNat_shift]
  split_ifs with hpar
  · rw [hlow, decide_eq_false (by omega)]
  · rw [Nat.testBit_xor, hlow, decide_eq_true (by omega)]
    rfl

theorem is24Bit_shift (hx : Is24Bit x) : Is24Bit (shift x) := by
  obtain ⟨hne, hlt⟩ := hx
  have hpos : x.toNat ≠ 0 := fun h => hne (UInt32.toNat_inj.mp h)
  have htop := testBit_shift hlt
  constructor
  · intro hzero
    rw [hzero] at htop
    have heven : ¬ x.toNat % 2 = 1 := by simpa using htop.symm
    have hhalf := toNat_shift x
    rw [hzero, if_pos (by omega)] at hhalf
    have hdiv : 0 = x.toNat / 2 := hhalf
    omega
  · rw [toNat_shift]
    split_ifs
    · omega
    · exact Nat.xor_lt_two_pow (by omega) (by decide)

/-- **The step is injective.** -/
theorem injOn_shift : Set.InjOn shift {x | Is24Bit x} := by
  rintro x ⟨-, hx⟩ y ⟨-, hy⟩ h
  have hparity : x.toNat % 2 = y.toNat % 2 := by
    have htop := testBit_shift hx
    rw [h, testBit_shift hy] at htop
    have := decide_eq_decide.mp htop
    omega
  have hnat := congrArg UInt32.toNat h
  rw [toNat_shift, toNat_shift, hparity] at hnat
  have hhalf : x.toNat / 2 = y.toNat / 2 := by
    split_ifs at hnat
    · exact hnat
    · exact Nat.xor_left_inj.mp hnat
  apply UInt32.toNat_inj.mp
  omega

/-- The register, its seed and the mask of the indices drawn. -/
structure IndexLfsr where
  initial : UInt32
  lfsr : UInt32
  mask : UInt32
  initial_is24Bit : Is24Bit initial
  lfsr_is24Bit : Is24Bit lfsr
  mask_is24Bit : Is24Bit mask

namespace IndexLfsr

/-- `IndexLfsr::default`, from two random numbers. -/
def new (seed mask : UInt32) (hseed : Is24Bit seed) (hmask : Is24Bit mask) : IndexLfsr :=
  ⟨seed, seed, mask, hseed, hseed, hmask⟩

/-- Generate the next value in the pseudorandom sequence; `none` is the assertion. -/
def next (l : IndexLfsr) : Option (IndexLfsr × UInt32) :=
  let value := l.lfsr - 1 -- lfsr will never have value of 0
  if shift l.lfsr = l.initial then none
  else
    some ({ l with lfsr := shift l.lfsr, lfsr_is24Bit := is24Bit_shift l.lfsr_is24Bit },
      value ^^^ l.mask)

/-- The register has been stepped `k` times without coming back to its seed. -/
structure Stepped (l : IndexLfsr) (k : ℕ) : Prop where
  lfsr_eq : l.lfsr = shift^[k] l.initial
  ne_initial : ∀ d, 0 < d → d ≤ k → shift^[d] l.initial ≠ l.initial

/-- The index drawn when the register has this value. -/
def draw (l : IndexLfsr) (lfsr : UInt32) : UInt32 := (lfsr - 1) ^^^ l.mask

/-- The index is one of the first `k` drawn. -/
def Drawn (l : IndexLfsr) (k : ℕ) (v : UInt32) : Prop := ∃ j < k, v = l.draw (shift^[j] l.initial)

variable {l l' : IndexLfsr} {v w : UInt32} {k : ℕ}

theorem stepped_new {seed mask : UInt32} {hseed : Is24Bit seed} {hmask : Is24Bit mask} :
    (new seed mask hseed hmask).Stepped 0 :=
  ⟨rfl, fun d hpos hle => absurd hle (by omega)⟩

/-- What a draw does. -/
theorem next_eq_some (h : l.next = some (l', v)) :
    shift l.lfsr ≠ l.initial ∧ v = l.draw l.lfsr ∧
      l'.initial = l.initial ∧ l'.lfsr = shift l.lfsr ∧ l'.mask = l.mask := by
  rw [next] at h
  split_ifs at h with hne
  cases h
  exact ⟨hne, rfl, rfl, rfl, rfl⟩

theorem Stepped.next (h : l.Stepped k) (hnext : l.next = some (l', v)) : l'.Stepped (k + 1) := by
  obtain ⟨hne, -, hinitial, hlfsr, -⟩ := next_eq_some hnext
  refine ⟨?_, fun d hpos hle => ?_⟩
  · rw [hinitial, hlfsr, h.lfsr_eq, Function.iterate_succ_apply']
  · rw [hinitial]
    rcases Nat.lt_or_eq_of_le hle with hlt | rfl
    · exact h.ne_initial d hpos (by omega)
    · rw [Function.iterate_succ_apply', ← h.lfsr_eq]
      exact hne

/-- Before the register comes back to its seed, its values are distinct. -/
theorem Stepped.iterate_ne (h : l.Stepped k) {i j : ℕ} (hij : i < j) (hj : j ≤ k) :
    shift^[i] l.initial ≠ shift^[j] l.initial := by
  intro heq
  have hmaps : Set.MapsTo shift {x | Is24Bit x} {x | Is24Bit x} := fun x hx => is24Bit_shift hx
  have hsplit : shift^[j] l.initial = shift^[i] (shift^[j - i] l.initial) := by
    rw [← Function.iterate_add_apply]
    congr 1
    omega
  rw [hsplit] at heq
  have hback := (injOn_shift.iterate hmaps i) l.initial_is24Bit
    (hmaps.iterate (j - i) l.initial_is24Bit) heq
  exact h.ne_initial (j - i) (by omega) (by omega) hback.symm

theorem toNat_draw (l : IndexLfsr) (hx : Is24Bit x) :
    (l.draw x).toNat = (x.toNat - 1) ^^^ l.mask.toNat := by
  have hpos : x.toNat ≠ 0 := fun h => hx.1 (UInt32.toNat_inj.mp h)
  have hone : (1 : UInt32) ≤ x := UInt32.le_iff_toNat_le.mpr (Nat.one_le_iff_ne_zero.mpr hpos)
  rw [draw, UInt32.toNat_xor, UInt32.toNat_sub_of_le _ _ hone]
  rfl

theorem draw_injOn (l : IndexLfsr) : Set.InjOn l.draw {x | Is24Bit x} := by
  intro x hx y hy h
  have hnat := congrArg UInt32.toNat h
  rw [toNat_draw l hx, toNat_draw l hy] at hnat
  have hsub := Nat.xor_left_inj.mp hnat
  have hxpos : x.toNat ≠ 0 := fun h => hx.1 (UInt32.toNat_inj.mp h)
  have hypos : y.toNat ≠ 0 := fun h => hy.1 (UInt32.toNat_inj.mp h)
  apply UInt32.toNat_inj.mp
  omega

theorem iterate_is24Bit (l : IndexLfsr) (k : ℕ) : Is24Bit (shift^[k] l.initial) := by
  induction k with
  | zero => exact l.initial_is24Bit
  | succ k ih =>
    rw [Function.iterate_succ_apply']
    exact is24Bit_shift ih

/-- **A draw** is of an index below `2 ^ 24` that has not been drawn before. -/
theorem next_drawn (h : l.Stepped k) (hnext : l.next = some (l', v)) :
    l'.Stepped (k + 1) ∧ l'.Drawn (k + 1) v ∧ (∀ w, l.Drawn k w → l'.Drawn (k + 1) w ∧ w ≠ v) ∧
      v.toNat < 2 ^ 24 := by
  have hstepped := h.next hnext
  obtain ⟨-, rfl, hinitial, -, hmask⟩ := next_eq_some hnext
  have hdraw : ∀ x, l'.draw x = l.draw x := fun x => by rw [draw, draw, hmask]
  refine ⟨hstepped, ⟨k, by omega, ?_⟩, ?_, ?_⟩
  · rw [hdraw, hinitial, h.lfsr_eq]
  · rintro w ⟨j, hj, rfl⟩
    refine ⟨⟨j, by omega, by rw [hdraw, hinitial]⟩, fun heq => ?_⟩
    have hvalue := l.draw_injOn (l.iterate_is24Bit j) l.lfsr_is24Bit heq
    rw [h.lfsr_eq] at hvalue
    exact h.iterate_ne hj le_rfl hvalue
  · rw [toNat_draw l l.lfsr_is24Bit]
    have hlt := l.lfsr_is24Bit.2
    exact Nat.xor_lt_two_pow (by omega) l.mask_is24Bit.2

end IndexLfsr

end NekoLink.Device
