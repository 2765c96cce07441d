import Mathlib.Data.Nat.Prime.Defs
import Mathlib.Order.Interval.Finset.Nat
import Mathlib.Tactic.NormNum.Prime
import NekoLink.Device.IndexLfsr
import NekoLink.Foundations.Orbits
import NekoLink.Noise.Indices

/-!
# Peer indices never repeat

The register of `IndexLfsr` goes through all nonzero 24-bit numbers before it comes back to its
seed. Here its fields are plain numbers, and a call panics when it subtracts from zero or when it
asserts.

* `oneCycle_halve`: the nonzero 24-bit numbers are one cycle.
* `Stepped.next_eq_none_iff`: when `next` asserts.
* `RawLfsr.next_toRaw`: the bounds of `IndexLfsr` are kept by the plain fields.
* **`RawLfsr.indices_never_repeat`**: the indices drawn are distinct 24-bit numbers, and the only
  panic is the assertion, after the whole cycle.
-/

namespace NekoLink.Device

open Function

/-! ## One cycle -/

/-- The step of the register on numbers. -/
def halve (x : ℕ) : ℕ := x / 2 ^^^ if x % 2 = 1 then lfsrPoly.toNat else 0

/-- The nonzero 24-bit numbers. -/
def nonzero24 : Finset ℕ := Finset.Ioo 0 (2 ^ 24)

/-- The primes of the length of the cycle. -/
def cyclePrimes : List ℕ := [3, 3, 5, 7, 13, 17, 241]

variable {x y : UInt32}

theorem prod_cyclePrimes : cyclePrimes.prod = 2 ^ 24 - 1 := by decide

theorem prime_of_mem_cyclePrimes : ∀ p ∈ cyclePrimes, p.Prime := by
  simp only [cyclePrimes, List.forall_mem_cons]
  norm_num

theorem card_nonzero24 : nonzero24.card = 2 ^ 24 - 1 := by
  rw [nonzero24, Nat.card_Ioo]
  rfl

theorem toNat_mem_nonzero24 : x.toNat ∈ nonzero24 ↔ Is24Bit x := by
  rw [nonzero24, Finset.mem_Ioo, Nat.pos_iff_ne_zero]
  exact and_congr_left fun _ => not_congr (UInt32.toNat_inj (b := 0))

theorem toNat_shift_eq (x : UInt32) : (shift x).toNat = halve x.toNat := by
  rw [toNat_shift, halve]
  split_ifs with heven hodd
  · omega
  · exact (Nat.xor_zero _).symm
  · rfl
  · omega

theorem toNat_iterate_shift (x : UInt32) (k : ℕ) : (shift^[k] x).toNat = halve^[k] x.toNat :=
  (show Semiconj UInt32.toNat shift halve from toNat_shift_eq).iterate_right k x

theorem linear_halve : Orbit.Linear halve := by
  intro x y
  have hbit : (if (x ^^^ y) % 2 = 1 then lfsrPoly.toNat else 0) =
      (if x % 2 = 1 then lfsrPoly.toNat else 0) ^^^ if y % 2 = 1 then lfsrPoly.toNat else 0 := by
    rw [Nat.xor_mod_two_eq]
    rcases Nat.mod_two_eq_zero_or_one x with hx | hx <;>
      rcases Nat.mod_two_eq_zero_or_one y with hy | hy <;>
      simp [hx, hy, Nat.add_mod]
  rw [halve, halve, halve, Nat.xor_div_two, hbit, Nat.xor_assoc, Nat.xor_assoc]
  congr 1
  rw [Nat.xor_left_comm]

theorem halve_lt {n : ℕ} (h : n < 2 ^ 24) : halve n < 2 ^ 24 := by
  refine Nat.xor_lt_two_pow (by omega) ?_
  split_ifs <;> decide

theorem halve_mem : ∀ n ∈ nonzero24, halve n ∈ nonzero24 := by
  intro n hn
  have hlt : n < 2 ^ 32 := (Finset.mem_Ioo.mp hn).2.trans (by decide)
  obtain ⟨x, rfl⟩ : ∃ x : UInt32, x.toNat = n := ⟨UInt32.ofNat n, UInt32.toNat_ofNat_of_lt hlt⟩
  rw [← toNat_shift_eq, toNat_mem_nonzero24]
  exact is24Bit_shift (toNat_mem_nonzero24.mp hn)

/-- The powers of the step that are computed. -/
theorem iterate_halve {n : ℕ} (h : n < 2 ^ 24) :
    halve^[n] 1 = Orbit.power 24 (Orbit.columns halve 24) n 1 :=
  (Orbit.power_columns linear_halve (fun _ => halve_lt) h (by decide)).symm

/-- The register comes back after the whole length, and after no part of it by a prime. -/
theorem minimalPeriod_one : minimalPeriod halve 1 = 2 ^ 24 - 1 := by
  rw [← prod_cyclePrimes]
  refine Orbit.minimalPeriod_eq_prod prime_of_mem_cyclePrimes ?_ fun p hp hperiod => ?_
  · rw [prod_cyclePrimes]
    refine (iterate_halve (by decide)).trans ?_
    decide +kernel
  · have hall : ∀ p ∈ cyclePrimes,
        Orbit.power 24 (Orbit.columns halve 24) ((2 ^ 24 - 1) / p) 1 ≠ 1 := by
      decide +kernel
    have hlt : (2 ^ 24 - 1) / p < 2 ^ 24 := (Nat.div_le_self _ p).trans_lt (by decide)
    refine hall p hp ?_
    rw [← iterate_halve hlt, ← prod_cyclePrimes]
    exact hperiod

/-- **The nonzero 24-bit numbers are one cycle.** -/
theorem oneCycle_halve : Orbit.OneCycle halve nonzero24 := by
  refine Orbit.OneCycle.of_mem halve_mem (Finset.mem_Ioo.mpr ⟨Nat.one_pos, by decide⟩) ?_
  rw [minimalPeriod_one, card_nonzero24]

theorem iterate_shift_eq_iff (hx : Is24Bit x) {d : ℕ} :
    shift^[d] x = x ↔ 2 ^ 24 - 1 ∣ d := by
  rw [← card_nonzero24, ← oneCycle_halve.iterate_eq_iff (toNat_mem_nonzero24.mpr hx),
    ← toNat_iterate_shift, UInt32.toNat_inj]

theorem exists_iterate_shift (hx : Is24Bit x) (hy : Is24Bit y) :
    ∃ j < 2 ^ 24 - 1, shift^[j] x = y := by
  obtain ⟨j, hj, heq⟩ := oneCycle_halve.exists_iterate _ (toNat_mem_nonzero24.mpr hx) _
    (toNat_mem_nonzero24.mpr hy)
  rw [card_nonzero24] at hj
  refine ⟨j, hj, UInt32.toNat_inj.mp ?_⟩
  rw [toNat_iterate_shift, heq]

namespace IndexLfsr

variable {l : IndexLfsr} {k : ℕ}

/-- The register is stepped less often than its cycle is long. -/
theorem Stepped.lt (h : l.Stepped k) : k < 2 ^ 24 - 1 := by
  by_contra hle
  exact h.ne_initial (2 ^ 24 - 1) (by decide) (by omega)
    ((iterate_shift_eq_iff l.initial_is24Bit).mpr dvd_rfl)

/-- **When the assertion fires.** -/
theorem Stepped.next_eq_none_iff (h : l.Stepped k) : l.next = none ↔ k + 1 = 2 ^ 24 - 1 := by
  have hnone : l.next = none ↔ shift^[k + 1] l.initial = l.initial := by
    rw [iterate_succ_apply', ← h.lfsr_eq, IndexLfsr.next]
    by_cases heq : shift l.lfsr = l.initial
    · exact iff_of_true (if_pos heq) heq
    · refine iff_of_false (fun hnone => ?_) heq
      cases (if_neg heq).symm.trans hnone
  rw [hnone, iterate_shift_eq_iff l.initial_is24Bit]
  have hlt := h.lt
  constructor
  · intro hdvd
    have hle := Nat.le_of_dvd (by omega) hdvd
    omega
  · intro heq
    rw [heq]

end IndexLfsr

/-! ## Plain fields -/

/-- The fields of `IndexLfsr`, whatever their values are. -/
structure RawLfsr where
  initial : UInt32
  lfsr : UInt32
  mask : UInt32

/-- How a call of `next` panics. -/
inductive LfsrPanic
  /-- The subtraction overflows. -/
  | overflow
  /-- Too many peers created. -/
  | tooManyPeers
  deriving DecidableEq

namespace RawLfsr

/-- `IndexLfsr::default`, from two random numbers. -/
def new (seed mask : UInt32) : RawLfsr := ⟨seed, seed, mask⟩

/-- Generate the next value in the pseudorandom sequence. -/
def next (r : RawLfsr) : Except LfsrPanic (RawLfsr × UInt32) :=
  if r.lfsr = 0 then .error .overflow
  else if shift r.lfsr = r.initial then .error .tooManyPeers
  else .ok ({ r with lfsr := shift r.lfsr }, (r.lfsr - 1) ^^^ r.mask)

/-- The values of `n` calls, one after the other. -/
def calls : ℕ → RawLfsr → Except LfsrPanic (RawLfsr × List UInt32)
  | 0, r => .ok (r, [])
  | n + 1, r => do
    let (r, vs) ← calls n r
    let (r, v) ← r.next
    return (r, vs ++ [v])

end RawLfsr

/-- The fields without their bounds. -/
def IndexLfsr.toRaw (l : IndexLfsr) : RawLfsr := ⟨l.initial, l.lfsr, l.mask⟩

namespace RawLfsr

variable {l : IndexLfsr} {r r' : RawLfsr} {vs : List UInt32} {n : ℕ} {e : LfsrPanic}

/-- **The bounds are kept**: the plain fields do what those with bounds do. -/
theorem next_toRaw (l : IndexLfsr) :
    l.toRaw.next = match l.next with
      | some (l', v) => .ok (l'.toRaw, v)
      | none => .error .tooManyPeers := by
  have hne : ¬ l.toRaw.lfsr = 0 := l.lfsr_is24Bit.1
  rw [next, if_neg hne, IndexLfsr.next]
  by_cases heq : shift l.lfsr = l.initial
  · rw [if_pos heq, if_pos (show shift l.toRaw.lfsr = l.toRaw.initial from heq)]
  · rw [if_neg heq, if_neg (show ¬ shift l.toRaw.lfsr = l.toRaw.initial from heq)]
    rfl

theorem calls_succ_of_ok (h : calls n r = .ok (r', vs)) :
    calls (n + 1) r = r'.next.map fun q => (q.1, vs ++ [q.2]) := by
  rw [calls, h]
  change (r'.next.bind fun q => .ok (q.1, vs ++ [q.2])) = _
  cases r'.next <;> rfl

theorem calls_succ_of_error (h : calls n r = .error e) : calls (n + 1) r = .error e := by
  rw [calls, h]
  rfl

end RawLfsr

/-! ## Runs of calls -/

namespace IndexLfsr

variable {l : IndexLfsr} {n : ℕ}

/-- The register after `n` steps from its seed. -/
def after (l : IndexLfsr) (n : ℕ) : IndexLfsr :=
  { l with lfsr := shift^[n] l.initial, lfsr_is24Bit := l.iterate_is24Bit n }

/-- The indices drawn from the first `n` values of the register. -/
def drawn (l : IndexLfsr) (n : ℕ) : List UInt32 :=
  (List.range n).map fun j => l.draw (shift^[j] l.initial)

theorem stepped_after (h : n < 2 ^ 24 - 1) : (l.after n).Stepped n := by
  refine ⟨rfl, fun d hpos hle heq => ?_⟩
  have hdvd := (iterate_shift_eq_iff l.initial_is24Bit).mp heq
  have hge := Nat.le_of_dvd hpos hdvd
  omega

/-- A call before the last value of the cycle. -/
theorem next_after (h : n + 1 < 2 ^ 24 - 1) :
    (l.after n).next = some (l.after (n + 1), l.draw (shift^[n] l.initial)) := by
  have hstepped : (l.after n).Stepped n := stepped_after (by omega)
  have hsome : (l.after n).next ≠ none := fun hnone => by
    have hlast := hstepped.next_eq_none_iff.mp hnone
    omega
  obtain ⟨⟨l', v⟩, hnext⟩ := Option.ne_none_iff_exists'.mp hsome
  obtain ⟨hne, hv, hinitial, hlfsr, hmask⟩ := next_eq_some hnext
  have hstep : shift (shift^[n] l.initial) = shift^[n + 1] l.initial :=
    (iterate_succ_apply' _ _ _).symm
  rw [hnext]
  obtain ⟨initial, lfsr, mask, _, _, _⟩ := l'
  obtain rfl : initial = l.initial := hinitial
  obtain rfl : mask = l.mask := hmask
  obtain rfl : lfsr = shift^[n + 1] l.initial := hlfsr.trans hstep
  rw [hv]
  rfl

theorem drawn_succ (l : IndexLfsr) (n : ℕ) :
    l.drawn (n + 1) = l.drawn n ++ [l.draw (shift^[n] l.initial)] := by
  rw [drawn, List.range_succ, List.map_append]
  rfl

theorem nodup_drawn (h : n < 2 ^ 24 - 1) : (l.drawn n).Nodup := by
  refine List.Nodup.map_on (fun i hi j hj heq => ?_) List.nodup_range
  have hvalue := l.draw_injOn (l.iterate_is24Bit i) (l.iterate_is24Bit j) heq
  have hstepped : (l.after n).Stepped n := stepped_after h
  rw [List.mem_range] at hi hj
  rcases Nat.lt_trichotomy i j with hlt | hij | hlt
  · exact absurd hvalue (hstepped.iterate_ne hlt hj.le)
  · exact hij
  · exact absurd hvalue.symm (hstepped.iterate_ne hlt hi.le)

theorem lt_of_mem_drawn {v : UInt32} (h : v ∈ l.drawn n) : v.toNat < 2 ^ 24 := by
  obtain ⟨j, -, rfl⟩ := List.mem_map.mp h
  have hstate := l.iterate_is24Bit j
  rw [toNat_draw l hstate]
  have hlt := hstate.2
  exact Nat.xor_lt_two_pow (by omega) l.mask_is24Bit.2

end IndexLfsr

namespace RawLfsr

variable {l : IndexLfsr} {n : ℕ}

/-- The calls before the assertion fires. -/
theorem calls_eq_ok (h : n < 2 ^ 24 - 1) :
    calls n (l.after 0).toRaw = .ok ((l.after n).toRaw, l.drawn n) := by
  induction n with
  | zero => rfl
  | succ n ih =>
    rw [calls_succ_of_ok (ih (by omega)), next_toRaw, IndexLfsr.next_after h, IndexLfsr.drawn_succ]
    rfl

/-- The call for the last value of the cycle, and those after it. -/
theorem calls_eq_error (h : 2 ^ 24 - 1 ≤ n) :
    calls n (l.after 0).toRaw = .error .tooManyPeers := by
  induction n, h using Nat.le_induction with
  | base =>
    have hlast : (l.after (2 ^ 24 - 2)).next = none :=
      (IndexLfsr.stepped_after (by decide)).next_eq_none_iff.mpr (by decide)
    have hcalls : calls (2 ^ 24 - 2) (l.after 0).toRaw = _ := calls_eq_ok (by decide)
    rw [show 2 ^ 24 - 1 = (2 ^ 24 - 2) + 1 by decide, calls_succ_of_ok hcalls, next_toRaw, hlast]
    rfl
  | succ n _ ih => exact calls_succ_of_error ih

variable {seed mask : UInt32}

/-- **Indices never repeat**: those that `n` calls draw are distinct 24-bit numbers, the register is
not zero, and a call panics only when it asserts, from the one that takes the last of all nonzero
24-bit numbers as its state. -/
theorem indices_never_repeat (hseed : Is24Bit seed) (hmask : Is24Bit mask) (n : ℕ) :
    (∀ r vs, calls n (new seed mask) = .ok (r, vs) →
      vs.length = n ∧ vs.Nodup ∧ (∀ v ∈ vs, v.toNat < 2 ^ 24 ∧ (v <<< 8) >>> 8 = v) ∧
        r.lfsr ≠ 0) ∧
    (∀ e, calls n (new seed mask) = .error e ↔ e = .tooManyPeers ∧ 2 ^ 24 - 1 ≤ n) ∧
    ∀ x, Is24Bit x →
      ∃ j < 2 ^ 24 - 1, ∃ r vs, calls j (new seed mask) = .ok (r, vs) ∧ r.lfsr = x := by
  obtain ⟨l, hl⟩ : ∃ l : IndexLfsr, (l.after 0).toRaw = new seed mask :=
    ⟨.new seed mask hseed hmask, rfl⟩
  rw [← hl]
  refine ⟨fun r vs hcalls => ?_, fun e => ?_, fun x hx => ?_⟩
  · have hlt : n < 2 ^ 24 - 1 := by
      by_contra hle
      cases hcalls.symm.trans (calls_eq_error (not_lt.mp hle))
    cases hcalls.symm.trans (calls_eq_ok hlt)
    refine ⟨by rw [IndexLfsr.drawn, List.length_map, List.length_range],
      IndexLfsr.nodup_drawn hlt, fun v hv => ?_, (l.after n).lfsr_is24Bit.1⟩
    have hbound := IndexLfsr.lt_of_mem_drawn hv
    exact ⟨hbound, Noise.Tunn.isUpper_shiftLeft hbound⟩
  · rcases Nat.lt_or_ge n (2 ^ 24 - 1) with hlt | hle
    · rw [calls_eq_ok hlt]
      exact iff_of_false nofun fun h => absurd h.2 (by omega)
    · rw [calls_eq_error hle]
      constructor
      · intro heq
        cases heq
        exact ⟨rfl, hle⟩
      · rintro ⟨rfl, -⟩
        rfl
  · obtain ⟨j, hj, rfl⟩ := exists_iterate_shift l.initial_is24Bit hx
    exact ⟨j, hj, _, _, calls_eq_ok hj, rfl⟩

theorem indices_never_repeat_sample :
    ∃ r vs, calls 3 (new 1 0x5a) = .ok (r, vs) ∧ vs = [0x5a, 0xd7ffa5, 0x6bffa5] ∧ vs.Nodup := by
  have hseed : Is24Bit 1 := ⟨by decide, by decide⟩
  have hmask : Is24Bit 0x5a := ⟨by decide, by decide⟩
  have hcalls : calls 3 (new 1 0x5a) = .ok (⟨1, 0x360000, 0x5a⟩, [0x5a, 0xd7ffa5, 0x6bffa5]) := rfl
  exact ⟨_, _, hcalls, rfl, ((indices_never_repeat hseed hmask 3).1 _ _ hcalls).2.1⟩

end RawLfsr

end NekoLink.Device
