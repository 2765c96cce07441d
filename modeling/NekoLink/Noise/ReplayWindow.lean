import NekoLink.Foundations.Runs
import NekoLink.Noise.Replay

/-!
# Runs of the receiving-counter validator

A run is a list of calls of `will_accept` and `mark_did_receive`. A sum that leaves `u64` is a panic
in a checked build, and wraps around in a release build.

* `perform_spec`: what a call does when no counter near the limit is marked.
* `replay_window_exact`: both functions decide the window of the counters accepted.
* `counter_limit_iff`: the validator is safe in both builds exactly when every counter marked is
  more than 1024 below the limit.
-/

namespace NekoLink.Noise

open Replay

namespace ReceivingKeyCounterValidator

/-! ## Three kinds of arithmetic -/

/-- An addition in a release build. -/
def wrappingAdd (a b : ℕ) : ℕ := (a + b) % 2 ^ 64

section

variable (add : ℕ → ℕ → ℕ) (v : ReceivingKeyCounterValidator) (counter : ℕ)

def willAcceptWith : Except WireGuardError Unit :=
  if v.next ≤ counter then .ok ()
  else if add counter nBits < v.next then .error .invalidCounter
  else if !v.checkBit counter then .ok ()
  else .error .duplicateCounter

/-- A counter whose first sum wraps around and passes is more than 1024 ahead of the next one, so
that the sums in the loops of `skipTo` never wrap. -/
def markDidReceiveWith : ReceivingKeyCounterValidator × Except WireGuardError Unit :=
  if add counter nBits < v.next then (v, .error .invalidCounter)
  else if counter = v.next then ({ v.setBit counter with next := add v.next 1 }, .ok ())
  else if counter < v.next then
    if v.checkBit counter then (v, .error .invalidCounter) else (v.setBit counter, .ok ())
  else ({ (v.skipTo counter).setBit counter with next := add counter 1 }, .ok ())

end

inductive ValidatorCall
  | willAccept (counter : UInt64)
  | markDidReceive (counter : UInt64)

/-- A call in a checked build. -/
def perform (v : ReceivingKeyCounterValidator) :
    ValidatorCall → Option (ReceivingKeyCounterValidator × Except WireGuardError Unit)
  | .willAccept counter => (v.willAccept counter.toNat).map fun r => (v, r)
  | .markDidReceive counter => v.markDidReceive counter.toNat

/-- A call with an addition that never fails. -/
def performWith (add : ℕ → ℕ → ℕ) (v : ReceivingKeyCounterValidator) :
    ValidatorCall → ReceivingKeyCounterValidator × Except WireGuardError Unit
  | .willAccept counter => (v, v.willAcceptWith add counter.toNat)
  | .markDidReceive counter => v.markDidReceiveWith add counter.toNat

/-- The counter that a call has accepted. -/
def acceptedBy : ValidatorCall × Except WireGuardError Unit → Option ℕ
  | (.markDidReceive counter, .ok ()) => some counter.toNat
  | _ => none

/-- The counters that are accepted in a run. -/
def accepted (calls : List ValidatorCall) (answers : List (Except WireGuardError Unit)) : List ℕ :=
  (calls.zip answers).filterMap acceptedBy

/-- The validators after each call, and the answers. -/
def trace (add : ℕ → ℕ → ℕ) (v : ReceivingKeyCounterValidator) :
    List ValidatorCall → List (ReceivingKeyCounterValidator × Except WireGuardError Unit)
  | [] => []
  | call :: calls =>
    v.performWith add call :: trace add (v.performWith add call).1 calls

def answers (add : ℕ → ℕ → ℕ) (calls : List ValidatorCall) : List (Except WireGuardError Unit) :=
  (trace add default calls).map Prod.snd

/-- The next counters along a run. -/
def nexts (add : ℕ → ℕ → ℕ) (calls : List ValidatorCall) : List ℕ :=
  default.next :: (trace add default calls).map fun x => x.1.next

/-! ## One call -/

variable {v w : ReceivingKeyCounterValidator} {seen : Finset ℕ} {c : ℕ} {call : ValidatorCall}
  {calls : List ValidatorCall} {r : Except WireGuardError Unit}

/-- A call marks no counter near the limit. -/
def Within : ValidatorCall → Prop
  | .willAccept _ => True
  | .markDidReceive counter => counter.toNat + nBits < 2 ^ 64

theorem checkedAdd_eq_some {a b n : ℕ} (h : checkedAdd a b = some n) :
    n = a + b ∧ a + b < 2 ^ 64 := by
  rw [checkedAdd] at h
  split_ifs at h with hlt
  exact ⟨(Option.some.inj h).symm, hlt⟩

instance : DecidablePred Within
  | .willAccept _ => .isTrue trivial
  | .markDidReceive _ => inferInstanceAs (Decidable (_ < _))

/-- In a checked build a call panics, or its sums are exact. -/
theorem perform_eq_some (h : v.perform call = some (w, r)) :
    v.performWith (· + ·) call = (w, r) ∧ Within call := by
  cases call with
  | willAccept counter =>
    obtain ⟨r', hr, heq⟩ := Option.map_eq_some_iff.mp h
    obtain ⟨rfl, rfl⟩ := Prod.mk.inj heq
    refine ⟨Prod.ext rfl ?_, trivial⟩
    rw [willAccept] at hr
    rw [performWith, willAcceptWith]
    by_cases hnext : v.next ≤ counter.toNat
    · rw [if_pos hnext] at hr ⊢
      exact Option.some.inj hr
    · rw [if_neg hnext] at hr ⊢
      obtain ⟨limit, hlimit, heq⟩ := Option.map_eq_some_iff.mp hr
      rw [(checkedAdd_eq_some hlimit).1] at heq
      exact heq
  | markDidReceive counter =>
    rw [perform, markDidReceive] at h
    obtain ⟨limit, hlimit, heq⟩ := Option.map_eq_some_iff.mp h
    obtain ⟨rfl, hlt⟩ := checkedAdd_eq_some hlimit
    refine ⟨?_, hlt⟩
    rw [performWith, markDidReceiveWith]
    exact heq

/-- No sum wraps around when no counter near the limit has been or is marked. -/
theorem performWith_wrappingAdd (hnext : v.next + nBits ≤ 2 ^ 64) (hcall : Within call) :
    v.performWith wrappingAdd call = v.performWith (· + ·) call := by
  have hexact : ∀ {a b : ℕ}, a + b < 2 ^ 64 → wrappingAdd a b = a + b := Nat.mod_eq_of_lt
  have hbits : 1 < nBits := by decide
  cases call with
  | willAccept counter =>
    rw [performWith, performWith, willAcceptWith, willAcceptWith]
    by_cases hge : v.next ≤ counter.toNat
    · rw [if_pos hge, if_pos hge]
    · rw [if_neg hge, if_neg hge, hexact (by omega)]
  | markDidReceive counter =>
    have hlt : counter.toNat + nBits < 2 ^ 64 := hcall
    rw [performWith, performWith, markDidReceiveWith, markDidReceiveWith, hexact hlt,
      hexact (a := v.next) (b := 1) (by omega), hexact (a := counter.toNat) (b := 1) (by omega)]

/-- The set accepted after a call. -/
def seenAfter (seen : Finset ℕ) (call : ValidatorCall) (r : Except WireGuardError Unit) :
    Finset ℕ :=
  seen ∪ (acceptedBy (call, r)).toFinset

/-- **What a call does** when no counter near the limit has been or is marked. -/
theorem perform_spec (h : v.Represents seen) (hnext : v.next + nBits ≤ 2 ^ 64)
    (hcall : Within call) :
    ∃ w r, v.perform call = some (w, r) ∧ w.Represents (seenAfter seen call r) ∧
      w.next + nBits ≤ 2 ^ 64 ∧ ∀ c ∈ acceptedBy (call, r), c ∉ seen := by
  cases call with
  | willAccept counter =>
    obtain ⟨r, hr⟩ := willAccept_isSome hnext counter.toNat
    refine ⟨v, r, by rw [perform, hr, Option.map_some], ?_, hnext, fun c hc => by cases hc⟩
    rw [seenAfter, acceptedBy, Option.toFinset_none, Finset.union_empty]
    · exact h
    · rintro counter ⟨⟩
  | markDidReceive counter =>
    have hlt : counter.toNat + nBits < 2 ^ 64 := hcall
    obtain ⟨w, r, hmark, hr, hsame, hrep⟩ := markDidReceive_spec h hlt
    refine ⟨w, r, hmark, ?_⟩
    by_cases ha : accepts nBits seen counter.toNat
    · obtain rfl := hr.mpr ha
      rw [receive_of_accepts ha] at hrep
      refine ⟨?_, ?_, ?_⟩
      · rw [seenAfter, acceptedBy, Option.toFinset_some, Finset.union_comm]
        exact hrep
      · rw [hrep.next_eq, next_insert, ← h.next_eq]
        omega
      · rintro c hc
        cases hc
        exact ha.1
    · rw [receive_of_not_accepts ha] at hrep
      obtain rfl := hsame ha
      have hnone : acceptedBy (.markDidReceive counter, r) = none := by
        rcases r with e | ⟨⟩
        · rfl
        · exact absurd (hr.mp rfl) ha
      rw [seenAfter, hnone, Option.toFinset_none, Finset.union_empty]
      exact ⟨hrep, hnext, fun c hc => by cases hc⟩

/-! ## Runs -/

theorem accepted_cons (call : ValidatorCall) (r : Except WireGuardError Unit)
    (answers : List (Except WireGuardError Unit)) :
    accepted (call :: calls) (r :: answers) =
      (acceptedBy (call, r)).toList ++ accepted calls answers := by
  rw [accepted, List.zip_cons_cons, List.filterMap_cons]
  cases acceptedBy (call, r) <;> rfl

/-- **What a run does** when no counter near the limit is marked: it has no panic, represents what
has been accepted, and nothing is accepted twice. -/
theorem run_perform (h : v.Represents seen) (hnext : v.next + nBits ≤ 2 ^ 64)
    (hcalls : ∀ call ∈ calls, Within call) :
    ∃ w answers, Machine.run perform v calls = some (w, answers) ∧
      w.Represents (seen ∪ (accepted calls answers).toFinset) ∧ w.next + nBits ≤ 2 ^ 64 ∧
      (accepted calls answers).Nodup ∧ ∀ c ∈ accepted calls answers, c ∉ seen := by
  induction calls generalizing v seen with
  | nil => exact ⟨v, [], rfl, by simpa [accepted] using h, hnext, .nil, fun c hc => by cases hc⟩
  | cons call calls ih =>
    obtain ⟨v₁, r, hstep, hrep, hnext₁, hnew⟩ := perform_spec h hnext (hcalls call List.mem_cons_self)
    obtain ⟨w, answers, hrun, hrep', hnext', hnodup, hnew'⟩ :=
      ih hrep hnext₁ fun call hcall => hcalls call (List.mem_cons_of_mem _ hcall)
    refine ⟨w, r :: answers, Machine.run_cons_eq_some.mpr ⟨v₁, r, answers, hstep, hrun, rfl⟩, ?_,
      hnext', ?_, ?_⟩
    · rw [accepted_cons, List.toFinset_append, ← Finset.union_assoc]
      have hsame : (acceptedBy (call, r)).toList.toFinset = (acceptedBy (call, r)).toFinset := by
        cases acceptedBy (call, r) <;> rfl
      rwa [hsame]
    · rw [accepted_cons, List.nodup_append]
      refine ⟨?_, hnodup, fun c hc c' hc' heq => ?_⟩
      · cases acceptedBy (call, r)
        · exact .nil
        · exact List.nodup_singleton _
      · refine hnew' c' hc' ?_
        rw [seenAfter, ← heq]
        exact Finset.mem_union_right _ (Option.mem_toFinset.mpr (Option.mem_toList.mp hc))
    · intro c hc
      rw [accepted_cons, List.mem_append] at hc
      rcases hc with hc | hc
      · exact hnew c (Option.mem_toList.mp hc)
      · exact fun hseen => hnew' c hc (Finset.mem_union_left _ hseen)

/-- **The replay window is exact**: after every run that marks no counter near the limit,
`mark_did_receive` takes exactly the counters that were not accepted and are at most 1024 behind the
next one, and `will_accept` answers for the same ones. -/
theorem replay_window_exact (hcalls : ∀ call ∈ calls, Within call) :
    ∃ v answers, Machine.run perform default calls = some (v, answers) ∧
      ∀ counter : UInt64, Within (.markDidReceive counter) → ∃ w r r',
        v.markDidReceive counter.toNat = some (w, r) ∧ v.willAccept counter.toNat = some r' ∧
        (r = .ok () ↔ counter.toNat ∉ accepted calls answers ∧
          Replay.next (accepted calls answers).toFinset ≤ counter.toNat + 1024) ∧
        (r' = .ok () ↔ r = .ok ()) := by
  obtain ⟨v, answers, hrun, hrep, -, -, -⟩ :=
    run_perform (v := default) represents_default (by decide) hcalls
  rw [Finset.empty_union] at hrep
  refine ⟨v, answers, hrun, fun counter hcounter => ?_⟩
  obtain ⟨w, r, hmark, hr, -, -⟩ := markDidReceive_spec hrep hcounter
  obtain ⟨r', haccept, hr'⟩ := willAccept_spec hrep hcounter
  refine ⟨w, r, r', hmark, haccept, ?_, hr'.trans hr.symm⟩
  rw [hr, accepts, List.mem_toFinset]
  rfl

/-- A counter is skipped, and another is too late. -/
def skippingRun : List ValidatorCall :=
  [.markDidReceive 0, .markDidReceive 1500, .markDidReceive 100]

/-- A counter 1024 behind the next one is still taken. -/
theorem replay_window_sample :
    ∃ v answers, Machine.run perform default skippingRun = some (v, answers) ∧
      accepted skippingRun answers = [0, 1500] ∧
      ∃ w, v.markDidReceive 477 = some (w, .ok ()) ∧ v.willAccept 477 = some (.ok ()) := by
  have hrun : (Machine.run perform default skippingRun).map
      (fun q => accepted skippingRun q.2) = some [0, 1500] := by decide +kernel
  obtain ⟨⟨v, answers⟩, hrun, haccepted⟩ := Option.map_eq_some_iff.mp hrun
  have hwithin : ∀ call ∈ skippingRun, Within call := by decide +kernel
  obtain ⟨v', answers', hrun', hall⟩ := replay_window_exact hwithin
  obtain ⟨rfl, rfl⟩ := Prod.mk.inj (Option.some.inj (hrun.symm.trans hrun'))
  obtain ⟨w, r, r', hmark, haccept, hr, hr'⟩ := hall 477 (by decide +kernel)
  rw [haccepted] at hr
  obtain rfl := hr.mpr (by decide +kernel)
  obtain rfl := hr'.mpr rfl
  exact ⟨v, answers, hrun, haccepted, w, hmark, haccept⟩

/-! ## The limit -/

/-- A run is safe at the limit: no sum leaves `u64` in a checked build, no answer of a release build
changes by wrapping, and there the next counter never decreases and nothing is accepted twice. -/
structure SafeAtLimit (calls : List ValidatorCall) : Prop where
  no_overflow : (Machine.run perform default calls).isSome
  same_answers : answers wrappingAdd calls = answers (· + ·) calls
  next_mono : (nexts wrappingAdd calls).Pairwise (· ≤ ·)
  once : (accepted calls (answers wrappingAdd calls)).Nodup

theorem within_of_run {results : List (Except WireGuardError Unit)}
    (h : Machine.run perform v calls = some (w, results)) : ∀ call ∈ calls, Within call := by
  induction calls generalizing v results with
  | nil => exact fun call hcall => by cases hcall
  | cons call calls ih =>
    obtain ⟨v₁, r, results', hstep, hrun, -⟩ := Machine.run_cons_eq_some.mp h
    intro call' hcall'
    rcases List.mem_cons.mp hcall' with rfl | hcall'
    · exact (perform_eq_some hstep).2
    · exact ih hrun call' hcall'

/-- Without an overflow a run is the same in a release build, and the next counter only grows. -/
theorem trace_spec {results : List (Except WireGuardError Unit)} (hrep : v.Represents seen)
    (hnext : v.next + nBits ≤ 2 ^ 64)
    (hrun : Machine.run perform v calls = some (w, results)) :
    trace wrappingAdd v calls = trace (· + ·) v calls ∧
      (trace wrappingAdd v calls).map Prod.snd = results ∧
      (v.next :: (trace wrappingAdd v calls).map fun x => x.1.next).Pairwise (· ≤ ·) := by
  induction calls generalizing v seen results with
  | nil =>
    cases hrun
    exact ⟨rfl, rfl, List.pairwise_singleton _ _⟩
  | cons call calls ih =>
    obtain ⟨v₁, r, results', hstep, hrest, rfl⟩ := Machine.run_cons_eq_some.mp hrun
    obtain ⟨hexact, hwithin⟩ := perform_eq_some hstep
    have hwrapping := (performWith_wrappingAdd hnext hwithin).trans hexact
    obtain ⟨v₂, r₂, hstep₂, hrep₁, hnext₁, -⟩ := perform_spec hrep hnext hwithin
    obtain ⟨rfl, rfl⟩ := Prod.mk.inj (Option.some.inj (hstep₂.symm.trans hstep))
    obtain ⟨htrace, hresults, hmono⟩ := ih hrep₁ hnext₁ hrest
    rw [trace, trace, hwrapping, hexact]
    refine ⟨by rw [htrace], by rw [List.map_cons, hresults], ?_⟩
    have hgrow : v.next ≤ v₂.next := by
      rw [hrep.next_eq, hrep₁.next_eq]
      exact next_mono Finset.subset_union_left
    refine List.pairwise_cons.mpr ⟨fun n hn => ?_, hmono⟩
    rcases List.mem_cons.mp hn with rfl | hn
    · exact hgrow
    · exact hgrow.trans ((List.pairwise_cons.mp hmono).1 n hn)

/-- **The validator is safe at the limit exactly when no counter near it is marked.** -/
theorem counter_limit_iff :
    SafeAtLimit calls ↔ ∀ counter, .markDidReceive counter ∈ calls →
      counter.toNat < 2 ^ 64 - 1024 := by
  have hbits : nBits = 1024 := rfl
  constructor
  · intro hsafe counter hcounter
    obtain ⟨⟨w, results⟩, hrun⟩ := Option.isSome_iff_exists.mp hsafe.no_overflow
    have hwithin : counter.toNat + nBits < 2 ^ 64 := within_of_run hrun _ hcounter
    omega
  · intro hcounters
    have hwithin : ∀ call ∈ calls, Within call := by
      intro call hcall
      cases call with
      | willAccept counter => trivial
      | markDidReceive counter =>
        have hlt := hcounters counter hcall
        show counter.toNat + nBits < 2 ^ 64
        omega
    obtain ⟨w, results, hrun, -, -, hnodup, -⟩ :=
      run_perform (v := default) represents_default (by decide) hwithin
    obtain ⟨htrace, hresults, hmono⟩ := trace_spec represents_default (by decide) hrun
    refine ⟨by rw [hrun]; rfl, by rw [answers, answers, htrace], hmono, ?_⟩
    rw [answers, hresults]
    exact hnodup

/-- The last counter comes between two packets with the counter 0. -/
def lastCounterRun : List ValidatorCall :=
  [.markDidReceive 0, .markDidReceive 18446744073709551615, .markDidReceive 0]

/-- **The last counter makes the window start again**: in a release build the counter 0 is accepted
a second time, and in a checked build there is a panic. -/
theorem last_counter_resets :
    Machine.run perform default lastCounterRun = none ∧
      nexts wrappingAdd lastCounterRun = [0, 1, 0, 1] ∧
      accepted lastCounterRun (answers wrappingAdd lastCounterRun) =
        [0, 18446744073709551615, 0] ∧ ¬SafeAtLimit lastCounterRun := by
  have hpanic : (Machine.run perform default lastCounterRun).isSome = false := by decide +kernel
  refine ⟨Option.not_isSome_iff_eq_none.mp (by rw [hpanic]; decide), by decide +kernel,
    by decide +kernel, fun hsafe => ?_⟩
  rw [hsafe.no_overflow] at hpanic
  cases hpanic

end ReceivingKeyCounterValidator

end NekoLink.Noise
