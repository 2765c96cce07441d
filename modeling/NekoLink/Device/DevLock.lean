import NekoLink.Foundations.Interleaving

/-!
# The device lock

A thread holds its read lock on the device for as long as it likes, and a thread that wants to write
asks the others to give theirs up. The functions of `dev_lock.rs` are taken apart into their atomic
steps: each takes or releases the mutex of `wants_write` or the lock `inner`, or waits on the
condition variable. What a thread does while nobody else can look belongs to the step before.

* `Inv.step`: what the state of the lock says about the places of the threads.
* `mut_func_alone`: `mut_func` runs alone and on the data that `prep_func` saw, whatever the threads
  do in between.
* `lock_makes_way`: a thread inside the lock can go on, or a writer waits for a thread that keeps
  its guard.
-/

namespace NekoLink.Device

open Interleaving

variable {T : Type}

/-! ## The lock -/

/-- `wants_write` with its mutex and condition variable, and `inner`. -/
structure Lock (T : Type) where
  /-- The mutex of `wants_write` is taken. -/
  mutex : Bool
  wantsWrite : Bool
  /-- How often `notify_all` was called: a thread that waits since before the last of them has been
  woken. -/
  notified : ℕ
  /-- The read locks on `inner`. -/
  readers : ℕ
  /-- A writer is at `inner`: from when it waits for the readers to leave until it is done, and no
  read lock is given in that time. -/
  writer : Bool
  userData : T

def Lock.new (userData : T) : Lock T := ⟨false, false, 0, 0, false, userData⟩

namespace DevLock

/-- Where a thread is in the code of the lock. A write carries its `mut_func`, and from `prep_func`
on the data that this saw. -/
inductive Place (T : Type)
  /-- Without a guard, and in none of the functions. -/
  | outside
  /-- In `read`: `lock.lock()` is next. -/
  | readLock
  /-- `while *wants_write` -/
  | readCheck
  | readWait (ticket : ℕ)
  /-- `self.inner.read()` -/
  | readInner
  /-- The guard is made, and the mutex is released. -/
  | readUnlock
  /-- The thread has a `LockReadGuard` and is in none of the functions. -/
  | guarded
  /-- In `try_writeable`: `lock.lock()` is next. -/
  | tryLock (mutFunc : T → T)
  /-- The first `RwLockReadGuard::unlocked` -/
  | unlock (mutFunc : T → T)
  /-- `while *wants_write` -/
  | tryCheck (mutFunc : T → T)
  | tryWait (mutFunc : T → T) (ticket : ℕ)
  /-- Woken, and the mutex is next. -/
  | tryRelock (mutFunc : T → T)
  /-- `*wants_write = true` is done, and `unlocked` takes its read lock again. -/
  | reread (mutFunc : T → T)
  /-- `prep_func(&*self.inner)` -/
  | prep (mutFunc : T → T)
  /-- The second `RwLockReadGuard::unlocked` -/
  | release (mutFunc : T → T) (seen : T)
  /-- `lock.write()`, which first takes the place of the writer. -/
  | announce (mutFunc : T → T) (seen : T)
  /-- `lock.write()`, which then waits for the readers to leave. -/
  | drain (mutFunc : T → T) (seen : T)
  /-- `mut_func(&mut *write_access)` -/
  | write (mutFunc : T → T) (seen : T)
  /-- `write_access` is dropped, and `unlocked` takes its read lock again. -/
  | regain
  /-- The last `lock.lock()` -/
  | signal
  /-- `*wants_write = false` and `notify_all` -/
  | reset

/-- What a thread does with the lock where the code of the lock does not say it. -/
inductive Ask (T : Type)
  | read
  | drop
  | tryWriteable (mutFunc : T → T)
  /-- The next step of the function that it is in. -/
  | go

/-- The next atomic step of a thread; a lock that is taken and a wait that nobody ended have to be
waited for. -/
def atomic (_ : ℕ) (s : Lock T) : Place T → Ask T → Option (Lock T × Place T)
  | .outside, .read => some (s, .readLock)
  | .readLock, .go => if s.mutex then none else some ({ s with mutex := true }, .readCheck)
  | .readCheck, .go =>
    if s.wantsWrite then some ({ s with mutex := false }, .readWait s.notified)
    else some (s, .readInner)
  | .readWait ticket, .go => if s.notified = ticket then none else some (s, .readLock)
  | .readInner, .go =>
    if s.writer then none else some ({ s with readers := s.readers + 1 }, .readUnlock)
  | .readUnlock, .go => some ({ s with mutex := false }, .guarded)
  | .guarded, .drop => some ({ s with readers := s.readers - 1 }, .outside)
  | .guarded, .tryWriteable mutFunc => some (s, .tryLock mutFunc)
  | .tryLock f, .go => if s.mutex then none else some ({ s with mutex := true }, .unlock f)
  | .unlock f, .go => some ({ s with readers := s.readers - 1 }, .tryCheck f)
  | .tryCheck f, .go =>
    if s.wantsWrite then some ({ s with mutex := false }, .tryWait f s.notified)
    else some ({ s with mutex := false, wantsWrite := true }, .reread f)
  | .tryWait f ticket, .go => if s.notified = ticket then none else some (s, .tryRelock f)
  | .tryRelock f, .go => if s.mutex then none else some ({ s with mutex := true }, .tryCheck f)
  | .reread f, .go => if s.writer then none else some ({ s with readers := s.readers + 1 }, .prep f)
  | .prep f, .go => some (s, .release f s.userData)
  | .release f seen, .go => some ({ s with readers := s.readers - 1 }, .announce f seen)
  | .announce f seen, .go =>
    if s.writer then none else some ({ s with writer := true }, .drain f seen)
  | .drain f seen, .go => if s.readers = 0 then some (s, .write f seen) else none
  | .write f _, .go => some ({ s with writer := false, userData := f s.userData }, .regain)
  | .regain, .go => if s.writer then none else some ({ s with readers := s.readers + 1 }, .signal)
  | .signal, .go => if s.mutex then none else some ({ s with mutex := true }, .reset)
  | .reset, .go =>
    some ({ s with mutex := false, wantsWrite := false, notified := s.notified + 1 }, .guarded)
  | _, _ => none

/-- Any number of threads over one lock. -/
def start (userData : T) : Pool (Lock T) (Place T) := ⟨Lock.new userData, []⟩

abbrev enter (_ : Unit) : Place T := .outside

/-! ## What a place says -/

namespace Place

/-- The thread has the mutex of `wants_write`. -/
def hasMutex : Place T → Bool
  | readCheck | readInner | readUnlock | unlock _ | tryCheck _ | reset => true
  | _ => false

/-- The thread has a read lock on `inner`. -/
def reads : Place T → Bool
  | readUnlock | guarded | tryLock _ | unlock _ | prep _ | release .. | signal | reset => true
  | _ => false

/-- The thread has the place of the writer at `inner`. -/
def isWriter : Place T → Bool
  | drain .. | write .. => true
  | _ => false

/-- The thread has set `wants_write`. -/
def claims : Place T → Bool
  | reread _ | prep _ | release .. | announce .. | drain .. | write .. | regain | signal
  | reset => true
  | _ => false

/-- The thread is in one of the functions. -/
def busy : Place T → Bool
  | outside | guarded => false
  | _ => true

/-- What a thread relies on at its place. -/
def Sound (s : Lock T) : Place T → Prop
  | readWait ticket | tryWait _ ticket =>
    ticket ≤ s.notified ∧ (ticket = s.notified → s.wantsWrite = true)
  | readInner | readUnlock => s.wantsWrite = false
  | release _ seen | announce _ seen | drain _ seen => seen = s.userData
  | write _ seen => seen = s.userData ∧ s.readers = 0
  | _ => True

theorem claims_of_isWriter {k : Place T} (h : k.isWriter = true) : k.claims = true := by
  cases k with
  | drain f seen => rfl
  | write f seen => rfl
  | _ => cases h

end Place

/-! ## One step -/

variable {s s' : Lock T} {k k' : Place T} {a : Ask T} {i : ℕ}

/-- What a step adds to the counts of the lock, its place adds to the places of the threads. -/
structure Counted (s s' : Lock T) (k k' : Place T) : Prop where
  mutex : s'.mutex.toNat + k.hasMutex.toNat = s.mutex.toNat + k'.hasMutex.toNat
  readers : s'.readers + k.reads.toNat = s.readers + k'.reads.toNat
  writer : s'.writer.toNat + k.isWriter.toNat = s.writer.toNat + k'.isWriter.toNat
  wantsWrite : s'.wantsWrite.toNat + k.claims.toNat = s.wantsWrite.toNat + k'.claims.toNat

theorem counted_of_atomic (h : atomic i s k a = some (s', k'))
    (hmutex : k.hasMutex = true → s.mutex = true) (hreads : k.reads = true → 0 < s.readers)
    (hwriter : k.isWriter = true → s.writer = true)
    (hclaims : k.claims = true → s.wantsWrite = true) : Counted s s' k k' := by
  cases k <;> cases a <;> simp only [atomic, reduceCtorEq] at h
  all_goals first
    | (split_ifs at h <;> cases h)
    | cases h
  all_goals
    constructor <;> simp_all [Place.hasMutex, Place.reads, Place.isWriter, Place.claims] <;> omega

/-- What a step leaves to the other threads. -/
structure Leaves (s s' : Lock T) (k : Place T) : Prop where
  notified : s.notified ≤ s'.notified
  waiting : s'.notified = s.notified → s.wantsWrite = true → s'.wantsWrite = true
  entering : s.wantsWrite = false → s'.wantsWrite = true → k.hasMutex = true
  userData : s'.userData = s.userData ∨ k.isWriter = true
  readers : s.writer = true → s'.readers ≤ s.readers

theorem leaves_of_atomic (h : atomic i s k a = some (s', k')) : Leaves s s' k := by
  cases k <;> cases a <;> simp only [atomic, reduceCtorEq] at h
  all_goals first
    | (split_ifs at h <;> cases h)
    | cases h
  all_goals constructor <;> simp_all [Place.hasMutex, Place.isWriter]

/-- The thread that takes the step relies on what it finds. -/
theorem sound_of_atomic (h : atomic i s k a = some (s', k')) (hsound : k.Sound s) :
    k'.Sound s' := by
  cases k <;> cases a <;> simp only [atomic, reduceCtorEq] at h
  all_goals first
    | (split_ifs at h <;> cases h)
    | cases h
  all_goals simp_all [Place.Sound]

/-- And so do the others, of whom none has the mutex with it, or the place of the writer. -/
theorem Leaves.sound {q : Place T} (h : Leaves s s' k) (hsound : q.Sound s)
    (hmutex : q.hasMutex = true → k.hasMutex = false)
    (hclaims : q.claims = true → k.claims = false)
    (hwriter : q.isWriter = true → s.writer = true) : q.Sound s' := by
  have hdata : q.claims = true → s'.userData = s.userData := fun hq =>
    h.userData.resolve_right fun hk =>
      Bool.false_ne_true ((hclaims hq).symm.trans (Place.claims_of_isWriter hk))
  cases q with
  | readWait ticket | tryWait f ticket =>
    obtain ⟨hle, hwait⟩ := hsound
    have hmono := h.notified
    refine ⟨Nat.le_trans hle hmono, fun heq => ?_⟩
    have hsame : s'.notified = s.notified := by omega
    exact h.waiting hsame (hwait (heq.trans hsame))
  | readInner | readUnlock =>
    by_contra hset
    exact Bool.false_ne_true ((hmutex rfl).symm.trans
      (h.entering hsound (by simpa [Place.Sound] using hset)))
  | release f seen | announce f seen | drain f seen =>
    exact Eq.trans hsound (hdata rfl).symm
  | write f seen =>
    exact ⟨hsound.1.trans (hdata rfl).symm,
      Nat.le_zero.mp (Nat.le_trans (h.readers (hwriter rfl)) (Nat.le_of_eq hsound.2))⟩
  | _ => trivial

/-! ## The invariant -/

/-- **What the lock knows of its threads.** -/
structure Inv (p : Pool (Lock T) (Place T)) : Prop where
  mutex : Tally Place.hasMutex (fun s => s.mutex.toNat) p
  readers : Tally Place.reads Lock.readers p
  writer : Tally Place.isWriter (fun s => s.writer.toNat) p
  claims : Tally Place.claims (fun s => s.wantsWrite.toNat) p
  sound : ∀ (j : ℕ) (k : Place T), p.procs[j]? = some k → k.Sound p.shared

theorem inv_start (userData : T) : Inv (start userData) where
  mutex := rfl
  readers := rfl
  writer := rfl
  claims := rfl
  sound j k hk := by simp [start] at hk

namespace Inv

variable {p p' : Pool (Lock T) (Place T)} {m : Move Unit (Ask T)} {o : Unit} {j : ℕ}
  {q : Place T}

theorem counted (h : Inv p) (hk : p.procs[i]? = some k)
    (hatomic : atomic i p.shared k a = some (s', k')) : Counted p.shared s' k k' :=
  counted_of_atomic hatomic (h.mutex.eq_true hk) (h.readers.pos hk) (h.writer.eq_true hk)
    (h.claims.eq_true hk)

theorem step (h : Inv p) (hstep : Interleaving.step enter atomic p m = some (p', o)) :
    Inv p' where
  mutex := h.mutex.step hstep (fun _ => rfl) fun _ _ _ _ _ hk hat => (h.counted hk hat).mutex
  readers := h.readers.step hstep (fun _ => rfl) fun _ _ _ _ _ hk hat => (h.counted hk hat).readers
  writer := h.writer.step hstep (fun _ => rfl) fun _ _ _ _ _ hk hat => (h.counted hk hat).writer
  claims := h.claims.step hstep (fun _ => rfl) fun _ _ _ _ _ hk hat =>
    (h.counted hk hat).wantsWrite
  sound := by
    refine forall_at_of_step h.sound hstep (fun _ => trivial) ?_
    intro i a k s' k' hk hatomic
    refine ⟨sound_of_atomic hatomic (h.sound i k hk), fun j q hj hq => ?_⟩
    refine (leaves_of_atomic hatomic).sound (h.sound j q hq) ?_ ?_ (h.writer.eq_true hq)
    · intro hmutex
      by_contra hk'
      exact hj (h.mutex.unique hq hk hmutex (by simpa using hk'))
    · intro hclaims
      by_contra hk'
      exact hj (h.claims.unique hq hk hclaims (by simpa using hk'))

/-- The writer is the thread that has set `wants_write`. -/
theorem writer_eq_false (h : Inv p) (hk : p.procs[i]? = some k) (hclaims : k.claims = true)
    (hwriter : k.isWriter = false) : p.shared.writer = false := by
  by_contra hset
  obtain ⟨j, q, hq, hq'⟩ := h.writer.exists_of_eq_true (by simpa using hset)
  have hij := h.claims.unique hk hq hclaims (Place.claims_of_isWriter hq')
  subst hij
  cases hk.symm.trans hq
  exact Bool.false_ne_true (hwriter.symm.trans hq')

theorem writer_eq_false_of_wantsWrite (h : Inv p) (hwants : p.shared.wantsWrite = false) :
    p.shared.writer = false := by
  by_contra hset
  obtain ⟨j, q, hq, hq'⟩ := h.writer.exists_of_eq_true (by simpa using hset)
  exact Bool.false_ne_true
    (hwants.symm.trans (h.claims.eq_true hq (Place.claims_of_isWriter hq')))

theorem of_reaches {userData : T} {Q : Pool (Lock T) (Place T) → Move Unit (Ask T) → Prop}
    (h : Machine.Reaches (Interleaving.step enter atomic) Q (start userData) p) : Inv p :=
  h.invariant (inv_start userData) fun _ _ _ _ hI _ hstep => hI.step hstep

end Inv

/-! ## Writes -/

/-- The `mut_func` that a step runs. -/
def applied (p : Pool (Lock T) (Place T)) : Move Unit (Ask T) → Option (T → T)
  | .go i .go =>
    match p.procs[i]? with
    | some (.write mutFunc _) => some mutFunc
    | _ => none
  | _ => none

section

variable {p p' : Pool (Lock T) (Place T)} {m : Move Unit (Ask T)} {o : Unit}

theorem userData_of_step (h : Interleaving.step enter atomic p m = some (p', o)) :
    p'.shared.userData = (applied p m).toList.foldl (fun data f => f data) p.shared.userData := by
  obtain ⟨call, rfl, rfl⟩ | ⟨i, a, k, s', k', rfl, hk, hatomic, rfl⟩ := step_cases h
  · rfl
  · cases k <;> cases a <;> simp only [atomic, reduceCtorEq] at hatomic
    all_goals first
      | (split_ifs at hatomic <;> cases hatomic)
      | cases hatomic
    all_goals simp [applied, hk]

/-- **A write is alone.** The data is what the `mut_func`s made of it, one after the other; and
while one of them runs, it is the data that its `prep_func` saw, no other thread has a read lock on
it, and none waits for it as a writer. -/
theorem mut_func_alone {userData : T} {log : List (T → T)}
    (h : Machine.Reaches (Machine.logged (Interleaving.step enter atomic) applied)
      (fun _ _ => True) (start userData, []) (p, log)) :
    p.shared.userData = log.foldl (fun data f => f data) userData ∧
      ∀ (i : ℕ) (f : T → T) (seen : T), p.procs[i]? = some (.write f seen) →
        seen = p.shared.userData ∧ ∀ (j : ℕ) (q : Place T), j ≠ i → p.procs[j]? = some q →
          q.reads = false ∧ q.claims = false := by
  have hinv : Inv p ∧ p.shared.userData = log.foldl (fun data f => f data) userData := by
    refine h.invariant (I := fun q => Inv q.1 ∧
      q.1.shared.userData = q.2.foldl (fun data f => f data) userData)
      ⟨inv_start userData, rfl⟩ ?_
    intro q m q' o hI _ hstep
    obtain ⟨hstep, hlog⟩ := Machine.logged_eq_some.mp hstep
    refine ⟨hI.1.step hstep, ?_⟩
    rw [userData_of_step hstep, hlog, List.foldl_append, hI.2]
  obtain ⟨hI, hdata⟩ := hinv
  refine ⟨hdata, fun i f seen hi => ?_⟩
  obtain ⟨hseen, hreaders⟩ : seen = p.shared.userData ∧ p.shared.readers = 0 := hI.sound i _ hi
  refine ⟨hseen, fun j q hj hq => ⟨?_, ?_⟩⟩
  · by_contra hreads
    have := hI.readers.pos hq (by simpa using hreads)
    omega
  · by_contra hclaims
    exact hj (hI.claims.unique hq hi (by simpa using hclaims) rfl)

end

/-- Two readers, of which the first writes when the second has left. -/
def sampleMoves : List (Move Unit (Ask ℕ)) :=
  [.enter (), .enter (), .go 0 .read] ++ List.replicate 4 (.go 0 .go) ++ [.go 1 .read] ++
    List.replicate 4 (.go 1 .go) ++ [.go 0 (.tryWriteable (· + 1))] ++
    List.replicate 7 (.go 0 .go) ++ [.go 1 .drop, .go 0 .go]

def sampleWriting : Pool (Lock ℕ) (Place ℕ) :=
  ⟨⟨false, true, 0, 0, true, 5⟩, [.write (· + 1) 5, .outside]⟩

theorem reaches_sampleWriting : Machine.Reaches (Interleaving.step enter atomic)
    (fun _ _ => True) (start 5) sampleWriting :=
  Machine.reaches_of_run
    (rfl : Machine.run (Interleaving.step enter atomic) (start 5) sampleMoves =
      some (sampleWriting, List.replicate 22 ()))

theorem mut_func_alone_sample :
    5 = sampleWriting.shared.userData ∧
      ∀ (j : ℕ) (q : Place ℕ), j ≠ 0 → sampleWriting.procs[j]? = some q →
        q.reads = false ∧ q.claims = false := by
  obtain ⟨log, h⟩ := reaches_sampleWriting.logged applied []
  exact (mut_func_alone h).2 0 (· + 1) 5 rfl

/-! ## Waiting -/

/-- A thread in one of the functions can take its next step. -/
def CanGo (p : Pool (Lock T) (Place T)) : Prop :=
  ∃ (j : ℕ) (q : Place T), p.procs[j]? = some q ∧ q.busy = true ∧
    (atomic j p.shared q .go).isSome = true

section

variable {p : Pool (Lock T) (Place T)}

/-- Who has the mutex never waits. -/
theorem canGo_of_mutex (h : Inv p) (hmutex : p.shared.mutex = true) : CanGo p := by
  obtain ⟨j, q, hq, hq'⟩ := h.mutex.exists_of_eq_true hmutex
  refine ⟨j, q, hq, ?_⟩
  cases q with
  | readInner =>
    have hwriter := h.writer_eq_false_of_wantsWrite (h.sound j _ hq)
    simp [Place.busy, atomic, hwriter]
  | readCheck | readUnlock | unlock f | tryCheck f | reset =>
    simp only [Place.busy, atomic, true_and]
    try split_ifs
    all_goals rfl
  | _ => cases hq'

/-- Who has set `wants_write` waits for a guard at most. -/
theorem canGo_of_claims (h : Inv p) (hmutex : p.shared.mutex = false)
    (hk : p.procs[i]? = some k) (hclaims : k.claims = true) :
    CanGo p ∨ ∃ (f : T → T) (seen : T) (l : ℕ),
      k = .drain f seen ∧ p.procs[l]? = some .guarded := by
  have hfree : ∀ {l : ℕ} {q : Place T}, p.procs[l]? = some q → q.hasMutex = false := by
    intro l q hq
    by_contra hset
    exact Bool.false_ne_true (hmutex.symm.trans (h.mutex.eq_true hq (by simpa using hset)))
  have hgo : k.busy = true ∧ (atomic i p.shared k .go).isSome = true → CanGo p :=
    fun hgo => ⟨i, k, hk, hgo⟩
  cases k with
  | reread f | announce f seen | regain =>
    have hwriter := h.writer_eq_false hk rfl rfl
    exact Or.inl (hgo (by simp [Place.busy, atomic, hwriter]))
  | prep f | release f seen | write f seen => exact Or.inl (hgo ⟨rfl, rfl⟩)
  | signal => exact Or.inl (hgo (by simp [Place.busy, atomic, hmutex]))
  | reset => cases hfree hk
  | drain f seen =>
    by_cases hreaders : p.shared.readers = 0
    · exact Or.inl (hgo (by simp [Place.busy, atomic, hreaders]))
    -- A reader is left: it has its guard, or is about to give up its lock.
    have hpos : 0 < p.procs.countP Place.reads := by
      have hcount : p.procs.countP Place.reads = p.shared.readers := h.readers
      omega
    obtain ⟨q, hmem, hreads⟩ := List.countP_pos_iff.mp hpos
    obtain ⟨l, hl⟩ := List.mem_iff_getElem?.mp hmem
    have hother : q.claims = false := by
      by_contra hset
      have hil := h.claims.unique hk hl rfl (by simpa using hset)
      subst hil
      cases hk.symm.trans hl
      cases hreads
    cases q with
    | guarded => exact Or.inr ⟨f, seen, l, rfl, hl⟩
    | tryLock f => exact Or.inl ⟨l, _, hl, by simp [Place.busy, atomic, hmutex]⟩
    | readUnlock | unlock f => cases hfree hl
    | prep f | release f seen | signal | reset => cases hother
    | _ => cases hreads
  | _ => cases hclaims

theorem makes_way (hI : Inv p) (hk : p.procs[i]? = some k) (hbusy : k.busy = true) :
    CanGo p ∨ ∃ (j l : ℕ) (f : T → T) (seen : T),
      p.procs[j]? = some (.drain f seen) ∧ p.procs[l]? = some .guarded := by
  by_cases hmutex : p.shared.mutex = true
  · exact Or.inl (canGo_of_mutex hI hmutex)
  rw [Bool.not_eq_true] at hmutex
  by_cases hwants : p.shared.wantsWrite = true
  · obtain ⟨j, q, hq, hclaims⟩ := hI.claims.exists_of_eq_true hwants
    obtain hgo | ⟨f, seen, l, rfl, hl⟩ := canGo_of_claims hI hmutex hq hclaims
    · exact Or.inl hgo
    · exact Or.inr ⟨j, l, f, seen, hq, hl⟩
  -- Without a write nobody waits but for the mutex.
  · have hgo : (atomic i p.shared k .go).isSome = true → CanGo p := fun hgo => ⟨i, k, hk, hbusy, hgo⟩
    have hfree : k.hasMutex = false := by
      by_contra hset
      exact Bool.false_ne_true (hmutex.symm.trans (hI.mutex.eq_true hk (by simpa using hset)))
    have hclaims : k.claims = false := by
      by_contra hset
      exact hwants (hI.claims.eq_true hk (by simpa using hset))
    cases k with
    | readLock | tryLock f | tryRelock f => exact Or.inl (hgo (by simp [atomic, hmutex]))
    | readWait ticket | tryWait f ticket =>
      have hsound := hI.sound i _ hk
      have hticket : p.shared.notified ≠ ticket := fun heq => hwants (hsound.2 heq.symm)
      exact Or.inl (hgo (by simp [atomic, hticket]))
    | outside | guarded => cases hbusy
    | readCheck | readInner | readUnlock | unlock f | tryCheck f => cases hfree
    | _ => cases hclaims

/-- **The lock makes way.** Whatever the threads have done, a thread that is in one of the functions
is not stuck: some thread in the lock can go on, or a writer waits for a thread that has its guard
and is in none of the functions. -/
theorem lock_makes_way {userData : T}
    (h : Machine.Reaches (Interleaving.step enter atomic) (fun _ _ => True) (start userData) p)
    (hk : p.procs[i]? = some k) (hbusy : k.busy = true) :
    CanGo p ∨ ∃ (j l : ℕ) (f : T → T) (seen : T),
      p.procs[j]? = some (.drain f seen) ∧ p.procs[l]? = some .guarded :=
  makes_way (Inv.of_reaches h) hk hbusy

theorem lock_makes_way_sample : CanGo sampleWriting ∨ ∃ (j l : ℕ) (f : ℕ → ℕ) (seen : ℕ),
    sampleWriting.procs[j]? = some (.drain f seen) ∧ sampleWriting.procs[l]? = some .guarded :=
  lock_makes_way (i := 0) reaches_sampleWriting rfl rfl

end

end DevLock

end NekoLink.Device
