import NekoLink.Device.DevLock

/-!
# The worker threads and the device lock

`event_loop` keeps its guard while it waits for events. A set request writes through
`try_writeable` with `trigger_yield` for `prep_func`, and `cancel_yield` is the first thing that its
`mut_func` does; the yield notice is what makes the other threads give up their guards. The threads
run over the lock of `DevLock`, and what an event makes of them is left open.

* `reaches_lock`: a run of the threads is a run of the lock.
* `Inv.step`: the yield notice is up exactly while a thread is between its `prep_func` and its
  `mut_func`.
* `measure_lt_of_step`: what the threads do without an event lowers a measure.
* `threads_settle`: without further events the threads stop; those that wait keep their guards, no
  other guard is held, and no notice is up that a waiting thread has not seen.
-/

namespace NekoLink.Device

open Interleaving DevLock

variable {T : Type}

namespace Workers

/-! ## The threads -/

/-- A guard that is taken for one expression only. -/
inductive Short
  /-- `device.read().config`, `.iface` and the like. -/
  | look
  | triggerExit
  deriving DecidableEq

/-- What a thread has to do: first the guards that it takes for a moment, and then its loop, if it
has one. -/
structure Thread (T : Type) where
  place : Place T
  short : List Short
  loops : Bool

/-- The guards that `event_loop` takes before its loop. -/
def bootReads (i : ℕ) (useMultiQueue : Bool) : List Short :=
  if i = 0 then [.look, .look] -- `iface` and `uapi_fd`
  else if ¬useMultiQueue then [.look, .look, .look] -- and `config` before them
  -- `config`, the name for the new queue, `register_iface_handler` and `uapi_fd`
  else [.look, .look, .look, .look]

inductive Start
  | eventLoop (i : ℕ) (useMultiQueue : Bool)
  /-- `Drop for DeviceHandle`: `trigger_exit`, and the guard of `clean`. -/
  | dropHandle

def enter : Start → Thread T
  | .eventLoop i useMultiQueue => ⟨.outside, bootReads i useMultiQueue, true⟩
  | .dropHandle => ⟨.outside, [.triggerExit, .look], false⟩

/-- The lock of the device, and whether its notifiers are triggered. -/
structure Shared (T : Type) where
  lock : Lock T
  yieldNotice : Bool
  exitNotice : Bool

inductive Notice
  | yield
  | exit

/-- What a handler does, other than those of the notices. -/
inductive Event (T : Type)
  /-- It returns `Action::Continue`, or there is nothing to handle but an end of file or an error
  of the poll. -/
  | handled
  /-- It returns `Action::Exit`, or the end of file is the one of the control socket. -/
  | exit
  /-- It is the handler of the control socket, with a set request. -/
  | apiSet (body : T → T)

inductive Input (T : Type)
  /-- The next step of the code that the thread is in. -/
  | go
  /-- `queue.wait()` returns a notice. -/
  | notice (notice : Notice)
  /-- `queue.wait()` returns another event. -/
  | event (event : Event T)

/-- The thread has its guard and waits for events. -/
def Thread.polls (t : Thread T) : Prop :=
  t.place matches .guarded ∧ t.short = [] ∧ t.loops = true

instance (t : Thread T) : Decidable t.polls := by
  unfold Thread.polls
  infer_instance

/-- A step in the lock. -/
def lockStep (s : Shared T) (t : Thread T) (ask : Ask T) : Option (Shared T × Thread T) :=
  (DevLock.atomic 0 s.lock t.place ask).map fun r =>
    ({ s with lock := r.1 }, { t with place := r.2 })

def atomic (_ : ℕ) (s : Shared T) (t : Thread T) : Input T → Option (Shared T × Thread T)
  | .go =>
    match t.place with
    | .outside => if t.short = [] ∧ t.loops = false then none else lockStep s t .read
    | .guarded =>
      match t.short with
      | [] => none
      | .triggerExit :: short => some ({ s with exitNotice := true }, { t with short := .look :: short })
      | .look :: short => lockStep s { t with short } .drop
    | .prep _ => lockStep { s with yieldNotice := true } t .go
    | .write .. => lockStep { s with yieldNotice := false } t .go
    | _ => lockStep s t .go
  | .notice .yield => if t.polls ∧ s.yieldNotice = true then lockStep s t .drop else none
  | .notice .exit =>
    -- `trigger_exit`, and the guard is dropped with the loop
    if t.polls ∧ s.exitNotice = true then some (s, { t with short := [.look], loops := false })
    else none
  | .event event =>
    if t.polls then
      match event with
      | .handled => some (s, t)
      | .exit => some ({ s with exitNotice := true }, { t with short := [.look], loops := false })
      | .apiSet body => lockStep s t (.tryWriteable body)
    else none

/-- `Lock::new(wg_interface)` before any thread runs. -/
def start (device : T) : Pool (Shared T) (Thread T) := ⟨⟨Lock.new device, false, false⟩, []⟩

/-! ## What a step does -/

/-- The yield notice after a step in the lock: `prep_func` triggers it and `mut_func` stops it. -/
def yieldAfter (yieldNotice : Bool) : Place T → Bool
  | .prep _ => true
  | .write .. => false
  | _ => yieldNotice

/-- What a step of a thread can be. -/
inductive Takes (s : Shared T) (t : Thread T) : Input T → Shared T → Thread T → Prop
  | read (hplace : t.place = .outside) (hmore : t.short ≠ [] ∨ t.loops = true) :
    Takes s t .go s { t with place := .readLock }
  | trigger {short : List Short} (hplace : t.place = .guarded)
    (hshort : t.short = .triggerExit :: short) :
    Takes s t .go { s with exitNotice := true } { t with short := .look :: short }
  | look {short : List Short} (hplace : t.place = .guarded) (hshort : t.short = .look :: short) :
    Takes s t .go { s with lock := { s.lock with readers := s.lock.readers - 1 } }
      ⟨.outside, short, t.loops⟩
  | inside {lock : Lock T} {place : Place T} (hbusy : t.place.busy = true)
    (hlock : DevLock.atomic 0 s.lock t.place .go = some (lock, place)) :
    Takes s t .go { s with lock, yieldNotice := yieldAfter s.yieldNotice t.place }
      { t with place }
  | yield (hpolls : t.polls) (hnotice : s.yieldNotice = true) :
    Takes s t (.notice .yield) { s with lock := { s.lock with readers := s.lock.readers - 1 } }
      { t with place := .outside }
  | exitNotice (hpolls : t.polls) (hnotice : s.exitNotice = true) :
    Takes s t (.notice .exit) s { t with short := [.look], loops := false }
  | exit (hpolls : t.polls) :
    Takes s t (.event .exit) { s with exitNotice := true } { t with short := [.look], loops := false }
  | handled (hpolls : t.polls) : Takes s t (.event .handled) s t
  | apiSet {body : T → T} (hpolls : t.polls) :
    Takes s t (.event (.apiSet body)) s { t with place := .tryLock body }

variable {s s' : Shared T} {t t' : Thread T} {input : Input T} {i : ℕ}

theorem polls_iff : t.polls ↔ t.place = .guarded ∧ t.short = [] ∧ t.loops = true := by
  obtain ⟨place, short, loops⟩ := t
  cases place <;> simp [Thread.polls]

theorem atomic_go_of_busy (h : t.place.busy = true) : atomic i s t .go =
    lockStep { s with yieldNotice := yieldAfter s.yieldNotice t.place } t .go := by
  obtain ⟨place, short, loops⟩ := t
  cases place with
  | outside | guarded => cases h
  | _ => rfl

theorem lockStep_eq_some {ask : Ask T} (h : lockStep s t ask = some (s', t')) :
    ∃ lock place, DevLock.atomic 0 s.lock t.place ask = some (lock, place) ∧
      s' = { s with lock } ∧ t' = { t with place } := by
  obtain ⟨⟨lock, place⟩, hlock, heq⟩ := Option.map_eq_some_iff.mp h
  cases heq
  exact ⟨lock, place, hlock, rfl, rfl⟩

theorem takes_of_atomic (h : atomic i s t input = some (s', t')) : Takes s t input s' t' := by
  obtain ⟨place, short, loops⟩ := t
  cases input with
  | go =>
    by_cases hbusy : place.busy = true
    · rw [atomic_go_of_busy hbusy] at h
      obtain ⟨lock, place', hlock, rfl, rfl⟩ := lockStep_eq_some h
      exact .inside hbusy hlock
    · cases place with
      | outside =>
        simp only [atomic] at h
        split_ifs at h with hgone
        cases h
        exact .read rfl (by simpa [Decidable.or_iff_not_not_and_not] using hgone)
      | guarded =>
        cases short with
        | nil => cases h
        | cons first short =>
          cases first with
          | look =>
            cases h
            exact .look rfl rfl
          | triggerExit =>
            cases h
            exact .trigger rfl rfl
      | _ => exact absurd rfl hbusy
  | notice n =>
    cases n with
    | yield =>
      simp only [atomic] at h
      split_ifs at h with hnotice
      obtain ⟨rfl, rfl, rfl⟩ := polls_iff.mp hnotice.1
      cases h
      exact .yield hnotice.1 hnotice.2
    | exit =>
      simp only [atomic] at h
      split_ifs at h with hnotice
      cases h
      exact .exitNotice hnotice.1 hnotice.2
  | event event =>
    simp only [atomic] at h
    split_ifs at h with hpolls
    cases event with
    | handled =>
      cases h
      exact .handled hpolls
    | exit =>
      cases h
      exact .exit hpolls
    | apiSet body =>
      obtain ⟨rfl, rfl, rfl⟩ := polls_iff.mp hpolls
      cases h
      exact .apiSet hpolls

/-! ## The invariant -/

/-- The thread is in `try_writeable`. -/
def writes : Place T → Bool
  | .tryLock _ | .unlock _ | .tryCheck _ | .tryWait .. | .tryRelock _ => true
  | k => k.claims

/-- Between `prep_func` and `mut_func`. -/
def prepared : Place T → Bool
  | .release .. | .announce .. | .drain .. | .write .. => true
  | _ => false

theorem claims_of_prepared {k : Place T} (h : prepared k = true) : k.claims = true := by
  cases k with
  | release f seen | announce f seen | drain f seen | write f seen => rfl
  | _ => cases h

/-- A thread writes in its loop only, and is gone without a guard. -/
structure Thread.Ok (t : Thread T) : Prop where
  writes : writes t.place = true → t.short = [] ∧ t.loops = true
  gone : t.short = [] → t.loops = false → t.place = .outside

/-- The threads as the lock sees them. -/
abbrev toLock (p : Pool (Shared T) (Thread T)) : Pool (Lock T) (Place T) :=
  p.map Shared.lock Thread.place

theorem atomic_toLock (i : ℕ) (s : Shared T) (t : Thread T) (input : Input T) (s' : Shared T)
    (t' : Thread T) (h : atomic i s t input = some (s', t')) :
    (s'.lock = s.lock ∧ t'.place = t.place) ∨
      ∃ ask, DevLock.atomic i s.lock t.place ask = some (s'.lock, t'.place) := by
  cases takes_of_atomic h with
  | read hplace => exact Or.inr ⟨.read, by rw [hplace]; rfl⟩
  | trigger | exitNotice | exit | handled => exact Or.inl ⟨rfl, rfl⟩
  | look hplace => exact Or.inr ⟨.drop, by rw [hplace]; rfl⟩
  | inside _ hlock => exact Or.inr ⟨.go, hlock⟩
  | yield hpolls => exact Or.inr ⟨.drop, by rw [(polls_iff.mp hpolls).1]; rfl⟩
  | @apiSet body hpolls =>
    exact Or.inr ⟨.tryWriteable body, by rw [(polls_iff.mp hpolls).1]; rfl⟩

theorem enter_toLock (call : Start) :
    ∃ call', (enter call : Thread T).place = DevLock.enter call' := by
  refine ⟨(), ?_⟩
  cases call <;> rfl

theorem writes_of_atomic {lock lock' : Lock T} {k k' : Place T}
    (h : DevLock.atomic i lock k .go = some (lock', k')) (hk : writes k' = true) :
    writes k = true := by
  cases k <;> simp only [DevLock.atomic, reduceCtorEq] at h
  all_goals first
    | (split_ifs at h <;> cases h)
    | cases h
  all_goals first | rfl | exact hk

theorem Thread.Ok.step (h : t.Ok) (hatomic : atomic i s t input = some (s', t')) : t'.Ok := by
  cases takes_of_atomic hatomic with
  | read _ hmore =>
    refine ⟨fun hw => (by cases hw), fun hshort hloops => ?_⟩
    obtain hmore | hmore := hmore
    · exact absurd hshort hmore
    · exact absurd (hmore.symm.trans hloops) (by decide)
  | trigger hplace => exact ⟨fun hw => (by rw [hplace] at hw; cases hw), fun hshort => by cases hshort⟩
  | look => exact ⟨fun hw => (by cases hw), fun _ _ => rfl⟩
  | inside hbusy hlock =>
    refine ⟨fun hw => h.writes (writes_of_atomic hlock hw), fun hshort hloops => ?_⟩
    rw [h.gone hshort hloops] at hbusy
    cases hbusy
  | yield => exact ⟨fun hw => (by cases hw), fun _ _ => rfl⟩
  | exitNotice hpolls | exit hpolls =>
    exact ⟨fun hw => (by rw [(polls_iff.mp hpolls).1] at hw; cases hw), fun hshort => by cases hshort⟩
  | handled => exact h
  | apiSet hpolls =>
    obtain ⟨-, hshort, hloops⟩ := polls_iff.mp hpolls
    exact ⟨fun _ => ⟨hshort, hloops⟩, fun _ hgone => absurd (hloops.symm.trans hgone) (by decide)⟩

structure Inv (p : Pool (Shared T) (Thread T)) : Prop where
  lock : DevLock.Inv (toLock p)
  notice : Tally (fun t : Thread T => prepared t.place) (fun s => s.yieldNotice.toNat) p
  threads : ∀ t ∈ p.procs, t.Ok

theorem inv_start (device : T) : Inv (start device) where
  lock := DevLock.inv_start device
  notice := rfl
  threads t ht := by cases ht

variable {p p' : Pool (Shared T) (Thread T)} {m : Move Start (Input T)} {o : Unit}

/-- Where a thread is in the lock. -/
theorem getElem?_toLock (hk : p.procs[i]? = some t) : (toLock p).procs[i]? = some t.place := by
  simp only [Pool.map, List.getElem?_map, hk, Option.map_some]

/-- The yield notice is down for a thread that has set `wants_write` and is not yet, or no longer,
between its two functions. -/
theorem Inv.yieldNotice_eq_false (h : Inv p) (hk : p.procs[i]? = some t)
    (hclaims : t.place.claims = true) (hprepared : prepared t.place = false) :
    p.shared.yieldNotice = false := by
  by_contra hset
  obtain ⟨j, u, hu, hu'⟩ := h.notice.exists_of_eq_true (by simpa using hset)
  have hij := h.lock.claims.unique (getElem?_toLock hk) (getElem?_toLock hu) hclaims
    (claims_of_prepared hu')
  subst hij
  cases hk.symm.trans hu
  exact Bool.false_ne_true (hprepared.symm.trans hu')

theorem prepared_of_atomic {lock lock' : Lock T} {k k' : Place T} {yieldNotice : Bool}
    (h : DevLock.atomic i lock k .go = some (lock', k'))
    (hdown : k.claims = true → prepared k = false → yieldNotice = false)
    (hup : prepared k = true → yieldNotice = true) :
    (yieldAfter yieldNotice k).toNat + (prepared k).toNat =
      yieldNotice.toNat + (prepared k').toNat := by
  cases k <;> simp only [DevLock.atomic, reduceCtorEq] at h
  all_goals first
    | (split_ifs at h <;> cases h)
    | cases h
  all_goals simp_all [yieldAfter, prepared, Place.claims]

theorem Inv.step (h : Inv p) (hstep : Interleaving.step enter atomic p m = some (p', o)) :
    Inv p' where
  lock := by
    have hmap : toLock p' = toLock p ∨
        ∃ m', Interleaving.step DevLock.enter DevLock.atomic (toLock p) m' = some (toLock p', ()) :=
      step_map hstep enter_toLock atomic_toLock
    obtain hsame | ⟨m', hlock⟩ := hmap
    · change DevLock.Inv (toLock p')
      rw [hsame]
      exact h.lock
    · exact h.lock.step hlock
  notice := by
    refine h.notice.step hstep (fun call => by cases call <;> rfl) ?_
    intro i input t s' t' hk hatomic
    cases takes_of_atomic hatomic with
    | read hplace | look hplace => rw [hplace]; rfl
    | trigger | exitNotice | exit | handled => rfl
    | inside _ hlock =>
      exact prepared_of_atomic hlock (h.yieldNotice_eq_false hk) (h.notice.eq_true hk)
    | yield hpolls | apiSet hpolls => rw [(polls_iff.mp hpolls).1]; rfl
  threads := forall_procs_of_step h.threads hstep
    (fun call _ => by cases call <;> exact ⟨fun hw => (by cases hw), fun _ _ => rfl⟩)
    fun _ _ t _ _ _ ht hatomic => (h.threads t ht).step hatomic

theorem Inv.of_reaches {device : T} {Q : Pool (Shared T) (Thread T) → Move Start (Input T) → Prop}
    (h : Machine.Reaches (Interleaving.step enter atomic) Q (start device) p) : Inv p :=
  h.invariant (inv_start device) fun _ _ _ _ hI _ hstep => hI.step hstep

/-- No notice is up while `wants_write` is down. -/
theorem Inv.yieldNotice_eq_false_of_wantsWrite (h : Inv p)
    (hwants : p.shared.lock.wantsWrite = false) : p.shared.yieldNotice = false := by
  by_contra hset
  obtain ⟨j, u, hu, hu'⟩ := h.notice.exists_of_eq_true (by simpa using hset)
  have hset := h.lock.claims.eq_true (getElem?_toLock hu) (claims_of_prepared hu')
  exact Bool.false_ne_true (hwants.symm.trans hset)

/-! ## The measure -/

/-- How far a thread can go by itself, among `n` threads. A writer has to pay twice for all of
them: for the notice that makes them yield, and for the signal that wakes them. -/
def placeRank (n notified : ℕ) (yields : Bool) : Place T → ℕ
  | .outside => 6
  | .readLock => 5
  | .readCheck => 4
  | .readWait ticket => if notified = ticket then 0 else 6
  | .readInner => 3
  | .readUnlock => 2
  | .guarded => if yields then 7 else 1
  | .tryLock _ => 12 * n + 20
  | .unlock _ => 12 * n + 19
  | .tryCheck _ => 12 * n + 18
  | .tryWait _ ticket => if notified = ticket then 12 * n + 15 else 12 * n + 21
  | .tryRelock _ => 12 * n + 20
  | .reread _ => 12 * n + 17
  | .prep _ => 12 * n + 16
  | .release .. => 6 * n + 15
  | .announce .. => 6 * n + 14
  | .drain .. => 6 * n + 13
  | .write .. => 6 * n + 12
  | .regain => 6 * n + 11
  | .signal => 6 * n + 10
  | .reset => 6 * n + 9

def rank (n : ℕ) (s : Shared T) (t : Thread T) : ℕ :=
  24 * t.short.length + t.short.count .triggerExit + (if t.loops then 30 else 0) +
    placeRank n s.lock.notified (s.yieldNotice && t.short.isEmpty) t.place

def total (p : Pool (Shared T) (Thread T)) : ℕ :=
  (p.procs.map (rank p.procs.length p.shared)).sum

/-- The steps that the other threads have to look at. -/
def loud : Place T → Bool
  | .prep _ | .reset => true
  | _ => false

theorem placeRank_lt {lock lock' : Lock T} {k k' : Place T} {yields' : Bool} (yields : Bool) (n : ℕ)
    (h : DevLock.atomic i lock k .go = some (lock', k'))
    (hquiet : k = .readUnlock ∨ k = .reset → yields' = false) :
    placeRank n lock'.notified yields' k' + (if loud k then 6 * n else 0) <
      placeRank n lock.notified yields k := by
  cases k <;> simp only [DevLock.atomic, reduceCtorEq] at h
  all_goals first
    | (split_ifs at h <;> cases h)
    | cases h
  all_goals simp_all [placeRank, loud]
  all_goals omega

theorem placeRank_le_add (n notified notified' : ℕ) (yields yields' : Bool) (k : Place T) :
    placeRank n notified' yields' k ≤ placeRank n notified yields k + 6 := by
  cases k <;> simp only [placeRank] <;> (try split_ifs) <;> omega

theorem rank_le_add (n : ℕ) (s s' : Shared T) (t : Thread T) : rank n s' t ≤ rank n s t + 6 := by
  have := placeRank_le_add n s.lock.notified s'.lock.notified (s.yieldNotice && t.short.isEmpty)
    (s'.yieldNotice && t.short.isEmpty) t.place
  rw [rank, rank]
  omega

theorem rank_le (n : ℕ) (t : Thread T) (hnotified : s'.lock.notified = s.lock.notified)
    (hyield : s'.yieldNotice = true → s.yieldNotice = true) : rank n s' t ≤ rank n s t := by
  have hplace : placeRank n s.lock.notified (s'.yieldNotice && t.short.isEmpty) t.place ≤
      placeRank n s.lock.notified (s.yieldNotice && t.short.isEmpty) t.place := by
    cases hs' : s'.yieldNotice with
    | false =>
      cases t.place with
      | guarded =>
        simp only [placeRank, Bool.false_and, Bool.false_eq_true, if_false]
        split_ifs <;> decide
      | _ => exact Nat.le_refl _
    | true => exact Nat.le_of_eq (by rw [hyield hs'])
  rw [rank, rank, hnotified]
  omega

theorem unheard_of_atomic {lock lock' : Lock T} {k k' : Place T}
    (h : DevLock.atomic i lock k .go = some (lock', k')) (hloud : loud k = false)
    (yieldNotice : Bool) : lock'.notified = lock.notified ∧
      (yieldAfter yieldNotice k = true → yieldNotice = true) := by
  cases k <;> simp only [DevLock.atomic, reduceCtorEq] at h
  all_goals first
    | (split_ifs at h <;> cases h)
    | cases h
  all_goals simp_all [yieldAfter, loud]

/-- What the threads do without an event. -/
def internal : Move Start (Input T) → Bool
  | .go _ .go | .go _ (.notice _) => true
  | _ => false

/-- A thread that goes on pays for what its step gives to each of the others. -/
theorem total_lt {d : ℕ} (hk : p.procs[i]? = some t)
    (hothers : ∀ q : Thread T,
      rank p.procs.length s' q ≤ rank p.procs.length p.shared q + d)
    (hself : rank p.procs.length s' t' + p.procs.length * d < rank p.procs.length p.shared t + d) :
    total ⟨s', p.procs.set i t'⟩ < total p := by
  have hsum : ((p.procs.set i t').map _).sum + rank p.procs.length p.shared t + d ≤ _ :=
    sum_set_le hk fun q _ => hothers q
  simp only [total, List.length_set]
  omega

/-- **Without an event the threads get nearer to their end with every step.** -/
theorem Inv.total_lt_of_step (h : Inv p) (hm : internal m = true)
    (hstep : Interleaving.step enter atomic p m = some (p', o)) : total p' < total p := by
  obtain ⟨call, rfl, -⟩ | ⟨i, input, t, s', t', rfl, hk, hatomic, rfl⟩ := step_cases hstep
  · cases hm
  have hsame : ∀ {s₁ : Shared T}, s₁.lock.notified = p.shared.lock.notified →
      s₁.yieldNotice = p.shared.yieldNotice →
      ∀ q, rank p.procs.length s₁ q ≤ rank p.procs.length p.shared q + 0 :=
    fun hnotified hyield q => rank_le _ q hnotified fun hup => hyield ▸ hup
  cases takes_of_atomic hatomic with
  | read hplace =>
    refine total_lt hk (hsame rfl rfl) ?_
    simp [rank, hplace, placeRank]
  | trigger hplace hshort =>
    refine total_lt hk (hsame rfl rfl) ?_
    simp [rank, hplace, hshort, placeRank]
  | look hplace hshort =>
    refine total_lt hk (hsame rfl rfl) ?_
    simp [rank, hplace, hshort, placeRank]
    omega
  | yield hpolls hnotice =>
    obtain ⟨hplace, hshort, hloops⟩ := polls_iff.mp hpolls
    refine total_lt hk (hsame rfl rfl) ?_
    simp [rank, hplace, hshort, hnotice, placeRank]
  | exitNotice hpolls hnotice =>
    obtain ⟨hplace, hshort, hloops⟩ := polls_iff.mp hpolls
    refine total_lt hk (hsame rfl rfl) ?_
    have hguard : 1 ≤ placeRank p.procs.length p.shared.lock.notified
        p.shared.yieldNotice (.guarded : Place T) := by
      rw [placeRank]
      split_ifs <;> decide
    simp [rank, hplace, hshort, hloops, placeRank]
    omega
  | exit | handled | apiSet => cases hm
  | @inside lock place hbusy hlock =>
    have hquiet : t.place = .readUnlock ∨ t.place = .reset →
        (yieldAfter p.shared.yieldNotice t.place && t.short.isEmpty) = false := by
      rintro (hplace | hplace)
      · have hwants := h.lock.sound i _ (getElem?_toLock hk)
        rw [hplace] at hwants
        rw [hplace]
        change (p.shared.yieldNotice && _) = false
        rw [h.yieldNotice_eq_false_of_wantsWrite hwants, Bool.false_and]
      · have hdown := h.yieldNotice_eq_false hk (by rw [hplace]; rfl) (by rw [hplace]; rfl)
        rw [hplace]
        change (p.shared.yieldNotice && _) = false
        rw [hdown, Bool.false_and]
    have hlt := placeRank_lt (p.shared.yieldNotice && t.short.isEmpty) p.procs.length
      hlock hquiet
    cases hloud : loud t.place with
    | true =>
      refine total_lt (d := 6) hk (fun q => rank_le_add _ _ _ q) ?_
      rw [hloud, if_pos rfl] at hlt
      simp only [rank]
      omega
    | false =>
      obtain ⟨hnotified, hyield⟩ := unheard_of_atomic hlock hloud p.shared.yieldNotice
      refine total_lt (d := 0) hk (fun q => rank_le _ q hnotified hyield) ?_
      rw [hloud, if_neg Bool.false_ne_true] at hlt
      simp only [rank]
      omega

/-! ## Where the threads end -/

/-- The thread has left, or waits in its loop, with its guard, for an event that is not there. -/
def Settled (s : Shared T) (t : Thread T) : Prop :=
  (t.place = .outside ∧ t.short = [] ∧ t.loops = false) ∨
    (t.polls ∧ s.yieldNotice = false ∧ s.exitNotice = false)

/-- Every thread is settled, and the lock is held by the guards of those that wait, one for each. -/
structure Idle (p : Pool (Shared T) (Thread T)) : Prop where
  settled : ∀ t ∈ p.procs, Settled p.shared t
  yieldNotice : p.shared.yieldNotice = false
  wantsWrite : p.shared.lock.wantsWrite = false
  writer : p.shared.lock.writer = false
  mutex : p.shared.lock.mutex = false
  readers : p.shared.lock.readers = p.procs.countP fun t => decide t.polls

/-- No thread can do anything without an event. -/
def Still (p : Pool (Shared T) (Thread T)) : Prop :=
  ∀ m, internal m = true → Interleaving.step enter atomic p m = none

theorem Still.atomic_eq_none (h : Still p) (hk : p.procs[i]? = some t) (input : Input T)
    (hinternal : internal (Move.go i input) = true) : atomic i p.shared t input = none := by
  have hnone := h (.go i input) hinternal
  rw [Interleaving.step, hk, Option.bind_some, Option.map_eq_none_iff] at hnone
  exact hnone

theorem Still.not_canGo (h : Still p) : ¬CanGo (toLock p) := by
  rintro ⟨j, q, hq, hbusy, hgo⟩
  simp only [Pool.map, List.getElem?_map] at hq
  obtain ⟨t, ht, rfl⟩ := Option.map_eq_some_iff.mp hq
  have hnone := h.atomic_eq_none ht .go rfl
  rw [atomic_go_of_busy hbusy, lockStep, Option.map_eq_none_iff] at hnone
  change (DevLock.atomic 0 p.shared.lock t.place .go).isSome = true at hgo
  rw [hnone] at hgo
  cases hgo

/-- A thread that keeps its guard waits in its loop, with both notices down. -/
theorem Inv.settled_of_guarded (h : Inv p) (hstill : Still p) (hk : p.procs[i]? = some t)
    (hplace : t.place = .guarded) : Settled p.shared t := by
  have hgo := hstill.atomic_eq_none hk .go rfl
  have hyield := hstill.atomic_eq_none hk (.notice .yield) rfl
  have hexit := hstill.atomic_eq_none hk (.notice .exit) rfl
  obtain ⟨place, short, loops⟩ := t
  subst hplace
  cases short with
  | cons first short => cases first <;> cases hgo
  | nil =>
    cases loops with
    | false => cases (h.threads _ (List.mem_of_getElem? hk)).gone rfl rfl
    | true =>
      have hpolls : Thread.polls (⟨.guarded, [], true⟩ : Thread T) := polls_iff.mpr ⟨rfl, rfl, rfl⟩
      refine Or.inr ⟨hpolls, ?_, ?_⟩
      · by_contra hup
        rw [atomic, if_pos ⟨hpolls, by simpa using hup⟩] at hyield
        cases hyield
      · by_contra hup
        rw [atomic, if_pos ⟨hpolls, by simpa using hup⟩] at hexit
        cases hexit

theorem Inv.settled_of_still (h : Inv p) (hstill : Still p) :
    ∀ t ∈ p.procs, Settled p.shared t := by
  intro t ht
  obtain ⟨i, hk⟩ := List.mem_iff_getElem?.mp ht
  by_cases hbusy : t.place.busy = true
  · obtain hgo | ⟨j, l, f, seen, hj, hl⟩ := makes_way h.lock (getElem?_toLock hk) hbusy
    · exact absurd hgo hstill.not_canGo
    -- A writer waits for a guard: then the yield notice is up, and the thread with the guard
    -- would have seen it.
    · simp only [Pool.map, List.getElem?_map] at hj hl
      obtain ⟨u, hu, hplace⟩ := Option.map_eq_some_iff.mp hj
      obtain ⟨v, hv, hguard⟩ := Option.map_eq_some_iff.mp hl
      have hup := h.notice.eq_true hu (by rw [hplace]; rfl)
      obtain ⟨hgone, -⟩ | ⟨-, hdown, -⟩ := h.settled_of_guarded hstill hv hguard
      · rw [hguard] at hgone
        cases hgone
      · exact absurd (hup.symm.trans hdown) (by decide)
  · obtain ⟨place, short, loops⟩ := t
    cases place with
    | guarded => exact h.settled_of_guarded hstill hk rfl
    | outside =>
      have hgo := hstill.atomic_eq_none hk .go rfl
      simp only [atomic] at hgo
      split_ifs at hgo with hgone
      · exact Or.inl ⟨rfl, hgone⟩
      · cases hgo
    | _ => exact absurd rfl hbusy

/-- A settled thread has the guard of its loop or nothing. -/
theorem Settled.place {s : Shared T} (h : Settled s t) :
    t.place.hasMutex = false ∧ t.place.isWriter = false ∧ t.place.claims = false ∧
      t.place.reads = decide t.polls := by
  obtain ⟨hplace, hshort, hloops⟩ | ⟨hpolls, -, -⟩ := h
  · have hnot : ¬t.polls := fun hpolls => by
      rw [(polls_iff.mp hpolls).1] at hplace
      cases hplace
    rw [decide_eq_false hnot, hplace]
    exact ⟨rfl, rfl, rfl, rfl⟩
  · rw [decide_eq_true hpolls, (polls_iff.mp hpolls).1]
    exact ⟨rfl, rfl, rfl, rfl⟩

/-- A flag of the lock is down when no thread has what it counts. -/
theorem flag_eq_false {f : Place T → Bool} {flag : Lock T → Bool}
    (h : Tally f (fun l => (flag l).toNat) (toLock p)) (hnone : ∀ t ∈ p.procs, f t.place = false) :
    flag p.shared.lock = false := by
  by_contra hset
  have hup : flag (toLock p).shared = true := (Bool.not_eq_false _).mp hset
  obtain ⟨j, k, hk, hf⟩ := h.exists_of_eq_true hup
  simp only [Pool.map, List.getElem?_map] at hk
  obtain ⟨t, ht, rfl⟩ := Option.map_eq_some_iff.mp hk
  exact Bool.false_ne_true ((hnone t (List.mem_of_getElem? ht)).symm.trans hf)

/-- Where all threads are settled, the lock is idle. -/
theorem Inv.idle (h : Inv p) (hsettled : ∀ t ∈ p.procs, Settled p.shared t) : Idle p where
  settled := hsettled
  yieldNotice := h.yieldNotice_eq_false_of_wantsWrite
    (flag_eq_false h.lock.claims fun t ht => (hsettled t ht).place.2.2.1)
  wantsWrite := flag_eq_false h.lock.claims fun t ht => (hsettled t ht).place.2.2.1
  writer := flag_eq_false h.lock.writer fun t ht => (hsettled t ht).place.2.1
  mutex := flag_eq_false h.lock.mutex fun t ht => (hsettled t ht).place.1
  readers := by
    have hcount : (toLock p).procs.countP Place.reads = p.shared.lock.readers := h.lock.readers
    rw [← hcount]
    refine (List.countP_map ..).trans (List.countP_congr fun t ht => ?_)
    rw [Function.comp_apply, (hsettled t ht).place.2.2.2]

/-- **The threads settle.** From any state that threads, events and requests can lead to, what they
do without another event comes to an end, in whatever order they do it. Where they can do nothing
more, every thread has left or waits for an event; each that waits keeps its read guard, the lock is
held by no one else, and the yield notice is down. When the exit notice is up all of them have
left. -/
theorem threads_settle {device : T}
    (h : Machine.Reaches (Interleaving.step enter atomic) (fun _ _ => True) (start device) p)
    {moves : List (Move Start (Input T))} {os : List Unit}
    (hrun : Machine.run (Interleaving.step enter atomic) p moves = some (p', os))
    (hmoves : ∀ m ∈ moves, internal m = true) :
    moves.length ≤ total p ∧ (Still p' → Idle p') := by
  have hI := Inv.of_reaches h
  refine ⟨Machine.length_le_of_run hrun hI hmoves fun p m p' o hp hm hstep =>
    ⟨hp.step hstep, hp.total_lt_of_step hm hstep⟩, fun hstill => ?_⟩
  have hI' : Inv p' := (Machine.reaches_of_run hrun).invariant hI
    fun _ _ _ _ hp _ hstep => hp.step hstep
  exact hI'.idle (hI'.settled_of_still hstill)

/-- Two threads that wait for events, of which the first gets a set request. -/
def sampleRequest : List (Move Start (Input ℕ)) :=
  [.enter (.eventLoop 0 true), .enter (.eventLoop 1 true)] ++ List.replicate 17 (.go 0 .go) ++
    List.replicate 29 (.go 1 .go) ++ [.go 0 (.event (.apiSet (· + 1)))]

/-- The first thread asks, the second yields and comes back. -/
def sampleAnswer : List (Move Start (Input ℕ)) :=
  List.replicate 7 (.go 0 .go) ++ [.go 1 (.notice .yield)] ++ List.replicate 5 (.go 0 .go) ++
    List.replicate 5 (.go 1 .go)

def sampleRequested : Pool (Shared ℕ) (Thread ℕ) :=
  ⟨⟨⟨false, false, 0, 2, false, 5⟩, false, false⟩,
    [⟨.tryLock (· + 1), [], true⟩, ⟨.guarded, [], true⟩]⟩

def sampleAnswered : Pool (Shared ℕ) (Thread ℕ) :=
  ⟨⟨⟨false, false, 1, 2, false, 6⟩, false, false⟩,
    [⟨.guarded, [], true⟩, ⟨.guarded, [], true⟩]⟩

theorem reaches_sampleRequested : Machine.Reaches (Interleaving.step enter atomic)
    (fun _ _ => True) (start 5) sampleRequested :=
  Machine.reaches_of_run
    (rfl : Machine.run (Interleaving.step enter atomic) (start 5) sampleRequest =
      some (sampleRequested, List.replicate 49 ()))

theorem still_sampleAnswered : Still sampleAnswered := by
  intro m hm
  cases m with
  | enter call => cases hm
  | go i input =>
    rcases i with _ | _ | i
    · cases input with
      | go => rfl
      | notice n => cases n <;> rfl
      | event e => cases hm
    · cases input with
      | go => rfl
      | notice n => cases n <;> rfl
      | event e => cases hm
    · rfl

theorem threads_settle_sample : sampleAnswer.length ≤ total sampleRequested ∧
    Idle sampleAnswered :=
  have hrun : Machine.run (Interleaving.step enter atomic) sampleRequested sampleAnswer =
      some (sampleAnswered, List.replicate 18 ()) := rfl
  have h := threads_settle reaches_sampleRequested hrun (by decide)
  ⟨h.1, h.2 still_sampleAnswered⟩

end Workers

end NekoLink.Device
