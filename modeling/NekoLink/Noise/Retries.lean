import NekoLink.Noise.SessionAge

/-!
# The retries of a handshake

A handshake has been started and from then on only `update_timers` is called. `Pending` is the state
as long as the initiation is sent again, and `GaveUp` the one after `REKEY_ATTEMPT_TIME`.

* `Pending.updateTimers`, `GaveUp.updateTimers`: what one call does.
* `retry_bounded`: initiations are `REKEY_TIMEOUT` apart and at most 18, nothing else is sent, and
  after `REKEY_ATTEMPT_TIME` every call says that the connection has expired.
-/

namespace NekoLink.Noise

open Wire

/-- Numbers that are `gap` apart and below a limit are few. -/
theorem add_mul_length_lt {gap limit a : ℕ} {l : List ℕ}
    (hspaced : (a :: l).Pairwise fun x y => x + gap ≤ y) (hlimit : ∀ b ∈ a :: l, b < limit) :
    a + gap * l.length < limit := by
  induction l generalizing a with
  | nil => exact hlimit a List.mem_cons_self
  | cons b l ih =>
    obtain ⟨hfirst, hrest⟩ := List.pairwise_cons.mp hspaced
    have hb := hfirst b List.mem_cons_self
    have htail := ih hrest fun c hc => hlimit c (List.mem_cons_of_mem a hc)
    rw [List.length_cons, Nat.mul_succ]
    omega

/-- Every reading of a call is the same. -/
def Env.Constant (env : Env) : Prop := ∀ reading ∈ env.readings, reading = env.time

instance (env : Env) : Decidable env.Constant := inferInstanceAs (Decidable (∀ _ ∈ _, _))

theorem Env.Constant.eq {env : Env} (h : env.Constant) :
    env.elapsed = env.time ∧ env.clear = env.time ∧ env.sent = env.time :=
  ⟨h _ (by simp [Env.readings]), h _ (by simp [Env.readings]), h _ (by simp [Env.readings])⟩

namespace Tunn

variable {C : Prims} {t t' : Tunn C} {r : TunnResult} {env : Env} {dstLen : ℕ}
  {started attempt sent clock : ℕ}

/-! ## The first initiation -/

/-- A packet is an initiation. -/
def IsInitiation (packet : List UInt8) : Prop :=
  ∃ (p : HandshakeInit) (macs : Bytes 32), packet = p.bytes ++ macs.toList

/-- When an initiation was not in progress and is now, it was sent by this call. -/
theorem sent_formatHandshakeInitiation {force : Bool} (hidle : t.handshake.timer = none)
    (hsent : (t.formatHandshakeInitiation env dstLen force).1.handshake.timer = some sent) :
    sent = env.sent := by
  obtain ⟨hcore, -⟩ | ⟨cookies, macs, hcore, -⟩ :=
    formatHandshakeInitiation_cases t env dstLen force
  · have hhandshake := congrArg Core.handshake hcore
    rw [core, core] at hhandshake
    dsimp only at hhandshake
    rw [hhandshake, hidle] at hsent
    cases hsent
  · have hhandshake := congrArg Core.handshake hcore
    rw [core] at hhandshake
    dsimp only at hhandshake
    rw [hhandshake] at hsent
    exact (Option.some.inj hsent).symm

theorem sent_encapsulate {src : List UInt8} (h : t.encapsulate env src dstLen = some (t', r))
    (hidle : t.handshake.timer = none) (hsent : t'.handshake.timer = some sent) :
    sent = env.sent := by
  rw [encapsulate] at h
  rcases hs : t.sessions.get t.current with _ | s
  · rw [hs] at h
    have hsent' :
        ((t.queuePacket src).formatHandshakeInitiation env dstLen false).1.handshake.timer =
          some sent := by
      rwa [Option.some.inj h]
    apply sent_formatHandshakeInitiation ?_ hsent'
    rwa [handshake_queuePacket]
  · rw [hs] at h
    obtain ⟨⟨s', datagram⟩, -, heq⟩ := Option.map_eq_some_iff.mp h
    dsimp only at heq
    split_ifs at heq <;> cases heq <;> exact absurd (hidle.symm.trans hsent) (by simp)

theorem sent_updateTimers (h : t.updateTimers env dstLen = some (t', r))
    (hidle : t.handshake.timer = none) (hsent : t'.handshake.timer = some sent) :
    sent = env.sent := by
  obtain ⟨rateLimiter, t₁, hsessions, hcheck⟩ := updateTimers_eq_some h
  obtain ⟨-, hcore⟩ := updateSessionTimers_eq_some hsessions
  have hidle₁ : t₁.handshake.timer = none := by
    rw [show t₁.handshake = t.handshake from congrArg Core.handshake hcore]
    exact hidle
  obtain ⟨-, rfl, -⟩ | ⟨-, t₂, ht₂, hcases⟩ := checkTimers_cases hcheck
  · exact absurd (hidle₁.symm.trans hsent) (by simp)
  · have hidle₂ : t₂.handshake.timer = none := by
      rcases ht₂ with rfl | rfl <;> exact hidle₁
    obtain hexpire | ⟨timeInitSent, hbusy, -⟩ | ⟨-, hcall⟩ := hcases
    · cases hexpire
      cases hsent
    · exact absurd (hidle₂.symm.trans hbusy) (by simp)
    · obtain ⟨t₃, hrequired, hformat⟩ | ⟨t₃, t₄, keepalive, hrequired, hkeepalive, h⟩ :=
        initiateOrKeepalive_cases hcall
      · have h₃ : t₃.handshake = t₂.handshake :=
          congrArg Core.handshake (core_handshakeInitiationRequired hrequired)
        have hsent' : (t₃.formatHandshakeInitiation env dstLen true).1.handshake.timer =
            some sent := by
          rwa [hformat]
        exact sent_formatHandshakeInitiation (by rw [h₃]; exact hidle₂) hsent'
      · have h₃ : t₃.handshake = t₂.handshake :=
          congrArg Core.handshake (core_handshakeInitiationRequired hrequired)
        have h₄ : t₄.handshake = t₃.handshake :=
          congrArg Core.handshake (core_keepaliveRequired hkeepalive)
        have hidle₄ : t₄.handshake.timer = none := by
          rw [h₄, h₃]
          exact hidle₂
        obtain hencap | ⟨rfl, -⟩ := h
        · exact sent_encapsulate hencap hidle₄ hsent
        · exact absurd (hidle₄.symm.trans hsent) (by simp)

/-! ## One call -/

/-- An initiation is out; `attempt` is when the handshake was started. -/
structure Pending (started attempt sent clock : ℕ) (t : Tunn C) : Prop where
  timer : t.handshake.timer = some sent
  attempt : started + t.timers.timers .timeLastHandshakeStarted = attempt
  behind : t.timers.Behind started clock clock

/-- The handshake has been given up, and everything is cleared. -/
structure GaveUp (started clock : ℕ) (t : Tunn C) : Prop where
  expired : t.handshake.isExpired = true
  sessions : t.sessions = .empty
  packetQueue : t.packetQueue = []
  behind : t.timers.Behind started clock clock

/-- What a call does before it checks the timers. -/
theorem updateTimers_before (h : t.updateTimers env dstLen = some (t', r)) :
    ∃ t₁ : Tunn C, t₁.handshake = t.handshake ∧ t₁.packetQueue = t.packetQueue ∧
      (t.sessions = .empty → t₁.sessions = .empty) ∧
      t₁.timers.timers .timeLastHandshakeStarted = t.timers.timers .timeLastHandshakeStarted ∧
      t₁.checkTimers env (env.time - t.timers.timeStarted) dstLen = some (t', r) := by
  obtain ⟨rateLimiter, t₁, hsessions, hcheck⟩ := updateTimers_eq_some h
  rw [updateSessionTimers] at hsessions
  split_ifs at hsessions
  have hdef := Option.some.inj hsessions
  refine ⟨t₁, by rw [← hdef], by rw [← hdef], fun hempty => ?_, ?_, hcheck⟩
  · rw [← hdef]
    dsimp only
    rw [hempty]
    ext i s
    simp [SessionRing.filter, SessionRing.empty]
  · rw [← hdef]
    simp [Timers.set]

theorem GaveUp.updateTimers (h : t.GaveUp started clock) (hsame : env.Constant)
    (hstarted : started ≤ clock) (htime : clock ≤ env.time) (hd : dataOverheadSz ≤ dstLen) :
    ∃ t', t.updateTimers env dstLen = some (t', .err .connectionExpired) ∧
      t'.GaveUp started env.time := by
  obtain ⟨⟨t', r⟩, hcall⟩ :=
    Option.ne_none_iff_exists'.mp (updateTimers_of_behind h.behind htime hstarted hd)
  have hbehind := behind_updateTimers h.behind hcall hstarted htime hsame.eq.2.1.ge
  rw [hsame.eq.2.1] at hbehind
  obtain ⟨t₁, hhandshake, hqueue, hempty, -, hcheck⟩ := updateTimers_before hcall
  have hexpired : t₁.handshake.isExpired = true := by
    rw [hhandshake]
    exact h.expired
  rw [checkTimers, if_pos hexpired] at hcheck
  cases hcheck
  exact ⟨_, hcall, hexpired, hempty h.sessions, hqueue.trans h.packetQueue, hbehind⟩

/-- With one initiation out, another is sent in its place, and the start stays. -/
theorem formatHandshakeInitiation_again (env : Env) (htimer : t.handshake.timer = some sent)
    (hd : handshakeInitSz ≤ dstLen) :
    ∃ t' packet, t.formatHandshakeInitiation env dstLen true = (t', .writeToNetwork packet) ∧
      IsInitiation packet ∧ t'.handshake.timer = some env.sent ∧
      t'.timers.timers .timeLastHandshakeStarted = t.timers.timers .timeLastHandshakeStarted := by
  have hprogress : t.handshake.isInProgress = true ∧ t.handshake.isExpired = false := by
    rw [Handshake.timer] at htimer
    rw [Handshake.isInProgress, Handshake.isExpired]
    cases hstate : t.handshake.state <;> simp [hstate] at htimer ⊢
  obtain ⟨cookies, macs, hformat⟩ := Handshake.formatHandshakeInitiation_ok t.handshake
    env.ephemeralPrivate env.stamp env.sent hd
  rw [formatHandshakeInitiation]
  simp only [hprogress, hformat, Bool.not_true, Bool.and_false, Bool.false_eq_true, ↓reduceIte]
  exact ⟨_, _, rfl, ⟨_, _, rfl⟩, rfl, rfl⟩

theorem Pending.updateTimers (h : t.Pending started attempt sent clock) (hsame : env.Constant)
    (hstarted : started ≤ clock) (htime : clock ≤ env.time) (hsent : sent ≤ clock)
    (hd : handshakeInitSz ≤ dstLen) :
    ∃ t' r, t.updateTimers env dstLen = some (t', r) ∧
      ((r = .done ∧ env.time < attempt + rekeyAttemptTime ∧
          t'.Pending started attempt sent env.time) ∨
        ((∃ packet, r = .writeToNetwork packet ∧ IsInitiation packet) ∧
          sent + rekeyTimeout ≤ env.time ∧ env.time < attempt + rekeyAttemptTime ∧
          t'.Pending started attempt env.time env.time) ∨
        (r = .err .connectionExpired ∧ t'.GaveUp started env.time)) := by
  obtain ⟨helapsed, hclear, hsentNow⟩ := hsame.eq
  have hroom : dataOverheadSz ≤ dstLen := le_trans (by decide) hd
  obtain ⟨⟨t', r⟩, hcall⟩ :=
    Option.ne_none_iff_exists'.mp (updateTimers_of_behind h.behind htime hstarted hroom)
  have hbehind := behind_updateTimers h.behind hcall hstarted htime hclear.ge
  rw [hclear] at hbehind
  refine ⟨t', r, hcall, ?_⟩
  obtain ⟨t₁, hhandshake, -, -, hrecorded, hcheck⟩ := updateTimers_before hcall
  have htimer₁ : t₁.handshake.timer = some sent := by
    rw [hhandshake]
    exact h.timer
  obtain ⟨hexpired, -, -⟩ | ⟨-, t₂, ht₂, hcases⟩ := checkTimers_cases hcheck
  · rw [Handshake.timer] at htimer₁
    rw [Handshake.isExpired] at hexpired
    cases hstate : t₁.handshake.state <;> simp [hstate] at htimer₁ hexpired
  have h₂ : t₂.handshake.timer = some sent ∧ t₂.timers = t₁.timers := by
    rcases ht₂ with rfl | rfl <;> exact ⟨htimer₁, rfl⟩
  obtain ⟨htimer₂, htimers₂⟩ := h₂
  have hattempt := h.attempt
  have hbefore := h.behind.named .timeLastHandshakeStarted
  obtain hexpire | ⟨timeInitSent, htimer, hcall⟩ | ⟨hnone, -⟩ := hcases
  · cases hexpire
    exact .inr (.inr ⟨rfl, rfl, rfl, rfl, hbehind⟩)
  · obtain rfl := Option.some.inj (htimer₂.symm.trans htimer)
    obtain ⟨trying, htrying, hcases⟩ := retransmit_cases hcall
    rw [htimers₂, hrecorded, h.behind.start, durationSub_of_le (by omega)] at htrying
    obtain rfl := Option.some.inj htrying
    obtain ⟨-, hexpire⟩ | ⟨hgiveUp, hdue, hagain⟩ | ⟨hgiveUp, -, rfl, rfl⟩ := hcases
    · cases hexpire
      exact .inr (.inr ⟨rfl, rfl, rfl, rfl, hbehind⟩)
    · obtain ⟨t₃, packet, hformat, hpacket, htimer₃, hrecorded₃⟩ :=
        formatHandshakeInitiation_again env htimer₂ hd
      obtain ⟨rfl, rfl⟩ := Prod.mk.inj (hformat.symm.trans hagain)
      refine .inr (.inl ⟨⟨packet, rfl, hpacket⟩, by omega, by omega, ?_, ?_, hbehind⟩)
      · rw [htimer₃, hsentNow]
      · rw [hrecorded₃, htimers₂, hrecorded]
        exact hattempt
    · refine .inl ⟨rfl, by omega, htimer₂, ?_, hbehind⟩
      rw [htimers₂, hrecorded]
      exact hattempt
  · cases htimer₂.symm.trans hnone

/-! ## Runs of `update_timers` -/

/-- A call of `update_timers`: when it was made, what it left and what it said. -/
structure TimerCall (C : Prims) where
  time : ℕ
  after : Tunn C
  result : TunnResult

def timersStep (t : Tunn C) (call : Env × ℕ) : Option (Tunn C × TimerCall C) :=
  (t.updateTimers call.1 call.2).map fun (t', r) => (t', ⟨call.1.time, t', r⟩)

/-- When a packet was sent. -/
def sentTimes (outcomes : List (TimerCall C)) : List ℕ :=
  outcomes.filterMap fun o =>
    match o.result with
    | .writeToNetwork _ => some o.time
    | _ => none

/-- The connection has expired, and nothing is kept. -/
structure TimerCall.Over (o : TimerCall C) : Prop where
  result : o.result = .err .connectionExpired
  sessions : o.after.sessions = .empty
  packetQueue : o.after.packetQueue = []

/-- What a handshake does that is started at `attempt` and whose initiation is sent at `sent`. -/
structure Retries (attempt sent : ℕ) (outcomes : List (TimerCall C)) : Prop where
  spaced : (sent :: sentTimes outcomes).Pairwise fun a b => a + rekeyTimeout ≤ b
  inTime : ∀ time ∈ sentTimes outcomes, time < attempt + rekeyAttemptTime
  results : ∀ o ∈ outcomes, o.result = .done ∨ o.result = .err .connectionExpired ∨
    ∃ packet, o.result = .writeToNetwork packet ∧ IsInitiation packet
  late : ∀ o ∈ outcomes, attempt + rekeyAttemptTime ≤ o.time → o.Over

/-- The calls that are made: their readings are constant, there is room, and time does not go
back. -/
structure Ticking (clock : ℕ) (calls : List (Env × ℕ)) : Prop where
  constant : ∀ call ∈ calls, call.1.Constant
  room : ∀ call ∈ calls, handshakeInitSz ≤ call.2
  times : (clock :: calls.map fun call => call.1.time).Pairwise (· ≤ ·)

theorem Ticking.cons {call : Env × ℕ} {calls : List (Env × ℕ)}
    (h : Ticking clock (call :: calls)) :
    call.1.Constant ∧ handshakeInitSz ≤ call.2 ∧ clock ≤ call.1.time ∧
      Ticking call.1.time calls := by
  obtain ⟨hfirst, hrest⟩ := List.pairwise_cons.mp h.times
  exact ⟨h.constant _ List.mem_cons_self, h.room _ List.mem_cons_self,
    hfirst _ List.mem_cons_self, fun c hc => h.constant c (List.mem_cons_of_mem _ hc),
    fun c hc => h.room c (List.mem_cons_of_mem _ hc), hrest⟩

theorem run_timersStep_cons {call : Env × ℕ} {calls : List (Env × ℕ)} {t'' : Tunn C}
    {outcomes : List (TimerCall C)} (h : t.updateTimers call.1 call.2 = some (t', r))
    (hrun : Machine.run timersStep t' calls = some (t'', outcomes)) :
    Machine.run timersStep t (call :: calls) =
      some (t'', ⟨call.1.time, t', r⟩ :: outcomes) := by
  have hstep : t.timersStep call = some (t', ⟨call.1.time, t', r⟩) := by
    rw [timersStep, h]
    rfl
  rw [Machine.run_cons_of_step hstep, hrun]
  rfl

theorem sentTimes_of_over {outcomes : List (TimerCall C)} (h : ∀ o ∈ outcomes, o.Over) :
    sentTimes outcomes = [] := by
  refine List.filterMap_eq_nil_iff.mpr fun o ho => ?_
  rw [(h o ho).result]

/-- Once given up, every call says so. -/
theorem GaveUp.run {calls : List (Env × ℕ)} (h : t.GaveUp started clock)
    (hstarted : started ≤ clock) (hcalls : Ticking clock calls) :
    ∃ t' outcomes, Machine.run timersStep t calls = some (t', outcomes) ∧
      ∀ o ∈ outcomes, o.Over := by
  induction calls generalizing t clock with
  | nil => exact ⟨t, [], rfl, fun o ho => by cases ho⟩
  | cons call calls ih =>
    obtain ⟨hsame, hd, htime, hrest⟩ := hcalls.cons
    obtain ⟨t₁, hcall, h₁⟩ := h.updateTimers hsame hstarted htime (le_trans (by decide) hd)
    obtain ⟨t', outcomes, hrun, hover⟩ := ih h₁ (hstarted.trans htime) hrest
    refine ⟨t', _, run_timersStep_cons hcall hrun, fun o ho => ?_⟩
    obtain rfl | ho := List.mem_cons.mp ho
    · exact ⟨rfl, h₁.sessions, h₁.packetQueue⟩
    · exact hover o ho

/-- **A handshake is tried again until it is given up.** -/
theorem Pending.run {calls : List (Env × ℕ)} (h : t.Pending started attempt sent clock)
    (hstarted : started ≤ clock) (hsent : sent ≤ clock) (hcalls : Ticking clock calls) :
    ∃ t' outcomes, Machine.run timersStep t calls = some (t', outcomes) ∧
      Retries attempt sent outcomes := by
  induction calls generalizing t clock sent with
  | nil =>
    refine ⟨t, [], rfl, List.pairwise_singleton _ _, ?_, ?_, ?_⟩
    · rintro time ⟨⟩
    · rintro o ⟨⟩
    · rintro o ⟨⟩
  | cons call calls ih =>
    obtain ⟨hsame, hd, htime, hrest⟩ := hcalls.cons
    obtain ⟨t₁, r, hcall, ⟨rfl, hearly, h₁⟩ | ⟨⟨packet, rfl, hpacket⟩, hdue, hearly, h₁⟩ |
      ⟨rfl, h₁⟩⟩ := h.updateTimers hsame hstarted htime hsent hd
    · -- nothing is sent
      obtain ⟨t', outcomes, hrun, hretries⟩ :=
        ih h₁ (hstarted.trans htime) (hsent.trans htime) hrest
      refine ⟨t', _, run_timersStep_cons hcall hrun, hretries.spaced, hretries.inTime,
        List.forall_mem_cons.mpr ⟨.inl rfl, hretries.results⟩,
        List.forall_mem_cons.mpr ⟨fun hlate => absurd hlate (not_le.mpr hearly), hretries.late⟩⟩
    · -- the initiation is sent again
      obtain ⟨t', outcomes, hrun, hretries⟩ := ih h₁ (hstarted.trans htime) le_rfl hrest
      refine ⟨t', _, run_timersStep_cons hcall hrun, ?_,
        List.forall_mem_cons.mpr ⟨hearly, hretries.inTime⟩,
        List.forall_mem_cons.mpr ⟨.inr (.inr ⟨packet, rfl, hpacket⟩), hretries.results⟩,
        List.forall_mem_cons.mpr ⟨fun hlate => absurd hlate (not_le.mpr hearly), hretries.late⟩⟩
      refine List.pairwise_cons.mpr ⟨List.forall_mem_cons.mpr ⟨hdue, fun time htime' => ?_⟩,
        hretries.spaced⟩
      have hnext := (List.pairwise_cons.mp hretries.spaced).1 time htime'
      omega
    · -- the handshake is given up
      obtain ⟨t', outcomes, hrun, hover⟩ := h₁.run (hstarted.trans htime) hrest
      have hnone : sentTimes (⟨call.1.time, t₁, .err .connectionExpired⟩ :: outcomes) = [] :=
        sentTimes_of_over (List.forall_mem_cons.mpr ⟨⟨rfl, h₁.sessions, h₁.packetQueue⟩, hover⟩)
      refine ⟨t', _, run_timersStep_cons hcall hrun, ?_, ?_,
        List.forall_mem_cons.mpr ⟨.inr (.inl rfl), fun o ho => .inr (.inl (hover o ho).result)⟩,
        List.forall_mem_cons.mpr
          ⟨fun _ => ⟨rfl, h₁.sessions, h₁.packetQueue⟩, fun o ho _ => hover o ho⟩⟩
      · rw [hnone]
        exact List.pairwise_singleton _ _
      · rw [hnone]
        rintro time ⟨⟩

end Tunn

/-- **Handshake retry is bounded.** In every run in which a handshake has just been started and then
only `update_timers` is called, initiations are sent at least `REKEY_TIMEOUT` apart, at most 18 of
them with the first, nothing else is sent, and every call from `REKEY_ATTEMPT_TIME` after the
recorded start on says that the connection has expired, with no session and no packet left. -/
theorem Timed.retry_bounded {C : Prims} {staticPrivate peerStaticPublic : Bytes 32}
    {presharedKey : Option (Bytes 32)} {persistentKeepalive : Option ℕ} {index : UInt32}
    {rateLimiter : Option RateLimiter} {stamper : TimeStamper} {env env' : Env}
    {q q' : Timed C} {call : Tunn.Call} {r : TunnResult} {sent : ℕ} {calls : List (Env × ℕ)}
    (hrun : Machine.Reaches step Forward (start (Tunn.new C staticPrivate peerStaticPublic
      presharedKey persistentKeepalive index rateLimiter stamper env) env) q)
    (hidle : q.tunn.handshake.isInProgress = false)
    (hcall : ∃ dstLen, call = .updateTimers dstLen ∨ ∃ src, call = .encapsulate src dstLen)
    (hforward : q.Forward (env', .call call)) (hstep : q.step (env', .call call) = some (q', r))
    (hsent : q'.tunn.handshake.timer = some sent) (hcalls : Tunn.Ticking q'.clock calls) :
    ∃ t outcomes, Machine.run Tunn.timersStep q'.tunn calls = some (t, outcomes) ∧
      (sent :: Tunn.sentTimes outcomes).Pairwise (fun a b => a + rekeyTimeout ≤ b) ∧
      (sent :: Tunn.sentTimes outcomes).length ≤ 18 ∧
      (∀ o ∈ outcomes, o.result = .done ∨ o.result = .err .connectionExpired ∨
        ∃ packet, o.result = .writeToNetwork packet ∧ Tunn.IsInitiation packet) ∧
      ∀ o ∈ outcomes, q'.tunn.timers.timeStarted +
          q'.tunn.timers.timers .timeLastHandshakeStarted + rekeyAttemptTime ≤ o.time →
        o.Over := by
  have haged : q'.Aged env.time :=
    (hrun.invariant aged_start fun _ _ _ _ h hf hs => h.step hf hs).step hforward hstep
  obtain ⟨⟨t, r'⟩, htake, heq⟩ := Option.map_eq_some_iff.mp hstep
  cases heq
  have hnone : q.tunn.handshake.timer = none := by
    rw [Handshake.isInProgress] at hidle
    rw [Handshake.timer]
    cases hstate : q.tunn.handshake.state <;> simp [hstate] at hidle ⊢
  have hnow : sent = env'.sent := by
    obtain ⟨dstLen, rfl | ⟨src, rfl⟩⟩ := hcall
    · exact Tunn.sent_updateTimers htake hnone hsent
    · exact Tunn.sent_encapsulate htake hnone hsent
  have hpending : t.Pending env.time (t.timers.timeStarted +
      t.timers.timers .timeLastHandshakeStarted) sent env'.sent :=
    ⟨hsent, by rw [haged.behind.start], haged.behind⟩
  obtain ⟨t', outcomes, hcallsRun, hretries⟩ :=
    hpending.run haged.started_le hnow.le hcalls
  refine ⟨t', outcomes, hcallsRun, hretries.spaced, ?_, hretries.results, hretries.late⟩
  -- the first initiation is sent no earlier than the recorded start
  have hstart := haged.behind.named .timeLastHandshakeStarted
  rw [← haged.behind.start] at hstart
  have hlimit : ∀ time ∈ sent :: Tunn.sentTimes outcomes, time < sent + rekeyAttemptTime := by
    refine List.forall_mem_cons.mpr ⟨Nat.lt_add_of_pos_right (by decide), fun time htime => ?_⟩
    have hearly := hretries.inTime time htime
    dsimp only at hstart
    omega
  have hfew := add_mul_length_lt hretries.spaced hlimit
  simp only [rekeyTimeout, rekeyAttemptTime, fromSecs] at hfew
  rw [List.length_cons]
  omega

/-- Five seconds after the start the initiation is sent again, and after a hundred it is over. -/
def retryCalls : List (Env × ℕ) :=
  [(Tunn.sampleEnv 6 (fromSecs 6), 148), (Tunn.sampleEnv 7 (fromSecs 8), 148),
    (Tunn.sampleEnv 8 (fromSecs 100), 148), (Tunn.sampleEnv 9 (fromSecs 101), 148)]

theorem Timed.retry_bounded_sample :
    ∃ (q' : Timed checksumPrims) (r : TunnResult) (t : Tunn checksumPrims)
      (outcomes : List (Tunn.TimerCall checksumPrims)),
      (start (Tunn.sampleTunn 1 2 1) (Tunn.sampleEnv 0 0)).step
        (Tunn.sampleEnv 5 (fromSecs 1), .call (.encapsulate [] 148)) = some (q', r) ∧
      Machine.run Tunn.timersStep q'.tunn retryCalls = some (t, outcomes) ∧
      Tunn.sentTimes outcomes = [fromSecs 6] ∧
      (fromSecs 1 :: Tunn.sentTimes outcomes).length ≤ 18 ∧
      ∀ o ∈ outcomes, q'.tunn.timers.timeStarted +
          q'.tunn.timers.timers .timeLastHandshakeStarted + rekeyAttemptTime ≤ o.time →
        o.Over := by
  have hstep : ((start (Tunn.sampleTunn 1 2 1) (Tunn.sampleEnv 0 0)).step
      (Tunn.sampleEnv 5 (fromSecs 1), .call (.encapsulate [] 148))).map (fun q =>
        (q.1.clock, q.1.tunn.handshake.timer,
          (Machine.run Tunn.timersStep q.1.tunn retryCalls).map fun x => Tunn.sentTimes x.2)) =
      some (fromSecs 1, some (fromSecs 1), some [fromSecs 6]) := by decide +kernel
  obtain ⟨⟨q', r⟩, hstep, heq⟩ := Option.map_eq_some_iff.mp hstep
  simp only [Prod.mk.injEq] at heq
  obtain ⟨hclock, hsent, hcallsRun⟩ := heq
  have hcalls : Tunn.Ticking q'.clock retryCalls := by
    rw [hclock]
    exact ⟨by decide, by decide, by decide⟩
  obtain ⟨t, outcomes, hrun, -, hfew, -, hover⟩ :=
    Timed.retry_bounded .refl rfl ⟨148, .inr ⟨[], rfl⟩⟩ (by decide) hstep hsent hcalls
  rw [hrun] at hcallsRun
  exact ⟨q', r, t, outcomes, hstep, hrun, Option.some.inj hcallsRun, hfew, hover⟩

end NekoLink.Noise
