import NekoLink.Noise.TimerSteps

/-!
# What a call of `update_timers` leaves overdue

* `updateTimers_timely`: after a call no session is older than `REJECT_AFTER_TIME`, and no
  initiation in progress has been unanswered for `REKEY_TIMEOUT`.
-/

namespace NekoLink.Noise

namespace Tunn

variable {C : Prims} {t t' : Tunn C} {r : TunnResult} {env : Env} {dstLen now : ℕ}

/-- When the session at an index was established: the tunnel's record, which is the time of the last
`update_timers` before. -/
def establishedAt (t : Tunn C) (idx : ℕ) : ℕ :=
  t.timers.timeStarted + t.timers.sessionTimers (slot idx)

/-- Nothing is overdue. -/
structure Timely (t : Tunn C) (now : ℕ) : Prop where
  sessions : ∀ idx s, t.sessions.get idx = some s → now ≤ t.establishedAt idx + rejectAfterTime
  initiation : ∀ timeInitSent, t.handshake.timer = some timeInitSent →
    now < timeInitSent + rekeyTimeout

/-- The record of the tunnel's start is never written. -/
theorem kept_timeStarted (started now : ℕ) :
    Timers.Kept (fun ts => ts.timeStarted = started) now where
  tick ts name h := (ts.timeStarted_tick name).trans h
  wantHandshake _ h := h
  wantKeepalive _ h := h
  clear _ h := h

/-! ## Initiations -/

/-- An initiation that is sent is the one in progress; otherwise the one in progress stays. -/
theorem timer_formatHandshakeInitiation (t : Tunn C) (env : Env) (force : Bool)
    (hd : handshakeInitSz ≤ dstLen) :
    (t.formatHandshakeInitiation env dstLen force).1.handshake.timer = some env.sent ∨
      (t.handshake.isInProgress = true ∧ force = false) ∧
        (t.formatHandshakeInitiation env dstLen force).1.handshake = t.handshake := by
  obtain ⟨hskip, heq⟩ | ⟨-, ⟨hsmall, -⟩ | ⟨handshake, packet, -, hformat, heq⟩⟩ :=
    t.formatHandshakeInitiation_spec env dstLen force
  · rw [heq]
    simp only [Bool.and_eq_true, Bool.not_eq_true'] at hskip
    exact .inr ⟨hskip, rfl⟩
  · exact absurd hd (not_le.mpr hsmall)
  · obtain ⟨cookies, macs, hok⟩ := Handshake.formatHandshakeInitiation_ok t.handshake
      env.ephemeralPrivate env.stamp env.sent hd
    cases hok.symm.trans hformat
    rw [heq, handshake_initiated]
    exact .inl rfl

/-- When no initiation is in progress, one that is afterwards has just been sent. -/
theorem timer_initiateOrKeepalive (hd : handshakeInitSz ≤ dstLen)
    (h : t.initiateOrKeepalive env now dstLen = some (t', r)) (htimer : t.handshake.timer = none) :
    t'.handshake.timer = some env.sent ∨ t'.handshake.timer = none := by
  obtain ⟨t₁, hrequired, hformat⟩ | ⟨t₁, t₂, keepalive, hrequired, hkeepalive, h⟩ :=
    initiateOrKeepalive_cases h
  · obtain hsent | ⟨⟨-, hforce⟩, -⟩ := timer_formatHandshakeInitiation t₁ env true hd
    · rw [hformat] at hsent
      exact .inl hsent
    · cases hforce
  · have h₁ : t₁.handshake = t.handshake :=
      congrArg Core.handshake (core_handshakeInitiationRequired hrequired)
    have h₂ : t₂.handshake = t₁.handshake :=
      congrArg Core.handshake (core_keepaliveRequired hkeepalive)
    rw [← h₁, ← h₂] at htimer
    obtain h | ⟨rfl, -⟩ := h
    · rw [encapsulate] at h
      rcases hs : t₂.sessions.get t₂.current with _ | s
      · rw [hs] at h
        have hqueue : (t₂.queuePacket []).handshake = t₂.handshake :=
          congrArg Core.handshake (core_queuePacket t₂ [])
        obtain hsent | ⟨-, hsame⟩ := timer_formatHandshakeInitiation (t₂.queuePacket []) env false hd
        · rw [Option.some.inj h] at hsent
          exact .inl hsent
        · rw [Option.some.inj h, hqueue] at hsame
          exact .inr (by rw [hsame]; exact htimer)
      · rw [hs] at h
        obtain ⟨⟨s', datagram⟩, -, heq⟩ := Option.map_eq_some_iff.mp h
        dsimp only at heq
        split_ifs at heq <;> cases heq <;> exact .inr htimer
    · exact .inr htimer

/-- An initiation in progress after the checks has just been sent, or is recent. -/
theorem timer_checkTimers (hd : handshakeInitSz ≤ dstLen)
    (h : t.checkTimers env now dstLen = some (t', r)) {timeInitSent : ℕ}
    (htimer : t'.handshake.timer = some timeInitSent) :
    timeInitSent = env.sent ∨ env.elapsed - timeInitSent < rekeyTimeout := by
  obtain ⟨hexpired, rfl, -⟩ | ⟨-, t₁, -, hexpire | ⟨before, hbefore, hcall⟩ | ⟨hbefore, hcall⟩⟩ :=
    checkTimers_cases h
  · rw [Handshake.isExpired] at hexpired
    rw [Handshake.timer] at htimer
    rcases hstate : t'.handshake.state with _ | s | ⟨hash, key, eph, idx⟩ | _ <;>
      simp [hstate] at hexpired htimer
  · cases hexpire
    cases htimer
  · obtain ⟨trying, -, ⟨-, hexpire⟩ | ⟨-, -, hformat⟩ | ⟨-, hrecent, rfl, -⟩⟩ :=
      retransmit_cases hcall
    · cases hexpire
      cases htimer
    · obtain hsent | ⟨⟨-, hforce⟩, -⟩ := timer_formatHandshakeInitiation t₁ env true hd
      · rw [hformat] at hsent
        exact .inl (Option.some.inj (htimer.symm.trans hsent))
      · cases hforce
    · obtain rfl := Option.some.inj (hbefore.symm.trans htimer)
      exact .inr hrecent
  · obtain hsent | hnone := timer_initiateOrKeepalive hd hcall hbefore
    · exact .inl (Option.some.inj (htimer.symm.trans hsent))
    · rw [hnone] at htimer
      cases htimer

/-! ## Sessions -/

/-- No session is older than `REJECT_AFTER_TIME`, in the time of the tunnel. -/
def Core.Young (c : Core C) (now : ℕ) : Prop :=
  ∀ idx s, c.sessions.get idx = some s → now - c.sessionTimers (slot idx) ≤ rejectAfterTime

/-- What the checks do leaves no old session. -/
theorem Core.Young.effect {c c' : Core C} {e : Option Event} (hyoung : c.Young now)
    (he : e = none ∨ e = some .gaveUp) (h : Effect c e c' r) : c'.Young now := by
  cases h with
  | idle | initiate | stuck => exact hyoung
  | send s src hs =>
    intro idx s' hs'
    by_cases hslot : slot idx = slot (s.bumped C).localIndex
    · -- it is in the slot that it was in
      have hcurrent : slot c.current = slot idx :=
        (SessionRing.slot_localIndex hs).symm.trans hslot.symm
      rw [← hcurrent]
      exact hyoung c.current s hs
    · exact hyoung idx s' (by rwa [SessionRing.get_store_of_ne hslot] at hs')
  | giveUp =>
    intro idx s' hs'
    cases hs'
  | respond | establish | receive | expireSessions | rekey =>
    rcases he with he | he <;> cases he

theorem young_updateSessionTimers (h : t.updateSessionTimers now = some t') :
    t'.core.Young now := by
  obtain ⟨-, hcore⟩ := updateSessionTimers_eq_some h
  intro idx s hs
  rw [hcore] at hs ⊢
  dsimp only at hs ⊢
  rw [SessionRing.get_filter] at hs
  split_ifs at hs with hkept
  simp only [Bool.not_eq_true', decide_eq_false_iff_not, not_lt] at hkept
  rwa [if_neg (by omega)]

/-! ## After a call -/

/-- A call takes out the old sessions and checks the timers. -/
theorem updateTimers_eq_some (h : t.updateTimers env dstLen = some (t', r)) :
    ∃ (rateLimiter : RateLimiter) (t₁ : Tunn C),
      ({ t with
        timers := t.timers.set .timeCurrent (env.time - t.timers.timeStarted)
        rateLimiter } : Tunn C).updateSessionTimers (env.time - t.timers.timeStarted) = some t₁ ∧
      t₁.checkTimers env (env.time - t.timers.timeStarted) dstLen = some (t', r) := by
  simp only [updateTimers, Option.bind_eq_bind, Option.bind_eq_some_iff] at h
  obtain ⟨t₁, hsessions, hcheck⟩ := h
  split_ifs at hsessions hcheck
  · exact ⟨_, t₁, hsessions, hcheck⟩
  · exact ⟨t.rateLimiter, t₁, hsessions, hcheck⟩

/-- After a call no session is older than `REJECT_AFTER_TIME`, in the time of the tunnel. -/
theorem young_updateTimers (h : t.updateTimers env dstLen = some (t', r)) :
    t'.core.Young (env.time - t.timers.timeStarted) := by
  obtain ⟨rateLimiter, t₁, hsessions, hcheck⟩ := updateTimers_eq_some h
  obtain ⟨t₂, cookies, e, hcore, he, heffect⟩ := effect_checkTimers hcheck
  have hyoung : t₂.core.Young (env.time - t.timers.timeStarted) := by
    rw [hcore]
    exact young_updateSessionTimers hsessions
  exact hyoung.effect he heffect

/-- **Nothing is overdue after a call**, at a time that its clock readings have reached. -/
theorem updateTimers_timely (h : t.updateTimers env dstLen = some (t', r))
    (hd : handshakeInitSz ≤ dstLen) (htime : now ≤ env.time) (helapsed : now ≤ env.elapsed)
    (hsent : now ≤ env.sent) : t'.Timely now := by
  obtain ⟨rateLimiter, t₁, hsessions, hcheck⟩ := updateTimers_eq_some h
  have hstarted : t'.timers.timeStarted = t.timers.timeStarted := by
    refine kept_checkTimers (kept_timeStarted _ _) ?_ hcheck
    rw [updateSessionTimers] at hsessions
    split_ifs at hsessions
    cases hsessions
    rfl
  constructor
  · intro idx s hs
    have hage : env.time - t.timers.timeStarted - t'.timers.sessionTimers (slot idx) ≤
        rejectAfterTime := young_updateTimers h idx s hs
    rw [establishedAt, hstarted]
    omega
  · intro timeInitSent htimer
    have hpos : 0 < rekeyTimeout := by decide
    obtain rfl | hrecent := timer_checkTimers hd hcheck htimer
    · omega
    · omega

end Tunn

end NekoLink.Noise
