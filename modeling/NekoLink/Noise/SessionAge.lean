import NekoLink.Noise.Expiry
import NekoLink.Noise.Nonces

/-!
# The clock and the age of sessions

The runs of a tunnel under a clock that never goes back. `Timed` keeps beside the tunnel the last
reading and, for each slot of the ring, which session was last established in it and when.

* `behind_take`: no timer runs ahead of the clock, whatever a call does to the timers.
* `origin_take`: a session in the ring was established by the call, or it was there before and the
  time recorded for its slot stays.
* `session_age`: no difference of durations is negative, and after `update_timers` every session
  was established within `REJECT_AFTER_TIME`.
-/

namespace NekoLink.Noise

open Wire

namespace Timers

/-- The timers are behind the clock: those of the slots at `recent`, and the others at `now`. -/
structure Behind (started recent now : ℕ) (ts : Timers) : Prop where
  start : ts.timeStarted = started
  named : ∀ name, started + ts.timers name ≤ now
  slots : ∀ i, started + ts.sessionTimers i ≤ recent

variable {started recent recent' now now' : ℕ} {ts : Timers}

theorem Behind.mono (h : ts.Behind started recent now) (hrecent : recent ≤ recent')
    (hnow : now ≤ now') : ts.Behind started recent' now' where
  start := h.start
  named name := (h.named name).trans hnow
  slots i := (h.slots i).trans hrecent

theorem Behind.named_update (h : ts.Behind started recent now) (name : TimerName) {time : ℕ}
    (htime : started + time ≤ now) (name' : TimerName) :
    started + Function.update ts.timers name time name' ≤ now := by
  by_cases heq : name' = name
  · rw [heq, Function.update_self]
    exact htime
  · rw [Function.update_of_ne heq]
    exact h.named name'

theorem Behind.set (h : ts.Behind started recent now) (name : TimerName) {time : ℕ}
    (htime : started + time ≤ now) : (ts.set name time).Behind started recent now where
  start := h.start
  named := h.named_update name htime
  slots := h.slots

theorem Behind.tick (h : ts.Behind started recent now) (name : TimerName) :
    (ts.tick name).Behind started recent now where
  start := (ts.timeStarted_tick name).trans h.start
  named := by
    rw [timers_tick]
    exact h.named_update name (h.named .timeCurrent)
  slots := by
    rw [sessionTimers_tick]
    exact h.slots

/-- Whatever is written when nothing is received stays behind the clock. -/
theorem kept_behind (hstarted : started ≤ now) : Kept (Behind started recent now) now where
  tick _ name h := h.tick name
  wantHandshake _ h := ⟨h.start, h.named, h.slots⟩
  wantKeepalive _ h := ⟨h.start, h.named, h.slots⟩
  clear ts h := by
    refine ⟨h.start, fun name => ?_, h.slots⟩
    change started + (now - ts.timeStarted) ≤ now
    rw [h.start]
    omega

/-- A session that is established is given a time that the clock has passed. -/
theorem keptReceiving_behind : KeptReceiving (Behind started now now) where
  tick _ name h := h.tick name
  established ts isInitiator sessionIdx h := by
    have htick := h.tick .timeSessionEstablished
    refine ⟨htick.start, htick.named, fun i => ?_⟩
    have hcurrent := htick.named .timeCurrent
    simp only [tickSessionEstablished]
    by_cases heq : i = slot sessionIdx
    · rw [heq, Function.update_self]
      exact hcurrent
    · rw [Function.update_of_ne heq]
      exact htick.slots i

end Timers

namespace Tunn

variable {C : Prims} {t t' : Tunn C} {r : TunnResult} {env : Env} {dstLen now started clock : ℕ}
  {i : Env × Input}

/-! ## The timers stay behind the clock -/

theorem behind_updateSessionTimers (h : t.timers.Behind started now now)
    (hcall : t.updateSessionTimers (now - started) = some t') (hstarted : started ≤ now) :
    t'.timers.Behind started now now := by
  rw [updateSessionTimers] at hcall
  split_ifs at hcall
  cases hcall
  refine ⟨h.start, h.named, fun i => ?_⟩
  have hslot := h.slots i
  dsimp only
  split_ifs
  · omega
  · exact hslot

theorem behind_updateTimers (h : t.timers.Behind started clock clock)
    (hcall : t.updateTimers env dstLen = some (t', r)) (hstarted : started ≤ clock)
    (htime : clock ≤ env.time) (hclear : env.time ≤ env.clear) :
    t'.timers.Behind started env.time env.clear := by
  obtain ⟨rateLimiter, t₁, hsessions, hcheck⟩ := updateTimers_eq_some hcall
  rw [h.start] at hsessions hcheck
  have hset : (t.timers.set .timeCurrent (env.time - started)).Behind started env.time env.time :=
    (h.mono htime htime).set _ (by omega)
  have h₁ : t₁.timers.Behind started env.time env.time :=
    behind_updateSessionTimers hset hsessions (by omega)
  exact kept_checkTimers (Timers.kept_behind (by omega)) (h₁.mono le_rfl hclear) hcheck

/-- **No timer runs ahead of the clock**: those of the slots not even ahead of the first reading. -/
theorem behind_take (h : t.timers.Behind started clock clock)
    (hcall : t.take i = some (t', r)) (hstarted : started ≤ clock) (htime : clock ≤ i.1.time)
    (hclear : i.1.time ≤ i.1.clear) : t'.timers.Behind started i.1.time i.1.clear := by
  have hkept : Timers.Kept (Timers.Behind started i.1.time i.1.clear) i.1.clear :=
    Timers.kept_behind (by omega)
  have hbefore := h.mono htime (htime.trans hclear)
  obtain ⟨env, call | ⟨packet, dstLen⟩⟩ := i
  · cases call with
    | encapsulate src dstLen => exact kept_encapsulate hkept hbefore hcall
    | decapsulate srcAddr datagram dstLen =>
      obtain hsent | hreceived :=
        kept_decapsulate hkept hbefore Timers.keptReceiving_behind (h.mono htime htime) hcall
      · exact hsent
      · exact hreceived.mono le_rfl hclear
    | updateTimers dstLen => exact behind_updateTimers h hcall hstarted htime hclear
    | formatHandshakeInitiation dstLen force =>
      have hformat := kept_formatHandshakeInitiation hkept hbefore dstLen force
      rwa [Option.some.inj hcall] at hformat
    | setStaticPrivate staticPrivate staticPublic rateLimiter =>
      obtain ⟨t₁, hrekey, heq⟩ := Option.map_eq_some_iff.mp hcall
      obtain ⟨handshake, -, rfl⟩ := Option.map_eq_some_iff.mp hrekey
      cases heq
      exact ⟨hbefore.start, hbefore.named, hbefore.slots⟩
  · exact (kept_handleVerifiedPacket Timers.keptReceiving_behind (h.mono htime htime) hcall).mono
      le_rfl hclear

/-! ## No difference is negative -/

theorem durationSub_of_le {a b : ℕ} (h : b ≤ a) : durationSub a b = some (a - b) := if_pos h

theorem dueAfter_of_le (guard : Bool) {since : ℕ} (limit : ℕ) (h : since ≤ now) :
    ∃ due, dueAfter guard now since limit = some due := by
  rw [dueAfter]
  split_ifs
  · rw [durationSub_of_le h]
    exact ⟨_, rfl⟩
  · exact ⟨_, rfl⟩

theorem encapsulate_ne_none (t : Tunn C) (env : Env) (hd : dataOverheadSz ≤ dstLen) :
    t.encapsulate env [] dstLen ≠ none := by
  have hroom : ([] : List UInt8).length + dataOverheadSz ≤ dstLen := by simpa using hd
  rw [encapsulate]
  rcases t.sessions.get t.current with _ | s
  · exact Option.some_ne_none _
  · simp only [Session.formatPacketData_spec hroom, Option.map_some]
    exact Option.some_ne_none _

theorem handshakeInitiationRequired_of_le (h : ∀ name, t.timers.timers name ≤ now) :
    ∃ t' required, t.handshakeInitiationRequired now = some (t', required) ∧
      t'.timers.timers = t.timers.timers := by
  simp only [handshakeInitiationRequired]
  obtain ⟨onSend, hsend⟩ := dueAfter_of_le (t.timers.isInitiator &&
    t.timers.timers .timeSessionEstablished < t.timers.timers .timeLastDataPacketSent)
    rekeyAfterTime (h .timeSessionEstablished)
  obtain ⟨onReceive, hreceive⟩ := dueAfter_of_le (t.timers.isInitiator &&
    t.timers.timers .timeSessionEstablished < t.timers.timers .timeLastDataPacketReceived)
    (rejectAfterTime - keepaliveTimeout - rekeyTimeout) (h .timeSessionEstablished)
  obtain ⟨silent, hsilent⟩ := dueAfter_of_le
    (t.timers.timers .timeLastPacketReceived < t.timers.timers .timeLastDataPacketSent)
    (keepaliveTimeout + rekeyTimeout) (h .timeLastPacketReceived)
  rw [hsend, hreceive, hsilent]
  refine ⟨_, _, rfl, ?_⟩
  split_ifs <;> rfl

theorem keepaliveRequired_of_le (h : ∀ name, t.timers.timers name ≤ now) :
    t.keepaliveRequired now ≠ none := by
  simp only [keepaliveRequired]
  obtain ⟨quiet, hquiet⟩ := dueAfter_of_le
    (t.timers.timers .timeLastPacketSent < t.timers.timers .timeLastDataPacketReceived)
    keepaliveTimeout (h .timeLastPacketSent)
  obtain ⟨persistent, hpersistent⟩ := dueAfter_of_le (0 < t.timers.persistentKeepalive)
    (fromSecs t.timers.persistentKeepalive) (h .timePersistentKeepalive)
  rw [hquiet, hpersistent]
  exact Option.some_ne_none _

/-- With no timer ahead of the clock, only the room for a keepalive can be missing. -/
theorem checkTimers_of_le (h : ∀ name, t.timers.timers name ≤ now) (hd : dataOverheadSz ≤ dstLen) :
    t.checkTimers env now dstLen ≠ none := by
  rw [checkTimers]
  split_ifs
  · exact Option.some_ne_none _
  · obtain ⟨stale, hstale⟩ := dueAfter_of_le t.handshake.hasCookie cookieExpirationTime
      (h .timeCookieReceived)
    rw [hstale]
    simp only [Option.bind_eq_bind, Option.bind_some]
    generalize hdef : (if stale then { t with handshake := t.handshake.clearCookie } else t) = t₁
    have h₁ : ∀ name, t₁.timers.timers name ≤ now := by
      rw [← hdef]
      split_ifs <;> exact h
    rw [durationSub_of_le (h₁ .timeSessionEstablished), Option.bind_some]
    split_ifs
    · exact Option.some_ne_none _
    · rcases t₁.handshake.timer with _ | timeInitSent
      · -- no initiation is out
        obtain ⟨t₂, required, hrequired, htimers⟩ := handshakeInitiationRequired_of_le h₁
        have h₂ : ∀ name, t₂.timers.timers name ≤ now := by rwa [htimers]
        obtain ⟨⟨t₃, keepalive⟩, hkeepalive⟩ :=
          Option.ne_none_iff_exists'.mp (keepaliveRequired_of_le h₂)
        simp only [initiateOrKeepalive, hrequired, hkeepalive, Option.bind_eq_bind,
          Option.bind_some]
        split_ifs
        · exact Option.some_ne_none _
        · exact encapsulate_ne_none t₃ env hd
        · exact Option.some_ne_none _
      · simp only [retransmit, durationSub_of_le (h₁ .timeLastHandshakeStarted),
          Option.bind_eq_bind, Option.bind_some]
        split_ifs <;> exact Option.some_ne_none _

/-- **No difference is negative in `update_timers`.** -/
theorem updateTimers_of_behind (h : t.timers.Behind started clock clock)
    (htime : clock ≤ env.time) (hstarted : started ≤ clock) (hd : dataOverheadSz ≤ dstLen) :
    t.updateTimers env dstLen ≠ none := by
  rw [updateTimers]
  generalize hdef : (if t.timers.shouldResetRr then
    { t with rateLimiter := t.rateLimiter.resetCount env.reset } else t) = t₀
  have h₀ : t₀.timers.Behind started clock clock := by
    rw [← hdef]
    split_ifs <;> exact h
  have hset : (t₀.timers.set .timeCurrent (env.time - started)).Behind started env.time env.time :=
    (h₀.mono htime htime).set _ (by omega)
  have hle : ∀ i, (t₀.timers.set .timeCurrent (env.time - started)).sessionTimers i ≤
      env.time - started := fun i => by
    have := hset.slots i
    omega
  simp only [h₀.start, Option.bind_eq_bind]
  rw [updateSessionTimers, if_pos hle, Option.bind_some]
  refine checkTimers_of_le (fun name => ?_) hd
  have hname := hset.named name
  dsimp only
  omega

theorem timeSinceLastHandshake_of_behind (h : t.timers.Behind started clock clock)
    (hnow : clock ≤ now) : t.timeSinceLastHandshake now ≠ none := by
  have hname := h.named .timeSessionEstablished
  rw [timeSinceLastHandshake]
  rcases t.sessions.get t.current with _ | s
  · exact Option.some_ne_none _
  · rw [h.start, durationSub_of_le (by omega)]
    exact Option.some_ne_none _

/-! ## Where a session comes from -/

/-- The session that an event gives. -/
def Event.session : Event → Option Session
  | .answered s | .obtained s => some s
  | _ => none

theorem established_eq (t : Tunn C) (i : Env × Input) :
    t.established i = (t.sessionEvent i).bind Event.session := by
  rw [established]
  rcases t.sessionEvent i with _ | _ | _ | _ | _ | _ | _ <;> rfl

/-- A session in the ring is the one given, or it was there and the time of its slot stays. -/
inductive Origin (before : Core C) (given : Option Session) (idx : ℕ) (s : Session) (time : ℕ) :
    Prop
  | given {s₀ : Session} (hgiven : given = some s₀) (hslot : slot idx = slot s₀.localIndex)
      (hsame : s.Same s₀)
  | stays {s₁ : Session} (hother : ∀ s₀, given = some s₀ → slot idx ≠ slot s₀.localIndex)
      (hs : before.sessions.get idx = some s₁) (hsame : s.Same s₁)
      (htime : time = before.sessionTimers (slot idx))

/-- A session written back to its slot is the one that was there. -/
theorem origin_store {c : Core C} {idx idx' : ℕ} {s s' s'' : Session} {time : ℕ}
    (hs : c.sessions.get idx' = some s) (hsame : s'.Same s)
    (h : (c.sessions.store s').get idx = some s'') (htime : time = c.sessionTimers (slot idx)) :
    Origin c none idx s'' time := by
  have hother : ∀ s₀, (none : Option Session) = some s₀ → slot idx ≠ slot s₀.localIndex :=
    fun s₀ h₀ => by cases h₀
  by_cases hslot : slot idx = slot s'.localIndex
  · rw [SessionRing.get_store_of_eq hslot] at h
    obtain rfl := Option.some.inj h
    have hidx : slot idx = slot idx' := by
      rw [hslot, hsame.localIndex, SessionRing.slot_localIndex hs]
    refine .stays hother ?_ hsame htime
    rw [SessionRing.get, hidx]
    exact hs
  · rw [SessionRing.get_store_of_ne hslot] at h
    exact .stays hother h (.refl _) htime

/-- A session stored in its slot is there, and the other slots are as they were. -/
theorem origin_new {c : Core C} {idx : ℕ} {s s' s'' : Session} {timers : Fin nSessions → ℕ}
    (hsame : s'.Same s) (h : (c.sessions.store s').get idx = some s'')
    (htimers : ∀ i, i ≠ slot s.localIndex → timers i = c.sessionTimers i) :
    Origin c (some s) idx s'' (timers (slot idx)) := by
  by_cases hslot : slot idx = slot s.localIndex
  · rw [SessionRing.get_store_of_eq (by rw [hslot, hsame.localIndex])] at h
    obtain rfl := Option.some.inj h
    exact .given rfl hslot hsame
  · rw [SessionRing.get_store_of_ne (by rwa [hsame.localIndex])] at h
    refine .stays ?_ h (.refl _) (htimers _ hslot)
    rintro s₀ h₀
    rwa [← Option.some.inj h₀]

theorem Effect.origin {c c' : Core C} {e : Option Event} (h : Effect c e c' r) {idx : ℕ}
    {s : Session} (hs : c'.sessions.get idx = some s) :
    Origin c (e.bind Event.session) idx s (c'.sessionTimers (slot idx)) := by
  cases h with
  | idle | initiate | stuck => exact .stays (by rintro s₀ ⟨⟩) hs (.refl _) rfl
  | send s₁ src hs₁ => exact origin_store hs₁ (Session.same_bumped s₁) hs rfl
  | receive p dstLen s₁ s₂ ret current hs₁ hreceive hcurrent =>
    exact origin_store hs₁ (Session.receivePacketData_ok hreceive).2 hs rfl
  | respond packet timestamp chainingKey hash ephemeralPrivate cookies macs time haccepts =>
    exact origin_new (.refl _) hs fun i hi => Function.update_of_ne hi _ _
  | establish packet s₁ isPrevious temp2 temp3 rtt time current hawait hopen hcurrent =>
    exact origin_new (Session.same_bumped _) hs fun i hi => Function.update_of_ne hi _ _
  | expireSessions now cookies hle =>
    dsimp only at hs
    rw [SessionRing.get_filter] at hs
    split_ifs at hs with hkept
    refine .stays (by rintro s₀ ⟨⟩) hs (.refl _) ?_
    simp only [Bool.not_eq_true', decide_eq_false_iff_not] at hkept
    exact if_neg hkept
  | giveUp | rekey => cases hs

theorem origin_take (h : t.take i = some (t', r)) {idx : ℕ} {s : Session}
    (hs : t'.sessions.get idx = some s) :
    Origin t.core (t.established i) idx s (t'.timers.sessionTimers (slot idx)) := by
  rw [established_eq]
  obtain ⟨env, call | ⟨packet, dstLen⟩⟩ := i
  · obtain ⟨c, e, hc, he, heffect⟩ := step_effect h
    have hgiven : e.bind Event.session = (t.event (env, call)).bind Event.session := by
      obtain he | ⟨hnone, hgave⟩ := he
      · rw [he]
      · rw [hnone, hgave]
        rfl
    have horigin := heffect.origin hs
    rw [hgiven] at horigin
    obtain rfl | ⟨env, dstLen, hcall, hexpire⟩ := hc
    · exact horigin
    · -- the sessions that are left were there before the expiry
      cases hcall
      cases horigin with
      | given hgiven => cases hgiven
      | stays hother hs₁ hsame htime =>
        cases hexpire.origin hs₁ with
        | given hgiven => cases hgiven
        | stays hother₂ hs₂ hsame₂ htime₂ =>
          exact .stays hother hs₂ (hsame.trans hsame₂) (htime.trans htime₂)
  · exact (effect_handleVerifiedPacket h).origin hs

end Tunn

/-! ## Runs under a clock that never goes back -/

/-- The readings that a call may take, in the order in which it takes them. -/
def Env.readings (env : Env) : List ℕ :=
  [env.time, env.reset, env.cookie, env.elapsed, env.rtt, env.clear, env.stamp, env.sent]

/-- A tunnel with what is known of its sessions from outside. -/
structure Timed (C : Prims) where
  tunn : Tunn C
  /-- the session last established in a slot, and the first reading of the call that did it -/
  born : Fin nSessions → Option (Session × ℕ)
  /-- the last reading -/
  clock : ℕ

namespace Timed

variable {C : Prims} {q q' : Timed C} {i : Env × Tunn.Input} {r : TunnResult}

/-- The tunnel is created. -/
def start (t : Tunn C) (env : Env) : Timed C := ⟨t, fun _ => none, env.time⟩

def step (q : Timed C) (i : Env × Tunn.Input) : Option (Timed C × TunnResult) :=
  (q.tunn.take i).map fun (t, r) =>
    ({ tunn := t
       born := match q.tunn.established i with
        | some s => Function.update q.born (slot s.localIndex) (some (s, i.1.time))
        | none => q.born
       clock := i.1.sent }, r)

/-- The clock does not go back. -/
def Forward (q : Timed C) (i : Env × Tunn.Input) : Prop :=
  (q.clock :: i.1.readings).Pairwise (· ≤ ·)

instance (q : Timed C) (i : Env × Tunn.Input) : Decidable (q.Forward i) :=
  inferInstanceAs (Decidable (List.Pairwise _ _))

theorem Forward.bounds (h : q.Forward i) :
    q.clock ≤ i.1.time ∧ i.1.time ≤ i.1.clear ∧ i.1.clear ≤ i.1.sent := by
  simp only [Forward, Env.readings, List.pairwise_cons, List.mem_cons, List.not_mem_nil, or_false,
    forall_eq_or_imp, forall_eq] at h
  omega

/-- No timer is ahead of the clock, and every session in the ring is one established in its slot, at
the time recorded for the slot or later. -/
structure Aged (started : ℕ) (q : Timed C) : Prop where
  started_le : started ≤ q.clock
  behind : q.tunn.timers.Behind started q.clock q.clock
  born : ∀ idx s, q.tunn.sessions.get idx = some s → ∃ s₀ time,
    q.born (slot idx) = some (s₀, time) ∧ s.Same s₀ ∧
      started + q.tunn.timers.sessionTimers (slot idx) ≤ time

variable {started : ℕ}

theorem Aged.step (h : q.Aged started) (hforward : q.Forward i) (hstep : q.step i = some (q', r)) :
    q'.Aged started := by
  obtain ⟨⟨t, r'⟩, htake, heq⟩ := Option.map_eq_some_iff.mp hstep
  cases heq
  obtain ⟨htime, hclear, hsent⟩ := hforward.bounds
  have hbehind := Tunn.behind_take h.behind htake h.started_le htime hclear
  refine ⟨?_, hbehind.mono (hclear.trans hsent) hsent, fun idx s hs => ?_⟩
  · have hstarted := h.started_le
    dsimp only
    omega
  · dsimp only at hs ⊢
    cases Tunn.origin_take htake hs with
    | @given s₀ hgiven hslot hsame =>
      refine ⟨s₀, i.1.time, ?_, hsame, hbehind.slots _⟩
      simp only [hgiven, hslot, Function.update_self]
    | @stays s₁ hother hs₁ hsame hold =>
      obtain ⟨s₀, time, hborn, hsame₀, hrecorded⟩ := h.born idx s₁ hs₁
      refine ⟨s₀, time, ?_, hsame.trans hsame₀, by rw [hold]; exact hrecorded⟩
      rcases hgiven : q.tunn.established i with _ | s₂
      · exact hborn
      · exact (Function.update_of_ne (hother s₂ hgiven) _ _).trans hborn

theorem aged_start {staticPrivate peerStaticPublic : Bytes 32} {presharedKey : Option (Bytes 32)}
    {persistentKeepalive : Option ℕ} {index : UInt32} {rateLimiter : Option RateLimiter}
    {stamper : TimeStamper} {env : Env} :
    (start (Tunn.new C staticPrivate peerStaticPublic presharedKey persistentKeepalive index
      rateLimiter stamper env) env).Aged env.time where
  started_le := le_rfl
  behind := ⟨rfl, fun _ => le_rfl, fun _ => le_rfl⟩
  born idx s hs := by cases hs

/-- **Timer arithmetic and session age.** In every run under a clock that never goes back no timer
is ahead of the clock, so neither `time_since_last_handshake` nor `update_timers` takes a negative
difference, and after `update_timers` every session in the ring was established within
`REJECT_AFTER_TIME`. -/
theorem session_age {staticPrivate peerStaticPublic : Bytes 32} {presharedKey : Option (Bytes 32)}
    {persistentKeepalive : Option ℕ} {index : UInt32} {rateLimiter : Option RateLimiter}
    {stamper : TimeStamper} {env : Env}
    (hrun : Machine.Reaches step Forward (start (Tunn.new C staticPrivate peerStaticPublic
      presharedKey persistentKeepalive index rateLimiter stamper env) env) q) :
    (∀ name, q.tunn.timers.timeStarted + q.tunn.timers.timers name ≤ q.clock) ∧
    (∀ i, q.tunn.timers.timeStarted + q.tunn.timers.sessionTimers i ≤ q.clock) ∧
    (∀ now, q.clock ≤ now → q.tunn.timeSinceLastHandshake now ≠ none) ∧
    ∀ (env : Env) (dstLen : ℕ), q.Forward (env, .call (.updateTimers dstLen)) →
      (q.tunn.updateTimers env dstLen = none → dstLen < dataOverheadSz) ∧
      ∀ t r, q.tunn.updateTimers env dstLen = some (t, r) → ∀ idx s, t.sessions.get idx = some s →
        ∃ s₀ time, q.born (slot idx) = some (s₀, time) ∧ s.Same s₀ ∧
          env.time ≤ time + rejectAfterTime := by
  have haged : q.Aged env.time :=
    hrun.invariant aged_start fun _ _ _ _ h hforward hstep => h.step hforward hstep
  refine ⟨?_, ?_, fun now hnow => Tunn.timeSinceLastHandshake_of_behind haged.behind hnow,
    fun env' dstLen hforward => ⟨fun hnone => ?_, fun t r hcall idx s hs => ?_⟩⟩
  · rw [haged.behind.start]
    exact haged.behind.named
  · rw [haged.behind.start]
    exact haged.behind.slots
  · by_contra hd
    exact Tunn.updateTimers_of_behind haged.behind hforward.bounds.1 haged.started_le
      (not_lt.mp hd) hnone
  · have hstep : q.step (env', .call (.updateTimers dstLen)) =
        some (⟨t, q.born, env'.sent⟩, r) := by
      have htake : q.tunn.take (env', .call (.updateTimers dstLen)) = some (t, r) := hcall
      rw [step, htake]
      rfl
    obtain ⟨s₀, time, hborn, hsame, hrecorded⟩ := (haged.step hforward hstep).born idx s hs
    have hyoung := Tunn.young_updateTimers hcall idx s hs
    rw [haged.behind.start] at hyoung
    refine ⟨s₀, time, hborn, hsame, ?_⟩
    dsimp only [Tunn.core] at hyoung hrecorded
    omega

/-- An initiation is sent, and the response to it arrives. -/
def agedRun : List (Env × Tunn.Input) :=
  Tunn.initiations.take 1 ++ (Tunn.answers.take 1).map (Tunn.receive 10 6)

/-- Three minutes later the session is still there. -/
theorem session_age_sample :
    ∃ (q : Timed checksumPrims) (t : Tunn checksumPrims) (r : TunnResult) (s s₀ : Session)
      (time : ℕ),
      Machine.Reaches step Forward (start (Tunn.sampleTunn 1 2 1) (Tunn.sampleEnv 0 0)) q ∧
      q.clock = 6 ∧ q.tunn.timeSinceLastHandshake rejectAfterTime ≠ none ∧
      q.tunn.updateTimers (Tunn.sampleEnv 0 rejectAfterTime) 148 = some (t, r) ∧
      t.sessions.get 1 = some s ∧ q.born (slot 1) = some (s₀, time) ∧ s.Same s₀ ∧
      rejectAfterTime ≤ time + rejectAfterTime := by
  have hrun : (Machine.run (Machine.guarded step Forward) (start (Tunn.sampleTunn 1 2 1)
      (Tunn.sampleEnv 0 0)) agedRun).map (fun q => (q.1.clock,
        (q.1.tunn.updateTimers (Tunn.sampleEnv 0 rejectAfterTime) 148).map fun t =>
          (t.1.sessions.get 1).isSome)) = some (6, some true) := by decide +kernel
  obtain ⟨⟨q, results⟩, hrun, heq⟩ := Option.map_eq_some_iff.mp hrun
  obtain ⟨hclock, hcall⟩ := Prod.mk.inj heq
  obtain ⟨⟨t, r⟩, hcall, hsession⟩ := Option.map_eq_some_iff.mp hcall
  obtain ⟨s, hs⟩ := Option.isSome_iff_exists.mp hsession
  have hreaches := Machine.reaches_of_guarded_run hrun
  obtain ⟨-, -, hsince, hage⟩ := session_age hreaches
  have hforward : q.Forward (Tunn.sampleEnv 0 rejectAfterTime, .call (.updateTimers 148)) := by
    dsimp only at hclock
    rw [Forward, hclock]
    decide
  obtain ⟨s₀, time, hborn, hsame, htime⟩ := (hage _ 148 hforward).2 t r hcall 1 s hs
  have hsince := hsince rejectAfterTime (by dsimp only at hclock; rw [hclock]; decide)
  exact ⟨q, t, r, s, s₀, time, hreaches, hclock, hsince, hcall, hs, hborn, hsame, htime⟩

end Timed

end NekoLink.Noise
