import NekoLink.Noise.TunnSteps

/-!
# What the calls do to the timers

The functions of a tunnel write to its timers in a few ways only: they tick one, take a flag back,
or set all of them to the current time. `Timers.Kept I now` says of a property `I` that these keep
it, and then so does every function that does not establish a session
(`kept_formatHandshakeInitiation`, `kept_encapsulate`, `kept_checkTimers`); a function that receives
a packet ticks timers and establishes sessions (`kept_handleVerifiedPacket`).
-/

namespace NekoLink.Noise

namespace Timers

theorem timers_tick (ts : Timers) (name : TimerName) :
    (ts.tick name).timers = Function.update ts.timers name (ts.timers .timeCurrent) := by
  cases name <;> rfl

theorem timeStarted_tick (ts : Timers) (name : TimerName) :
    (ts.tick name).timeStarted = ts.timeStarted := by
  cases name <;> rfl

/-- What is said of the timers stays true however they are written when nothing is received; `now`
is what `clear` reads. -/
structure Kept (I : Timers → Prop) (now : ℕ) : Prop where
  tick : ∀ ts name, I ts → I (ts.tick name)
  wantHandshake : ∀ ts, I ts → I { ts with wantHandshake := false }
  wantKeepalive : ∀ ts, I ts → I { ts with wantKeepalive := false }
  clear : ∀ ts, I ts → I (ts.clear now)

/-- What is said of the timers stays true however they are written when a packet is received. -/
structure KeptReceiving (I : Timers → Prop) : Prop where
  tick : ∀ ts name, I ts → I (ts.tick name)
  established : ∀ ts isInitiator sessionIdx, I ts →
    I (ts.tickSessionEstablished isInitiator sessionIdx)

end Timers

namespace Tunn

variable {C : Prims} {t t' : Tunn C} {r : TunnResult} {env : Env} {dstLen now : ℕ}
  {I : Timers → Prop}

@[simp] theorem timers_timerTick (t : Tunn C) (name : TimerName) :
    (t.timerTick name).timers = t.timers.tick name := rfl

@[simp] theorem timers_queuePacket (t : Tunn C) (packet : List UInt8) :
    (t.queuePacket packet).timers = t.timers := by
  rw [queuePacket]
  split_ifs <;> rfl

@[simp] theorem timers_requeuePacket (t : Tunn C) (packet : List UInt8) :
    (t.requeuePacket packet).timers = t.timers := by
  rw [requeuePacket]
  split_ifs <;> rfl

@[simp] theorem timers_setCurrentSession (t : Tunn C) (newIdx : ℕ) :
    (t.setCurrentSession newIdx).timers = t.timers := by
  rw [setCurrentSession]
  split_ifs <;> rfl

/-! ## Sending -/

theorem kept_formatHandshakeInitiation (hI : Timers.Kept I env.clear) (h : I t.timers)
    (dstLen : ℕ) (force : Bool) : I (t.formatHandshakeInitiation env dstLen force).1.timers := by
  have hrestarted : I (t.restarted env).timers := by
    rw [restarted]
    split_ifs
    · exact hI.clear _ h
    · exact h
  obtain ⟨-, heq⟩ | ⟨-, ⟨-, heq⟩ | ⟨handshake, packet, -, -, heq⟩⟩ :=
    t.formatHandshakeInitiation_spec env dstLen force
  · rw [heq]
    exact h
  · rw [heq]
    exact hrestarted
  · rw [heq, initiated, timers_timerTick]
    apply hI.tick
    split_ifs
    · exact hI.tick _ .timeLastHandshakeStarted hrestarted
    · exact hrestarted

theorem kept_encapsulate (hI : Timers.Kept I env.clear) (h : I t.timers) {src : List UInt8}
    (hcall : t.encapsulate env src dstLen = some (t', r)) : I t'.timers := by
  rw [encapsulate] at hcall
  rcases hs : t.sessions.get t.current with _ | s
  · rw [hs] at hcall
    rw [← timers_queuePacket t src] at h
    have hkept := kept_formatHandshakeInitiation hI h dstLen false
    rwa [Option.some.inj hcall] at hkept
  · rw [hs] at hcall
    obtain ⟨⟨s', datagram⟩, -, heq⟩ := Option.map_eq_some_iff.mp hcall
    have hsent : I (t.timers.tick .timeLastPacketSent) := hI.tick _ _ h
    dsimp only at heq
    split_ifs at heq <;> cases heq
    · exact hI.tick _ .timeLastDataPacketSent hsent
    · exact hsent

theorem kept_sendQueuedPacket (hI : Timers.Kept I env.clear) (h : I t.timers)
    (hcall : t.sendQueuedPacket env dstLen = some (t', r)) : I t'.timers := by
  rw [sendQueuedPacket] at hcall
  rcases hq : t.packetQueue with _ | ⟨packet, rest⟩
  · rw [hq] at hcall
    cases hcall
    exact h
  · rw [hq] at hcall
    obtain ⟨⟨t₁, r₁⟩, hencap, heq⟩ := Option.map_eq_some_iff.mp hcall
    have h₁ : I t₁.timers := kept_encapsulate (t := { t with packetQueue := rest }) hI h hencap
    cases r₁ with
    | err e =>
      cases heq
      rwa [timers_requeuePacket]
    | done | writeToNetwork | writeToTunnelV4 | writeToTunnelV6 =>
      cases heq
      exact h₁

/-! ## Receiving -/

theorem kept_validateDecapsulatedPacket (hI : Timers.KeptReceiving I) (h : I t.timers)
    (packet : List UInt8) : I (t.validateDecapsulatedPacket packet).1.timers := by
  rw [validateDecapsulatedPacket]
  split_ifs
  · exact h
  · rcases computedLenAndSource packet with _ | ⟨computedLen, addr | addr⟩
    · exact h
    · dsimp only
      split_ifs
      · exact h
      · exact hI.tick _ .timeLastDataPacketReceived h
    · dsimp only
      split_ifs
      · exact h
      · exact hI.tick _ .timeLastDataPacketReceived h

theorem kept_handleVerifiedPacket (hI : Timers.KeptReceiving I) (h : I t.timers) {packet : Packet}
    (hcall : t.handleVerifiedPacket env packet dstLen = some (t', r)) : I t'.timers := by
  cases packet with
  | handshakeInit p =>
    obtain ⟨⟨handshake, result⟩, -, heq⟩ := Option.map_eq_some_iff.mp hcall
    cases result with
    | error e =>
      cases heq
      exact h
    | ok answer =>
      cases heq
      exact hI.established _ _ _
        (hI.tick _ .timeLastPacketSent (hI.tick _ .timeLastPacketReceived h))
  | handshakeResponse p =>
    change t.handleHandshakeResponse env p dstLen = some (t', r) at hcall
    rw [handleHandshakeResponse] at hcall
    rcases hreceive : t.handshake.receiveHandshakeResponse p env.rtt with ⟨handshake, e | session⟩
    · rw [hreceive] at hcall
      cases hcall
      exact h
    · rw [hreceive] at hcall
      obtain ⟨⟨s', datagram⟩, -, heq⟩ := Option.map_eq_some_iff.mp hcall
      cases heq
      rw [timers_setCurrentSession]
      exact hI.established _ _ _ (hI.tick _ .timeLastPacketReceived h)
  | packetCookieReply p =>
    have hresult := Option.some.inj hcall
    rw [handleCookieReply] at hresult
    rcases hreceive : t.handshake.receiveCookieReply p with ⟨handshake, e | ⟨⟩⟩
    · rw [hreceive] at hresult
      cases hresult
      exact h
    · rw [hreceive] at hresult
      cases hresult
      exact hI.tick _ .timeCookieReceived (hI.tick _ .timeLastPacketReceived h)
  | packetData p =>
    obtain ⟨rfl, -⟩ | ⟨s, s', ret, -, -, hvalidate, -, -⟩ := handleData_cases hcall
    · exact h
    · have hreceived : I (t.received p s').timers :=
        hI.tick _ .timeLastPacketReceived (by rw [timers_setCurrentSession]; exact h)
      have hkept := kept_validateDecapsulatedPacket hI hreceived ret
      rwa [hvalidate] at hkept

/-- A datagram either makes the tunnel send what is queued, or is received. -/
theorem kept_decapsulate {I' : Timers → Prop} (hI : Timers.Kept I env.clear) (h : I t.timers)
    (hI' : Timers.KeptReceiving I') (h' : I' t.timers) {srcAddr : Option IpAddr}
    {datagram : List UInt8} (hcall : t.decapsulate env srcAddr datagram dstLen = some (t', r)) :
    I t'.timers ∨ I' t'.timers := by
  rw [decapsulate] at hcall
  split_ifs at hcall with hempty
  · exact .inl (kept_sendQueuedPacket hI h hcall)
  · refine .inr ?_
    rcases hverify : t.rateLimiter.verifyPacket C srcAddr datagram cookieReplySz env.cookie with
      ⟨rateLimiter, result | packet⟩
    · obtain ⟨e, rfl⟩ | ⟨reply, rfl⟩ := RateLimiter.verifyPacket_eq_error hverify
      · simp only [hverify, Option.some.injEq, Prod.mk.injEq] at hcall
        obtain ⟨rfl, rfl⟩ := hcall
        exact h'
      · simp only [hverify] at hcall
        split_ifs at hcall
        simp only [Option.some.injEq, Prod.mk.injEq] at hcall
        obtain ⟨rfl, rfl⟩ := hcall
        exact h'
    · simp only [hverify] at hcall
      exact kept_handleVerifiedPacket (t := { t with rateLimiter }) hI' h' hcall

/-! ## `update_timers` -/

theorem kept_handshakeInitiationRequired (hI : Timers.Kept I env.clear) (h : I t.timers)
    {required : Bool} (hcall : t.handshakeInitiationRequired now = some (t', required)) :
    I t'.timers := by
  simp only [handshakeInitiationRequired, Option.bind_eq_bind, Option.bind_eq_some_iff,
    Option.pure_def, Option.some.injEq, Prod.mk.injEq] at hcall
  obtain ⟨_, -, _, -, silent, -, rfl, -⟩ := hcall
  split_ifs
  · exact hI.wantHandshake _ h
  · exact h

theorem kept_keepaliveRequired (hI : Timers.Kept I env.clear) (h : I t.timers) {required : Bool}
    (hcall : t.keepaliveRequired now = some (t', required)) : I t'.timers := by
  simp only [keepaliveRequired, Option.bind_eq_bind, Option.bind_eq_some_iff,
    Option.pure_def, Option.some.injEq, Prod.mk.injEq] at hcall
  obtain ⟨quiet, -, persistent, -, rfl, -⟩ := hcall
  have hquiet : I (if quiet then { t with timers := { t.timers with wantKeepalive := false } }
      else t).timers := by
    split_ifs
    · exact hI.wantKeepalive _ h
    · exact h
  split_ifs at hquiet ⊢
  · exact hI.tick _ .timePersistentKeepalive hquiet
  · exact hI.tick _ .timePersistentKeepalive hquiet
  · exact hquiet
  · exact hquiet

theorem kept_initiateOrKeepalive (hI : Timers.Kept I env.clear) (h : I t.timers)
    (hcall : t.initiateOrKeepalive env now dstLen = some (t', r)) : I t'.timers := by
  obtain ⟨t₁, hrequired, hformat⟩ | ⟨t₁, t₂, keepalive, hrequired, hkeepalive, hcall⟩ :=
    initiateOrKeepalive_cases hcall
  · have h₁ := kept_handshakeInitiationRequired hI h hrequired
    have hkept := kept_formatHandshakeInitiation hI h₁ dstLen true
    rwa [hformat] at hkept
  · have h₁ := kept_handshakeInitiationRequired hI h hrequired
    have h₂ := kept_keepaliveRequired hI h₁ hkeepalive
    obtain hencap | ⟨rfl, -⟩ := hcall
    · exact kept_encapsulate hI h₂ hencap
    · exact h₂

theorem kept_retransmit (hI : Timers.Kept I env.clear) (h : I t.timers) {timeInitSent : ℕ}
    (hcall : t.retransmit env now timeInitSent dstLen = some (t', r)) : I t'.timers := by
  obtain ⟨trying, -, ⟨-, hexpire⟩ | ⟨-, -, hformat⟩ | ⟨-, -, rfl, -⟩⟩ := retransmit_cases hcall
  · cases hexpire
    exact hI.clear _ h
  · have hkept := kept_formatHandshakeInitiation hI h dstLen true
    rwa [hformat] at hkept
  · exact h

theorem kept_checkTimers (hI : Timers.Kept I env.clear) (h : I t.timers)
    (hcall : t.checkTimers env now dstLen = some (t', r)) : I t'.timers := by
  obtain ⟨-, rfl, -⟩ | ⟨-, t₁, ht₁, hcases⟩ := checkTimers_cases hcall
  · exact h
  · have h₁ : I t₁.timers := by
      rcases ht₁ with rfl | rfl <;> exact h
    obtain hexpire | ⟨timeInitSent, -, hcall⟩ | ⟨-, hcall⟩ := hcases
    · cases hexpire
      exact hI.clear _ h₁
    · exact kept_retransmit hI h₁ hcall
    · exact kept_initiateOrKeepalive hI h₁ hcall

end Tunn

end NekoLink.Noise
