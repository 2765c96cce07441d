import NekoLink.Noise.HandshakeSteps
import NekoLink.Noise.Tunn

/-!
# What a tunnel call does

A tunnel's `Core` is its handshake, its sessions, the current index and the session timers.
`Effect c e c' r` lists what can happen to it, with the event it shows and the result reported.

* `formatHandshakeInitiation_spec`, `handleData_cases` and `checkTimers_cases` say all that these
  calls can do.
* `step_effect`: every call is one such effect, after the expiry of old sessions when it is
  `update_timers`.
-/

namespace NekoLink.Noise

open Wire

namespace Session

variable {C : Prims}

/-- The session once a packet has been sent under it. -/
def bumped (C : Prims) (s : Session) : Session :=
  { s with sendingKeyCounter := (s.sendingKeyCounter + 1) % 2 ^ C.usizeBits }

theorem formatPacketData_eq_some {s s' : Session} {src datagram : List UInt8} {dstLen : ℕ}
    (h : s.formatPacketData C src dstLen = some (s', datagram)) :
    s' = s.bumped C ∧ datagram = (s.dataPacket C s.sendingKeyCounter src).bytes := by
  rw [formatPacketData] at h
  split_ifs at h
  cases h
  exact ⟨rfl, rfl⟩

/-- A counter that is refused leaves the session as it was. -/
theorem receivingCounterMark_error {s s' : Session} {counter : ℕ} {e : WireGuardError}
    (h : s.receivingCounterMark counter = some (s', .error e)) : s' = s := by
  obtain ⟨⟨v, ret⟩, hmark, heq⟩ := Option.map_eq_some_iff.mp h
  rcases ret with e' | ⟨⟩
  · cases heq
    rw [ReceivingKeyCounterValidator.markDidReceive] at hmark
    obtain ⟨limit, -, hv⟩ := Option.map_eq_some_iff.mp hmark
    dsimp only at hv
    split_ifs at hv <;> cases hv <;> rfl
  · cases heq

/-- A packet that is refused leaves the session as it was. -/
theorem receivePacketData_error {s s' : Session} {packet : PacketData} {dstLen : ℕ}
    {e : WireGuardError} (h : s.receivePacketData C packet dstLen = some (s', .error e)) :
    s' = s := by
  rw [receivePacketData] at h
  split_ifs at h
  · cases h
    rfl
  · obtain ⟨check, -, hcheck⟩ := Option.bind_eq_some_iff.mp h
    rcases check with e' | ⟨⟩
    · cases hcheck
      rfl
    · dsimp only at hcheck
      split at hcheck
      · cases hcheck
        rfl
      · obtain ⟨⟨s₁, mark⟩, hmark, heq⟩ := Option.map_eq_some_iff.mp hcheck
        rcases mark with e' | ⟨⟩
        · cases heq
          exact receivingCounterMark_error hmark
        · cases heq

/-- The same session, whatever its counters. -/
structure Same (s s' : Session) : Prop where
  receivingIndex : s.receivingIndex = s'.receivingIndex
  sendingIndex : s.sendingIndex = s'.sendingIndex
  receiver : s.receiver = s'.receiver
  sender : s.sender = s'.sender

variable {s s' s'' : Session}

theorem Same.refl (s : Session) : s.Same s := ⟨rfl, rfl, rfl, rfl⟩

theorem Same.trans (h : s.Same s') (h' : s'.Same s'') : s.Same s'' where
  receivingIndex := h.receivingIndex.trans h'.receivingIndex
  sendingIndex := h.sendingIndex.trans h'.sendingIndex
  receiver := h.receiver.trans h'.receiver
  sender := h.sender.trans h'.sender

theorem Same.localIndex (h : s.Same s') : s.localIndex = s'.localIndex :=
  congrArg UInt32.toNat h.receivingIndex

theorem same_bumped (s : Session) : (s.bumped C).Same s := ⟨rfl, rfl, rfl, rfl⟩

/-- Marking a counter keeps the session. -/
theorem same_receivingCounterMark {counter : ℕ} {mark : Except WireGuardError Unit}
    (h : s.receivingCounterMark counter = some (s', mark)) : s'.Same s := by
  obtain ⟨⟨v, ret⟩, -, heq⟩ := Option.map_eq_some_iff.mp h
  rcases ret with e | ⟨⟩ <;> cases heq <;> exact ⟨rfl, rfl, rfl, rfl⟩

/-- A packet that is decrypted is under the session's index, its counter is not refused, its box
opens, and its counter is marked. -/
theorem mark_of_receivePacketData {p : PacketData} {dstLen : ℕ} {ret : List UInt8}
    (h : s.receivePacketData C p dstLen = some (s', .ok ret)) :
    p.receiverIdx = s.receivingIndex ∧ s.receivingCounterQuickCheck p.counter = some (.ok ()) ∧
      openBox C s.receiver p.counter p.encryptedEncapsulatedPacket p.tag_le = some ret ∧
      s.receivingCounterMark p.counter = some (s', .ok ()) := by
  rw [receivePacketData] at h
  split_ifs at h with hdst hidx
  · cases h
  · obtain ⟨check, hfresh, hcheck⟩ := Option.bind_eq_some_iff.mp h
    rcases check with e | ⟨⟩
    · cases hcheck
    · dsimp only at hcheck
      split at hcheck
      · cases hcheck
      · next hopen =>
        obtain ⟨⟨s₁, mark⟩, hmark, heq⟩ := Option.map_eq_some_iff.mp hcheck
        rcases mark with e | ⟨⟩
        · cases heq
        · cases heq
          exact ⟨not_not.mp hidx, hfresh, hopen, hmark⟩

/-- A packet that is decrypted is under the session's index, and keeps the session. -/
theorem receivePacketData_ok {p : PacketData} {dstLen : ℕ} {ret : List UInt8}
    (h : s.receivePacketData C p dstLen = some (s', .ok ret)) :
    p.receiverIdx = s.receivingIndex ∧ s'.Same s := by
  obtain ⟨hidx, -, -, hmark⟩ := mark_of_receivePacketData h
  exact ⟨hidx, same_receivingCounterMark hmark⟩

end Session

namespace Tunn

variable {C : Prims} {t t' : Tunn C} {r : TunnResult} {env : Env} {dstLen : ℕ}

/-- What a decrypted packet is reported as. -/
def delivered (packet : List UInt8) : TunnResult :=
  if packet = [] then .done
  else
    match computedLenAndSource packet with
    | none => .err .invalidPacket
    | some (computedLen, srcIpAddress) =>
      if packet.length < computedLen then .err .invalidPacket
      else
        match srcIpAddress with
        | .v4 addr => .writeToTunnelV4 (packet.take computedLen) addr
        | .v6 addr => .writeToTunnelV6 (packet.take computedLen) addr

/-! ## The core -/

/-- The parts of a tunnel that decide which packets it accepts and sends. -/
@[ext]
structure Core (C : Prims) where
  handshake : Handshake C
  sessions : SessionRing
  current : ℕ
  sessionTimers : Fin nSessions → ℕ

def core (t : Tunn C) : Core C := ⟨t.handshake, t.sessions, t.current, t.timers.sessionTimers⟩

@[simp] theorem core_timerTick (t : Tunn C) (name : TimerName) :
    (t.timerTick name).core = t.core := by
  simp only [core, timerTick, Timers.sessionTimers_tick]

@[simp] theorem core_queuePacket (t : Tunn C) (packet : List UInt8) :
    (t.queuePacket packet).core = t.core := by
  rw [queuePacket]
  split_ifs <;> rfl

@[simp] theorem handshake_queuePacket (t : Tunn C) (packet : List UInt8) :
    (t.queuePacket packet).handshake = t.handshake :=
  congrArg Core.handshake (core_queuePacket t packet)

@[simp] theorem core_requeuePacket (t : Tunn C) (packet : List UInt8) :
    (t.requeuePacket packet).core = t.core := by
  rw [requeuePacket]
  split_ifs <;> rfl

/-- Reporting a decrypted packet ticks a timer at most. -/
theorem validateDecapsulatedPacket_eq (t : Tunn C) (packet : List UInt8) :
    ∃ t', t.validateDecapsulatedPacket packet = (t', delivered packet) ∧ t'.core = t.core := by
  have htick := core_timerTick t .timeLastDataPacketReceived
  rw [validateDecapsulatedPacket, delivered]
  split_ifs
  · exact ⟨t, rfl, rfl⟩
  · rcases computedLenAndSource packet with _ | ⟨computedLen, addr | addr⟩
    · exact ⟨t, rfl, rfl⟩
    · dsimp only
      split_ifs
      · exact ⟨t, rfl, rfl⟩
      · exact ⟨_, rfl, htick⟩
    · dsimp only
      split_ifs
      · exact ⟨t, rfl, rfl⟩
      · exact ⟨_, rfl, htick⟩

/-! ## Events -/

/-- What a call means for the sessions. -/
inductive Event
  /-- An initiation is accepted and answered, under a new session. -/
  | answered (s : Session)
  /-- A response is accepted, and gives a session. -/
  | obtained (s : Session)
  /-- A data packet is decrypted under a session. -/
  | decrypted (s : Session) (counter : ℕ)
  /-- The sessions that are too old at a time are taken out. -/
  | expired (now : ℕ)
  /-- The connection is given up. -/
  | gaveUp
  /-- The private key is replaced. -/
  | rekeyed

/-- What a verified packet means for the sessions. -/
def packetEvent (t : Tunn C) (env : Env) (dstLen : ℕ) : Packet → Option Event
  | .handshakeInit p =>
    match t.handshake.receiveHandshakeInitialization p env.ephemeralPrivate dstLen with
    | some (_, .ok (_, session)) => some (.answered session)
    | _ => none
  | .handshakeResponse p =>
    match t.handshake.receiveHandshakeResponse p env.rtt with
    | (_, .ok session) => some (.obtained session)
    | _ => none
  | .packetCookieReply _ => none
  | .packetData p =>
    match t.sessions.get p.receiverIdx.toNat with
    | none => none
    | some session =>
      match session.receivePacketData C p dstLen with
      | some (_, .ok _) => some (.decrypted session p.counter)
      | _ => none

/-- The event of a call, apart from the expiry of sessions and giving up. -/
def event (t : Tunn C) : Env × Call → Option Event
  | (env, .decapsulate srcAddr datagram dstLen) =>
    match t.rateLimiter.verifyPacket C srcAddr datagram cookieReplySz env.cookie with
    | (_, .ok packet) => t.packetEvent env dstLen packet
    | _ => none
  | (_, .setStaticPrivate ..) => some .rekeyed
  | _ => none

/-- The event is of a packet received, or of the private key. -/
def Event.IsOfCall : Event → Prop
  | .expired _ | .gaveUp => False
  | _ => True

theorem packetEvent_isOfCall {packet : Packet} {ev : Event}
    (h : t.packetEvent env dstLen packet = some ev) : ev.IsOfCall := by
  cases packet with
  | handshakeInit | handshakeResponse =>
    simp only [packetEvent] at h
    split at h <;> cases h
    trivial
  | packetCookieReply => cases h
  | packetData =>
    simp only [packetEvent] at h
    split at h
    · cases h
    · split at h <;> cases h
      trivial

theorem event_isOfCall {i : Env × Call} {ev : Event} (h : t.event i = some ev) : ev.IsOfCall := by
  obtain ⟨env, call⟩ := i
  cases call with
  | encapsulate | updateTimers | formatHandshakeInitiation => cases h
  | setStaticPrivate =>
    cases h
    trivial
  | decapsulate =>
    simp only [event] at h
    split at h
    · exact packetEvent_isOfCall h
    · cases h

/-! ## Effects -/

/-- Nothing for the tunnel interface and nothing but a cookie reply for the network. -/
def Quiet (r : TunnResult) : Prop :=
  r = .done ∨ (∃ e, r = .err e) ∨ ∃ reply : PacketCookieReply, r = .writeToNetwork reply.bytes

/-- The current index once a session has been used: it is that session's, or it stays and then
the session is in another slot. -/
def Switched (current newIdx current' : ℕ) : Prop :=
  current' = newIdx ∨ current' = current ∧ slot newIdx ≠ slot current

/-- The effects of a call. -/
inductive Effect (c : Core C) : Option Event → Core C → TunnResult → Prop
  | idle (cookies : Cookies) (r : TunnResult) (hr : Quiet r) :
      Effect c none { c with handshake := { c.handshake with cookies } } r
  /-- An initiation is sent. -/
  | initiate (ephemeralPrivate : Bytes 32) (stampNow now : ℕ) (cookies : Cookies)
      (macs : Bytes 32) :
      Effect c none
        { c with handshake := { c.handshake with
          nextIndex := Handshake.incIndex c.handshake.nextIndex
          previous := c.handshake.state
          state := .initSent (c.handshake.sentState ephemeralPrivate stampNow now)
          cookies } }
        (.writeToNetwork ((c.handshake.initiation ephemeralPrivate stampNow).bytes ++ macs.toList))
  /-- A data packet is sent under the session in the current slot. -/
  | send (s : Session) (src : List UInt8) (hs : c.sessions.get c.current = some s) :
      Effect c none { c with sessions := c.sessions.store (s.bumped C) }
        (.writeToNetwork (s.dataPacket C s.sendingKeyCounter src).bytes)
  /-- An initiation is accepted and answered. -/
  | respond (packet : HandshakeInit) (timestamp : Bytes 12) (chainingKey hash : Bytes 32)
      (ephemeralPrivate : Bytes 32) (cookies : Cookies) (macs : Bytes 32) (established : ℕ)
      (haccepts : c.handshake.Accepts packet timestamp chainingKey hash) :
      Effect c
        (some (.answered (c.handshake.responderSession packet ephemeralPrivate chainingKey hash)))
        { c with
          handshake := { c.handshake with
            lastHandshakeTimestamp := Tai64N.parse timestamp
            previous := c.handshake.state
            state := .none
            nextIndex := Handshake.incIndex c.handshake.nextIndex
            cookies }
          sessions := c.sessions.store
            (c.handshake.responderSession packet ephemeralPrivate chainingKey hash)
          sessionTimers := Function.update c.sessionTimers
            (slot (Handshake.incIndex c.handshake.nextIndex).toNat) established }
        (.writeToNetwork
          ((c.handshake.response packet ephemeralPrivate chainingKey hash).1.bytes ++ macs.toList))
  /-- An initiation is accepted but there is no room for the answer. -/
  | stuck (packet : HandshakeInit) (timestamp : Bytes 12) (chainingKey hash : Bytes 32)
      (haccepts : c.handshake.Accepts packet timestamp chainingKey hash) :
      Effect c none
        { c with handshake := { c.handshake with
          lastHandshakeTimestamp := Tai64N.parse timestamp
          previous := c.handshake.state
          state := .initReceived hash chainingKey packet.unencryptedEphemeral packet.senderIdx } }
        (.err .destinationBufferTooSmall)
  /-- A response is accepted, and answered by a keepalive under the new session. -/
  | establish (packet : HandshakeResponse) (s : HandshakeInitSentState) (isPrevious : Bool)
      (temp2 temp3 : Bytes 32) (rtt : Option ℕ) (established current : ℕ)
      (hawait : c.handshake.awaiting packet.receiverIdx = some (s, isPrevious))
      (hopen : openResponse c.handshake.params s packet = .ok (temp2, temp3))
      (hcurrent : Switched c.current s.localIndex.toNat current) :
      Effect c (some (.obtained (Session.new s.localIndex packet.senderIdx temp3 temp2)))
        { handshake := { c.handshake with
            lastRtt := rtt
            previous := if isPrevious then .none else c.handshake.previous
            state := if isPrevious then c.handshake.state else .none }
          sessions := c.sessions.store
            ((Session.new s.localIndex packet.senderIdx temp3 temp2).bumped C)
          current
          sessionTimers := Function.update c.sessionTimers (slot s.localIndex.toNat) established }
        (.writeToNetwork
          ((Session.new s.localIndex packet.senderIdx temp3 temp2).dataPacket C 0 []).bytes)
  /-- A data packet is decrypted. -/
  | receive (p : PacketData) (dstLen : ℕ) (s s' : Session) (ret : List UInt8) (current : ℕ)
      (hs : c.sessions.get p.receiverIdx.toNat = some s)
      (hreceive : s.receivePacketData C p dstLen = some (s', .ok ret))
      (hcurrent : Switched c.current p.receiverIdx.toNat current) :
      Effect c (some (.decrypted s p.counter)) { c with sessions := c.sessions.store s', current }
        (delivered ret)
  /-- Sessions older than `REJECT_AFTER_TIME` are taken out. -/
  | expireSessions (now : ℕ) (cookies : Cookies) (hle : ∀ i, c.sessionTimers i ≤ now) :
      Effect c (some (.expired now))
        { c with
          handshake := { c.handshake with cookies }
          sessions := c.sessions.filter fun i =>
            !decide (rejectAfterTime < now - c.sessionTimers i)
          sessionTimers := fun i =>
            if rejectAfterTime < now - c.sessionTimers i then now else c.sessionTimers i }
        .done
  /-- The connection is given up. -/
  | giveUp :
      Effect c (some .gaveUp) { c with handshake := c.handshake.setExpired, sessions := .empty }
        (.err .connectionExpired)
  /-- The private key is replaced. -/
  | rekey (staticPrivate staticPublic : Bytes 32) (params : NoiseParams C)
      (hparams : c.handshake.params.setStaticPrivate staticPrivate staticPublic = some params) :
      Effect c (some .rekeyed)
        { c with handshake := { c.handshake with params }, sessions := .empty } .done

/-- Nothing happens. -/
theorem Effect.refl (c : Core C) (hr : Quiet r) : Effect c none c r := .idle _ r hr

/-- Giving up clears the sessions and says so. -/
theorem Effect.of_gaveUp {c c' : Core C} (h : Effect c (some .gaveUp) c' r) :
    c'.sessions = .empty ∧ r = .err .connectionExpired := by
  cases h
  exact ⟨rfl, rfl⟩

/-! ## Every call is an effect -/

theorem quiet_done : Quiet .done := Or.inl rfl

theorem quiet_err (e : WireGuardError) : Quiet (.err e) := Or.inr (Or.inl ⟨e, rfl⟩)

/-- The tunnel that an initiation is sent from: the timers of an expired one are reset. -/
def restarted (t : Tunn C) (env : Env) : Tunn C :=
  if t.handshake.isExpired then { t with timers := t.timers.clear env.clear } else t

/-- The tunnel when an initiation has been sent. -/
def initiated (t : Tunn C) (handshake : Handshake C) : Tunn C :=
  (if !t.handshake.isInProgress then
    ({ t with handshake } : Tunn C).timerTick .timeLastHandshakeStarted
  else { t with handshake }).timerTick .timeLastPacketSent

@[simp] theorem core_restarted (t : Tunn C) (env : Env) : (t.restarted env).core = t.core := by
  rw [restarted]
  split_ifs <;> rfl

@[simp] theorem handshake_restarted (t : Tunn C) (env : Env) :
    (t.restarted env).handshake = t.handshake :=
  congrArg Core.handshake (core_restarted t env)

@[simp] theorem packetQueue_restarted (t : Tunn C) (env : Env) :
    (t.restarted env).packetQueue = t.packetQueue := by
  rw [restarted]
  split_ifs <;> rfl

@[simp] theorem core_initiated (t : Tunn C) (handshake : Handshake C) :
    (t.initiated handshake).core = { t.core with handshake } := by
  rw [initiated, core_timerTick]
  split_ifs
  · exact core_timerTick _ _
  · rfl

@[simp] theorem handshake_initiated (t : Tunn C) (handshake : Handshake C) :
    (t.initiated handshake).handshake = handshake :=
  congrArg Core.handshake (core_initiated t handshake)

@[simp] theorem packetQueue_initiated (t : Tunn C) (handshake : Handshake C) :
    (t.initiated handshake).packetQueue = t.packetQueue := by
  rw [initiated]
  split_ifs <;> rfl

/-- **What `format_handshake_initiation` does**: nothing while one is in progress, unless it is
forced to; otherwise it fails for want of room, or it sends the initiation of the handshake. -/
theorem formatHandshakeInitiation_spec (t : Tunn C) (env : Env) (dstLen : ℕ) (force : Bool) :
    ((t.handshake.isInProgress && !force) = true ∧
      t.formatHandshakeInitiation env dstLen force = (t, .done)) ∨
    (t.handshake.isInProgress && !force) = false ∧
      ((dstLen < handshakeInitSz ∧ t.formatHandshakeInitiation env dstLen force =
          (t.restarted env, .err .destinationBufferTooSmall)) ∨
        ∃ handshake packet, handshakeInitSz ≤ dstLen ∧
          t.handshake.formatHandshakeInitiation env.ephemeralPrivate env.stamp env.sent dstLen =
            (handshake, .ok packet) ∧
          t.formatHandshakeInitiation env dstLen force =
            ((t.restarted env).initiated handshake, .writeToNetwork packet)) := by
  by_cases hskip : (t.handshake.isInProgress && !force) = true
  · exact Or.inl ⟨hskip, if_pos hskip⟩
  · refine Or.inr ⟨Bool.eq_false_of_not_eq_true hskip, ?_⟩
    have hhandshake := handshake_restarted t env
    rw [formatHandshakeInitiation, if_neg hskip, ← restarted]
    dsimp only
    rw [hhandshake]
    rcases lt_or_ge dstLen handshakeInitSz with hd | hd
    · rw [Handshake.formatHandshakeInitiation_small hd, ← hhandshake]
      exact Or.inl ⟨hd, rfl⟩
    · obtain ⟨cookies, macs, heq⟩ := Handshake.formatHandshakeInitiation_ok t.handshake
        env.ephemeralPrivate env.stamp env.sent hd
      refine Or.inr ⟨_, _, hd, heq, ?_⟩
      rw [heq, initiated, hhandshake]

/-- A new initiation changes the handshake as `Effect.initiate` says; otherwise nothing changes. -/
theorem formatHandshakeInitiation_cases (t : Tunn C) (env : Env) (dstLen : ℕ) (force : Bool) :
    ((t.formatHandshakeInitiation env dstLen force).1.core = t.core ∧
      Quiet (t.formatHandshakeInitiation env dstLen force).2) ∨
    ∃ cookies macs, (t.formatHandshakeInitiation env dstLen force).1.core =
        { t.core with handshake := { t.handshake with
          nextIndex := Handshake.incIndex t.handshake.nextIndex
          previous := t.handshake.state
          state := .initSent (t.handshake.sentState env.ephemeralPrivate env.stamp env.sent)
          cookies } } ∧
      (t.formatHandshakeInitiation env dstLen force).2 = .writeToNetwork
        ((t.handshake.initiation env.ephemeralPrivate env.stamp).bytes ++
          List.Vector.toList (n := 32) macs) := by
  obtain ⟨-, heq⟩ | ⟨-, ⟨-, heq⟩ | ⟨handshake, packet, hd, hformat, heq⟩⟩ :=
    t.formatHandshakeInitiation_spec env dstLen force
  · rw [heq]
    exact Or.inl ⟨rfl, quiet_done⟩
  · rw [heq]
    exact Or.inl ⟨core_restarted t env, quiet_err _⟩
  · obtain ⟨cookies, macs, hok⟩ := Handshake.formatHandshakeInitiation_ok t.handshake
      env.ephemeralPrivate env.stamp env.sent hd
    cases hok.symm.trans hformat
    rw [heq]
    refine Or.inr ⟨cookies, macs, ?_, rfl⟩
    rw [core_initiated, core_restarted]

theorem effect_formatHandshakeInitiation (t : Tunn C) (env : Env) (dstLen : ℕ) (force : Bool) :
    Effect t.core none (t.formatHandshakeInitiation env dstLen force).1.core
      (t.formatHandshakeInitiation env dstLen force).2 := by
  obtain ⟨hcore, hquiet⟩ | ⟨cookies, macs, hcore, hr⟩ :=
    formatHandshakeInitiation_cases t env dstLen force
  · rw [hcore]
    exact .refl _ hquiet
  · rw [hcore, hr]
    exact .initiate env.ephemeralPrivate env.stamp env.sent cookies macs

theorem effect_encapsulate {src : List UInt8} (h : t.encapsulate env src dstLen = some (t', r)) :
    Effect t.core none t'.core r := by
  rw [encapsulate] at h
  rcases hs : t.sessions.get t.current with _ | s
  · rw [hs] at h
    have heffect := effect_formatHandshakeInitiation (t.queuePacket src) env dstLen false
    rw [Option.some.inj h, core_queuePacket] at heffect
    exact heffect
  · rw [hs] at h
    obtain ⟨⟨s', datagram⟩, hformat, heq⟩ := Option.map_eq_some_iff.mp h
    obtain ⟨rfl, rfl⟩ := Session.formatPacketData_eq_some hformat
    have hsend : Effect t.core none { t.core with sessions := t.sessions.store (s.bumped C) }
        (.writeToNetwork (s.dataPacket C s.sendingKeyCounter src).bytes) := .send s src hs
    dsimp only at heq
    split_ifs at heq <;> cases heq
    · exact hsend
    · exact hsend

/-- Encapsulating under the session in the current slot. -/
theorem encapsulate_session {src : List UInt8} (env : Env) {s : Session}
    (hs : t.sessions.get t.current = some s)
    (hd : src.length + dataOverheadSz ≤ dstLen) :
    ∃ t', t.encapsulate env src dstLen =
        some (t', .writeToNetwork (s.dataPacket C s.sendingKeyCounter src).bytes) ∧
      t'.core = { t.core with sessions := t.sessions.store (s.bumped C) } := by
  rw [encapsulate, hs]
  simp only [Session.formatPacketData_spec hd, Option.map_some]
  split_ifs
  · exact ⟨_, rfl, rfl⟩
  · exact ⟨_, rfl, rfl⟩

/-- A failed `encapsulate` has only touched the queue. -/
theorem core_encapsulate_err {src : List UInt8} {e : WireGuardError}
    (h : t.encapsulate env src dstLen = some (t', .err e)) : t'.core = t.core := by
  rw [encapsulate] at h
  rcases hs : t.sessions.get t.current with _ | s
  · rw [hs] at h
    have hpair := Option.some.inj h
    obtain ⟨hcore, -⟩ | ⟨cookies, macs, -, hr⟩ :=
      formatHandshakeInitiation_cases (t.queuePacket src) env dstLen false
    · rwa [hpair, core_queuePacket] at hcore
    · rw [hpair] at hr
      cases hr
  · rw [hs] at h
    obtain ⟨⟨s', datagram⟩, -, heq⟩ := Option.map_eq_some_iff.mp h
    cases heq

theorem effect_sendQueuedPacket (h : t.sendQueuedPacket env dstLen = some (t', r)) :
    Effect t.core none t'.core r := by
  rw [sendQueuedPacket] at h
  rcases hq : t.packetQueue with _ | ⟨packet, rest⟩
  · rw [hq] at h
    cases h
    exact .refl _ quiet_done
  · rw [hq] at h
    obtain ⟨⟨t₁, r₁⟩, hencap, heq⟩ := Option.map_eq_some_iff.mp h
    have heffect := effect_encapsulate hencap
    cases r₁ with
    | err e =>
      cases heq
      have hcore : t₁.core = t.core := (core_encapsulate_err hencap :)
      rw [core_requeuePacket, hcore]
      exact .refl _ quiet_done
    | done | writeToNetwork | writeToTunnelV4 | writeToTunnelV6 =>
      cases heq
      exact heffect

/-- Whether or not the current index is moved, it ends up as `Switched` says. -/
theorem switched_setCurrentSession (t : Tunn C) (newIdx : ℕ) :
    Switched t.current newIdx (t.setCurrentSession newIdx).current := by
  rw [setCurrentSession]
  split_ifs with heq hcond
  · exact Or.inl heq
  · exact Or.inl rfl
  · refine Or.inr ⟨rfl, fun hslot => hcond (Or.inr ?_)⟩
    rw [hslot]

theorem core_setCurrentSession (t : Tunn C) (newIdx : ℕ) :
    (t.setCurrentSession newIdx).core =
      { t.core with current := (t.setCurrentSession newIdx).current } := by
  rw [setCurrentSession]
  split_ifs <;> rfl

theorem effect_handleHandshakeInit {p : HandshakeInit}
    (h : t.handleHandshakeInit env p dstLen = some (t', r)) :
    Effect t.core (t.packetEvent env dstLen (.handshakeInit p)) t'.core r := by
  rw [handleHandshakeInit] at h
  rw [packetEvent]
  obtain ⟨e, heq⟩ | ⟨timestamp, chainingKey, hash, ha, ⟨-, heq⟩ | ⟨cookies, macs, -, heq⟩⟩ :=
    t.handshake.receiveHandshakeInitialization_cases p env.ephemeralPrivate dstLen
  · rw [heq] at h ⊢
    cases h
    exact .refl _ (quiet_err e)
  · rw [heq] at h ⊢
    cases h
    exact .stuck p timestamp chainingKey hash ha
  · rw [heq] at h ⊢
    cases h
    exact .respond p timestamp chainingKey hash env.ephemeralPrivate cookies macs _ ha

theorem effect_handleHandshakeResponse {p : HandshakeResponse}
    (h : t.handleHandshakeResponse env p dstLen = some (t', r)) :
    Effect t.core (t.packetEvent env dstLen (.handshakeResponse p)) t'.core r := by
  rw [handleHandshakeResponse] at h
  rw [packetEvent]
  obtain ⟨e, herr⟩ | ⟨s, isPrevious, temp2, temp3, rtt, hawait, hopen, hok⟩ :=
    Handshake.receiveHandshakeResponse_cases t.handshake p env.rtt
  · rw [herr] at h ⊢
    cases h
    exact .refl _ (quiet_err e)
  · rw [hok] at h ⊢
    obtain ⟨⟨s', datagram⟩, hformat, heq⟩ := Option.map_eq_some_iff.mp h
    obtain ⟨rfl, rfl⟩ := Session.formatPacketData_eq_some hformat
    cases heq
    rw [core_setCurrentSession]
    have hswitched := switched_setCurrentSession
      ((({ t with
        handshake := { t.handshake with
          lastRtt := rtt
          previous := if isPrevious then .none else t.handshake.previous
          state := if isPrevious then t.handshake.state else .none }
        sessions := t.sessions.store
          ((Session.new s.localIndex p.senderIdx temp3 temp2).bumped C) } : Tunn C).timerTick
          .timeLastPacketReceived).timerTickSessionEstablished true (s.localIndex.toNat % nSessions))
      s.localIndex.toNat
    have heffect := Effect.establish (c := t.core) p s isPrevious temp2 temp3 rtt
      (t.timers.timers .timeCurrent) _ hawait hopen hswitched
    rw [← slot_mod s.localIndex.toNat] at heffect
    exact heffect

theorem effect_handleCookieReply (t : Tunn C) (p : PacketCookieReply) :
    Effect t.core none (t.handleCookieReply p).1.core (t.handleCookieReply p).2 := by
  rw [handleCookieReply]
  obtain ⟨e, heq⟩ | ⟨cookies, heq⟩ := Handshake.receiveCookieReply_cases t.handshake p
  · rw [heq]
    exact .refl _ (quiet_err e)
  · rw [heq]
    simp only [core_timerTick]
    exact .idle cookies _ quiet_done

/-- The tunnel when its session has decrypted a packet. -/
def received (t : Tunn C) (p : PacketData) (session : Session) : Tunn C :=
  (({ t with sessions := t.sessions.store session } : Tunn C).setCurrentSession
    p.receiverIdx.toNat).timerTick .timeLastPacketReceived

/-- **What `handle_data` does**: the packet is refused and the tunnel stays, or it is decrypted and
what was in it is looked at. -/
theorem handleData_cases {p : PacketData} (h : t.handleData p dstLen = some (t', r)) :
    (t' = t ∧ ∃ e, r = .err e ∧ ∀ s, t.sessions.get p.receiverIdx.toNat = some s →
      s.receivePacketData C p dstLen = some (s, .error e)) ∨
    ∃ s s' ret, t.sessions.get p.receiverIdx.toNat = some s ∧
      s.receivePacketData C p dstLen = some (s', .ok ret) ∧
      (t.received p s').validateDecapsulatedPacket ret = (t', r) ∧ r = delivered ret ∧
      t'.core = (t.received p s').core := by
  rw [handleData] at h
  rcases hs : t.sessions.get p.receiverIdx.toNat with _ | s
  · rw [hs] at h
    cases h
    exact Or.inl ⟨rfl, _, rfl, fun s hs => (by cases hs)⟩
  · rw [hs] at h
    obtain ⟨⟨s', result⟩, hreceive, heq⟩ := Option.map_eq_some_iff.mp h
    rcases result with e | ret
    · obtain rfl := Session.receivePacketData_error hreceive
      cases heq
      rw [SessionRing.store_get hs]
      refine Or.inl ⟨rfl, e, rfl, fun s hs => ?_⟩
      cases hs
      exact hreceive
    · dsimp only at heq
      obtain ⟨t₁, hvalidate, hcore⟩ := validateDecapsulatedPacket_eq (t.received p s') ret
      obtain ⟨rfl, rfl⟩ := Prod.mk.inj (hvalidate.symm.trans heq)
      exact Or.inr ⟨s, s', ret, rfl, hreceive, heq, rfl, hcore⟩

theorem effect_handleData {p : PacketData} (h : t.handleData p dstLen = some (t', r)) :
    Effect t.core (t.packetEvent env dstLen (.packetData p)) t'.core r := by
  rw [packetEvent]
  obtain ⟨rfl, e, rfl, hrefused⟩ | ⟨s, s', ret, hs, hreceive, -, rfl, hcore⟩ := handleData_cases h
  · rcases hs : t'.sessions.get p.receiverIdx.toNat with _ | s
    · exact .refl _ (quiet_err e)
    · simp only [hrefused s hs]
      exact .refl _ (quiet_err e)
  · simp only [hs, hreceive]
    rw [hcore, received, core_timerTick, core_setCurrentSession]
    exact .receive p dstLen s s' ret _ hs hreceive (switched_setCurrentSession _ _)

theorem effect_handleVerifiedPacket {packet : Packet}
    (h : t.handleVerifiedPacket env packet dstLen = some (t', r)) :
    Effect t.core (t.packetEvent env dstLen packet) t'.core r := by
  cases packet with
  | handshakeInit p => exact effect_handleHandshakeInit h
  | handshakeResponse p => exact effect_handleHandshakeResponse h
  | packetCookieReply p =>
    have heffect := effect_handleCookieReply t p
    rw [Option.some.inj h] at heffect
    exact heffect
  | packetData p => exact effect_handleData h

theorem effect_decapsulate {srcAddr : Option IpAddr} {datagram : List UInt8}
    (h : t.decapsulate env srcAddr datagram dstLen = some (t', r)) :
    Effect t.core (t.event (env, .decapsulate srcAddr datagram dstLen)) t'.core r := by
  rw [decapsulate] at h
  rw [event]
  split_ifs at h with hempty
  · rw [hempty, RateLimiter.verifyPacket_error (e := .invalidPacket) rfl]
    exact effect_sendQueuedPacket h
  · rcases hverify : t.rateLimiter.verifyPacket C srcAddr datagram cookieReplySz env.cookie with
      ⟨rateLimiter, result | packet⟩
    · obtain ⟨e, rfl⟩ | ⟨reply, rfl⟩ := RateLimiter.verifyPacket_eq_error hverify
      · simp only [hverify, Option.some.injEq, Prod.mk.injEq] at h
        obtain ⟨rfl, rfl⟩ := h
        exact .refl _ (quiet_err e)
      · simp only [hverify] at h
        split_ifs at h
        simp only [Option.some.injEq, Prod.mk.injEq] at h
        obtain ⟨rfl, rfl⟩ := h
        exact .refl _ (Or.inr (Or.inr ⟨reply, rfl⟩))
    · simp only [hverify] at h
      have heffect := effect_handleVerifiedPacket h
      exact heffect

/-! ## `update_timers` -/

theorem core_handshakeInitiationRequired {now : ℕ} {required : Bool}
    (h : t.handshakeInitiationRequired now = some (t', required)) : t'.core = t.core := by
  simp only [handshakeInitiationRequired, Option.bind_eq_bind, Option.bind_eq_some_iff,
    Option.pure_def, Option.some.injEq, Prod.mk.injEq] at h
  obtain ⟨_, -, _, -, silent, -, rfl, -⟩ := h
  split_ifs <;> rfl

theorem core_keepaliveRequired {now : ℕ} {required : Bool}
    (h : t.keepaliveRequired now = some (t', required)) : t'.core = t.core := by
  simp only [keepaliveRequired, Option.bind_eq_bind, Option.bind_eq_some_iff,
    Option.pure_def, Option.some.injEq, Prod.mk.injEq] at h
  obtain ⟨quiet, -, persistent, -, rfl, -⟩ := h
  cases persistent
  · cases quiet <;> rfl
  · cases quiet <;> exact core_timerTick _ _

/-- **What is done when no initiation is out**: one is sent, or a keepalive, or nothing. -/
theorem initiateOrKeepalive_cases {now : ℕ}
    (h : t.initiateOrKeepalive env now dstLen = some (t', r)) :
    (∃ t₁, t.handshakeInitiationRequired now = some (t₁, true) ∧
      t₁.formatHandshakeInitiation env dstLen true = (t', r)) ∨
    ∃ t₁ t₂ keepalive, t.handshakeInitiationRequired now = some (t₁, false) ∧
      t₁.keepaliveRequired now = some (t₂, keepalive) ∧
      (t₂.encapsulate env [] dstLen = some (t', r) ∨ t' = t₂ ∧ r = .done) := by
  simp only [initiateOrKeepalive, Option.bind_eq_bind, Option.bind_eq_some_iff, Prod.exists] at h
  obtain ⟨t₁, required, hrequired, h⟩ := h
  cases required with
  | true => exact Or.inl ⟨t₁, hrequired, Option.some.inj h⟩
  | false =>
    obtain ⟨⟨t₂, keepalive⟩, hkeepalive, h⟩ := Option.bind_eq_some_iff.mp h
    refine Or.inr ⟨t₁, t₂, keepalive, hrequired, hkeepalive, ?_⟩
    cases keepalive with
    | true => exact Or.inl h
    | false =>
      cases h
      exact Or.inr ⟨rfl, rfl⟩

/-- **What is done when an initiation is out**: the handshake is given up, or another initiation is
sent, or it is too early for that. -/
theorem retransmit_cases {now timeInitSent : ℕ}
    (h : t.retransmit env now timeInitSent dstLen = some (t', r)) :
    ∃ trying, durationSub now (t.timers.timers .timeLastHandshakeStarted) = some trying ∧
      ((rekeyAttemptTime ≤ trying ∧ t.connectionExpired env = (t', r)) ∨
        (trying < rekeyAttemptTime ∧ rekeyTimeout ≤ env.elapsed - timeInitSent ∧
          t.formatHandshakeInitiation env dstLen true = (t', r)) ∨
        (trying < rekeyAttemptTime ∧ env.elapsed - timeInitSent < rekeyTimeout ∧
          t' = t ∧ r = .done)) := by
  simp only [retransmit, Option.bind_eq_bind, Option.bind_eq_some_iff] at h
  obtain ⟨trying, htrying, h⟩ := h
  refine ⟨trying, htrying, ?_⟩
  split_ifs at h with hgiveUp hdue
  · exact Or.inl ⟨hgiveUp, Option.some.inj h⟩
  · exact Or.inr (Or.inl ⟨not_le.mp hgiveUp, hdue, Option.some.inj h⟩)
  · obtain ⟨rfl, rfl⟩ := Prod.mk.inj (Option.some.inj h)
    exact Or.inr (Or.inr ⟨not_le.mp hgiveUp, not_le.mp hdue, rfl, rfl⟩)

/-- **What the checks of `update_timers` do**, a stale cookie being cleared first. -/
theorem checkTimers_cases {now : ℕ} (h : t.checkTimers env now dstLen = some (t', r)) :
    (t.handshake.isExpired = true ∧ t' = t ∧ r = .err .connectionExpired) ∨
    t.handshake.isExpired = false ∧
      ∃ t₁ : Tunn C, (t₁ = t ∨ t₁ = { t with handshake := t.handshake.clearCookie }) ∧
        (t₁.connectionExpired env = (t', r) ∨
          (∃ timeInitSent, t₁.handshake.timer = some timeInitSent ∧
            t₁.retransmit env now timeInitSent dstLen = some (t', r)) ∨
          (t₁.handshake.timer = none ∧ t₁.initiateOrKeepalive env now dstLen = some (t', r))) := by
  rw [checkTimers] at h
  split_ifs at h with hexpired
  · obtain ⟨rfl, rfl⟩ := Prod.mk.inj (Option.some.inj h)
    exact Or.inl ⟨hexpired, rfl, rfl⟩
  · refine Or.inr ⟨Bool.eq_false_of_not_eq_true hexpired, ?_⟩
    simp only [Option.bind_eq_bind, Option.bind_eq_some_iff] at h
    obtain ⟨stale, -, age, -, h⟩ := h
    generalize ht₁ : (if stale then { t with handshake := t.handshake.clearCookie } else t) = t₁
      at h
    refine ⟨t₁, ?_, ?_⟩
    · rw [← ht₁]
      split_ifs
      · exact Or.inr rfl
      · exact Or.inl rfl
    · split_ifs at h with hage
      · exact Or.inl (Option.some.inj h)
      · split at h
        · next timeInitSent htimer => exact Or.inr (Or.inl ⟨timeInitSent, htimer, h⟩)
        · next htimer => exact Or.inr (Or.inr ⟨htimer, h⟩)

theorem effect_initiateOrKeepalive {now : ℕ}
    (h : t.initiateOrKeepalive env now dstLen = some (t', r)) : Effect t.core none t'.core r := by
  obtain ⟨t₁, hrequired, hformat⟩ | ⟨t₁, t₂, keepalive, hrequired, hkeepalive, h⟩ :=
    initiateOrKeepalive_cases h
  · rw [← core_handshakeInitiationRequired hrequired]
    have heffect := effect_formatHandshakeInitiation t₁ env dstLen true
    rw [hformat] at heffect
    exact heffect
  · rw [← core_handshakeInitiationRequired hrequired, ← core_keepaliveRequired hkeepalive]
    obtain hencap | ⟨rfl, rfl⟩ := h
    · exact effect_encapsulate hencap
    · exact .refl _ quiet_done

theorem effect_retransmit {now timeInitSent : ℕ}
    (h : t.retransmit env now timeInitSent dstLen = some (t', r)) :
    ∃ e, (e = none ∨ e = some .gaveUp) ∧ Effect t.core e t'.core r := by
  obtain ⟨trying, -, ⟨-, hexpire⟩ | ⟨-, -, hformat⟩ | ⟨-, -, rfl, rfl⟩⟩ := retransmit_cases h
  · cases hexpire
    exact ⟨_, Or.inr rfl, .giveUp⟩
  · have heffect := effect_formatHandshakeInitiation t env dstLen true
    rw [hformat] at heffect
    exact ⟨_, Or.inl rfl, heffect⟩
  · exact ⟨_, Or.inl rfl, .refl _ quiet_done⟩

/-- The checks of `update_timers` are one effect, once the cookie has been looked at. -/
theorem effect_checkTimers {now : ℕ} (h : t.checkTimers env now dstLen = some (t', r)) :
    ∃ (t₁ : Tunn C) (cookies : Cookies) (e : Option Event),
      t₁.core = { t.core with handshake := { t.handshake with cookies } } ∧
      (e = none ∨ e = some .gaveUp) ∧ Effect t₁.core e t'.core r := by
  obtain ⟨-, rfl, rfl⟩ | ⟨-, t₁, ht₁, hcases⟩ := checkTimers_cases h
  · exact ⟨t', _, _, rfl, Or.inl rfl, .refl _ (quiet_err _)⟩
  · obtain ⟨cookies, hcore⟩ : ∃ cookies,
        t₁.core = { t.core with handshake := { t.handshake with cookies } } := by
      rcases ht₁ with rfl | rfl <;> exact ⟨_, rfl⟩
    obtain hexpire | ⟨timeInitSent, -, hcall⟩ | ⟨-, hcall⟩ := hcases
    · cases hexpire
      exact ⟨t₁, cookies, _, hcore, Or.inr rfl, .giveUp⟩
    · obtain ⟨e, he, heffect⟩ := effect_retransmit hcall
      exact ⟨t₁, cookies, e, hcore, he, heffect⟩
    · exact ⟨t₁, cookies, _, hcore, Or.inl rfl, effect_initiateOrKeepalive hcall⟩

theorem updateSessionTimers_eq_some {now : ℕ} (h : t.updateSessionTimers now = some t') :
    (∀ i, t.timers.sessionTimers i ≤ now) ∧ t'.core =
      { t.core with
        sessions := t.sessions.filter fun i =>
          !decide (rejectAfterTime < now - t.timers.sessionTimers i)
        sessionTimers := fun i =>
          if rejectAfterTime < now - t.timers.sessionTimers i then now
          else t.timers.sessionTimers i } := by
  rw [updateSessionTimers] at h
  split_ifs at h with hle
  cases h
  refine ⟨hle, ?_⟩
  simp only [core, decide_eq_true_eq]

/-- `update_timers` takes out the old sessions, and has one effect more. -/
theorem effect_updateTimers (h : t.updateTimers env dstLen = some (t', r)) :
    ∃ (t₁ : Tunn C) (e : Option Event),
      Effect t.core (some (.expired (env.time - t.timers.timeStarted))) t₁.core .done ∧
      (e = none ∨ e = some .gaveUp) ∧ Effect t₁.core e t'.core r := by
  simp only [updateTimers, Option.bind_eq_bind, Option.bind_eq_some_iff] at h
  obtain ⟨t₂, hsessions, h⟩ := h
  obtain ⟨t₁, cookies, e, hcore, he, heffect⟩ := effect_checkTimers h
  refine ⟨t₁, e, ?_, he, heffect⟩
  obtain ⟨hle, hcore₂⟩ := updateSessionTimers_eq_some hsessions
  -- resetting the rate limiter and setting the current time leave the core alone
  generalize ht₀ : (if t.timers.shouldResetRr then
    { t with rateLimiter := t.rateLimiter.resetCount env.reset } else t) = t₀ at hle hcore₂
  have hcore₀ : t₀.core = t.core ∧ t₀.timers = t.timers := by
    rw [← ht₀]
    split_ifs <;> exact ⟨rfl, rfl⟩
  rw [hcore, ← hcore₀.1, ← hcore₀.2]
  have hexpire := Effect.expireSessions (c := t₀.core) (env.time - t₀.timers.timeStarted) cookies hle
  have hh : t₂.handshake = t₀.handshake := congrArg Core.handshake hcore₂
  rw [hcore₂, hh]
  exact hexpire

/-! ## Runs -/

/-- **Every call is one effect**, after the expiry of old sessions when it is `update_timers`. -/
theorem step_effect {i : Env × Call} (h : t.step i = some (t', r)) :
    ∃ c e, (c = t.core ∨ ∃ env dstLen, i = (env, .updateTimers dstLen) ∧
        Effect t.core (some (.expired (env.time - t.timers.timeStarted))) c .done) ∧
      (e = t.event i ∨ t.event i = none ∧ e = some .gaveUp) ∧ Effect c e t'.core r := by
  obtain ⟨env, call⟩ := i
  cases call with
  | encapsulate src dstLen => exact ⟨_, _, Or.inl rfl, Or.inl rfl, effect_encapsulate h⟩
  | decapsulate srcAddr datagram dstLen =>
    exact ⟨_, _, Or.inl rfl, Or.inl rfl, effect_decapsulate h⟩
  | updateTimers dstLen =>
    obtain ⟨t₁, e, hexpire, he, heffect⟩ := effect_updateTimers h
    exact ⟨_, e, Or.inr ⟨env, dstLen, rfl, hexpire⟩, he.imp_right fun he => ⟨rfl, he⟩, heffect⟩
  | formatHandshakeInitiation dstLen force =>
    have heffect := effect_formatHandshakeInitiation t env dstLen force
    rw [Option.some.inj h] at heffect
    exact ⟨_, _, Or.inl rfl, Or.inl rfl, heffect⟩
  | setStaticPrivate staticPrivate staticPublic rateLimiter =>
    obtain ⟨t₁, hrekey, heq⟩ := Option.map_eq_some_iff.mp h
    obtain ⟨handshake, hset, rfl⟩ := Option.map_eq_some_iff.mp hrekey
    obtain ⟨params, hparams, rfl⟩ := Option.map_eq_some_iff.mp hset
    cases heq
    exact ⟨_, _, Or.inl rfl, Or.inl rfl, .rekey staticPrivate staticPublic params hparams⟩

/-- The expiry before an effect adds no session and leaves the current index. -/
theorem expiry_spec {i : Env × Call} {c : Core C}
    (hc : c = t.core ∨ ∃ env dstLen, i = (env, .updateTimers dstLen) ∧
      Effect t.core (some (.expired (env.time - t.timers.timeStarted))) c .done) :
    c.current = t.current ∧
      ∀ idx s, c.sessions.get idx = some s → t.sessions.get idx = some s := by
  rcases hc with rfl | ⟨env, dstLen, -, hexpire⟩
  · exact ⟨rfl, fun idx s hs => hs⟩
  · cases hexpire
    exact ⟨rfl, fun idx s hs => SessionRing.get_of_get_filter hs⟩

/-! ## Sending what is queued -/

/-- An initiation is sent when there is no session and no handshake in progress. -/
def wantsInitiation (t : Tunn C) : Bool :=
  (t.sessions.get t.current).isNone && !t.handshake.isInProgress

/-- The packets that repeated calls send at most: those of the queue and an initiation. -/
def pending (t : Tunn C) : ℕ := t.packetQueue.length + t.wantsInitiation.toNat

/-- An initiation that is sent unforced is the first one, and it is then in progress. -/
theorem formatHandshakeInitiation_write {packet : List UInt8}
    (h : t.formatHandshakeInitiation env dstLen false = (t', .writeToNetwork packet)) :
    t.handshake.isInProgress = false ∧ t'.handshake.isInProgress = true ∧
      t'.packetQueue = t.packetQueue ∧ t'.sessions = t.sessions ∧ t'.current = t.current := by
  obtain ⟨-, heq⟩ | ⟨hidle, ⟨-, heq⟩ | ⟨handshake, initiation, hd, hformat, heq⟩⟩ :=
    t.formatHandshakeInitiation_spec env dstLen false
  · cases (Prod.mk.inj (heq.symm.trans h)).2
  · cases (Prod.mk.inj (heq.symm.trans h)).2
  · obtain ⟨cookies, macs, hok⟩ := Handshake.formatHandshakeInitiation_ok t.handshake
      env.ephemeralPrivate env.stamp env.sent hd
    cases hok.symm.trans hformat
    obtain ⟨rfl, -⟩ := Prod.mk.inj (heq.symm.trans h)
    have hcore := core_initiated (t.restarted env) { t.handshake with
      nextIndex := Handshake.incIndex t.handshake.nextIndex
      previous := t.handshake.state
      state := .initSent (t.handshake.sentState env.ephemeralPrivate env.stamp env.sent)
      cookies }
    rw [core_restarted] at hcore
    refine ⟨by simpa using hidle, ?_, by simp, congrArg Core.sessions hcore,
      congrArg Core.current hcore⟩
    rw [handshake_initiated]
    rfl

/-- Every packet that a repeated call sends is one less to come. -/
theorem pending_sendQueuedPacket {packet : List UInt8}
    (h : t.sendQueuedPacket env dstLen = some (t', .writeToNetwork packet)) :
    t'.pending < t.pending := by
  rw [sendQueuedPacket] at h
  rcases hq : t.packetQueue with _ | ⟨queued, rest⟩
  · rw [hq] at h
    cases h
  · rw [hq] at h
    obtain ⟨⟨t₁, r₁⟩, hencap, heq⟩ := Option.map_eq_some_iff.mp h
    have heq₁ : t₁ = t' ∧ r₁ = .writeToNetwork packet := by
      cases r₁ with
      | writeToNetwork => cases heq; exact ⟨rfl, rfl⟩
      | done | err | writeToTunnelV4 | writeToTunnelV6 => cases heq
    obtain ⟨rfl, rfl⟩ := heq₁
    rw [encapsulate] at hencap
    dsimp only at hencap
    rw [pending, pending, hq, List.length_cons]
    rcases hs : t.sessions.get t.current with _ | s
    · -- the packet is queued again, and an initiation is sent
      rw [hs] at hencap
      obtain ⟨hidle, hprogress, hqueue, -, -⟩ :=
        formatHandshakeInitiation_write (Option.some.inj hencap)
      have hwants : t.wantsInitiation = true := by
        rw [queuePacket] at hidle
        split_ifs at hidle <;> simp only [wantsInitiation, hs, Option.isNone_none, hidle] <;> rfl
      have hwants' : t₁.wantsInitiation = false := by
        rw [wantsInitiation, hprogress, Bool.not_true, Bool.and_false]
      have hlen : t₁.packetQueue.length ≤ rest.length + 1 := by
        rw [hqueue, queuePacket]
        split_ifs
        · simp
        · simp
      rw [hwants, hwants', Bool.toNat_true, Bool.toNat_false]
      omega
    · -- the packet is sent under the session, which stays in its slot
      rw [hs] at hencap
      obtain ⟨⟨s', datagram⟩, hformat, heq⟩ := Option.map_eq_some_iff.mp hencap
      obtain ⟨rfl, rfl⟩ := Session.formatPacketData_eq_some hformat
      have hslot : slot t.current = slot (s.bumped C).localIndex :=
        (SessionRing.slot_localIndex hs).symm
      have hwants : t₁.wantsInitiation = false ∧ t₁.packetQueue = rest := by
        dsimp only at heq
        split_ifs at heq <;> cases heq
        · refine ⟨?_, rfl⟩
          exact congrArg (fun o : Option Session => o.isNone && !t.handshake.isInProgress)
            (SessionRing.get_store_of_eq hslot)
        · refine ⟨?_, rfl⟩
          exact congrArg (fun o : Option Session => o.isNone && !t.handshake.isInProgress)
            (SessionRing.get_store_of_eq hslot)
      rw [hwants.1, hwants.2, Bool.toNat_false]
      omega

/-! ## Packets fit their buffer -/

section Fit

variable {packet : List UInt8}

theorem delivered_ne_writeToNetwork (ret packet : List UInt8) :
    delivered ret ≠ .writeToNetwork packet := by
  rw [delivered]
  split_ifs
  · nofun
  · rcases computedLenAndSource ret with _ | ⟨computedLen, addr | addr⟩
    · nofun
    · dsimp only
      split_ifs <;> nofun
    · dsimp only
      split_ifs <;> nofun

theorem length_formatPacketData {s s' : Session} {src : List UInt8}
    (h : s.formatPacketData C src dstLen = some (s', packet)) : packet.length ≤ dstLen := by
  rw [Session.formatPacketData] at h
  split_ifs at h with hd
  cases h
  rw [PacketData.length_bytes, Session.dataPacket]
  simp only [List.Vector.toList_length, dataOverheadSz] at hd ⊢
  omega

theorem length_formatHandshakeInitiation {force : Bool}
    (h : t.formatHandshakeInitiation env dstLen force = (t', .writeToNetwork packet)) :
    packet.length ≤ dstLen := by
  obtain ⟨-, heq⟩ | ⟨-, ⟨-, heq⟩ | ⟨handshake, initiation, hd, hformat, heq⟩⟩ :=
    t.formatHandshakeInitiation_spec env dstLen force
  · cases (Prod.mk.inj (heq.symm.trans h)).2
  · cases (Prod.mk.inj (heq.symm.trans h)).2
  · obtain ⟨cookies, macs, hok⟩ := Handshake.formatHandshakeInitiation_ok t.handshake
      env.ephemeralPrivate env.stamp env.sent hd
    cases hok.symm.trans hformat
    cases (Prod.mk.inj (heq.symm.trans h)).2
    rw [List.length_append, HandshakeInit.length_bytes, List.Vector.toList_length]
    exact hd

theorem length_encapsulate {src : List UInt8}
    (h : t.encapsulate env src dstLen = some (t', .writeToNetwork packet)) :
    packet.length ≤ dstLen := by
  rw [encapsulate] at h
  split at h
  · obtain ⟨⟨s, datagram⟩, hformat, heq⟩ := Option.map_eq_some_iff.mp h
    obtain rfl : datagram = packet := TunnResult.writeToNetwork.inj (Prod.mk.inj heq).2
    exact length_formatPacketData hformat
  · exact length_formatHandshakeInitiation (Option.some.inj h)

theorem length_sendQueuedPacket
    (h : t.sendQueuedPacket env dstLen = some (t', .writeToNetwork packet)) :
    packet.length ≤ dstLen := by
  rw [sendQueuedPacket] at h
  split at h
  · cases h
  · obtain ⟨⟨t₁, r₁⟩, hencap, heq⟩ := Option.map_eq_some_iff.mp h
    cases r₁ with
    | writeToNetwork =>
      cases heq
      exact length_encapsulate hencap
    | done | err | writeToTunnelV4 | writeToTunnelV6 => cases heq

/-- What is sent in answer to a packet fits the buffer that it is written to. -/
theorem length_handleVerifiedPacket {p : Packet}
    (h : t.handleVerifiedPacket env p dstLen = some (t', .writeToNetwork packet)) :
    packet.length ≤ dstLen := by
  cases p with
  | handshakeInit p =>
    rw [handleVerifiedPacket, handleHandshakeInit] at h
    obtain ⟨e, heq⟩ | ⟨timestamp, chainingKey, hash, -, ⟨-, heq⟩ | ⟨cookies, macs, hd, heq⟩⟩ :=
      t.handshake.receiveHandshakeInitialization_cases p env.ephemeralPrivate dstLen
    · rw [heq] at h
      cases h
    · rw [heq] at h
      cases h
    · rw [heq] at h
      cases h
      rw [List.length_append, HandshakeResponse.length_bytes, List.Vector.toList_length]
      exact hd
  | handshakeResponse p =>
    rw [handleVerifiedPacket, handleHandshakeResponse] at h
    split at h
    · cases h
    · obtain ⟨⟨s, datagram⟩, hformat, heq⟩ := Option.map_eq_some_iff.mp h
      obtain rfl : datagram = packet := TunnResult.writeToNetwork.inj (Prod.mk.inj heq).2
      exact length_formatPacketData hformat
  | packetCookieReply p =>
    rw [handleVerifiedPacket, handleCookieReply] at h
    split at h <;> cases h
  | packetData p =>
    obtain ⟨-, e, heq, -⟩ | ⟨s, s', ret, -, -, -, heq, -⟩ := handleData_cases h
    · cases heq
    · exact absurd heq.symm (delivered_ne_writeToNetwork ret packet)

end Fit

end Tunn

end NekoLink.Noise
