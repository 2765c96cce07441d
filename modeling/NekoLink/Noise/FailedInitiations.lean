import NekoLink.Noise.Rejection
import NekoLink.Noise.Uniqueness

/-!
# A failed handshake call

`decapsulate` of an initiation authenticates it, records its timestamp and replaces the state of the
handshake before it looks whether the response fits into `dst`. The length of `dst` is the caller's
choice.

* `Usable`: what a failed call ought to leave.
* `decapsulate_initiation_err`, `decapsulate_of_swallows`: what it leaves.
* `failsSafely_iff`: a failed call leaves the tunnel usable exactly when it has not swallowed the
  initiation for want of room.
-/

namespace NekoLink.Noise.Tunn

open Wire

variable {C : Prims} {t t' : Tunn C} {env : Env} {srcAddr : Option IpAddr} {datagram : List UInt8}
  {p : HandshakeInit} {dstLen : ℕ}

/-! ## What a failed call ought to leave -/

/-- The tunnel is as usable after the call as it was before: nothing of the handshake and of the
sessions has changed, the initiation is answered when it is delivered again and there is room, and
packets without a session still start a handshake. -/
structure Usable (t t' : Tunn C) (datagram : List UInt8) (p : HandshakeInit) : Prop where
  state : t'.handshake.state = t.handshake.state
  previous : t'.handshake.previous = t.handshake.previous
  timestamp : t'.handshake.lastHandshakeTimestamp = t.handshake.lastHandshakeTimestamp
  sessions : t'.sessions = t.sessions
  redelivery : ∀ timestamp chainingKey hash, t.handshake.Accepts p timestamp chainingKey hash →
    ∀ (env : Env) (srcAddr : Option IpAddr) (dstLen : ℕ) (rateLimiter : RateLimiter),
      t'.rateLimiter.verifyPacket C srcAddr datagram cookieReplySz env.cookie =
        (rateLimiter, .ok (.handshakeInit p)) → handshakeRespSz ≤ dstLen →
      ∃ t'' response, t'.decapsulate env srcAddr datagram dstLen =
        some (t'', .writeToNetwork response)
  starts : t.handshake.isInProgress = false → t.sessions.get t.current = none →
    ∀ (env : Env) (src : List UInt8) (dstLen : ℕ), handshakeInitSz ≤ dstLen →
      ∃ t'' initiation, t'.encapsulate env src dstLen = some (t'', .writeToNetwork initiation) ∧
        t''.handshake.timer = some env.sent

/-- When `decapsulate` of an initiation fails, the tunnel is still usable. -/
def FailsSafely (t : Tunn C) (env : Env) (srcAddr : Option IpAddr) (datagram : List UInt8)
    (dstLen : ℕ) : Prop :=
  ∀ p, parseIncomingPacket datagram = .ok (.handshakeInit p) → ∀ t' e,
    t.decapsulate env srcAddr datagram dstLen = some (t', .err e) → t.Usable t' datagram p

/-- The initiation is accepted, and there is no room for the response. -/
def Swallows (t : Tunn C) (env : Env) (srcAddr : Option IpAddr) (datagram : List UInt8)
    (dstLen : ℕ) : Prop :=
  dstLen < handshakeRespSz ∧ ∃ rateLimiter p timestamp chainingKey hash,
    t.rateLimiter.verifyPacket C srcAddr datagram cookieReplySz env.cookie =
      (rateLimiter, .ok (.handshakeInit p)) ∧
    t.handshake.Accepts p timestamp chainingKey hash

/-! ## What it leaves -/

theorem decapsulate_of_verifyPacket {rateLimiter : RateLimiter} {packet : Packet}
    (hverify : t.rateLimiter.verifyPacket C srcAddr datagram cookieReplySz env.cookie =
      (rateLimiter, .ok packet)) :
    t.decapsulate env srcAddr datagram dstLen =
      { t with rateLimiter }.handleVerifiedPacket env packet dstLen := by
  have hdatagram : datagram ≠ [] := by
    rintro rfl
    cases RateLimiter.parse_of_verifyPacket hverify
  rw [decapsulate, if_neg hdatagram, hverify]

/-- An initiation that is accepted is answered when there is room. -/
theorem handleHandshakeInit_ok {timestamp : Bytes 12} {chainingKey hash : Bytes 32} (env : Env)
    (haccepts : t.handshake.Accepts p timestamp chainingKey hash) (hd : handshakeRespSz ≤ dstLen) :
    ∃ t' response, t.handleHandshakeInit env p dstLen = some (t', .writeToNetwork response) := by
  obtain ⟨cookies, macs, hreceive⟩ :=
    Handshake.receiveHandshakeInitialization_ok env.ephemeralPrivate haccepts hd
  rw [handleHandshakeInit, hreceive]
  exact ⟨_, _, rfl⟩

/-- When no handshake is in progress, an initiation is sent. -/
theorem formatHandshakeInitiation_start (env : Env) (hidle : t.handshake.isInProgress = false)
    (hd : handshakeInitSz ≤ dstLen) :
    ∃ t' initiation, t.formatHandshakeInitiation env dstLen false =
        (t', .writeToNetwork initiation) ∧
      t'.handshake.timer = some env.sent := by
  rw [formatHandshakeInitiation, if_neg (by simp [hidle])]
  dsimp only
  generalize (if t.handshake.isExpired then
    { t with timers := t.timers.clear env.clear } else t) = t₁
  obtain ⟨cookies, macs, hformat⟩ := Handshake.formatHandshakeInitiation_ok t₁.handshake
    env.ephemeralPrivate env.stamp env.sent hd
  rw [hformat]
  refine ⟨_, _, rfl, ?_⟩
  split_ifs <;> rfl

/-- Only the rate limiter has changed. -/
theorem usable_rateLimiter (t : Tunn C) (rateLimiter : RateLimiter) (datagram : List UInt8)
    (p : HandshakeInit) : t.Usable { t with rateLimiter } datagram p where
  state := rfl
  previous := rfl
  timestamp := rfl
  sessions := rfl
  redelivery timestamp chainingKey hash haccepts env srcAddr dstLen rateLimiter' hverify hd := by
    rw [decapsulate_of_verifyPacket hverify]
    exact handleHandshakeInit_ok (t := { t with rateLimiter := rateLimiter' }) env haccepts hd
  starts hidle hnone env src dstLen hd := by
    have hidle' : (({ t with rateLimiter } : Tunn C).queuePacket src).handshake.isInProgress =
        false := by
      rw [handshake_queuePacket]
      exact hidle
    obtain ⟨t'', initiation, hformat, htimer⟩ := formatHandshakeInitiation_start env hidle' hd
    refine ⟨t'', initiation, ?_, htimer⟩
    simp only [encapsulate, hnone, hformat]

/-- **A failed call either changes the rate limiter only, or it has swallowed the initiation.** -/
theorem decapsulate_initiation_err {e : WireGuardError}
    (hparse : parseIncomingPacket datagram = .ok (.handshakeInit p))
    (h : t.decapsulate env srcAddr datagram dstLen = some (t', .err e)) :
    (∃ rateLimiter, t' = { t with rateLimiter }) ∨ t.Swallows env srcAddr datagram dstLen := by
  have hdatagram : datagram ≠ [] := by
    rintro rfl
    cases hparse
  rcases hverify : t.rateLimiter.verifyPacket C srcAddr datagram cookieReplySz env.cookie with
    ⟨rateLimiter, result | packet⟩
  · rw [decapsulate, if_neg hdatagram, hverify] at h
    cases result with
    | err e' =>
      cases h
      exact .inl ⟨rateLimiter, rfl⟩
    | writeToNetwork cookie =>
      dsimp only at h
      split_ifs at h
      cases h
    | done | writeToTunnelV4 | writeToTunnelV6 => cases h
  · obtain rfl : packet = .handshakeInit p :=
      Except.ok.inj ((RateLimiter.parse_of_verifyPacket hverify).symm.trans hparse)
    rw [decapsulate_of_verifyPacket hverify] at h
    obtain ⟨e', heq⟩ | ⟨timestamp, chainingKey, hash, ha, ⟨hd, -⟩ | ⟨cookies, macs, -, heq⟩⟩ :=
      t.handshake.receiveHandshakeInitialization_cases p env.ephemeralPrivate dstLen
    · -- an initiation that is not accepted changes nothing
      rw [handleVerifiedPacket, handleHandshakeInit, heq] at h
      cases h
      exact .inl ⟨rateLimiter, rfl⟩
    · exact .inr ⟨hd, rateLimiter, p, timestamp, chainingKey, hash, hverify, ha⟩
    · rw [handleVerifiedPacket, handleHandshakeInit, heq] at h
      cases h

/-- A swallowed initiation leaves its timestamp behind, and a handshake that is never answered. -/
theorem decapsulate_of_swallows (h : t.Swallows env srcAddr datagram dstLen) :
    ∃ p t', parseIncomingPacket datagram = .ok (.handshakeInit p) ∧
      t.decapsulate env srcAddr datagram dstLen = some (t', .err .destinationBufferTooSmall) ∧
      t'.handshake.lastHandshakeTimestamp ≠ t.handshake.lastHandshakeTimestamp ∧
      (∀ timestamp chainingKey hash, ¬ t'.handshake.Accepts p timestamp chainingKey hash) ∧
      t'.handshake.isInProgress = true := by
  obtain ⟨hd, rateLimiter, p, timestamp, chainingKey, hash, hverify, haccepts⟩ := h
  have hcall : t.decapsulate env srcAddr datagram dstLen =
      some ({ t with
        rateLimiter
        handshake := { t.handshake with
          lastHandshakeTimestamp := Tai64N.parse timestamp
          previous := t.handshake.state
          state := .initReceived hash chainingKey p.unencryptedEphemeral p.senderIdx } },
        .err .destinationBufferTooSmall) := by
    rw [decapsulate_of_verifyPacket hverify, handleVerifiedPacket, handleHandshakeInit,
      Handshake.receiveHandshakeInitialization_small env.ephemeralPrivate haccepts hd]
    rfl
  refine ⟨p, _, RateLimiter.parse_of_verifyPacket hverify, hcall, fun heq => ?_,
    fun timestamp' chainingKey' hash' haccepts' => ?_, rfl⟩
  · have hafter := haccepts.2
    rw [← heq] at hafter
    exact Tai64N.after_irrefl _ hafter
  · -- it would have to be newer than itself
    have hsame := Except.ok.inj (haccepts'.1.symm.trans haccepts.1)
    have hafter := haccepts'.2
    rw [(Prod.mk.inj hsame).1] at hafter
    exact Tai64N.after_irrefl _ hafter

/-- While a handshake is in progress, packets without a session are only queued. -/
theorem encapsulate_of_isInProgress (env : Env) (src : List UInt8)
    (hnone : t.sessions.get t.current = none) (hprogress : t.handshake.isInProgress = true) :
    t.encapsulate env src dstLen = some (t.queuePacket src, .done) := by
  simp [encapsulate, hnone, formatHandshakeInitiation, hprogress]

/-- **A failed handshake call leaves the tunnel usable exactly when it has not swallowed the
initiation**: accepted it without the room for the response. -/
theorem failsSafely_iff (t : Tunn C) (env : Env) (srcAddr : Option IpAddr) (datagram : List UInt8)
    (dstLen : ℕ) :
    t.FailsSafely env srcAddr datagram dstLen ↔ ¬ t.Swallows env srcAddr datagram dstLen := by
  constructor
  · intro hsafe hswallows
    obtain ⟨p, t', hparse, hcall, htimestamp, -⟩ := decapsulate_of_swallows hswallows
    exact htimestamp (hsafe p hparse t' _ hcall).timestamp
  · intro hkept p hparse t' e hcall
    obtain ⟨rateLimiter, rfl⟩ | hswallows := decapsulate_initiation_err hparse hcall
    · exact usable_rateLimiter t rateLimiter datagram p
    · exact absurd hswallows hkept

/-- With one byte too few for the response, the initiation of the peer is swallowed. -/
theorem swallowed_initiation :
    ¬ (sampleTunn 2 1 2).FailsSafely (sampleEnv 6 2) none peerInitiation 91 := by
  intro hsafe
  have hrun : ((sampleTunn 2 1 2).decapsulate (sampleEnv 6 2) none peerInitiation 91).map
      (fun q => (q.2, decide (q.1.handshake.lastHandshakeTimestamp =
        (sampleTunn 2 1 2).handshake.lastHandshakeTimestamp))) =
      some (.err .destinationBufferTooSmall, false) := by decide +kernel
  have hparse : (parseIncomingPacket peerInitiation).toOption.any
      (fun packet => match packet with | .handshakeInit _ => true | _ => false) = true := by
    decide +kernel
  obtain ⟨⟨t', r⟩, hcall, heq⟩ := Option.map_eq_some_iff.mp hrun
  simp only [Prod.mk.injEq, decide_eq_false_iff_not] at heq
  obtain ⟨rfl, htimestamp⟩ := heq
  rcases hpacket : parseIncomingPacket peerInitiation with e | packet
  · rw [hpacket] at hparse
    cases hparse
  · rw [hpacket] at hparse
    cases packet with
    | handshakeInit p => exact htimestamp (hsafe p hpacket t' _ hcall).timestamp
    | handshakeResponse | packetCookieReply | packetData => cases hparse

end NekoLink.Noise.Tunn
