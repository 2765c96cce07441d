import Mathlib.Tactic.NormNum
import NekoLink.Foundations.Runs
import NekoLink.Noise.Handshake

/-!
# What a handshake call does

One lemma for each function of `Handshake`: `formatHandshakeInitiation_ok`,
`receiveHandshakeInitialization_cases` and `receiveHandshakeResponse_cases` say all that a call can
do to the state, and `incIndex_toNat` what happens to the index. `Handshake.step` runs the calls
in any order; `Fresh` is the invariant of such runs on the two slots.
-/

namespace NekoLink.Noise

open Wire

namespace Handshake

variable {C : Prims} {h h' : Handshake C}

/-! ## The index -/

theorem and_mask_low (n : ℕ) (h : n < 2 ^ 32) : n &&& 4294967040 = n / 256 * 256 := by
  apply Nat.eq_of_testBit_eq
  intro i
  rw [Nat.testBit_and, show (256 : ℕ) = 2 ^ 8 from rfl, Nat.testBit_mul_two_pow,
    show (4294967040 : ℕ) = (2 ^ 24 - 1) * 2 ^ 8 from rfl, Nat.testBit_mul_two_pow,
    Nat.testBit_two_pow_sub_one]
  rcases lt_or_ge i 8 with hi | hi
  · simp [Nat.not_le.mpr hi]
  · rw [Nat.testBit_div_two_pow, Nat.sub_add_cancel hi]
    rcases lt_or_ge i 32 with hi' | hi'
    · simp [hi, show i - 8 < 24 by omega]
    · rw [Nat.testBit_lt_two_pow (h.trans_le (Nat.pow_le_pow_right (by norm_num) hi'))]
      simp

/-- The upper 24 bits stay and the low byte is cyclic. -/
theorem incIndex_toNat (i : UInt32) :
    (incIndex i).toNat = i.toNat / 256 * 256 + (i.toNat + 1) % 256 := by
  have hlow : (i.toUInt8 + 1).toUInt32.toNat = (i.toNat + 1) % 256 := by
    simp
  have hhigh : (i &&& ~~~0xff).toNat = i.toNat / 256 * 256 := by
    rw [UInt32.toNat_and]
    exact and_mask_low _ i.toNat_lt
  rw [incIndex, UInt32.toNat_or, hhigh, hlow]
  have hlt : (i.toNat + 1) % 256 < 2 ^ 8 := Nat.mod_lt _ (by norm_num)
  rw [show i.toNat / 256 * 256 = 2 ^ 8 * (i.toNat / 256) by ring, Nat.two_pow_add_eq_or_of_lt hlt]

theorem incIndex_div (i : UInt32) : (incIndex i).toNat / 256 = i.toNat / 256 := by
  rw [incIndex_toNat]
  omega

theorem incIndex_mod (i : UInt32) : (incIndex i).toNat % 256 = (i.toNat + 1) % 256 := by
  rw [incIndex_toNat]
  omega

theorem incIndex_ne (i : UInt32) : incIndex i ≠ i := by
  intro heq
  have := incIndex_mod i
  rw [heq] at this
  omega

/-! ## Formatting -/

variable {ephemeralPrivate : Bytes 32} {stampNow now dstLen : ℕ}

/-- The initiation that is formatted next. -/
def initiation (h : Handshake C) (ephemeralPrivate : Bytes 32) (stampNow : ℕ) : HandshakeInit :=
  (sealInitiation h.params (incIndex h.nextIndex) ephemeralPrivate (h.stamper.stamp stampNow)).1

/-- What is kept of it until the response. -/
def sentState (h : Handshake C) (ephemeralPrivate : Bytes 32) (stampNow now : ℕ) :
    HandshakeInitSentState :=
  let keys :=
    (sealInitiation h.params (incIndex h.nextIndex) ephemeralPrivate (h.stamper.stamp stampNow)).2
  { localIndex := incIndex h.nextIndex
    hash := keys.2
    chainingKey := keys.1
    ephemeralPrivate
    timeSent := now }

theorem formatHandshakeInitiation_small (hd : dstLen < handshakeInitSz) :
    h.formatHandshakeInitiation ephemeralPrivate stampNow now dstLen =
      (h, .error .destinationBufferTooSmall) :=
  if_pos hd

theorem formatHandshakeInitiation_ok (h : Handshake C) (ephemeralPrivate : Bytes 32)
    (stampNow now : ℕ) (hd : handshakeInitSz ≤ dstLen) :
    ∃ cookies macs, h.formatHandshakeInitiation ephemeralPrivate stampNow now dstLen =
      ({ h with
          nextIndex := incIndex h.nextIndex
          previous := h.state
          state := .initSent (h.sentState ephemeralPrivate stampNow now)
          cookies },
        .ok ((h.initiation ephemeralPrivate stampNow).bytes ++
          List.Vector.toList (n := 32) macs)) := by
  rw [formatHandshakeInitiation, if_neg (by omega)]
  exact ⟨_, _, rfl⟩

/-! ## Receiving -/

variable {packet : HandshakeInit} {timestamp : Bytes 12} {chainingKey hash : Bytes 32}

/-- The initiation opens to these values, and is newer than the last one accepted. -/
def Accepts (h : Handshake C) (packet : HandshakeInit) (timestamp : Bytes 12)
    (chainingKey hash : Bytes 32) : Prop :=
  openInitiation h.params packet = .ok (timestamp, chainingKey, hash) ∧
    (Tai64N.parse timestamp).after h.lastHandshakeTimestamp = true

/-- The response to an initiation, and its session keys. -/
def response (h : Handshake C) (packet : HandshakeInit)
    (ephemeralPrivate chainingKey hash : Bytes 32) : HandshakeResponse × Bytes 32 × Bytes 32 :=
  sealResponse h.params (incIndex h.nextIndex) packet.senderIdx ephemeralPrivate hash chainingKey
    packet.unencryptedEphemeral

/-- The responder's session. -/
def responderSession (h : Handshake C) (packet : HandshakeInit)
    (ephemeralPrivate chainingKey hash : Bytes 32) : Session :=
  let keys := (h.response packet ephemeralPrivate chainingKey hash).2
  Session.new (incIndex h.nextIndex) packet.senderIdx keys.1 keys.2

theorem receiveHandshakeInitialization_of_accepts
    (ha : h.Accepts packet timestamp chainingKey hash) :
    h.receiveHandshakeInitialization packet ephemeralPrivate dstLen =
      { h with
        lastHandshakeTimestamp := Tai64N.parse timestamp
        previous := h.state
        state := .initReceived hash chainingKey packet.unencryptedEphemeral packet.senderIdx
      }.formatHandshakeResponse ephemeralPrivate dstLen := by
  simp only [receiveHandshakeInitialization, ha.1, ha.2, Bool.not_true, Bool.false_eq_true, if_false]

/-- An accepted initiation, with room for the response. -/
theorem receiveHandshakeInitialization_ok (ephemeralPrivate : Bytes 32)
    (ha : h.Accepts packet timestamp chainingKey hash) (hd : handshakeRespSz ≤ dstLen) :
    ∃ cookies macs, h.receiveHandshakeInitialization packet ephemeralPrivate dstLen =
      some ({ h with
          lastHandshakeTimestamp := Tai64N.parse timestamp
          previous := h.state
          state := .none
          nextIndex := incIndex h.nextIndex
          cookies },
        .ok ((h.response packet ephemeralPrivate chainingKey hash).1.bytes ++
            List.Vector.toList (n := 32) macs,
          h.responderSession packet ephemeralPrivate chainingKey hash)) := by
  rw [receiveHandshakeInitialization_of_accepts ha, formatHandshakeResponse, if_neg (by omega)]
  exact ⟨_, _, rfl⟩

/-- An accepted initiation, without room for the response. -/
theorem receiveHandshakeInitialization_small (ephemeralPrivate : Bytes 32)
    (ha : h.Accepts packet timestamp chainingKey hash) (hd : dstLen < handshakeRespSz) :
    h.receiveHandshakeInitialization packet ephemeralPrivate dstLen =
      some ({ h with
          lastHandshakeTimestamp := Tai64N.parse timestamp
          previous := h.state
          state := .initReceived hash chainingKey packet.unencryptedEphemeral packet.senderIdx },
        .error .destinationBufferTooSmall) := by
  rw [receiveHandshakeInitialization_of_accepts ha, formatHandshakeResponse, if_pos hd]

/-- An initiation that is not accepted changes nothing. -/
theorem receiveHandshakeInitialization_not (ephemeralPrivate : Bytes 32) (dstLen : ℕ)
    (ha : ∀ timestamp chainingKey hash, ¬ h.Accepts packet timestamp chainingKey hash) :
    ∃ e, h.receiveHandshakeInitialization packet ephemeralPrivate dstLen = some (h, .error e) := by
  rw [receiveHandshakeInitialization]
  rcases hopen : openInitiation h.params packet with e | ⟨timestamp, chainingKey, hash⟩
  · exact ⟨e, rfl⟩
  · have hafter : (Tai64N.parse timestamp).after h.lastHandshakeTimestamp = false := by
      rw [← Bool.not_eq_true]
      exact fun ht => ha _ _ _ ⟨hopen, ht⟩
    simp only [hafter, Bool.not_false, if_true]
    exact ⟨_, rfl⟩

/-- **What an initiation does**: it is refused, or it is accepted without room for the response, or it
is answered. -/
theorem receiveHandshakeInitialization_cases (h : Handshake C) (packet : HandshakeInit)
    (ephemeralPrivate : Bytes 32) (dstLen : ℕ) :
    (∃ e, h.receiveHandshakeInitialization packet ephemeralPrivate dstLen = some (h, .error e)) ∨
    ∃ timestamp chainingKey hash, h.Accepts packet timestamp chainingKey hash ∧
      ((dstLen < handshakeRespSz ∧
          h.receiveHandshakeInitialization packet ephemeralPrivate dstLen =
            some ({ h with
                lastHandshakeTimestamp := Tai64N.parse timestamp
                previous := h.state
                state :=
                  .initReceived hash chainingKey packet.unencryptedEphemeral packet.senderIdx },
              .error .destinationBufferTooSmall)) ∨
        ∃ cookies macs, handshakeRespSz ≤ dstLen ∧
          h.receiveHandshakeInitialization packet ephemeralPrivate dstLen =
            some ({ h with
                lastHandshakeTimestamp := Tai64N.parse timestamp
                previous := h.state
                state := .none
                nextIndex := incIndex h.nextIndex
                cookies },
              .ok ((h.response packet ephemeralPrivate chainingKey hash).1.bytes ++
                  List.Vector.toList (n := 32) macs,
                h.responderSession packet ephemeralPrivate chainingKey hash))) := by
  by_cases ha : ∃ timestamp chainingKey hash, h.Accepts packet timestamp chainingKey hash
  · obtain ⟨timestamp, chainingKey, hash, ha⟩ := ha
    refine Or.inr ⟨timestamp, chainingKey, hash, ha, ?_⟩
    rcases lt_or_ge dstLen handshakeRespSz with hd | hd
    · exact Or.inl ⟨hd, receiveHandshakeInitialization_small ephemeralPrivate ha hd⟩
    · obtain ⟨cookies, macs, heq⟩ := receiveHandshakeInitialization_ok ephemeralPrivate ha hd
      exact Or.inr ⟨cookies, macs, hd, heq⟩
  · exact Or.inl (receiveHandshakeInitialization_not ephemeralPrivate dstLen
      fun timestamp chainingKey hash hacc => ha ⟨timestamp, chainingKey, hash, hacc⟩)

theorem awaiting_eq_some {receiverIdx : UInt32} {s : HandshakeInitSentState} {isPrevious : Bool}
    (ha : h.awaiting receiverIdx = some (s, isPrevious)) :
    s.localIndex = receiverIdx ∧ (if isPrevious then h.previous else h.state) = .initSent s := by
  rw [awaiting] at ha
  split at ha
  · next s' hs' =>
    split_ifs at ha with hidx
    · simp only [Option.some.injEq, Prod.mk.injEq] at ha
      obtain ⟨rfl, rfl⟩ := ha
      exact ⟨hidx, hs'⟩
    · split at ha
      · next s'' hs'' =>
        split_ifs at ha with hidx'
        simp only [Option.some.injEq, Prod.mk.injEq] at ha
        obtain ⟨rfl, rfl⟩ := ha
        exact ⟨hidx', hs''⟩
      · cases ha
  · split at ha
    · next s'' hs'' =>
      split_ifs at ha with hidx'
      simp only [Option.some.injEq, Prod.mk.injEq] at ha
      obtain ⟨rfl, rfl⟩ := ha
      exact ⟨hidx', hs''⟩
    · cases ha

/-- A response that opens takes the initiation it answers out of its slot. -/
theorem receiveHandshakeResponse_ok {packet : HandshakeResponse} {s : HandshakeInitSentState}
    {isPrevious : Bool} {temp2 temp3 : Bytes 32} (now : ℕ)
    (hawait : h.awaiting packet.receiverIdx = some (s, isPrevious))
    (hopen : openResponse h.params s packet = .ok (temp2, temp3)) :
    h.receiveHandshakeResponse packet now =
      ({ h with
          lastRtt := some ((now - s.timeSent) / 10 ^ 6 % 2 ^ 32)
          previous := if isPrevious then .none else h.previous
          state := if isPrevious then h.state else .none },
        .ok (Session.new s.localIndex packet.senderIdx temp3 temp2)) := by
  rw [receiveHandshakeResponse, hawait]
  simp only [hopen]
  cases isPrevious <;> rfl

/-- A response is refused, or it takes the initiation it answers. -/
theorem receiveHandshakeResponse_cases (h : Handshake C) (packet : HandshakeResponse) (now : ℕ) :
    (∃ e, h.receiveHandshakeResponse packet now = (h, .error e)) ∨
    ∃ s isPrevious temp2 temp3 rtt, h.awaiting packet.receiverIdx = some (s, isPrevious) ∧
      openResponse h.params s packet = .ok (temp2, temp3) ∧
      h.receiveHandshakeResponse packet now =
        ({ h with
            lastRtt := rtt
            previous := if isPrevious then .none else h.previous
            state := if isPrevious then h.state else .none },
          .ok (Session.new s.localIndex packet.senderIdx temp3 temp2)) := by
  rcases hawait : h.awaiting packet.receiverIdx with _ | ⟨s, isPrevious⟩
  · exact Or.inl ⟨_, by rw [receiveHandshakeResponse, hawait]⟩
  · rcases hopen : openResponse h.params s packet with e | ⟨temp2, temp3⟩
    · refine Or.inl ⟨e, ?_⟩
      rw [receiveHandshakeResponse, hawait]
      simp only [hopen]
    · exact Or.inr ⟨s, isPrevious, temp2, temp3, _, rfl, hopen,
        receiveHandshakeResponse_ok now hawait hopen⟩

/-- A cookie reply is refused, or it sets the cookie. -/
theorem receiveCookieReply_cases (h : Handshake C) (packet : PacketCookieReply) :
    (∃ e, h.receiveCookieReply packet = (h, .error e)) ∨
    ∃ cookies, h.receiveCookieReply packet = ({ h with cookies }, .ok ()) := by
  rw [receiveCookieReply]
  rcases h.cookies.lastMac1 with _ | mac1
  · exact Or.inl ⟨_, rfl⟩
  · dsimp only
    split_ifs
    · exact Or.inl ⟨_, rfl⟩
    · split
      · exact Or.inl ⟨_, rfl⟩
      · exact Or.inr ⟨_, rfl⟩

/-! ## Runs of a handshake -/

/-- The calls a tunnel makes to its handshake. -/
inductive Call
  | formatHandshakeInitiation (ephemeralPrivate : Bytes 32) (stampNow now dstLen : ℕ)
  | receiveHandshakeInitialization (packet : HandshakeInit) (ephemeralPrivate : Bytes 32)
      (dstLen : ℕ)
  | receiveHandshakeResponse (packet : HandshakeResponse) (now : ℕ)
  | receiveCookieReply (packet : PacketCookieReply)
  | setStaticPrivate (privateKey publicKey : Bytes 32)
  | setExpired
  | clearCookie

/-- One call, of which only the new state is kept. -/
def step (h : Handshake C) : Call → Option (Handshake C × Unit)
  | .formatHandshakeInitiation ephemeralPrivate stampNow now dstLen =>
    some ((h.formatHandshakeInitiation ephemeralPrivate stampNow now dstLen).1, ())
  | .receiveHandshakeInitialization packet ephemeralPrivate dstLen =>
    (h.receiveHandshakeInitialization packet ephemeralPrivate dstLen).map fun r => (r.1, ())
  | .receiveHandshakeResponse packet now => some ((h.receiveHandshakeResponse packet now).1, ())
  | .receiveCookieReply packet => some ((h.receiveCookieReply packet).1, ())
  | .setStaticPrivate privateKey publicKey =>
    (h.setStaticPrivate privateKey publicKey).map fun h' => (h', ())
  | .setExpired => some (h.setExpired, ())
  | .clearCookie => some (h.clearCookie, ())

/-- What a call can do to the index and the two slots. -/
inductive Effect (h h' : Handshake C) : Prop
  | same (hnext : h'.nextIndex = h.nextIndex) (hprevious : h'.previous = h.previous)
      (hstate : h'.state = h.state)
  | sent (s : HandshakeInitSentState) (hidx : s.localIndex = incIndex h.nextIndex)
      (hnext : h'.nextIndex = incIndex h.nextIndex) (hprevious : h'.previous = h.state)
      (hstate : h'.state = .initSent s)
  | received (hnext : h'.nextIndex = h.nextIndex ∨ h'.nextIndex = incIndex h.nextIndex)
      (hprevious : h'.previous = h.state) (hstate : ∀ s, h'.state ≠ .initSent s)
  | takenState (hnext : h'.nextIndex = h.nextIndex) (hprevious : h'.previous = h.previous)
      (hstate : h'.state = .none)
  | takenPrevious (hnext : h'.nextIndex = h.nextIndex) (hprevious : h'.previous = .none)
      (hstate : h'.state = h.state)
  | expired (hnext : h'.nextIndex = h.nextIndex) (hprevious : h'.previous = .expired)
      (hstate : h'.state = .expired)

theorem effect_formatHandshakeInitiation :
    Effect h (h.formatHandshakeInitiation ephemeralPrivate stampNow now dstLen).1 := by
  rcases lt_or_ge dstLen handshakeInitSz with hd | hd
  · rw [formatHandshakeInitiation_small hd]
    exact .same rfl rfl rfl
  · obtain ⟨cookies, macs, heq⟩ := formatHandshakeInitiation_ok h ephemeralPrivate stampNow now hd
    rw [heq]
    exact .sent _ rfl rfl rfl rfl

theorem effect_receiveHandshakeInitialization {r : Except WireGuardError (List UInt8 × Session)}
    (hr : h.receiveHandshakeInitialization packet ephemeralPrivate dstLen = some (h', r)) :
    Effect h h' := by
  obtain ⟨e, heq⟩ | ⟨timestamp, chainingKey, hash, -, ⟨-, heq⟩ | ⟨cookies, macs, -, heq⟩⟩ :=
    receiveHandshakeInitialization_cases h packet ephemeralPrivate dstLen
  · rw [heq] at hr
    cases hr
    exact .same rfl rfl rfl
  · rw [heq] at hr
    cases hr
    exact .received (Or.inl rfl) rfl (by simp)
  · rw [heq] at hr
    cases hr
    exact .received (Or.inr rfl) rfl (by simp)

theorem effect_receiveHandshakeResponse (packet : HandshakeResponse) :
    Effect h (h.receiveHandshakeResponse packet now).1 := by
  obtain ⟨e, heq⟩ | ⟨s, isPrevious, temp2, temp3, rtt, -, -, heq⟩ :=
    receiveHandshakeResponse_cases h packet now
  · rw [heq]
    exact .same rfl rfl rfl
  · rw [heq]
    cases isPrevious
    · exact .takenState rfl rfl rfl
    · exact .takenPrevious rfl rfl rfl

/-- **Every call has one of these effects.** -/
theorem step_effect {c : Call} {u : Unit} (hstep : step h c = some (h', u)) : Effect h h' := by
  cases c with
  | formatHandshakeInitiation ephemeralPrivate stampNow now dstLen =>
    cases hstep
    exact effect_formatHandshakeInitiation
  | receiveHandshakeInitialization packet ephemeralPrivate dstLen =>
    obtain ⟨⟨h₁, r⟩, hr, heq⟩ := Option.map_eq_some_iff.mp hstep
    cases heq
    exact effect_receiveHandshakeInitialization hr
  | receiveHandshakeResponse packet now =>
    cases hstep
    exact effect_receiveHandshakeResponse packet
  | receiveCookieReply packet =>
    cases hstep
    obtain ⟨e, heq⟩ | ⟨cookies, heq⟩ := receiveCookieReply_cases h packet
    · rw [heq]
      exact .same rfl rfl rfl
    · rw [heq]
      exact .same rfl rfl rfl
  | setStaticPrivate privateKey publicKey =>
    obtain ⟨h₁, hr, heq⟩ := Option.map_eq_some_iff.mp hstep
    obtain ⟨params, -, rfl⟩ := Option.map_eq_some_iff.mp hr
    cases heq
    exact .same rfl rfl rfl
  | setExpired =>
    cases hstep
    exact .expired rfl rfl rfl
  | clearCookie =>
    cases hstep
    exact .same rfl rfl rfl

/-- While `s` is the newest initiation its index is the current one, and once it is the previous
one no other initiation in progress shares its index. -/
structure Distinguishes (s : HandshakeInitSentState) (h : Handshake C) : Prop where
  index_eq : h.state = .initSent s → h.nextIndex = s.localIndex
  index_ne : h.previous = .initSent s →
    ∀ s', h.state = .initSent s' → s' = s ∨ s'.localIndex ≠ s.localIndex

theorem Distinguishes.effect {s : HandshakeInitSentState} (hs : Distinguishes s h)
    (he : Effect h h') : Distinguishes s h' := by
  cases he with
  | same hnext hprevious hstate =>
    exact ⟨by rw [hnext, hstate]; exact hs.index_eq, by rw [hprevious, hstate]; exact hs.index_ne⟩
  | sent s₁ hidx hnext hprevious hstate =>
    refine ⟨fun h₁ => ?_, fun h₁ s' h₂ => ?_⟩
    · obtain rfl : s₁ = s := by simpa [hstate] using h₁
      rw [hnext, hidx]
    · obtain rfl : s₁ = s' := by simpa [hstate] using h₂
      rw [hprevious] at h₁
      right
      rw [hidx, hs.index_eq h₁]
      exact incIndex_ne _
  | received hnext hprevious hstate =>
    exact ⟨fun h₁ => absurd h₁ (hstate s), fun _ s' h₂ => absurd h₂ (hstate s')⟩
  | takenState hnext hprevious hstate =>
    exact ⟨fun h₁ => by simp [hstate] at h₁, fun _ s' h₂ => by simp [hstate] at h₂⟩
  | takenPrevious hnext hprevious hstate =>
    exact ⟨by rw [hnext, hstate]; exact hs.index_eq, fun h₁ => by simp [hprevious] at h₁⟩
  | expired hnext hprevious hstate =>
    exact ⟨fun h₁ => by simp [hstate] at h₁, fun h₁ => by simp [hprevious] at h₁⟩

/-- The initiation is found under its index as long as it is in one of the two slots. -/
theorem Distinguishes.awaiting {s : HandshakeInitSentState} (hs : Distinguishes s h)
    (hin : h.state = .initSent s ∨ h.previous = .initSent s) :
    ∃ isPrevious, h.awaiting s.localIndex = some (s, isPrevious) := by
  rw [Handshake.awaiting]
  rcases hin with hstate | hprevious
  · exact ⟨false, by simp [hstate]⟩
  · rcases hstate : h.state with _ | s' | _ | _
    · exact ⟨true, by simp [hprevious]⟩
    · rcases hs.index_ne hprevious s' hstate with rfl | hne
      · exact ⟨false, by simp⟩
      · exact ⟨true, by simp [hne, hprevious]⟩
    · exact ⟨true, by simp [hprevious]⟩
    · exact ⟨true, by simp [hprevious]⟩

end Handshake

end NekoLink.Noise
