import NekoLink.Foundations.Runs
import NekoLink.Noise.Rejection

/-!
# Cookie replies

A party under load answers a handshake message by a cookie, sealed under a key of its public key for
the first MAC of the message. The sender of the message opens it, and puts a second MAC under the
cookie to the messages that follow.

* `cookieReply_eq`: what a cookie reply is made of.
* `verifyPacket_message`: the limiter on a message with its two MACs.
* `visit_macs`: what a call does to what the tunnel remembers of its last message.
* `cookie_round_trip`: the cookie comes back.
-/

namespace NekoLink.Noise

open Wire

variable {C : Prims}

/-! ## Messages with their MACs -/

/-- A handshake message up to its MACs. -/
def Packet.body : Packet → List UInt8
  | .handshakeInit p => p.bytes
  | .handshakeResponse p => p.bytes
  | .packetCookieReply p => p.bytes
  | .packetData p => p.bytes

/-- A handshake message with its MACs. -/
def Packet.message (p : Packet) (mac1 mac2 : Bytes 16) : List UInt8 :=
  p.body ++ (mac1 ++ mac2 : Bytes 32).toList

/-- The first MAC of a handshake message. -/
def mac1Of (src : List UInt8) : List UInt8 := slice src (src.length - 32) (src.length - 16)

/-- The packet that a tunnel sends, when it is a handshake message. -/
def handshakeMessage : TunnResult → Option (List UInt8)
  | .writeToNetwork packet =>
    match parseIncomingPacket packet with
    | .ok p => p.handshakeSender.map fun _ => packet
    | .error _ => none
  | _ => none

section Message

variable {p : Packet} {idx : UInt32} {mac1 mac2 : Bytes 16} {src packet : List UInt8}

theorem parseIncomingPacket_message (h : p.handshakeSender = some idx) (mac1 mac2 : Bytes 16) :
    parseIncomingPacket (p.message mac1 mac2) = .ok p := by
  cases p with
  | handshakeInit p => exact parseIncomingPacket_handshakeInit p _
  | handshakeResponse p => exact parseIncomingPacket_handshakeResponse p _
  | packetCookieReply | packetData => cases h

theorem length_message (p : Packet) (mac1 mac2 : Bytes 16) :
    (p.message mac1 mac2).length = p.body.length + 32 := by
  rw [Packet.message, List.length_append, List.Vector.toList_length]

theorem take_message (p : Packet) (mac1 mac2 : Bytes 16) :
    (p.message mac1 mac2).take ((p.message mac1 mac2).length - 32) = p.body := by
  rw [length_message, Nat.add_sub_cancel, Packet.message, List.take_left]

theorem mac1Of_message (p : Packet) (mac1 mac2 : Bytes 16) :
    mac1Of (p.message mac1 mac2) = mac1.toList := by
  rw [mac1Of, length_message, Nat.add_sub_cancel, Packet.message,
    slice_append_right le_rfl, Nat.sub_self, List.Vector.toList_append]
  exact slice_append_zero (by rw [List.Vector.toList_length]; omega)

theorem drop_message (p : Packet) (mac1 mac2 : Bytes 16) :
    (p.message mac1 mac2).drop ((p.message mac1 mac2).length - 16) = mac2.toList := by
  have hlen : (p.message mac1 mac2).length - 16 = (p.body ++ mac1.toList).length := by
    rw [length_message, List.length_append, List.Vector.toList_length]
    omega
  rw [hlen, Packet.message, List.Vector.toList_append, ← List.append_assoc, List.drop_left]

/-- The sender of a handshake message is where its index is. -/
theorem u32At_of_parse (hparse : parseIncomingPacket src = .ok p)
    (h : p.handshakeSender = some idx) : u32At src 4 = idx := by
  rw [parseIncomingPacket] at hparse
  dsimp only at hparse
  split_ifs at hparse <;> cases hparse <;> cases h <;> rfl

/-- A handshake message is long enough for its MACs. -/
theorem length_of_parse (hparse : parseIncomingPacket src = .ok p)
    (h : p.handshakeSender = some idx) : 32 ≤ src.length := by
  rw [parseIncomingPacket] at hparse
  dsimp only at hparse
  split_ifs at hparse with hshort hinit hresp
  · rw [hinit.2]
    decide
  · rw [hresp.2]
    decide
  · cases hparse
    cases h
  · cases hparse
    cases h

theorem exists_mac1Of (hparse : parseIncomingPacket src = .ok p)
    (h : p.handshakeSender = some idx) : ∃ mac1 : Bytes 16, mac1.toList = mac1Of src := by
  have hlen := length_of_parse hparse h
  refine ⟨⟨mac1Of src, ?_⟩, rfl⟩
  rw [mac1Of, length_slice (by omega)]
  omega

theorem handshakeMessage_message (h : p.handshakeSender = some idx) (mac1 mac2 : Bytes 16) :
    handshakeMessage (.writeToNetwork (p.message mac1 mac2)) = some (p.message mac1 mac2) := by
  rw [handshakeMessage, parseIncomingPacket_message h]
  dsimp only
  rw [h, Option.map_some]

theorem handshakeMessage_of_ne {r : TunnResult} (h : ∀ packet, r ≠ .writeToNetwork packet) :
    handshakeMessage r = none := by
  cases r with
  | writeToNetwork packet => exact absurd rfl (h packet)
  | done | err | writeToTunnelV4 | writeToTunnelV6 => rfl

theorem handshakeMessage_cookieReply (reply : PacketCookieReply) :
    handshakeMessage (.writeToNetwork reply.bytes) = none := by
  rw [handshakeMessage, parseIncomingPacket_cookieReply]
  rfl

/-- Data packets are no handshake messages, whatever their counters. -/
theorem handshakeMessage_data (p : PacketData) :
    handshakeMessage (.writeToNetwork p.bytes) = none := by
  have htype : (u32At p.bytes 0).toNat = dataType := by
    rw [PacketData.bytes, u32At_zero_type (by decide)]
  rw [handshakeMessage, parseIncomingPacket]
  split_ifs with hshort
  · rfl
  · rw [dif_neg (not_type htype (by decide)), dif_neg (not_type htype (by decide)),
      dif_neg (not_type htype (by decide))]
    split_ifs <;> rfl

end Message

/-! ## The limiter -/

namespace RateLimiter

/-- A rate limiter that has been used: its keys and its clock are the same. -/
structure Same (r r' : RateLimiter) : Prop where
  nonceKey : r'.nonceKey = r.nonceKey
  secretKey : r'.secretKey = r.secretKey
  startTime : r'.startTime = r.startTime
  mac1Key : r'.mac1Key = r.mac1Key
  cookieKey : r'.cookieKey = r.cookieKey
  limit : r'.limit = r.limit

/-- The period of a cookie. -/
def epoch (r : RateLimiter) (now : ℕ) : ℕ := (now - r.startTime) / 10 ^ 9 / cookieRefresh

variable {r r' r'' : RateLimiter} {a : IpAddr} {src reply : List UInt8} {dstLen now now' : ℕ}
  {p : Packet} {idx : UInt32}

theorem Same.refl (r : RateLimiter) : Same r r := ⟨rfl, rfl, rfl, rfl, rfl, rfl⟩

theorem Same.trans (h : Same r r') (h' : Same r' r'') : Same r r'' where
  nonceKey := h'.nonceKey.trans h.nonceKey
  secretKey := h'.secretKey.trans h.secretKey
  startTime := h'.startTime.trans h.startTime
  mac1Key := h'.mac1Key.trans h.mac1Key
  cookieKey := h'.cookieKey.trans h.cookieKey
  limit := h'.limit.trans h.limit

/-- In one period an address has one cookie. -/
theorem Same.currentCookie_eq (h : Same r r') (hepoch : r.epoch now' = r.epoch now) :
    r'.currentCookie C a now' = r.currentCookie C a now := by
  rw [epoch, epoch] at hepoch
  simp only [currentCookie, h.secretKey, h.startTime, hepoch]

theorem same_isUnderLoad (r : RateLimiter) : Same r r.isUnderLoad.1 :=
  ⟨rfl, rfl, rfl, rfl, rfl, rfl⟩

theorem same_formatCookieReply (r : RateLimiter) (idx : UInt32) (cookie : Bytes 16)
    (mac1 : List UInt8) (dstLen : ℕ) : Same r (r.formatCookieReply C idx cookie mac1 dstLen).1 := by
  rw [formatCookieReply]
  split_ifs
  · exact .refl r
  · exact ⟨rfl, rfl, rfl, rfl, rfl, rfl⟩

/-- The calls of the handlers and of the timer. -/
inductive Call
  | verifyPacket (srcAddr : Option IpAddr) (src : List UInt8) (dstLen now : ℕ)
  | resetCount (now : ℕ)

/-- One call and the limiter after it. -/
def step (C : Prims) (r : RateLimiter) : Call → Option (RateLimiter × Unit)
  | .verifyPacket srcAddr src dstLen now => some ((r.verifyPacket C srcAddr src dstLen now).1, ())
  | .resetCount now => some (r.resetCount now, ())

theorem same_verifyPacket (r : RateLimiter) (srcAddr : Option IpAddr) (src : List UInt8)
    (dstLen now : ℕ) : Same r (r.verifyPacket C srcAddr src dstLen now).1 := by
  have hload := same_isUnderLoad r
  rw [verifyPacket]
  split
  · exact .refl r
  · split
    · exact .refl r
    · dsimp only
      split_ifs
      · exact .refl r
      · split
        · exact hload
        · split_ifs
          · split
            · next heq =>
              have hreply := congrArg Prod.fst heq
              exact hload.trans (hreply ▸ same_formatCookieReply ..)
            · next heq =>
              have hreply := congrArg Prod.fst heq
              exact hload.trans (hreply ▸ same_formatCookieReply ..)
          · exact hload
      · exact hload

theorem same_resetCount (r : RateLimiter) (now : ℕ) : Same r (r.resetCount now) := by
  rw [resetCount]
  split_ifs
  · exact ⟨rfl, rfl, rfl, rfl, rfl, rfl⟩
  · exact .refl r

/-- A limiter keeps its keys and its clock. -/
theorem same_of_reaches {Q : RateLimiter → Call → Prop}
    (h : Machine.Reaches (step C) Q r r') : Same r r' := by
  refine Machine.Reaches.invariant (I := fun r' => Same r r') h (.refl r) ?_
  rintro r₁ (⟨srcAddr, src, dstLen, now⟩ | now) r₂ ⟨⟩ hsame - hstep
  · cases hstep
    exact hsame.trans (same_verifyPacket ..)
  · cases hstep
    exact hsame.trans (same_resetCount ..)

/-- **A cookie reply** is for the index of the message that it answers, and the cookie in it is
sealed for the first MAC of the message. -/
theorem cookieReply_eq
    (h : r.verifyPacket C (some a) src dstLen now = (r', .error (.writeToNetwork reply))) :
    ∃ p idx nonce, parseIncomingPacket src = .ok p ∧ p.handshakeSender = some idx ∧
      reply = PacketCookieReply.bytes ⟨idx, nonce,
        C.xaeadSeal r.cookieKey nonce (mac1Of src) (r.currentCookie C a now)⟩ := by
  rw [verifyPacket] at h
  rcases hparse : parseIncomingPacket src with e | p
  · rw [hparse] at h
    cases h
  · rw [hparse] at h
    dsimp only at h
    rcases hsender : p.handshakeSender with _ | idx
    · rw [hsender] at h
      cases h
    · rw [hsender] at h
      have hsame := same_isUnderLoad r
      rcases r.isUnderLoad with ⟨r₁, underLoad⟩
      rw [← hsame.cookieKey, ← hsame.currentCookie_eq rfl]
      dsimp only at h
      generalize r₁.currentCookie C a now = cookie at h ⊢
      split_ifs at h
      · cases h
      · rw [formatCookieReply] at h
        by_cases hd : dstLen < cookieReplySz
        · rw [if_pos hd] at h
          cases h
        · rw [if_neg hd] at h
          cases h
          exact ⟨p, idx, _, rfl, hsender, rfl⟩
      · cases h
      · cases h

/-- **The limiter on a message** whose MACs are under its own key and under the cookie of the
address: it passes under any load. -/
theorem verifyPacket_message (hsender : p.handshakeSender = some idx) {mac1 : Bytes 16}
    (hmac1 : mac1 = b2sKeyedMac16 C r.mac1Key.toList p.body) (a : IpAddr) (dstLen now : ℕ) :
    ∃ r', r.verifyPacket C (some a) (p.message mac1
      (b2sKeyedMac16 C (r.currentCookie C a now).toList (p.body ++ mac1.toList))) dstLen now =
        (r', .ok p) := by
  generalize hmac2 :
    b2sKeyedMac16 C (r.currentCookie C a now).toList (p.body ++ mac1.toList) = mac2
  have hmac := mac1Of_message p mac1 mac2
  rw [mac1Of] at hmac
  simp only [verifyPacket, parseIncomingPacket_message hsender, hsender, take_message,
    drop_message, hmac, isUnderLoad, decide_eq_true_eq]
  rw [if_neg (by rw [hmac1, not_not])]
  split_ifs with hload hwrong
  · refine absurd ?_ hwrong
    rw [← hmac2]
    rfl
  · exact ⟨_, rfl⟩
  · exact ⟨_, rfl⟩

end RateLimiter

/-! ## What a tunnel remembers of its last message -/

namespace Handshake

variable {h h' h'' : Handshake C} {p : Packet} {idx : UInt32} {mac1 : Bytes 16} {r : TunnResult}
  {packet : List UInt8}

/-- The index and the first MAC are those of the message. -/
structure Remembers (h : Handshake C) (p : Packet) (mac1 : Bytes 16) : Prop where
  sender : p.handshakeSender = some h.cookies.index
  lastMac1 : h.cookies.lastMac1 = some mac1
  mac1_eq : mac1 = b2sKeyedMac16 C h.params.sendingMac1Key.toList p.body

/-- The second MAC of a message. -/
def mac2 (h : Handshake C) (p : Packet) (mac1 : Bytes 16) : Bytes 16 :=
  match h.cookies.writeCookie with
  | some cookie => b2sKeyedMac16 C cookie.toList (p.body ++ mac1.toList)
  | none => zeros 16

/-- The peer is the same, and so is what is remembered of the last message. -/
structure Keeps (h h' : Handshake C) : Prop where
  peer : h'.params.peerStaticPublic = h.params.peerStaticPublic
  index : h'.cookies.index = h.cookies.index
  lastMac1 : h'.cookies.lastMac1 = h.cookies.lastMac1

/-- No handshake message is sent, or one is sent and remembered. -/
inductive MacStep (h h' : Handshake C) (r : TunnResult) : Prop
  | kept (hkeeps : Keeps h h') (hr : handshakeMessage r = none)
  | sent (hpeer : h'.params.peerStaticPublic = h.params.peerStaticPublic) (p : Packet)
      (mac1 : Bytes 16) (hremembers : h'.Remembers p mac1)
      (hr : r = .writeToNetwork (p.message mac1 (h'.mac2 p mac1)))

theorem Keeps.refl (h : Handshake C) : Keeps h h := ⟨rfl, rfl, rfl⟩

theorem Keeps.trans (hk : Keeps h h') (hk' : Keeps h' h'') : Keeps h h'' where
  peer := hk'.peer.trans hk.peer
  index := hk'.index.trans hk.index
  lastMac1 := hk'.lastMac1.trans hk.lastMac1

theorem Keeps.remembers (hk : Keeps h h') (hr : h.Remembers p mac1) : h'.Remembers p mac1 where
  sender := by rw [hk.index, hr.sender]
  lastMac1 := hk.lastMac1.trans hr.lastMac1
  mac1_eq := by
    rw [hr.mac1_eq, h.params.sending_mac1_key_eq, h'.params.sending_mac1_key_eq, hk.peer]

/-- What comes before a step and keeps what is remembered. -/
theorem MacStep.head (hk : Keeps h h') (hs : MacStep h' h'' r) : MacStep h h'' r := by
  cases hs with
  | kept hk' hr => exact .kept (hk.trans hk') hr
  | sent hpeer p mac1 hremembers hr => exact .sent (hpeer.trans hk.peer) p mac1 hremembers hr

theorem MacStep.peer (hs : MacStep h h' r) :
    h'.params.peerStaticPublic = h.params.peerStaticPublic := by
  cases hs with
  | kept hk hr => exact hk.peer
  | sent hpeer => exact hpeer

/-- The MACs of a message are appended. -/
theorem macStep_append (hp : p.handshakeSender = some idx)
    (hpeer : h'.params.peerStaticPublic = h.params.peerStaticPublic) :
    MacStep h (h'.appendMac1AndMac2 idx p.body).1
      (.writeToNetwork (h'.appendMac1AndMac2 idx p.body).2) :=
  .sent hpeer p _ ⟨hp, rfl, rfl⟩ rfl

theorem macStep_formatHandshakeInitiation {ephemeralPrivate : Bytes 32} {stampNow now dstLen : ℕ}
    {result : Except WireGuardError (List UInt8)}
    (hf : h.formatHandshakeInitiation ephemeralPrivate stampNow now dstLen = (h', result)) :
    (∃ packet, result = .ok packet ∧ MacStep h h' (.writeToNetwork packet)) ∨
      h' = h ∧ ∃ e, result = .error e := by
  rw [formatHandshakeInitiation] at hf
  split_ifs at hf
  · cases hf
    exact Or.inr ⟨rfl, _, rfl⟩
  · cases hf
    refine Or.inl ⟨_, rfl, ?_⟩
    exact macStep_append (p := .handshakeInit (sealInitiation ..).1) rfl rfl

theorem macStep_receiveHandshakeInitialization {packet : HandshakeInit}
    {ephemeralPrivate : Bytes 32} {dstLen : ℕ}
    {result : Except WireGuardError (List UInt8 × Session)}
    (hf : h.receiveHandshakeInitialization packet ephemeralPrivate dstLen = some (h', result)) :
    (∃ response session, result = .ok (response, session) ∧
        MacStep h h' (.writeToNetwork response)) ∨
      Keeps h h' ∧ ∃ e, result = .error e := by
  by_cases ha : ∃ timestamp chainingKey hash, h.Accepts packet timestamp chainingKey hash
  · -- the authentication codes matter here, which the cases of the call leave open
    obtain ⟨timestamp, chainingKey, hash, ha⟩ := ha
    rw [receiveHandshakeInitialization_of_accepts ha, formatHandshakeResponse] at hf
    split_ifs at hf
    · cases hf
      exact Or.inr ⟨⟨rfl, rfl, rfl⟩, _, rfl⟩
    · cases hf
      refine Or.inl ⟨_, _, rfl, ?_⟩
      exact macStep_append (p := .handshakeResponse (sealResponse ..).1) rfl rfl
  · obtain ⟨e, herr⟩ := receiveHandshakeInitialization_not ephemeralPrivate dstLen
      (fun timestamp chainingKey hash hacc => ha ⟨timestamp, chainingKey, hash, hacc⟩)
    rw [herr] at hf
    cases hf
    exact Or.inr ⟨.refl h, e, rfl⟩

theorem keeps_receiveHandshakeResponse (h : Handshake C) (packet : HandshakeResponse) (now : ℕ) :
    Keeps h (h.receiveHandshakeResponse packet now).1 := by
  obtain ⟨e, herr⟩ | ⟨s, isPrevious, temp2, temp3, rtt, -, -, hok⟩ :=
    receiveHandshakeResponse_cases h packet now
  · rw [herr]
    exact .refl h
  · rw [hok]
    exact ⟨rfl, rfl, rfl⟩

theorem keeps_receiveCookieReply (h : Handshake C) (packet : PacketCookieReply) :
    Keeps h (h.receiveCookieReply packet).1 := by
  rw [receiveCookieReply]
  split
  · exact .refl h
  · split_ifs
    · exact .refl h
    · dsimp only
      split
      · exact .refl h
      · exact ⟨rfl, rfl, rfl⟩

end Handshake

namespace Tunn

open Handshake

variable {t t' : Tunn C} {env : Env} {dstLen : ℕ} {r : TunnResult}

theorem handshakeMessage_dataPacket {s s' : Session} {src packet : List UInt8}
    (h : s.formatPacketData C src dstLen = some (s', packet)) :
    handshakeMessage (.writeToNetwork packet) = none := by
  obtain ⟨-, rfl⟩ := Session.formatPacketData_eq_some h
  exact handshakeMessage_data _

theorem handshake_setCurrentSession (t : Tunn C) (newIdx : ℕ) :
    (t.setCurrentSession newIdx).handshake = t.handshake :=
  congrArg Core.handshake (core_setCurrentSession t newIdx)

theorem macStep_formatHandshakeInitiation {force : Bool}
    (h : t.formatHandshakeInitiation env dstLen force = (t', r)) :
    MacStep t.handshake t'.handshake r := by
  obtain ⟨-, heq⟩ | ⟨-, ⟨-, heq⟩ | ⟨handshake, packet, -, hformat, heq⟩⟩ :=
    t.formatHandshakeInitiation_spec env dstLen force
  · obtain ⟨rfl, rfl⟩ := Prod.mk.inj (heq.symm.trans h)
    exact .kept (.refl _) rfl
  · obtain ⟨rfl, rfl⟩ := Prod.mk.inj (heq.symm.trans h)
    rw [handshake_restarted]
    exact .kept (.refl _) rfl
  · obtain ⟨rfl, rfl⟩ := Prod.mk.inj (heq.symm.trans h)
    rw [handshake_initiated]
    obtain ⟨packet', hpacket, hstep⟩ | ⟨-, e, herr⟩ :=
      Handshake.macStep_formatHandshakeInitiation hformat
    · cases hpacket
      exact hstep
    · cases herr

theorem macStep_encapsulate {src : List UInt8} (h : t.encapsulate env src dstLen = some (t', r)) :
    MacStep t.handshake t'.handshake r := by
  rw [encapsulate] at h
  split at h
  · obtain ⟨⟨s, packet⟩, hformat, heq⟩ := Option.map_eq_some_iff.mp h
    have hr := handshakeMessage_dataPacket hformat
    dsimp only at heq
    split_ifs at heq <;> cases heq <;> exact .kept (.refl _) hr
  · have hstep := macStep_formatHandshakeInitiation (Option.some.inj h)
    rwa [handshake_queuePacket] at hstep

theorem macStep_sendQueuedPacket (h : t.sendQueuedPacket env dstLen = some (t', r)) :
    MacStep t.handshake t'.handshake r := by
  rw [sendQueuedPacket] at h
  split at h
  · cases h
    exact .kept (.refl _) rfl
  · obtain ⟨⟨t₁, r₁⟩, hencap, heq⟩ := Option.map_eq_some_iff.mp h
    have hstep := macStep_encapsulate hencap
    cases r₁ with
    | err e =>
      cases heq
      have hrequeue : ∀ packet, (t₁.requeuePacket packet).handshake = t₁.handshake :=
        fun packet => congrArg Core.handshake (core_requeuePacket t₁ packet)
      rw [hrequeue]
      cases hstep with
      | kept hkeeps hr => exact .kept hkeeps rfl
      | sent hpeer p mac1 hremembers hr => cases hr
    | done | writeToNetwork | writeToTunnelV4 | writeToTunnelV6 =>
      cases heq
      exact hstep

theorem macStep_handleHandshakeInit {p : HandshakeInit}
    (h : t.handleHandshakeInit env p dstLen = some (t', r)) :
    MacStep t.handshake t'.handshake r := by
  obtain ⟨⟨handshake, result⟩, hreceive, heq⟩ := Option.map_eq_some_iff.mp h
  obtain ⟨response, session, rfl, hstep⟩ | ⟨hkeeps, e, rfl⟩ :=
    macStep_receiveHandshakeInitialization hreceive
  · cases heq
    exact hstep
  · cases heq
    exact .kept hkeeps rfl

theorem macStep_handleHandshakeResponse {p : HandshakeResponse}
    (h : t.handleHandshakeResponse env p dstLen = some (t', r)) :
    MacStep t.handshake t'.handshake r := by
  have hkeeps := keeps_receiveHandshakeResponse t.handshake p env.rtt
  rw [handleHandshakeResponse] at h
  split at h
  · next heq =>
    cases h
    rw [heq] at hkeeps
    exact .kept hkeeps rfl
  · next heq =>
    obtain ⟨⟨s, packet⟩, hformat, heq'⟩ := Option.map_eq_some_iff.mp h
    rw [heq] at hkeeps
    have hr := handshakeMessage_dataPacket hformat
    cases heq'
    rw [handshake_setCurrentSession]
    exact .kept hkeeps hr

theorem macStep_handleCookieReply (t : Tunn C) (p : PacketCookieReply) :
    MacStep t.handshake (t.handleCookieReply p).1.handshake (t.handleCookieReply p).2 := by
  have hkeeps := keeps_receiveCookieReply t.handshake p
  rw [handleCookieReply]
  split
  · next heq =>
    rw [heq] at hkeeps
    exact .kept hkeeps rfl
  · next heq =>
    rw [heq] at hkeeps
    exact .kept hkeeps rfl

theorem macStep_handleData {p : PacketData} (h : t.handleData p dstLen = some (t', r)) :
    MacStep t.handshake t'.handshake r := by
  obtain ⟨rfl, e, rfl, -⟩ | ⟨s, s', ret, -, -, -, rfl, hcore⟩ := handleData_cases h
  · exact .kept (.refl _) rfl
  · have hhandshake : t'.handshake = t.handshake := by
      refine (congrArg Core.handshake hcore).trans ?_
      exact handshake_setCurrentSession _ _
    rw [hhandshake]
    exact .kept (.refl _) (handshakeMessage_of_ne (delivered_ne_writeToNetwork ret))

theorem macStep_handleVerifiedPacket {packet : Packet}
    (h : t.handleVerifiedPacket env packet dstLen = some (t', r)) :
    MacStep t.handshake t'.handshake r := by
  cases packet with
  | handshakeInit p => exact macStep_handleHandshakeInit h
  | handshakeResponse p => exact macStep_handleHandshakeResponse h
  | packetCookieReply p =>
    have hstep := macStep_handleCookieReply t p
    rwa [Option.some.inj h] at hstep
  | packetData p => exact macStep_handleData h

theorem macStep_decapsulate {srcAddr : Option IpAddr} {datagram : List UInt8}
    (h : t.decapsulate env srcAddr datagram dstLen = some (t', r)) :
    MacStep t.handshake t'.handshake r := by
  rw [decapsulate] at h
  split_ifs at h
  · exact macStep_sendQueuedPacket h
  · split at h
    · have hstep := macStep_handleVerifiedPacket h
      exact hstep
    · next rateLimiter cookie hverify =>
      split_ifs at h
      cases h
      obtain ⟨e, heq⟩ | ⟨reply, heq⟩ := RateLimiter.verifyPacket_eq_error hverify
      · cases heq
      · cases heq
        exact .kept (.refl _) (handshakeMessage_cookieReply reply)
    · cases h
      exact .kept (.refl _) rfl
    · cases h

theorem macStep_retransmit {now timeInitSent : ℕ}
    (h : t.retransmit env now timeInitSent dstLen = some (t', r)) :
    MacStep t.handshake t'.handshake r := by
  obtain ⟨trying, -, ⟨-, hexpire⟩ | ⟨-, -, hformat⟩ | ⟨-, -, rfl, rfl⟩⟩ := retransmit_cases h
  · cases hexpire
    exact .kept ⟨rfl, rfl, rfl⟩ rfl
  · exact macStep_formatHandshakeInitiation hformat
  · exact .kept (.refl _) rfl

theorem macStep_initiateOrKeepalive {now : ℕ}
    (h : t.initiateOrKeepalive env now dstLen = some (t', r)) :
    MacStep t.handshake t'.handshake r := by
  obtain ⟨t₁, hrequired, hformat⟩ | ⟨t₁, t₂, keepalive, hrequired, hkeepalive, h⟩ :=
    initiateOrKeepalive_cases h
  · have h₁ : t₁.handshake = t.handshake :=
      congrArg Core.handshake (core_handshakeInitiationRequired hrequired)
    rw [← h₁]
    exact macStep_formatHandshakeInitiation hformat
  · have h₁ : t₁.handshake = t.handshake :=
      congrArg Core.handshake (core_handshakeInitiationRequired hrequired)
    have h₂ : t₂.handshake = t₁.handshake :=
      congrArg Core.handshake (core_keepaliveRequired hkeepalive)
    rw [← h₁, ← h₂]
    obtain hencap | ⟨rfl, rfl⟩ := h
    · exact macStep_encapsulate hencap
    · exact .kept (.refl _) rfl

theorem macStep_checkTimers {now : ℕ} (h : t.checkTimers env now dstLen = some (t', r)) :
    MacStep t.handshake t'.handshake r := by
  obtain ⟨-, rfl, rfl⟩ | ⟨-, t₁, ht₁, hcases⟩ := checkTimers_cases h
  · exact .kept (.refl _) rfl
  · -- a stale cookie is cleared first
    have hkeeps : Keeps t.handshake t₁.handshake := by
      obtain rfl | rfl := ht₁
      · exact .refl _
      · exact ⟨rfl, rfl, rfl⟩
    refine MacStep.head hkeeps ?_
    obtain hexpire | ⟨timeInitSent, -, hcall⟩ | ⟨-, hcall⟩ := hcases
    · cases hexpire
      exact .kept ⟨rfl, rfl, rfl⟩ rfl
    · exact macStep_retransmit hcall
    · exact macStep_initiateOrKeepalive hcall

theorem macStep_updateTimers (h : t.updateTimers env dstLen = some (t', r)) :
    MacStep t.handshake t'.handshake r := by
  simp only [updateTimers, Option.bind_eq_bind, Option.bind_eq_some_iff] at h
  obtain ⟨t₂, hsessions, h⟩ := h
  have hstep := macStep_checkTimers h
  have h₂ : t₂.handshake = t.handshake := by
    refine (congrArg Core.handshake (updateSessionTimers_eq_some hsessions).2).trans ?_
    dsimp only [core]
    split_ifs <;> rfl
  rwa [h₂] at hstep

/-! ## Runs -/

/-- What is done to a tunnel: the calls of its owner, and a packet that the limiter of the device
has let pass. -/
inductive Visit
  | call (env : Env) (call : Call)
  | verified (env : Env) (packet : Packet) (dstLen : ℕ)

def visit (t : Tunn C) : Visit → Option (Tunn C × TunnResult)
  | .call env call => t.step (env, call)
  | .verified env packet dstLen => t.handleVerifiedPacket env packet dstLen

/-- The handshake message that is sent. -/
def messageOf (t : Tunn C) (v : Visit) : Option (List UInt8) :=
  (t.visit v).bind fun q => handshakeMessage q.2

/-- **What a call does** to what the tunnel remembers of its last message. -/
theorem visit_macs {v : Visit} (h : t.visit v = some (t', r)) :
    MacStep t.handshake t'.handshake r := by
  cases v with
  | verified env packet dstLen => exact macStep_handleVerifiedPacket h
  | call env call =>
    cases call with
    | encapsulate src dstLen => exact macStep_encapsulate h
    | decapsulate srcAddr datagram dstLen => exact macStep_decapsulate h
    | updateTimers dstLen => exact macStep_updateTimers h
    | formatHandshakeInitiation dstLen force =>
      exact macStep_formatHandshakeInitiation (Option.some.inj h)
    | setStaticPrivate staticPrivate staticPublic rateLimiter =>
      obtain ⟨t₁, hrekey, heq⟩ := Option.map_eq_some_iff.mp h
      obtain ⟨handshake, hset, rfl⟩ := Option.map_eq_some_iff.mp hrekey
      obtain ⟨params, hparams, rfl⟩ := Option.map_eq_some_iff.mp hset
      cases heq
      rw [NoiseParams.setStaticPrivate] at hparams
      split_ifs at hparams
      cases hparams
      exact .kept ⟨rfl, rfl, rfl⟩ rfl

/-- The log of a tunnel ends with the message that it remembers. -/
structure Recalls (peerStaticPublic : Bytes 32) (t : Tunn C) (log : List (List UInt8)) : Prop where
  peer : t.handshake.params.peerStaticPublic = peerStaticPublic
  last : ∀ m, log.getLast? = some m →
    ∃ p mac1 mac2, t.handshake.Remembers p mac1 ∧ m = p.message mac1 mac2

theorem Recalls.visit {peerStaticPublic : Bytes 32} {log : List (List UInt8)} {v : Visit}
    (hrecalls : Recalls peerStaticPublic t log) (h : t.visit v = some (t', r)) :
    Recalls peerStaticPublic t' (log ++ (t.messageOf v).toList) := by
  have hmessage : t.messageOf v = handshakeMessage r := by rw [messageOf, h, Option.bind_some]
  have hstep := visit_macs h
  refine ⟨hstep.peer.trans hrecalls.peer, fun m hm => ?_⟩
  rw [hmessage] at hm
  cases hstep with
  | kept hkeeps hr =>
    rw [hr, Option.toList_none, List.append_nil] at hm
    obtain ⟨p, mac1, mac2, hremembers, rfl⟩ := hrecalls.last m hm
    exact ⟨p, mac1, mac2, hkeeps.remembers hremembers, rfl⟩
  | sent hpeer p mac1 hremembers hr =>
    rw [hr, handshakeMessage_message hremembers.sender, Option.toList_some,
      List.getLast?_append, List.getLast?_singleton, Option.some_or] at hm
    exact ⟨p, mac1, _, hremembers, (Option.some.inj hm).symm⟩

theorem recalls_of_reaches {peerStaticPublic : Bytes 32} {t₀ : Tunn C}
    {log₀ log : List (List UInt8)}
    (h : Machine.Reaches (Machine.logged visit messageOf) (fun _ _ => True) (t₀, log₀) (t, log))
    (h₀ : Recalls peerStaticPublic t₀ log₀) : Recalls peerStaticPublic t log := by
  refine Machine.Reaches.invariant (I := fun q => Recalls peerStaticPublic q.1 q.2) h h₀ ?_
  rintro ⟨t₁, log₁⟩ v ⟨t₂, log₂⟩ r hrecalls - hstep
  obtain ⟨hvisit, rfl⟩ := Machine.logged_eq_some.mp hstep
  exact hrecalls.visit hvisit

end Tunn

/-! ## The round trip -/

/-- What is sealed for one MAC does not open for another. -/
def Prims.BindsMac (C : Prims) : Prop :=
  ∀ (key : Bytes 32) (nonce : Bytes 24) (mac1 mac1' cookie cookie' : Bytes 16),
    C.xaeadOpen key nonce mac1'.toList (C.xaeadSeal key nonce mac1.toList cookie) = some cookie' →
    mac1' = mac1

/-- The handshake with a cookie. -/
def Handshake.withCookie (h : Handshake C) (cookie : Bytes 16) : Handshake C :=
  { h with cookies := { h.cookies with writeCookie := some cookie } }

/-- The limiter belongs to the public key. -/
structure RateLimiter.BuiltFrom (C : Prims) (publicKey : Bytes 32) (r : RateLimiter) : Prop where
  mac1Key : r.mac1Key = b2sHash C labelMac1 publicKey.toList
  cookieKey : r.cookieKey = b2sHash C labelCookie publicKey.toList

section RoundTrip

variable {t t' : Tunn C} {peerStaticPublic : Bytes 32} {log : List (List UInt8)}
  {m src reply : List UInt8} {limiter limiter' : RateLimiter} {a : IpAddr} {dstLen now : ℕ}

theorem RateLimiter.BuiltFrom.same (h : limiter.BuiltFrom C peerStaticPublic)
    (hsame : limiter.Same limiter') : limiter'.BuiltFrom C peerStaticPublic :=
  ⟨hsame.mac1Key.trans h.mac1Key, hsame.cookieKey.trans h.cookieKey⟩

/-- The cookie in the reply to the last message is taken. -/
theorem receiveCookieReply_of_reply [C.Lawful] (hrecalls : t.Recalls peerStaticPublic log)
    (hlast : log.getLast? = some m) (hbuilt : limiter.BuiltFrom C peerStaticPublic)
    (h : limiter.verifyPacket C (some a) m dstLen now =
      (limiter', .error (.writeToNetwork reply))) :
    ∃ packet, parseIncomingPacket reply = .ok (.packetCookieReply packet) ∧
      t.handshake.receiveCookieReply packet =
        (t.handshake.withCookie (limiter.currentCookie C a now), .ok ()) := by
  obtain ⟨p, mac1, mac2, hremembers, rfl⟩ := hrecalls.last m hlast
  obtain ⟨p', idx, nonce, hparse, hsender, rfl⟩ := RateLimiter.cookieReply_eq h
  rw [parseIncomingPacket_message hremembers.sender] at hparse
  cases hparse
  obtain rfl : idx = t.handshake.cookies.index :=
    Option.some.inj (hsender.symm.trans hremembers.sender)
  refine ⟨_, parseIncomingPacket_cookieReply _, ?_⟩
  rw [Handshake.receiveCookieReply, hremembers.lastMac1]
  dsimp only
  rw [if_neg (not_not.mpr rfl), mac1Of_message, hrecalls.peer, hbuilt.cookieKey,
    Prims.Lawful.xopen_xseal]
  rfl

/-- A cookie reply for another message is refused. -/
theorem handleCookieReply_of_other (hbinds : C.BindsMac) (hrecalls : t.Recalls peerStaticPublic log)
    (hlast : log.getLast? = some m) (hbuilt : limiter.BuiltFrom C peerStaticPublic)
    (h : limiter.verifyPacket C (some a) src dstLen now =
      (limiter', .error (.writeToNetwork reply)))
    (hother : mac1Of src ≠ mac1Of m ∨ u32At src 4 ≠ u32At m 4) :
    ∃ packet e, parseIncomingPacket reply = .ok (.packetCookieReply packet) ∧
      t.handleCookieReply packet = (t, .err e) := by
  obtain ⟨p, mac1, mac2, hremembers, rfl⟩ := hrecalls.last m hlast
  obtain ⟨p', idx, nonce, hparse, hsender, rfl⟩ := RateLimiter.cookieReply_eq h
  rw [mac1Of_message, u32At_of_parse hparse hsender,
    u32At_of_parse (parseIncomingPacket_message hremembers.sender mac1 mac2) hremembers.sender]
    at hother
  have hrefused : ∃ e, t.handshake.receiveCookieReply ⟨idx, nonce,
      C.xaeadSeal limiter.cookieKey nonce (mac1Of src) (limiter.currentCookie C a now)⟩ =
        (t.handshake, .error e) := by
    rw [Handshake.receiveCookieReply, hremembers.lastMac1]
    dsimp only
    by_cases hidx : idx = t.handshake.cookies.index
    · rw [if_neg (not_not.mpr hidx), hrecalls.peer, ← hbuilt.cookieKey]
      obtain ⟨mac1', hmac1'⟩ := exists_mac1Of hparse hsender
      have hne : mac1 ≠ mac1' := by
        rintro rfl
        exact hother.elim (fun hmac => hmac hmac1'.symm) fun hne => hne hidx
      rw [← hmac1']
      rcases hopen : C.xaeadOpen limiter.cookieKey nonce mac1.toList (C.xaeadSeal
        limiter.cookieKey nonce mac1'.toList (limiter.currentCookie C a now)) with _ | cookie
      · exact ⟨_, rfl⟩
      · exact absurd (hbinds _ _ _ _ _ _ hopen) hne
    · rw [if_pos hidx]
      exact ⟨_, rfl⟩
  obtain ⟨e, hrefused⟩ := hrefused
  refine ⟨_, e, parseIncomingPacket_cookieReply _, ?_⟩
  rw [Tunn.handleCookieReply, hrefused]

/-- A message under the cookie passes. -/
theorem verifyPacket_of_cookie {t₁ : Tunn C} {v : Tunn.Visit} {r : TunnResult} {m' : List UInt8}
    (hrecalls : t₁.Recalls peerStaticPublic log) (hvisit : t₁.visit v = some (t', r))
    (hr : handshakeMessage r = some m') (hbuilt : limiter'.BuiltFrom C peerStaticPublic)
    (hcookie : t'.handshake.cookies.writeCookie = some (limiter'.currentCookie C a now)) :
    ∃ limiter'' p, limiter'.verifyPacket C (some a) m' dstLen now = (limiter'', .ok p) := by
  cases Tunn.visit_macs hvisit with
  | kept hkeeps hnone =>
    rw [hr] at hnone
    cases hnone
  | sent hpeer p mac1 hremembers hsent =>
    rw [hsent, handshakeMessage_message hremembers.sender] at hr
    obtain rfl := Option.some.inj hr
    have hmac1 : mac1 = b2sKeyedMac16 C limiter'.mac1Key.toList p.body := by
      rw [hremembers.mac1_eq, t'.handshake.params.sending_mac1_key_eq, hpeer, hrecalls.peer,
        hbuilt.mac1Key]
    obtain ⟨limiter'', hverify⟩ :=
      RateLimiter.verifyPacket_message hremembers.sender hmac1 a dstLen now
    refine ⟨limiter'', p, ?_⟩
    rw [Handshake.mac2, hcookie]
    exact hverify

/-- **The cookie comes back.** A tunnel has run from its creation and sent `m` as its last handshake
message, and a limiter belongs to its peer's public key. A cookie reply of the limiter to `m` is
decoded and taken; and as long as the tunnel has the cookie, each handshake message that it sends
passes the limiter from that address in that period. A cookie reply to a message with another MAC or
index changes nothing. -/
theorem cookie_round_trip [C.Lawful] (hbinds : C.BindsMac)
    {staticPrivate : Bytes 32} {presharedKey : Option (Bytes 32)} {persistentKeepalive : Option ℕ}
    {index : UInt32} {own : Option RateLimiter} {stamper : TimeStamper} {env : Env} {limit : ℕ}
    {seed : LimiterSeed}
    (htunn : Machine.Reaches (Machine.logged Tunn.visit Tunn.messageOf) (fun _ _ => True)
      (Tunn.new C staticPrivate peerStaticPublic presharedKey persistentKeepalive index own stamper
        env, []) (t, log))
    (hlast : log.getLast? = some m)
    (hlimiter : Machine.Reaches (RateLimiter.step C) (fun _ _ => True)
      (RateLimiter.new C peerStaticPublic limit seed) limiter) :
    (∀ a dstLen now limiter₁ reply, limiter.verifyPacket C (some a) m dstLen now =
        (limiter₁, .error (.writeToNetwork reply)) →
      ∃ packet, parseIncomingPacket reply = .ok (.packetCookieReply packet) ∧
        t.handshake.receiveCookieReply packet =
          (t.handshake.withCookie (limiter.currentCookie C a now), .ok ()) ∧
        ∀ t₁ t₂ v r m', Machine.Reaches Tunn.visit (fun _ _ => True)
            (t.handleCookieReply packet).1 t₁ →
          t₁.visit v = some (t₂, r) → handshakeMessage r = some m' →
          t₂.handshake.cookies.writeCookie = some (limiter.currentCookie C a now) →
          ∀ limiter₂ dstLen₂ now₂,
            Machine.Reaches (RateLimiter.step C) (fun _ _ => True) limiter₁ limiter₂ →
            limiter.epoch now₂ = limiter.epoch now →
            ∃ limiter₃ p, limiter₂.verifyPacket C (some a) m' dstLen₂ now₂ =
              (limiter₃, .ok p)) ∧
      ∀ a src dstLen now limiter₁ reply, limiter.verifyPacket C (some a) src dstLen now =
          (limiter₁, .error (.writeToNetwork reply)) →
        mac1Of src ≠ mac1Of m ∨ u32At src 4 ≠ u32At m 4 →
        ∃ packet e, parseIncomingPacket reply = .ok (.packetCookieReply packet) ∧
          t.handleCookieReply packet = (t, .err e) := by
  have hrecalls : t.Recalls peerStaticPublic log :=
    Tunn.recalls_of_reaches htunn ⟨rfl, nofun⟩
  have hbuilt : limiter.BuiltFrom C peerStaticPublic :=
    RateLimiter.BuiltFrom.same ⟨rfl, rfl⟩ (RateLimiter.same_of_reaches hlimiter)
  constructor
  · intro a dstLen now limiter₁ reply hreply
    obtain ⟨packet, hparse, hreceive⟩ := receiveCookieReply_of_reply hrecalls hlast hbuilt hreply
    refine ⟨packet, hparse, hreceive, ?_⟩
    intro t₁ t₂ v r m' hreaches hvisit hr hcookie limiter₂ dstLen₂ now₂ hlater hepoch
    have hsame : limiter.Same limiter₂ := by
      have hfirst := RateLimiter.same_verifyPacket (C := C) limiter (some a) m dstLen now
      rw [hreply] at hfirst
      exact hfirst.trans (RateLimiter.same_of_reaches hlater)
    -- the peer of the tunnel stays the same
    have htaken : (t.handleCookieReply packet).1.Recalls peerStaticPublic [] := by
      have hkeeps := Handshake.keeps_receiveCookieReply t.handshake packet
      refine ⟨?_, nofun⟩
      rw [Tunn.handleCookieReply, hreceive]
      exact hrecalls.peer
    obtain ⟨log₁, hlogged⟩ := hreaches.logged Tunn.messageOf []
    refine verifyPacket_of_cookie (Tunn.recalls_of_reaches hlogged htaken) hvisit hr
      (hbuilt.same hsame) ?_
    rw [hcookie, hsame.currentCookie_eq hepoch]
  · intro a src dstLen now limiter₁ reply hreply hother
    exact handleCookieReply_of_other hbinds hrecalls hlast hbuilt hreply hother

end RoundTrip

/-! ## An initiation under load -/

/-- The first sixteen bytes. -/
def firstBytes (aad : List UInt8) : Bytes 16 :=
  ⟨(aad ++ List.replicate 16 0).take 16, by simp⟩

theorem firstBytes_toList (mac1 : Bytes 16) : firstBytes mac1.toList = mac1 := by
  apply List.Vector.toList_injective
  exact List.take_left' mac1.toList_length

theorem length_take_sealed {n : ℕ} (c : Bytes (n + 16)) : (c.toList.take n).length = n := by
  simp

/-- The concrete instance, with cookies that are sealed by the MAC itself. -/
def bindingPrims : Prims :=
  { checksumPrims with
    xaeadSeal := fun _ _ aad _ p => p ++ firstBytes aad
    xaeadOpen := fun _ _ aad n c =>
      let p : Bytes n := ⟨c.toList.take n, length_take_sealed c⟩
      if c = p ++ firstBytes aad then some p else none }

theorem bindingPrims_open {n : ℕ} (key : Bytes 32) (nonce : Bytes 24) (aad aad' : List UInt8)
    (p : Bytes n) : bindingPrims.xaeadOpen key nonce aad' (bindingPrims.xaeadSeal key nonce aad p) =
      if firstBytes aad = firstBytes aad' then some p else none := by
  have htake : (⟨(p ++ firstBytes aad : Bytes (n + 16)).toList.take n, by simp⟩ : Bytes n) = p := by
    apply List.Vector.toList_injective
    simp
  have heq : p ++ firstBytes aad = p ++ firstBytes aad' ↔ firstBytes aad = firstBytes aad' := by
    constructor
    · intro h
      apply List.Vector.toList_injective
      have hlist := congrArg List.Vector.toList h
      rw [List.Vector.toList_append, List.Vector.toList_append] at hlist
      exact List.append_cancel_left hlist
    · intro h
      rw [h]
  simp only [bindingPrims]
  rw [htake]
  simp only [heq]

instance : bindingPrims.Lawful where
  dh_comm := Prims.Lawful.dh_comm (C := checksumPrims)
  open_seal := checksumOpen_seal
  xopen_xseal k nonce aad n p := by rw [bindingPrims_open, if_pos rfl]

theorem bindsMac_bindingPrims : bindingPrims.BindsMac := by
  intro key nonce mac1 mac1' cookie cookie' h
  rw [bindingPrims_open, firstBytes_toList, firstBytes_toList] at h
  split_ifs at h with heq
  exact heq.symm

def loadedAddr : IpAddr := .v4 ⟨[192, 0, 2, 7], rfl⟩

/-- A limiter that is always under load. -/
def loadedLimiter : RateLimiter :=
  .new bindingPrims (bindingPrims.publicKey (fill 32 2)) 0 ⟨fill 16 9, fill 32 9, 0, 0⟩

def loadedTunn : Tunn bindingPrims :=
  .new bindingPrims (fill 32 1) (bindingPrims.publicKey (fill 32 2)) none none 7 none ⟨10 ^ 18, 0⟩
    (Tunn.sampleEnv 0 0)

def initiate : Tunn.Visit := .call (Tunn.sampleEnv 5 1) (.formatHandshakeInitiation 148 false)

/-- The initiation that is sent. -/
def loadedMessage : List UInt8 := (loadedTunn.messageOf initiate).getD []

/-- What is sent instead of an answer. -/
def replyOf : Except TunnResult Packet → Option (List UInt8)
  | .error (.writeToNetwork reply) => some reply
  | _ => none

theorem eq_of_replyOf {result : Except TunnResult Packet} {reply : List UInt8}
    (h : replyOf result = some reply) : result = .error (.writeToNetwork reply) := by
  cases result with
  | ok packet => cases h
  | error r =>
    cases r with
    | writeToNetwork datagram =>
      cases h
      rfl
    | done | err | writeToTunnelV4 | writeToTunnelV6 => cases h

/-- The cookie reply to the initiation is taken. -/
theorem cookie_round_trip_sample :
    ∃ t limiter reply packet, loadedTunn.visit initiate = some (t, .writeToNetwork loadedMessage) ∧
      loadedLimiter.verifyPacket bindingPrims (some loadedAddr) loadedMessage 64 5 =
        (limiter, .error (.writeToNetwork reply)) ∧
      parseIncomingPacket reply = .ok (.packetCookieReply packet) ∧
      t.handshake.receiveCookieReply packet = (t.handshake.withCookie
        (loadedLimiter.currentCookie bindingPrims loadedAddr 5), .ok ()) := by
  have hvisit : (loadedTunn.visit initiate).map Prod.snd =
      some (.writeToNetwork loadedMessage) := by decide +kernel
  have hreply : (replyOf (loadedLimiter.verifyPacket bindingPrims (some loadedAddr) loadedMessage
      64 5).2).isSome = true := by decide +kernel
  obtain ⟨⟨t, r⟩, hvisit, rfl⟩ := Option.map_eq_some_iff.mp hvisit
  rcases hverify : loadedLimiter.verifyPacket bindingPrims (some loadedAddr) loadedMessage 64 5
    with ⟨limiter, result⟩
  rw [hverify] at hreply
  obtain ⟨reply, hreply⟩ := Option.isSome_iff_exists.mp hreply
  obtain rfl := eq_of_replyOf hreply
  have hmessage : loadedTunn.messageOf initiate = some loadedMessage := by decide +kernel
  have hstep : Machine.logged Tunn.visit Tunn.messageOf (loadedTunn, []) initiate =
      some ((t, [loadedMessage]), .writeToNetwork loadedMessage) :=
    Machine.logged_eq_some.mpr ⟨hvisit, by rw [hmessage]; rfl⟩
  have htunn := Machine.Reaches.refl.tail (Q := fun _ _ => True) trivial hstep
  obtain ⟨packet, hparse, hreceive, -⟩ := (cookie_round_trip bindsMac_bindingPrims htunn rfl
    .refl).1 loadedAddr 64 5 limiter reply hverify
  exact ⟨t, limiter, reply, packet, hvisit, rfl, hparse, hreceive⟩

end NekoLink.Noise
