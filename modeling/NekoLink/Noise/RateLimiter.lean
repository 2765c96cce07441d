import NekoLink.Noise.Handshake

/-!
# The rate limiter

`RateLimiter` of `rate_limiter.rs`: the MACs of a handshake message are checked, and past a number
of them between two resets a sender is asked to prove its address by a cookie.

* `verifyPacket_not_handshake`: cookie replies and data packets pass unexamined.
* `verifyPacket_handshake`: a handshake message passes, or is refused, or is answered by a cookie
  reply; and then the limiter is under load.
-/

namespace NekoLink.Noise

open Wire

def cookieRefresh : ℕ := 128

/-- How often the count is reset, in seconds. -/
def resetPeriod : ℕ := 1

/-- The atomics and the mutex are plain fields: one call is one step. -/
structure RateLimiter where
  /-- The key we use to derive the nonce -/
  nonceKey : Bytes 32
  /-- The key we use to derive the cookie -/
  secretKey : Bytes 16
  startTime : ℕ
  nonceCtr : ℕ
  mac1Key : Bytes 32
  cookieKey : Bytes 32
  limit : ℕ
  /-- The counter since last reset -/
  count : ℕ
  lastReset : ℕ

/-- What a new rate limiter draws and reads: its two secrets and the clock, twice. -/
structure LimiterSeed where
  secretKey : Bytes 16
  nonceKey : Bytes 32
  startTime : ℕ
  lastReset : ℕ

/-- The sender index of a handshake message. -/
def Packet.handshakeSender : Packet → Option UInt32
  | .handshakeInit p => some p.senderIdx
  | .handshakeResponse p => some p.senderIdx
  | _ => none

namespace RateLimiter

variable (C : Prims)

/-- `RateLimiter::new` -/
def new (publicKey : Bytes 32) (limit : ℕ) (seed : LimiterSeed) : RateLimiter where
  nonceKey := seed.nonceKey
  secretKey := seed.secretKey
  startTime := seed.startTime
  nonceCtr := 0
  mac1Key := b2sHash C labelMac1 publicKey.toList
  cookieKey := b2sHash C labelCookie publicKey.toList
  limit := limit
  count := 0
  lastReset := seed.lastReset

variable (r : RateLimiter)

/-- Reset the packet count. -/
def resetCount (now : ℕ) : RateLimiter :=
  if resetPeriod ≤ (now - r.lastReset) / 10 ^ 9 then { r with count := 0, lastReset := now } else r

/-- The correct cookie value, from the current secret value and the source address. -/
def currentCookie (addr : IpAddr) (now : ℕ) : Bytes 16 :=
  let addrBytes : List UInt8 :=
    match addr with
    | .v4 octets => octets.toList ++ List.replicate 12 0
    | .v6 octets => octets.toList
  let curCounter := (now - r.startTime) / 10 ^ 9 / cookieRefresh
  b2sKeyedMac16₂ C r.secretKey.toList (leBytes 8 curCounter) addrBytes

def nonce : RateLimiter × Bytes 24 :=
  ({ r with nonceCtr := (r.nonceCtr + 1) % 2 ^ 64 },
    b2sMac24 C r.nonceKey.toList (leBytes 8 r.nonceCtr))

/-- The count goes up whatever the answer. -/
def isUnderLoad : RateLimiter × Bool :=
  ({ r with count := (r.count + 1) % 2 ^ 64 }, r.limit ≤ r.count)

def formatCookieReply (idx : UInt32) (cookie : Bytes 16) (mac1 : List UInt8) (dstLen : ℕ) :
    RateLimiter × Except WireGuardError (List UInt8) :=
  if dstLen < cookieReplySz then (r, .error .destinationBufferTooSmall)
  else
    let (r, nonce) := r.nonce C
    let encryptedCookie := C.xaeadSeal r.cookieKey nonce mac1 cookie
    (r, .ok (PacketCookieReply.bytes { receiverIdx := idx, nonce, encryptedCookie }))

/-- Verify the MAC fields on the datagram, and apply rate limiting if needed. -/
def verifyPacket (srcAddr : Option IpAddr) (src : List UInt8) (dstLen now : ℕ) :
    RateLimiter × Except TunnResult Packet :=
  match parseIncomingPacket src with
  | .error e => (r, .error (.err e))
  | .ok packet =>
    match packet.handshakeSender with
    | none => (r, .ok packet)
    | some senderIdx =>
      let msg := src.take (src.length - 32)
      let mac1 := slice src (src.length - 32) (src.length - 16)
      let mac2 := src.drop (src.length - 16)
      let computedMac1 := b2sKeyedMac16 C r.mac1Key.toList msg
      if computedMac1.toList ≠ mac1 then (r, .error (.err .invalidMac))
      else
        let (r, underLoad) := r.isUnderLoad
        if underLoad then
          match srcAddr with
          | none => (r, .error (.err .underLoad))
          | some addr =>
            -- Only given an address can we validate mac2
            let cookie := r.currentCookie C addr now
            let computedMac2 := b2sKeyedMac16₂ C cookie.toList msg mac1
            if computedMac2.toList ≠ mac2 then
              match r.formatCookieReply C senderIdx cookie mac1 dstLen with
              | (r, .error e) => (r, .error (.err e))
              | (r, .ok cookiePacket) => (r, .error (.writeToNetwork cookiePacket))
            else (r, .ok packet)
        else (r, .ok packet)

variable {C} {r} {srcAddr : Option IpAddr} {src : List UInt8} {dstLen now : ℕ} {packet : Packet}

theorem verifyPacket_not_handshake (hparse : parseIncomingPacket src = .ok packet)
    (hsender : packet.handshakeSender = none) :
    r.verifyPacket C srcAddr src dstLen now = (r, .ok packet) := by
  simp only [verifyPacket, hparse, hsender]

theorem verifyPacket_error {e : WireGuardError} (hparse : parseIncomingPacket src = .error e) :
    r.verifyPacket C srcAddr src dstLen now = (r, .error (.err e)) := by
  simp only [verifyPacket, hparse]

theorem formatCookieReply_cases (r : RateLimiter) (idx : UInt32) (cookie : Bytes 16)
    (mac1 : List UInt8) (dstLen : ℕ) :
    r.formatCookieReply C idx cookie mac1 dstLen = (r, .error .destinationBufferTooSmall) ∨
    ∃ r' reply, reply.receiverIdx = idx ∧
      r.formatCookieReply C idx cookie mac1 dstLen = (r', .ok (PacketCookieReply.bytes reply)) := by
  rcases lt_or_ge dstLen cookieReplySz with hd | hd
  · exact Or.inl (if_pos hd)
  · exact Or.inr ⟨_, ⟨idx, _, _⟩, rfl, if_neg (by omega)⟩

/-- **What the limiter does with a handshake message.** -/
theorem verifyPacket_handshake {senderIdx : UInt32} {r' : RateLimiter}
    {result : Except TunnResult Packet} (hparse : parseIncomingPacket src = .ok packet)
    (hsender : packet.handshakeSender = some senderIdx)
    (h : r.verifyPacket C srcAddr src dstLen now = (r', result)) :
    result = .ok packet ∨ (∃ e, result = .error (.err e)) ∨
      (r.limit ≤ r.count ∧ ∃ reply : PacketCookieReply, reply.receiverIdx = senderIdx ∧
        result = .error (.writeToNetwork reply.bytes)) := by
  simp only [verifyPacket, hparse, hsender, isUnderLoad, decide_eq_true_eq] at h
  split at h
  · cases h
    exact Or.inr (Or.inl ⟨_, rfl⟩)
  · split at h
    · next hload =>
      rcases srcAddr with _ | addr
      · cases h
        exact Or.inr (Or.inl ⟨_, rfl⟩)
      · obtain heq | ⟨r'', reply, hidx, heq⟩ := formatCookieReply_cases (C := C)
          { r with count := (r.count + 1) % 2 ^ 64 } senderIdx
          ({ r with count := (r.count + 1) % 2 ^ 64 }.currentCookie C addr now)
          (slice src (src.length - 32) (src.length - 16)) dstLen
        · simp only [heq] at h
          split_ifs at h
          · cases h
            exact Or.inr (Or.inl ⟨_, rfl⟩)
          · cases h
            exact Or.inl rfl
        · simp only [heq] at h
          split_ifs at h
          · cases h
            exact Or.inr (Or.inr ⟨hload, reply, hidx, rfl⟩)
          · cases h
            exact Or.inl rfl
    · cases h
      exact Or.inl rfl

/-- The limiter refuses a datagram or answers it by a cookie reply. -/
theorem verifyPacket_eq_error {r' : RateLimiter} {result : TunnResult}
    (h : r.verifyPacket C srcAddr src dstLen now = (r', .error result)) :
    (∃ e, result = .err e) ∨ ∃ reply : PacketCookieReply, result = .writeToNetwork reply.bytes := by
  rcases hparse : parseIncomingPacket src with e | packet
  · rw [verifyPacket_error hparse] at h
    cases h
    exact Or.inl ⟨e, rfl⟩
  · rcases hsender : packet.handshakeSender with _ | senderIdx
    · rw [verifyPacket_not_handshake hparse hsender] at h
      cases h
    · obtain heq | ⟨e, heq⟩ | ⟨-, reply, -, heq⟩ := verifyPacket_handshake hparse hsender h
      · cases heq
      · cases heq
        exact Or.inl ⟨e, rfl⟩
      · cases heq
        exact Or.inr ⟨reply, rfl⟩

end RateLimiter

end NekoLink.Noise
