import NekoLink.Noise.Session

/-!
# The handshake

`Handshake` of `handshake.rs`. The key schedules are written out as the source has them, one for
each of the four parties to a message: `sealInitiation`, `openInitiation`, `sealResponse`,
`openResponse`; `parseHandshakeAnon` repeats the first half of the second. Around them are the
functions that move the state. Ephemeral keys and clock readings are arguments, and `none` is a
panic.
-/

namespace NekoLink.Noise

open Wire

/-! ## Constants -/

/-- `b"mac1----"` -/
def labelMac1 : List UInt8 := [0x6d, 0x61, 0x63, 0x31, 0x2d, 0x2d, 0x2d, 0x2d]

/-- `b"cookie--"` -/
def labelCookie : List UInt8 := [0x63, 0x6f, 0x6f, 0x6b, 0x69, 0x65, 0x2d, 0x2d]

/-- `HASH(CONSTRUCTION)` -/
def initialChainKey : Bytes 32 :=
  ⟨[96, 226, 109, 174, 243, 39, 239, 192, 46, 195, 53, 226, 160, 37, 210, 208, 22, 235, 66, 6, 248,
    114, 119, 245, 45, 56, 209, 152, 139, 120, 205, 54], rfl⟩

/-- `HASH(initiator.chaining_key || IDENTIFIER)` -/
def initialChainHash : Bytes 32 :=
  ⟨[34, 17, 179, 97, 8, 26, 197, 102, 105, 18, 67, 219, 69, 138, 213, 50, 45, 156, 108, 102, 34,
    147, 232, 183, 14, 225, 156, 101, 186, 7, 158, 243], rfl⟩

/-! ## Timestamps -/

/-- A 12 byte TAI64N timestamp. -/
structure Tai64N where
  secs : ℕ
  nano : ℕ
  deriving DecidableEq

namespace Tai64N

def zero : Tai64N := ⟨0, 0⟩

/-- The length check of the source cannot fail on twelve bytes. -/
def parse (buf : Bytes 12) : Tai64N :=
  ⟨beValue (buf.toList.take 8), beValue (buf.toList.drop 8)⟩

/-- Chronologically after. -/
def after (self other : Tai64N) : Bool :=
  self.secs > other.secs || (self.secs == other.secs && self.nano > other.nano)

end Tai64N

/-- Times are in nanoseconds. -/
structure TimeStamper where
  durationAtStart : ℕ
  instantAtStart : ℕ

/-- `Instant::duration_since` is zero when the clock went backwards. -/
def TimeStamper.stamp (stamper : TimeStamper) (now : ℕ) : Bytes 12 :=
  let tai64Base := 2 ^ 62 + 37
  let stamp := now - stamper.instantAtStart + stamper.durationAtStart
  ⟨beBytes 8 (stamp / 10 ^ 9 + tai64Base) ++ beBytes 4 (stamp % 10 ^ 9), by simp⟩

/-! ## State -/

variable (C : Prims)

/-- Parameters used by the noise protocol. The fields derived from others agree with them. -/
structure NoiseParams where
  staticPublic : Bytes 32
  staticPrivate : Bytes 32
  peerStaticPublic : Bytes 32
  staticShared : Bytes 32
  sendingMac1Key : Bytes 32
  presharedKey : Option (Bytes 32)
  static_public_eq : C.publicKey staticPrivate = staticPublic
  static_shared_eq : staticShared = C.diffieHellman staticPrivate peerStaticPublic
  sending_mac1_key_eq : sendingMac1Key = b2sHash C labelMac1 peerStaticPublic.toList

structure HandshakeInitSentState where
  localIndex : UInt32
  hash : Bytes 32
  chainingKey : Bytes 32
  ephemeralPrivate : Bytes 32
  timeSent : ℕ
  deriving DecidableEq

inductive HandshakeState
  /-- No handshake in process -/
  | none
  /-- We initiated the handshake -/
  | initSent (s : HandshakeInitSentState)
  /-- Handshake initiated by peer -/
  | initReceived (hash chainingKey peerEphemeralPublic : Bytes 32) (peerIndex : UInt32)
  /-- Handshake was established too long ago -/
  | expired
  deriving DecidableEq

structure Cookies where
  lastMac1 : Option (Bytes 16)
  index : UInt32
  writeCookie : Option (Bytes 16)

structure Handshake where
  params : NoiseParams C
  /-- Index of the next session -/
  nextIndex : UInt32
  /-- Two outgoing handshakes may be in flight. -/
  previous : HandshakeState
  state : HandshakeState
  cookies : Cookies
  lastHandshakeTimestamp : Tai64N
  stamper : TimeStamper
  lastRtt : Option ℕ

structure HalfHandshake where
  peerIndex : UInt32
  peerStaticPublic : Bytes 32

variable {C}

/-! ## Key schedules -/

section Transcripts

variable (C) in
/-- Read an initiation with our static key alone. -/
def parseHandshakeAnon (staticPrivate staticPublic : Bytes 32) (packet : HandshakeInit) :
    Except WireGuardError HalfHandshake :=
  let peerIndex := packet.senderIdx
  let chainingKey := initialChainKey
  let hash := initialChainHash
  let hash := b2sHash C hash.toList staticPublic.toList
  let peerEphemeralPublic := packet.unencryptedEphemeral
  let hash := b2sHash C hash.toList peerEphemeralPublic.toList
  let chainingKey :=
    b2sHmac C (b2sHmac C chainingKey.toList peerEphemeralPublic.toList).toList [0x01]
  let ephemeralShared := C.diffieHellman staticPrivate peerEphemeralPublic
  let temp := b2sHmac C chainingKey.toList ephemeralShared.toList
  let chainingKey := b2sHmac C temp.toList [0x01]
  let key := b2sHmac2 C temp.toList chainingKey.toList [0x02]
  (aeadChacha20Open C key 0 packet.encryptedStatic hash.toList).map fun peerStaticPublic =>
    { peerIndex, peerStaticPublic }

/-- The initiator's schedule: the message, and the chaining key and hash after it. -/
def sealInitiation (params : NoiseParams C) (localIndex : UInt32) (ephemeralPrivate : Bytes 32)
    (timestamp : Bytes 12) : HandshakeInit × Bytes 32 × Bytes 32 :=
  let chainingKey := initialChainKey
  let hash := initialChainHash
  let hash := b2sHash C hash.toList params.peerStaticPublic.toList
  let unencryptedEphemeral := C.publicKey ephemeralPrivate
  let hash := b2sHash C hash.toList unencryptedEphemeral.toList
  let chainingKey :=
    b2sHmac C (b2sHmac C chainingKey.toList unencryptedEphemeral.toList).toList [0x01]
  let ephemeralShared := C.diffieHellman ephemeralPrivate params.peerStaticPublic
  let temp := b2sHmac C chainingKey.toList ephemeralShared.toList
  let chainingKey := b2sHmac C temp.toList [0x01]
  let key := b2sHmac2 C temp.toList chainingKey.toList [0x02]
  let encryptedStatic := aeadChacha20Seal C key 0 params.staticPublic hash.toList
  let hash := b2sHash C hash.toList encryptedStatic.toList
  let temp := b2sHmac C chainingKey.toList params.staticShared.toList
  let chainingKey := b2sHmac C temp.toList [0x01]
  let key := b2sHmac2 C temp.toList chainingKey.toList [0x02]
  let encryptedTimestamp := aeadChacha20Seal C key 0 timestamp hash.toList
  let hash := b2sHash C hash.toList encryptedTimestamp.toList
  ({ senderIdx := localIndex, unencryptedEphemeral, encryptedStatic, encryptedTimestamp },
    chainingKey, hash)

/-- The responder's schedule on an initiation: the timestamp, the chaining key and the hash. -/
def openInitiation (params : NoiseParams C) (packet : HandshakeInit) :
    Except WireGuardError (Bytes 12 × Bytes 32 × Bytes 32) :=
  let chainingKey := initialChainKey
  let hash := initialChainHash
  let hash := b2sHash C hash.toList params.staticPublic.toList
  let peerEphemeralPublic := packet.unencryptedEphemeral
  let hash := b2sHash C hash.toList peerEphemeralPublic.toList
  let chainingKey :=
    b2sHmac C (b2sHmac C chainingKey.toList peerEphemeralPublic.toList).toList [0x01]
  let ephemeralShared := C.diffieHellman params.staticPrivate peerEphemeralPublic
  let temp := b2sHmac C chainingKey.toList ephemeralShared.toList
  let chainingKey := b2sHmac C temp.toList [0x01]
  let key := b2sHmac2 C temp.toList chainingKey.toList [0x02]
  match aeadChacha20Open C key 0 packet.encryptedStatic hash.toList with
  | .error e => .error e
  | .ok peerStaticPublicDecrypted =>
    if params.peerStaticPublic ≠ peerStaticPublicDecrypted then .error .wrongKey
    else
      let hash := b2sHash C hash.toList packet.encryptedStatic.toList
      let temp := b2sHmac C chainingKey.toList params.staticShared.toList
      let chainingKey := b2sHmac C temp.toList [0x01]
      let key := b2sHmac2 C temp.toList chainingKey.toList [0x02]
      match aeadChacha20Open C key 0 packet.encryptedTimestamp hash.toList with
      | .error e => .error e
      | .ok timestamp =>
        .ok (timestamp, chainingKey, b2sHash C hash.toList packet.encryptedTimestamp.toList)

/-- The responder's schedule: the message and the two session keys, initiator's sending first. -/
def sealResponse (params : NoiseParams C) (localIndex peerIndex : UInt32)
    (ephemeralPrivate hash chainingKey peerEphemeralPublic : Bytes 32) :
    HandshakeResponse × Bytes 32 × Bytes 32 :=
  let unencryptedEphemeral := C.publicKey ephemeralPrivate
  let hash := b2sHash C hash.toList unencryptedEphemeral.toList
  let temp := b2sHmac C chainingKey.toList unencryptedEphemeral.toList
  let chainingKey := b2sHmac C temp.toList [0x01]
  let ephemeralShared := C.diffieHellman ephemeralPrivate peerEphemeralPublic
  let temp := b2sHmac C chainingKey.toList ephemeralShared.toList
  let chainingKey := b2sHmac C temp.toList [0x01]
  let temp := b2sHmac C chainingKey.toList
    (C.diffieHellman ephemeralPrivate params.peerStaticPublic).toList
  let chainingKey := b2sHmac C temp.toList [0x01]
  let temp := b2sHmac C chainingKey.toList (params.presharedKey.getD (zeros 32)).toList
  let chainingKey := b2sHmac C temp.toList [0x01]
  let temp2 := b2sHmac2 C temp.toList chainingKey.toList [0x02]
  let key := b2sHmac2 C temp.toList temp2.toList [0x03]
  let hash := b2sHash C hash.toList temp2.toList
  let encryptedNothing := aeadChacha20Seal C key 0 List.Vector.nil hash.toList
  let temp1 := b2sHmac C chainingKey.toList []
  let temp2 := b2sHmac C temp1.toList [0x01]
  let temp3 := b2sHmac2 C temp1.toList temp2.toList [0x02]
  ({ senderIdx := localIndex, receiverIdx := peerIndex, unencryptedEphemeral, encryptedNothing },
    temp2, temp3)

/-- The initiator's schedule on a response: the two session keys, initiator's sending first. -/
def openResponse (params : NoiseParams C) (state : HandshakeInitSentState)
    (packet : HandshakeResponse) : Except WireGuardError (Bytes 32 × Bytes 32) :=
  let unencryptedEphemeral := packet.unencryptedEphemeral
  let hash := b2sHash C state.hash.toList unencryptedEphemeral.toList
  let temp := b2sHmac C state.chainingKey.toList unencryptedEphemeral.toList
  let chainingKey := b2sHmac C temp.toList [0x01]
  let ephemeralShared := C.diffieHellman state.ephemeralPrivate unencryptedEphemeral
  let temp := b2sHmac C chainingKey.toList ephemeralShared.toList
  let chainingKey := b2sHmac C temp.toList [0x01]
  let temp := b2sHmac C chainingKey.toList
    (C.diffieHellman params.staticPrivate unencryptedEphemeral).toList
  let chainingKey := b2sHmac C temp.toList [0x01]
  let temp := b2sHmac C chainingKey.toList (params.presharedKey.getD (zeros 32)).toList
  let chainingKey := b2sHmac C temp.toList [0x01]
  let temp2 := b2sHmac2 C temp.toList chainingKey.toList [0x02]
  let key := b2sHmac2 C temp.toList temp2.toList [0x03]
  let hash := b2sHash C hash.toList temp2.toList
  match aeadChacha20Open C key 0 (n := 0) packet.encryptedNothing hash.toList with
  | .error e => .error e
  | .ok _ =>
    let temp1 := b2sHmac C chainingKey.toList []
    let temp2 := b2sHmac C temp1.toList [0x01]
    let temp3 := b2sHmac2 C temp1.toList temp2.toList [0x02]
    .ok (temp2, temp3)

end Transcripts

/-! ## `NoiseParams` -/

def NoiseParams.new (staticPrivate staticPublic peerStaticPublic : Bytes 32)
    (presharedKey : Option (Bytes 32)) (h : C.publicKey staticPrivate = staticPublic) :
    NoiseParams C where
  staticPublic := staticPublic
  staticPrivate := staticPrivate
  peerStaticPublic := peerStaticPublic
  staticShared := C.diffieHellman staticPrivate peerStaticPublic
  sendingMac1Key := b2sHash C labelMac1 peerStaticPublic.toList
  presharedKey := presharedKey
  static_public_eq := h
  static_shared_eq := rfl
  sending_mac1_key_eq := rfl

/-- Set a new private key; the assertion is that the public key matches it. -/
def NoiseParams.setStaticPrivate (params : NoiseParams C) (staticPrivate staticPublic : Bytes 32) :
    Option (NoiseParams C) :=
  if h : C.publicKey staticPrivate = staticPublic then
    some { params with
      staticPrivate := staticPrivate
      staticPublic := staticPublic
      staticShared := C.diffieHellman staticPrivate params.peerStaticPublic
      static_public_eq := h
      static_shared_eq := rfl }
  else none

/-! ## `Handshake` -/

namespace Handshake

def new (params : NoiseParams C) (globalIdx : UInt32) (stamper : TimeStamper) : Handshake C where
  params := params
  nextIndex := globalIdx
  previous := .none
  state := .none
  cookies := ⟨none, 0, none⟩
  lastHandshakeTimestamp := .zero
  stamper := stamper
  lastRtt := none

variable (h : Handshake C)

def isInProgress : Bool :=
  match h.state with
  | .none | .expired => false
  | _ => true

def timer : Option ℕ :=
  match h.state with
  | .initSent s => some s.timeSent
  | _ => none

def setExpired : Handshake C := { h with previous := .expired, state := .expired }

def isExpired : Bool :=
  match h.state with
  | .expired => true
  | _ => false

def hasCookie : Bool := h.cookies.writeCookie.isSome

def clearCookie : Handshake C := { h with cookies := { h.cookies with writeCookie := none } }

/-- 24 bits of peer index and 8 bits of cyclic session index: the low byte is incremented. -/
def incIndex (index : UInt32) : UInt32 := (index &&& ~~~0xff) ||| (index.toUInt8 + 1).toUInt32

def setStaticPrivate (privateKey publicKey : Bytes 32) : Option (Handshake C) :=
  (h.params.setStaticPrivate privateKey publicKey).map fun params => { h with params }

/-- Compute and append mac1 and mac2 to a handshake message. -/
def appendMac1AndMac2 (localIndex : UInt32) (msg : List UInt8) : Handshake C × List UInt8 :=
  let mac1 := b2sKeyedMac16 C h.params.sendingMac1Key.toList msg
  let mac2 :=
    match h.cookies.writeCookie with
    | some cookie => b2sKeyedMac16 C cookie.toList (msg ++ mac1.toList)
    | none => zeros 16
  ({ h with cookies := { h.cookies with index := localIndex, lastMac1 := some mac1 } },
    msg ++ (mac1 ++ mac2).toList)

/-- `stampNow` is the clock reading in the timestamp, `now` the one when the message is sent. -/
def formatHandshakeInitiation (ephemeralPrivate : Bytes 32) (stampNow now dstLen : ℕ) :
    Handshake C × Except WireGuardError (List UInt8) :=
  if dstLen < handshakeInitSz then (h, .error .destinationBufferTooSmall)
  else
    let localIndex := incIndex h.nextIndex
    let (msg, chainingKey, hash) :=
      sealInitiation h.params localIndex ephemeralPrivate (h.stamper.stamp stampNow)
    let h := { h with
      nextIndex := localIndex
      previous := h.state
      state := .initSent { localIndex, hash, chainingKey, ephemeralPrivate, timeSent := now } }
    let (h, dst) := h.appendMac1AndMac2 localIndex msg.bytes
    (h, .ok dst)

/-- The state is taken out, and is a panic when it is not an initiation received. -/
def formatHandshakeResponse (ephemeralPrivate : Bytes 32) (dstLen : ℕ) :
    Option (Handshake C × Except WireGuardError (List UInt8 × Session)) :=
  if dstLen < handshakeRespSz then some (h, .error .destinationBufferTooSmall)
  else
    match h.state with
    | .initReceived hash chainingKey peerEphemeralPublic peerIndex =>
      let localIndex := incIndex h.nextIndex
      let (msg, temp2, temp3) := sealResponse h.params localIndex peerIndex ephemeralPrivate hash
        chainingKey peerEphemeralPublic
      let h := { h with state := .none, nextIndex := localIndex }
      let (h, dst) := h.appendMac1AndMac2 localIndex msg.bytes
      some (h, .ok (dst, Session.new localIndex peerIndex temp2 temp3))
    | _ => none

def receiveHandshakeInitialization (packet : HandshakeInit) (ephemeralPrivate : Bytes 32)
    (dstLen : ℕ) : Option (Handshake C × Except WireGuardError (List UInt8 × Session)) :=
  match openInitiation h.params packet with
  | .error e => some (h, .error e)
  | .ok (timestamp, chainingKey, hash) =>
    let timestamp := Tai64N.parse timestamp
    if !timestamp.after h.lastHandshakeTimestamp then some (h, .error .wrongTai64nTimestamp)
    else
      let h := { h with
        lastHandshakeTimestamp := timestamp
        previous := h.state
        state := .initReceived hash chainingKey packet.unencryptedEphemeral packet.senderIdx }
      h.formatHandshakeResponse ephemeralPrivate dstLen

/-- The initiation that awaits a response under this index, and whether it is the previous one. -/
def awaiting (receiverIdx : UInt32) : Option (HandshakeInitSentState × Bool) :=
  let inPrevious :=
    match h.previous with
    | .initSent s => if s.localIndex = receiverIdx then some (s, true) else none
    | _ => none
  match h.state with
  | .initSent s => if s.localIndex = receiverIdx then some (s, false) else inPrevious
  | _ => inPrevious

def receiveHandshakeResponse (packet : HandshakeResponse) (now : ℕ) :
    Handshake C × Except WireGuardError Session :=
  match h.awaiting packet.receiverIdx with
  | none => (h, .error .unexpectedPacket)
  | some (state, isPrevious) =>
    match openResponse h.params state packet with
    | .error e => (h, .error e)
    | .ok (temp2, temp3) =>
      let rttTime := now - state.timeSent
      let h := { h with lastRtt := some (rttTime / 10 ^ 6 % 2 ^ 32) }
      let h := if isPrevious then { h with previous := .none } else { h with state := .none }
      (h, .ok (Session.new state.localIndex packet.senderIdx temp3 temp2))

def receiveCookieReply (packet : PacketCookieReply) : Handshake C × Except WireGuardError Unit :=
  match h.cookies.lastMac1 with
  | none => (h, .error .unexpectedPacket)
  | some mac1 =>
    if packet.receiverIdx ≠ h.cookies.index then (h, .error .wrongIndex)
    else
      let key := b2sHash C labelCookie h.params.peerStaticPublic.toList
      match C.xaeadOpen key packet.nonce mac1.toList (n := 16) packet.encryptedCookie with
      | none => (h, .error .invalidAeadTag)
      | some cookie => ({ h with cookies := { h.cookies with writeCookie := some cookie } }, .ok ())

end Handshake

end NekoLink.Noise
