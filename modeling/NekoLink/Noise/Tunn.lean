import NekoLink.Noise.RateLimiter
import NekoLink.Noise.Timers

/-!
# The tunnel

`Tunn` of `noise/mod.rs` and `noise/timers.rs`. A call takes an `Env`, what it draws and what it
reads from the clock, and gives the new tunnel and its result, or `none` when it panics. Packet
loss statistics and log messages are left out. `Tunn.step` is one call of a caller.
-/

namespace NekoLink.Noise

open Wire

/-- The default value to use for rate limiting, when no other rate limiter is defined. -/
def peerHandshakeRateLimit : ℕ := 10

def maxQueueDepth : ℕ := 256

def ipv4MinHeaderSize : ℕ := 20

def ipv6MinHeaderSize : ℕ := 40

/-- What a call draws, and the clock readings it may take, each named after its place. -/
structure Env where
  /-- `ReusableSecret::random_from_rng` -/
  ephemeralPrivate : Bytes 32
  /-- `reset_count` -/
  reset : ℕ
  /-- the start of `update_timers`, and the creation of a tunnel -/
  time : ℕ
  /-- `time_init_sent.elapsed()` -/
  elapsed : ℕ
  /-- `Timers::clear` -/
  clear : ℕ
  /-- `current_cookie` -/
  cookie : ℕ
  /-- `TimeStamper::stamp` -/
  stamp : ℕ
  /-- `time_sent` of an initiation -/
  sent : ℕ
  /-- the round trip of a response -/
  rtt : ℕ
  /-- the secrets of a new rate limiter -/
  limiter : LimiterSeed

/-- A point-to-point connection. -/
structure Tunn (C : Prims) where
  /-- The handshake currently in progress -/
  handshake : Handshake C
  sessions : SessionRing
  /-- Index of most recently used session -/
  current : ℕ
  /-- Queue to store blocked packets -/
  packetQueue : List (List UInt8)
  timers : Timers
  txBytes : ℕ
  rxBytes : ℕ
  rateLimiter : RateLimiter

namespace Tunn

variable {C : Prims}

/-- `Tunn::new`; the handshake's parameters are built from the private key. -/
def new (C : Prims) (staticPrivate peerStaticPublic : Bytes 32) (presharedKey : Option (Bytes 32))
    (persistentKeepalive : Option ℕ) (index : UInt32) (rateLimiter : Option RateLimiter)
    (stamper : TimeStamper) (env : Env) : Tunn C :=
  let staticPublic := C.publicKey staticPrivate
  { handshake := Handshake.new
      (NoiseParams.new staticPrivate staticPublic peerStaticPublic presharedKey rfl) (index <<< 8)
      stamper
    sessions := .empty
    current := 0
    packetQueue := []
    timers := Timers.new persistentKeepalive rateLimiter.isNone env.time
    txBytes := 0
    rxBytes := 0
    rateLimiter :=
      rateLimiter.getD (RateLimiter.new C staticPublic peerHandshakeRateLimit env.limiter) }

variable (t : Tunn C) (env : Env)

def timerTick (name : TimerName) : Tunn C := { t with timers := t.timers.tick name }

def timerTickSessionEstablished (isInitiator : Bool) (sessionIdx : ℕ) : Tunn C :=
  { t with timers := t.timers.tickSessionEstablished isInitiator sessionIdx }

/-- Update the private key and clear existing sessions. -/
def setStaticPrivate (staticPrivate staticPublic : Bytes 32) (rateLimiter : Option RateLimiter) :
    Option (Tunn C) :=
  (t.handshake.setStaticPrivate staticPrivate staticPublic).map fun handshake =>
    { t with
      timers := { t.timers with shouldResetRr := rateLimiter.isNone }
      rateLimiter :=
        rateLimiter.getD (RateLimiter.new C staticPublic peerHandshakeRateLimit env.limiter)
      handshake
      sessions := .empty }

/-! ## The queue -/

/-- Push packet to the back of the queue, or drop it if too many are there. -/
def queuePacket (packet : List UInt8) : Tunn C :=
  if t.packetQueue.length < maxQueueDepth then { t with packetQueue := t.packetQueue ++ [packet] }
  else t

/-- Push packet to the front of the queue, or drop it if too many are there. -/
def requeuePacket (packet : List UInt8) : Tunn C :=
  if t.packetQueue.length < maxQueueDepth then { t with packetQueue := packet :: t.packetQueue }
  else t

/-! ## Sending -/

/-- With `forceResend` a new handshake is sent even when one is in progress. -/
def formatHandshakeInitiation (dstLen : ℕ) (forceResend : Bool) : Tunn C × TunnResult :=
  if t.handshake.isInProgress && !forceResend then (t, .done)
  else
    let t := if t.handshake.isExpired then { t with timers := t.timers.clear env.clear } else t
    let startingNewHandshake := !t.handshake.isInProgress
    match t.handshake.formatHandshakeInitiation env.ephemeralPrivate env.stamp env.sent dstLen with
    | (handshake, .ok packet) =>
      let t := { t with handshake }
      let t := if startingNewHandshake then t.timerTick .timeLastHandshakeStarted else t
      (t.timerTick .timeLastPacketSent, .writeToNetwork packet)
    | (handshake, .error e) => ({ t with handshake }, .err e)

/-- Encapsulate a single packet from the tunnel interface. -/
def encapsulate (src : List UInt8) (dstLen : ℕ) : Option (Tunn C × TunnResult) :=
  match t.sessions.get t.current with
  | some session =>
    -- Send the packet using an established session
    (session.formatPacketData C src dstLen).map fun (session, packet) =>
      let t := { t with sessions := t.sessions.store session }
      let t := t.timerTick .timeLastPacketSent
      let t := if src ≠ [] then t.timerTick .timeLastDataPacketSent else t
      ({ t with txBytes := t.txBytes + src.length }, .writeToNetwork packet)
  | none =>
    -- If there is no session, queue the packet and initiate a handshake if none is in progress
    some ((t.queuePacket src).formatHandshakeInitiation env dstLen false)

/-- Get a packet from the queue, and try to encapsulate it; an error puts it back. -/
def sendQueuedPacket (dstLen : ℕ) : Option (Tunn C × TunnResult) :=
  match t.packetQueue with
  | [] => some (t, .done)
  | packet :: rest =>
    ({ t with packetQueue := rest }.encapsulate env packet dstLen).map
      fun (result : Tunn C × TunnResult) =>
      match result with
      | (t, .err _) => (t.requeuePacket packet, .done)
      | (t, r) => (t, r)

/-! ## Receiving -/

/-- Update the index of the currently used session, if needed. -/
def setCurrentSession (newIdx : ℕ) : Tunn C :=
  if t.current = newIdx then t
  else if (t.sessions.get t.current).isNone ∨
      t.timers.sessionTimers (slot t.current) ≤ t.timers.sessionTimers (slot newIdx) then
    { t with current := newIdx }
  else t

/-- The length an IP header declares for the packet, and its source address. -/
def computedLenAndSource (packet : List UInt8) : Option (ℕ × IpAddr) :=
  if h : packet.headD 0 >>> 4 = 4 ∧ ipv4MinHeaderSize ≤ packet.length then
    have hl : 20 ≤ packet.length := h.2
    some (beValue (slice packet 2 4), .v4 (fieldAt packet 12 4 (by omega)))
  else if h : packet.headD 0 >>> 4 = 6 ∧ ipv6MinHeaderSize ≤ packet.length then
    have hl : 40 ≤ packet.length := h.2
    some (beValue (slice packet 4 6) + ipv6MinHeaderSize, .v6 (fieldAt packet 8 16 (by omega)))
  else none

/-- Truncate an IP packet to the length indicated by its length field. -/
def validateDecapsulatedPacket (packet : List UInt8) : Tunn C × TunnResult :=
  if packet = [] then (t, .done) -- This is keepalive, and not an error
  else
    match computedLenAndSource packet with
    | none => (t, .err .invalidPacket)
    | some (computedLen, srcIpAddress) =>
      if packet.length < computedLen then (t, .err .invalidPacket)
      else
        let t := t.timerTick .timeLastDataPacketReceived
        let t := { t with rxBytes := t.rxBytes + computedLen }
        match srcIpAddress with
        | .v4 addr => (t, .writeToTunnelV4 (packet.take computedLen) addr)
        | .v6 addr => (t, .writeToTunnelV6 (packet.take computedLen) addr)

def handleHandshakeInit (p : HandshakeInit) (dstLen : ℕ) : Option (Tunn C × TunnResult) :=
  (t.handshake.receiveHandshakeInitialization p env.ephemeralPrivate dstLen).map
    fun (handshake, r) =>
      let t := { t with handshake }
      match r with
      | .error e => (t, .err e)
      | .ok (packet, session) =>
        -- Store new session in ring buffer
        let index := session.localIndex
        let t := { t with sessions := t.sessions.store session }
        let t := (t.timerTick .timeLastPacketReceived).timerTick .timeLastPacketSent
        (t.timerTickSessionEstablished false index, .writeToNetwork packet)

def handleHandshakeResponse (p : HandshakeResponse) (dstLen : ℕ) : Option (Tunn C × TunnResult) :=
  match t.handshake.receiveHandshakeResponse p env.rtt with
  | (handshake, .error e) => some ({ t with handshake }, .err e)
  | (handshake, .ok session) =>
    (session.formatPacketData C [] dstLen).map fun (session, keepalivePacket) =>
      let lIdx := session.localIndex
      let index := lIdx % nSessions
      let t := { t with handshake, sessions := t.sessions.store session }
      let t := t.timerTick .timeLastPacketReceived
      let t := t.timerTickSessionEstablished true index
      (t.setCurrentSession lIdx, .writeToNetwork keepalivePacket)

def handleCookieReply (p : PacketCookieReply) : Tunn C × TunnResult :=
  match t.handshake.receiveCookieReply p with
  | (handshake, .error e) => ({ t with handshake }, .err e)
  | (handshake, .ok ()) =>
    let t := { t with handshake }
    ((t.timerTick .timeLastPacketReceived).timerTick .timeCookieReceived, .done)

/-- Decrypt a data packet with the (probably) right session. -/
def handleData (packet : PacketData) (dstLen : ℕ) : Option (Tunn C × TunnResult) :=
  let rIdx := packet.receiverIdx.toNat
  match t.sessions.get rIdx with
  | none => some (t, .err .noCurrentSession)
  | some session =>
    (session.receivePacketData C packet dstLen).map fun (session, r) =>
      let t := { t with sessions := t.sessions.store session }
      match r with
      | .error e => (t, .err e)
      | .ok decapsulatedPacket =>
        let t := (t.setCurrentSession rIdx).timerTick .timeLastPacketReceived
        t.validateDecapsulatedPacket decapsulatedPacket

def handleVerifiedPacket (packet : Packet) (dstLen : ℕ) : Option (Tunn C × TunnResult) :=
  match packet with
  | .handshakeInit p => t.handleHandshakeInit env p dstLen
  | .handshakeResponse p => t.handleHandshakeResponse env p dstLen
  | .packetCookieReply p => some (t.handleCookieReply p)
  | .packetData p => t.handleData p dstLen

/-- Receive a datagram from the network and parse it; an empty one is a repeated call. -/
def decapsulate (srcAddr : Option IpAddr) (datagram : List UInt8) (dstLen : ℕ) :
    Option (Tunn C × TunnResult) :=
  if datagram = [] then t.sendQueuedPacket env dstLen
  else
    match t.rateLimiter.verifyPacket C srcAddr datagram cookieReplySz env.cookie with
    | (rateLimiter, .ok packet) => { t with rateLimiter }.handleVerifiedPacket env packet dstLen
    | (rateLimiter, .error (.writeToNetwork cookie)) =>
      if dstLen < cookie.length then none
      else some ({ t with rateLimiter }, .writeToNetwork cookie)
    | (rateLimiter, .error (.err e)) => some ({ t with rateLimiter }, .err e)
    | (_, .error _) => none

/-! ## Timers -/

/-- `clear_all` -/
def clearAll : Tunn C :=
  { t with sessions := .empty, packetQueue := [], timers := t.timers.clear env.clear }

/-- The connection is given up: the handshake expires and everything is cleared. -/
def connectionExpired : Tunn C × TunnResult :=
  ({ t with handshake := t.handshake.setExpired }.clearAll env, .err .connectionExpired)

/-- Every slot on its own: a session older than `REJECT_AFTER_TIME` is taken out. -/
def updateSessionTimers (timeNow : ℕ) : Option (Tunn C) :=
  if ∀ i, t.timers.sessionTimers i ≤ timeNow then
    let expired := fun i => decide (rejectAfterTime < timeNow - t.timers.sessionTimers i)
    some { t with
      sessions := t.sessions.filter fun i => !expired i
      timers := { t.timers with
        sessionTimers := fun i => if expired i then timeNow else t.timers.sessionTimers i } }
  else none

/-- An initiation is out: give up after `REKEY_ATTEMPT_TIME`, or send it again. -/
def retransmit (now timeInitSent dstLen : ℕ) : Option (Tunn C × TunnResult) := do
  let trying ← durationSub now (t.timers.timers .timeLastHandshakeStarted)
  if rekeyAttemptTime ≤ trying then return t.connectionExpired env
  else if rekeyTimeout ≤ env.elapsed - timeInitSent then
    return t.formatHandshakeInitiation env dstLen true
  else return (t, .done)

/-- No initiation is out: is one required? -/
def handshakeInitiationRequired (now : ℕ) : Option (Tunn C × Bool) := do
  let sessionEstablished := t.timers.timers .timeSessionEstablished
  let autPacketReceived := t.timers.timers .timeLastPacketReceived
  let dataPacketReceived := t.timers.timers .timeLastDataPacketReceived
  let dataPacketSent := t.timers.timers .timeLastDataPacketSent
  let onSend ← dueAfter (t.timers.isInitiator && sessionEstablished < dataPacketSent) now
    sessionEstablished rekeyAfterTime
  let onReceive ← dueAfter (t.timers.isInitiator && sessionEstablished < dataPacketReceived) now
    sessionEstablished (rejectAfterTime - keepaliveTimeout - rekeyTimeout)
  let silent ← dueAfter (autPacketReceived < dataPacketSent) now autPacketReceived
    (keepaliveTimeout + rekeyTimeout)
  -- `mem::replace(&mut want_handshake, false)` is evaluated only after the silence
  let t' := if silent then { t with timers := { t.timers with wantHandshake := false } } else t
  return (t', onSend || onReceive || (silent && t.timers.wantHandshake))

/-- Is a keepalive required? -/
def keepaliveRequired (now : ℕ) : Option (Tunn C × Bool) := do
  let autPacketSent := t.timers.timers .timeLastPacketSent
  let dataPacketReceived := t.timers.timers .timeLastDataPacketReceived
  let quiet ← dueAfter (autPacketSent < dataPacketReceived) now autPacketSent keepaliveTimeout
  let t' := if quiet then { t with timers := { t.timers with wantKeepalive := false } } else t
  let persistent ← dueAfter (0 < t.timers.persistentKeepalive) now
    (t.timers.timers .timePersistentKeepalive) (fromSecs t.timers.persistentKeepalive)
  let t'' := if persistent then t'.timerTick .timePersistentKeepalive else t'
  return (t'', (quiet && t.timers.wantKeepalive) || persistent)

/-- No initiation is out: send one, or a keepalive, or nothing. -/
def initiateOrKeepalive (now dstLen : ℕ) : Option (Tunn C × TunnResult) := do
  let (t, required) ← t.handshakeInitiationRequired now
  if required then return t.formatHandshakeInitiation env dstLen true
  else
    let (t, required) ← t.keepaliveRequired now
    if required then t.encapsulate env [] dstLen
    else return (t, .done)

/-- The checks of `update_timers` once the sessions are up to date. -/
def checkTimers (now dstLen : ℕ) : Option (Tunn C × TunnResult) :=
  if t.handshake.isExpired then some (t, .err .connectionExpired)
  else do
    let stale ← dueAfter t.handshake.hasCookie now (t.timers.timers .timeCookieReceived)
      cookieExpirationTime
    let t := if stale then { t with handshake := t.handshake.clearCookie } else t
    let age ← durationSub now (t.timers.timers .timeSessionEstablished)
    if rejectAfterTime * 3 ≤ age then return t.connectionExpired env
    else
      match t.handshake.timer with
      | some timeInitSent => t.retransmit env now timeInitSent dstLen
      | none => t.initiateOrKeepalive env now dstLen

def updateTimers (dstLen : ℕ) : Option (Tunn C × TunnResult) := do
  let t := if t.timers.shouldResetRr then
    { t with rateLimiter := t.rateLimiter.resetCount env.reset } else t
  let now := env.time - t.timers.timeStarted
  let t ← { t with timers := t.timers.set .timeCurrent now }.updateSessionTimers now
  t.checkTimers env now dstLen

/-- The time since a session was last established, when there is a current session. `none` is a
panic. -/
def timeSinceLastHandshake (now : ℕ) : Option (Option ℕ) :=
  match t.sessions.get t.current with
  | some _ =>
    (durationSub (now - t.timers.timeStarted) (t.timers.timers .timeSessionEstablished)).map some
  | none => some none

/-! ## Runs -/

/-- The calls of a tunnel's owner. -/
inductive Call
  | encapsulate (src : List UInt8) (dstLen : ℕ)
  | decapsulate (srcAddr : Option IpAddr) (datagram : List UInt8) (dstLen : ℕ)
  | updateTimers (dstLen : ℕ)
  | formatHandshakeInitiation (dstLen : ℕ) (forceResend : Bool)
  | setStaticPrivate (staticPrivate staticPublic : Bytes 32) (rateLimiter : Option RateLimiter)

/-- One call and its result. -/
def step (t : Tunn C) : Env × Call → Option (Tunn C × TunnResult)
  | (env, .encapsulate src dstLen) => t.encapsulate env src dstLen
  | (env, .decapsulate srcAddr datagram dstLen) => t.decapsulate env srcAddr datagram dstLen
  | (env, .updateTimers dstLen) => t.updateTimers env dstLen
  | (env, .formatHandshakeInitiation dstLen forceResend) =>
    some (t.formatHandshakeInitiation env dstLen forceResend)
  | (env, .setStaticPrivate staticPrivate staticPublic rateLimiter) =>
    (t.setStaticPrivate env staticPrivate staticPublic rateLimiter).map fun t => (t, .done)

/-! ## A concrete tunnel -/

/-- An environment in which every clock reads the same. -/
def sampleEnv (ephemeral : UInt8) (now : ℕ) : Env where
  ephemeralPrivate := fill 32 ephemeral
  reset := now
  time := now
  elapsed := now
  clear := now
  cookie := now
  stamp := now
  sent := now
  rtt := now
  limiter := ⟨fill 16 9, fill 32 9, 0, 0⟩

/-- A new tunnel of the concrete instance, with a rate limiter of its own. -/
def sampleTunn (own peer : UInt8) (index : UInt32) : Tunn checksumPrims :=
  Tunn.new checksumPrims (fill 32 own) (checksumPrims.publicKey (fill 32 peer)) none none index none
    ⟨10 ^ 18, 0⟩ (sampleEnv 0 0)

end Tunn

end NekoLink.Noise
