import NekoLink.Noise.TunnSteps

/-!
# The data channel

Two tunnels with matched sessions: `A` encapsulates IP packets and `B` receives the datagrams in
any order, any number of times, with forged ones in between.

* `run_encapsulate`: the datagrams of `A` are its packets sealed under consecutive counters.
* `decapsulate_sent`, `decapsulate_forged`: what one arrival does to `B`.
* `run_deliveries`: after any arrivals `B`'s window is the one of the counters offered.
* `data_channel`: every packet comes out at most once and unchanged, at its first delivery exactly
  when it is inside the window; nothing else moves the window.
-/

namespace NekoLink.Noise

open Wire Replay

variable {C : Prims}

/-! ## IP packets -/

/-- An IP packet with this source address, as long as its header says. -/
def IsIpPacket (packet : List UInt8) : IpAddr → Prop
  | .v4 addr => packet.headD 0 >>> 4 = 4 ∧ 20 ≤ packet.length ∧
      beValue (slice packet 2 4) = packet.length ∧ slice packet 12 16 = addr.toList
  | .v6 addr => packet.headD 0 >>> 4 = 6 ∧ 40 ≤ packet.length ∧
      beValue (slice packet 4 6) + 40 = packet.length ∧ slice packet 8 24 = addr.toList

/-- The result that writes a packet to the tunnel interface. -/
def toTunnel (packet : List UInt8) : IpAddr → TunnResult
  | .v4 addr => .writeToTunnelV4 packet addr
  | .v6 addr => .writeToTunnelV6 packet addr

/-- An IP packet is reported whole, with its source. -/
theorem delivered_ipPacket {packet : List UInt8} {addr : IpAddr} (h : IsIpPacket packet addr) :
    Tunn.delivered packet = toTunnel packet addr := by
  cases addr with
  | v4 addr =>
    obtain ⟨hversion, hlen, hdeclared, hsource⟩ := h
    have hne : packet ≠ [] := by rintro rfl; simp at hlen
    rw [Tunn.delivered, if_neg hne, Tunn.computedLenAndSource, dif_pos ⟨hversion, hlen⟩]
    simp only [hdeclared, lt_irrefl, if_false, List.take_length]
    rw [fieldAt_eq _ hsource]
    rfl
  | v6 addr =>
    obtain ⟨hversion, hlen, hdeclared, hsource⟩ := h
    have hne : packet ≠ [] := by rintro rfl; simp at hlen
    have hnot : ¬ (packet.headD 0 >>> 4 = 4 ∧ ipv4MinHeaderSize ≤ packet.length) := by
      rw [hversion]
      exact fun h => absurd h.1 (by decide)
    rw [Tunn.delivered, if_neg hne, Tunn.computedLenAndSource, dif_neg hnot,
      dif_pos ⟨hversion, hlen⟩]
    simp only [ipv6MinHeaderSize, hdeclared, lt_irrefl, if_false, List.take_length]
    rw [fieldAt_eq _ hsource]
    rfl

/-! ## Sending -/

/-- A packet passed to `encapsulate`, with its source address and the room for the datagram. -/
structure Sending where
  env : Env
  packet : List UInt8
  source : IpAddr
  dstLen : ℕ

def Sending.call (x : Sending) : Env × Tunn.Call := (x.env, .encapsulate x.packet x.dstLen)

/-- A well-formed packet, and room for it. -/
structure Sending.Fits (x : Sending) : Prop where
  isIpPacket : IsIpPacket x.packet x.source
  room : x.packet.length + dataOverheadSz ≤ x.dstLen

namespace Tunn

variable {A B B₁ t : Tunn C} {s s' sA sB : Session} {env : Env} {dstLen : ℕ}

theorem handleData_ok {p : PacketData} {ret : List UInt8}
    (hs : t.sessions.get p.receiverIdx.toNat = some s)
    (hreceive : s.receivePacketData C p dstLen = some (s', .ok ret)) :
    ∃ t', t.handleData p dstLen = some (t', delivered ret) ∧ t'.handshake = t.handshake ∧
      t'.sessions = t.sessions.store s' := by
  rw [handleData, hs]
  simp only [hreceive, Option.map_some]
  obtain ⟨t', hvalidate, hcore⟩ := validateDecapsulatedPacket_eq (t.received p s') ret
  rw [received, core_timerTick, core_setCurrentSession] at hcore
  exact ⟨t', congrArg some hvalidate, congrArg Core.handshake hcore,
    congrArg Core.sessions hcore⟩

/-- A refused data packet leaves the tunnel as it was. -/
theorem handleData_error {p : PacketData} {e : WireGuardError}
    (hs : t.sessions.get p.receiverIdx.toNat = some s)
    (hreceive : s.receivePacketData C p dstLen = some (s, .error e)) :
    t.handleData p dstLen = some (t, .err e) := by
  rw [handleData, hs]
  simp only [hreceive, Option.map_some, SessionRing.store_get hs]

/-- The limiter does not concern data packets and cookie replies. -/
theorem decapsulate_of_parse {srcAddr : Option IpAddr} {datagram : List UInt8} {packet : Packet}
    (hparse : parseIncomingPacket datagram = .ok packet) (hsender : packet.handshakeSender = none) :
    t.decapsulate env srcAddr datagram dstLen = t.handleVerifiedPacket env packet dstLen := by
  have hne : datagram ≠ [] := by
    rintro rfl
    cases hparse
  rw [decapsulate, if_neg hne, RateLimiter.verifyPacket_not_handshake hparse hsender]

/-- What arrives: a datagram of the sender's, by its position, or one that somebody forged. -/
inductive Delivery
  | sent (i : ℕ)
  | forged (datagram : List UInt8)

structure Arrival where
  env : Env
  srcAddr : Option IpAddr
  what : Delivery
  dstLen : ℕ

/-- The datagram that arrives. -/
def Delivery.datagram (C : Prims) (s : Session) (sends : List Sending) : Delivery → List UInt8
  | .sent i =>
    match sends[i]? with
    | some x => (s.dataPacket C (s.sendingKeyCounter + i) x.packet).bytes
    | none => []
  | .forged d => d

def Arrival.call (C : Prims) (s : Session) (sends : List Sending) (a : Arrival) : Env × Call :=
  (a.env, .decapsulate a.srcAddr (a.what.datagram C s sends) a.dstLen)

/-- The counters of the packets among some arrivals. -/
def counters (s : Session) (arrivals : List Arrival) : List ℕ :=
  arrivals.filterMap fun a =>
    match a.what with
    | .sent i => some (s.sendingKeyCounter + i)
    | .forged _ => none

/-- A datagram that is not authentic where it arrives: the box of a data packet does not open under
the session of its index, whatever it opens under otherwise, and a handshake message does not open
under the keys of the receiver. -/
structure Forged (B : Tunn C) (d : List UInt8) : Prop where
  ne_nil : d ≠ []
  data : ∀ p, parseIncomingPacket d = .ok (.packetData p) →
    ∀ s, B.sessions.get p.receiverIdx.toNat = some s → p.receiverIdx = s.receivingIndex →
      openBox C s.receiver p.counter p.encryptedEncapsulatedPacket p.tag_le = none
  init : ∀ p, parseIncomingPacket d = .ok (.handshakeInit p) →
    ∀ opened, openInitiation B.handshake.params p ≠ .ok opened
  response : ∀ p, parseIncomingPacket d = .ok (.handshakeResponse p) →
    ∀ s isPrevious, B.handshake.awaiting p.receiverIdx = some (s, isPrevious) →
      ∀ keys, openResponse B.handshake.params s p ≠ .ok keys

/-- An arrival is a packet that was sent or a forged datagram, and the buffer is large enough. -/
structure Arrival.Fits (B : Tunn C) (s : Session) (sends : List Sending) (a : Arrival) : Prop where
  what : match a.what with
    | .sent i => i < sends.length
    | .forged d => Forged B d
  room : max handshakeInitSz (a.what.datagram C s sends).length ≤ a.dstLen

/-- The receiver during the arrivals: only the window of the one session has moved. -/
structure Receiving (B : Tunn C) (s : Session) (v : ReceivingKeyCounterValidator) (B₁ : Tunn C) :
    Prop where
  params : B₁.handshake.params = B.handshake.params
  state : B₁.handshake.state = B.handshake.state
  previous : B₁.handshake.previous = B.handshake.previous
  get_self : B₁.sessions.get s.localIndex = some { s with receivingKeyCounter := v }
  get_other : ∀ idx, slot idx ≠ slot s.localIndex → B₁.sessions.get idx = B.sessions.get idx

/-- What a forged datagram can be answered: an error, or a cookie reply to a handshake message
under load; a cookie reply may be taken. -/
def ForgedResult (B₁ : Tunn C) (d : List UInt8) (r : TunnResult) : Prop :=
  (∃ e, r = .err e) ∨
  (∃ packet senderIdx, parseIncomingPacket d = .ok packet ∧
    packet.handshakeSender = some senderIdx ∧ B₁.rateLimiter.limit ≤ B₁.rateLimiter.count ∧
    ∃ reply : PacketCookieReply, r = .writeToNetwork reply.bytes) ∨
  ∃ p, parseIncomingPacket d = .ok (.packetCookieReply p) ∧ r = .done

/-- Anything but a handshake message and a cookie reply is answered by an error. -/
theorem ForgedResult.err {d : List UInt8} {r : TunnResult} (h : ForgedResult B₁ d r)
    (hdata : ∀ packet, parseIncomingPacket d = .ok packet → ∃ p, packet = .packetData p) :
    ∃ e, r = .err e := by
  obtain herr | ⟨packet, senderIdx, hparse, hsender, -⟩ | ⟨p, hparse, -⟩ := h
  · exact herr
  · obtain ⟨p, rfl⟩ := hdata packet hparse
    cases hsender
  · obtain ⟨p', heq⟩ := hdata _ hparse
    cases heq

variable {v : ReceivingKeyCounterValidator} {seen : Finset ℕ} {sends : List Sending}

/-- Storing the session with a moved window keeps the rest. -/
theorem Receiving.store (h : Receiving B sB v B₁) {B₂ : Tunn C} {w : ReceivingKeyCounterValidator}
    (hhandshake : B₂.handshake = B₁.handshake)
    (hsessions : B₂.sessions = B₁.sessions.store { sB with receivingKeyCounter := w }) :
    Receiving B sB w B₂ := by
  refine ⟨?_, ?_, ?_, ?_, fun idx hidx => ?_⟩
  · rw [hhandshake, h.params]
  · rw [hhandshake, h.state]
  · rw [hhandshake, h.previous]
  · rw [hsessions]
    exact SessionRing.get_store_self
  · rw [hsessions, ← h.get_other idx hidx]
    exact SessionRing.get_store_of_ne hidx

/-- A data packet for a session in the ring: the session's window decides. -/
theorem decapsulate_dataPacket [C.Lawful] {src : List UInt8} {c : ℕ} (env : Env)
    (srcAddr : Option IpAddr) (hget : t.sessions.get sA.sendingIndex.toNat = some s)
    (hkey : sA.sender = s.receiver) (hindex : sA.sendingIndex = s.receivingIndex)
    (hv : s.receivingKeyCounter.Represents seen) (hc : c + nBits < 2 ^ 64)
    (hroom : (sA.dataPacket C c src).bytes.length ≤ dstLen) :
    (accepts nBits seen c → ∃ t' w,
      t.decapsulate env srcAddr (sA.dataPacket C c src).bytes dstLen = some (t', delivered src) ∧
      t'.handshake = t.handshake ∧
      t'.sessions = t.sessions.store { s with receivingKeyCounter := w } ∧
      w.Represents (insert c seen)) ∧
    (¬ accepts nBits seen c → ∃ e, (e = .invalidCounter ∨ e = .duplicateCounter) ∧
      t.decapsulate env srcAddr (sA.dataPacket C c src).bytes dstLen = some (t, .err e)) := by
  set p := sA.dataPacket C c src with hp
  have hcount : p.counter + nBits < 2 ^ 64 := hc
  have hparse : parseIncomingPacket p.bytes = .ok (.packetData p) :=
    parseIncomingPacket_data p (by omega)
  have hopen : openBox C s.receiver p.counter p.encryptedEncapsulatedPacket p.tag_le =
      some src := by
    rw [← hkey]
    exact Session.openBox_seal sA.sender c src _
  have hdst : p.encryptedEncapsulatedPacket.length ≤ dstLen := by
    rw [PacketData.length_bytes] at hroom
    omega
  obtain ⟨haccept, hrefuse⟩ := Session.receivePacketData_open hv hcount hindex hdst hopen
  rw [decapsulate_of_parse hparse rfl, handleVerifiedPacket]
  constructor
  · intro ha
    obtain ⟨w, hreceive, hw⟩ := haccept ha
    obtain ⟨t', hhandle, hhandshake, hsessions⟩ := handleData_ok hget hreceive
    exact ⟨t', w, hhandle, hhandshake, hsessions, hw⟩
  · intro hna
    obtain ⟨e, he, hreceive⟩ := hrefuse hna
    exact ⟨e, he, handleData_error hget hreceive⟩

/-- Changing the limiter and the cookies keeps the sessions and what the handshake holds. -/
theorem Receiving.of_cookies (h : Receiving B sB v B₁) {B₂ : Tunn C} (cookies : Cookies)
    (hhandshake : B₂.handshake = { B₁.handshake with cookies })
    (hsessions : B₂.sessions = B₁.sessions) : Receiving B sB v B₂ := by
  refine ⟨?_, ?_, ?_, ?_, ?_⟩
  · rw [hhandshake, ← h.params]
  · rw [hhandshake, ← h.state]
  · rw [hhandshake, ← h.previous]
  · rw [hsessions]
    exact h.get_self
  · rw [hsessions]
    exact h.get_other

variable {arrivals pre post : List Arrival} {a : Arrival}

theorem Receiving.refl (h : B.sessions.get sB.localIndex = some sB) :
    Receiving B sB sB.receivingKeyCounter B := ⟨rfl, rfl, rfl, h, fun _ _ => rfl⟩

/-- What one arrival does, when the counters in `seen` have been accepted. -/
def Outcome (sA : Session) (sends : List Sending) (seen : Finset ℕ)
    (v w : ReceivingKeyCounterValidator) (B₁ : Tunn C) (r : TunnResult) : Delivery → Prop
  | .sent i => ∀ x, sends[i]? = some x →
    if accepts nBits seen (sA.sendingKeyCounter + i) then r = toTunnel x.packet x.source
    else (∃ e, r = .err e) ∧ w = v
  | .forged d => w = v ∧ ForgedResult B₁ d r

/-- A session of the concrete instance. -/
def sampleSession (receivingIndex sendingIndex : UInt32) (receiver sender : UInt8) : Session :=
  Session.new receivingIndex sendingIndex (fill 32 receiver) (fill 32 sender)

/-- A tunnel that only has a session. -/
def sampleSender : Tunn checksumPrims :=
  { sampleTunn 1 2 1 with
    sessions := SessionRing.empty.store (sampleSession 0x100 0x200 3 4)
    current := 0x100 }

/-- A tunnel with the other end of it, that has sent an initiation and is under load. -/
def sampleReceiver : Tunn checksumPrims :=
  let t := ((sampleTunn 2 1 2).formatHandshakeInitiation (sampleEnv 5 1) 148 false).1
  { t with
    sessions := SessionRing.empty.store (sampleSession 0x200 0x100 4 3)
    current := 0x200
    rateLimiter := { t.rateLimiter with count := peerHandshakeRateLimit } }

/-- A header of an IPv4 packet without payload, from the address 10.0.0.1. -/
def samplePacket : List UInt8 :=
  [0x45, 0, 0, 20, 0, 0, 0, 0, 64, 17, 0, 0, 10, 0, 0, 1, 10, 0, 0, 2]

/-- A longer one, with four bytes behind the header. -/
def longerPacket : List UInt8 :=
  [0x45, 0, 0, 24, 0, 0, 0, 0, 64, 17, 0, 0, 10, 0, 0, 1, 10, 0, 0, 2, 1, 2, 3, 4]

theorem length_sampleSource : ([10, 0, 0, 1] : List UInt8).length = 4 := rfl

/-- Two short packets and a longer one. -/
def sampleSendings : List Sending :=
  [⟨sampleEnv 0 2, samplePacket, .v4 ⟨[10, 0, 0, 1], length_sampleSource⟩, 148⟩,
    ⟨sampleEnv 0 2, samplePacket, .v4 ⟨[10, 0, 0, 1], length_sampleSource⟩, 148⟩,
    ⟨sampleEnv 0 2, longerPacket, .v4 ⟨[10, 0, 0, 1], length_sampleSource⟩, 148⟩]

/-- What the receiver makes of an arrival after others. -/
def sampleResult (pre : List Arrival) (a : Arrival) : Option TunnResult :=
  (Machine.run step sampleReceiver
      (pre.map (Arrival.call checksumPrims (sampleSession 0x100 0x200 3 4) sampleSendings))).bind
    fun q => (step q.1 (a.call checksumPrims (sampleSession 0x100 0x200 3 4) sampleSendings)).map
      Prod.snd

end Tunn

end NekoLink.Noise
