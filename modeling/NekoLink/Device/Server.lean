import NekoLink.Device.Network
import NekoLink.Device.TcpHandler
import NekoLink.Device.UdpHandler

/-!
# The device and its sockets

The handlers of `device/mod.rs` and the requests of `device/api.rs` together on the tables of the
device and on its sockets. Handlers hold a read lock and take turns by the packet; a request holds
the write lock, so it finds no handler at work. Of these only the handlers of connected sockets
differ by being at work, since one may still read a socket that another thread shuts down.

* `Touches`: what packets do to the tables.
* `Server.step`: one packet, one request, or one event of the sockets.
-/

namespace NekoLink.Device

open Wire Noise Routing

variable {C : Prims} {T : Type → Type} [Table T IpNetwork IpAddr]

/-! ## Packets and their peers -/

/-- The peer that a packet is given to, and the packet. -/
def receiver (d : Device C T) (keyPair : KeyPair C) (limiter : RateLimiter) (env : Env)
    (addr : IpAddr) (src : List UInt8) : Option (PeerRef × Packet) :=
  match (d.verify keyPair limiter env addr src).2 with
  | .packet i packet => some (i, packet)
  | .cookie _ | .refused | .unknown => none

/-- The peer's tunnel handles the packet without an error. -/
def handles (d : Device C T) (i : PeerRef) (env : Env) (packet : Packet) : Bool :=
  match d.step (.peer i (.handleVerifiedPacket env packet maxUdpSize)) with
  | none | some (_, .err _) => false
  | some _ => true

/-- The same in a segment that a UDP handler reads. -/
def segmentReceiver (d : Device C T) (ipProtocol : Option UInt8) (env : Env) (addr : SocketAddr)
    (segment : List UInt8) : Option (PeerRef × Packet) :=
  match d.keyPair, d.rateLimiter, payload ipProtocol addr segment with
  | some keyPair, some limiter, some packet => d.receiver keyPair limiter env addr.ip packet
  | _, _, _ => none

/-- A whole packet of a stream; without a private key the handler does nothing. -/
def handleStreamPacket (d : Device C T) (envs : ℕ → Env) (endpoint : SocketAddr)
    (packet : List UInt8) : Option (Device C T × List Sent) :=
  match d.keyPair, d.rateLimiter with
  | some keyPair, some limiter =>
    (d.handlePacket keyPair limiter envs endpoint packet).map fun (d, sent, _) => (d, sent)
  | _, _ => some (d, [])

def streamReceiver (d : Device C T) (env : Env) (endpoint : SocketAddr) (packet : List UInt8) :
    Option (PeerRef × Packet) :=
  match d.keyPair, d.rateLimiter with
  | some keyPair, some limiter => d.receiver keyPair limiter env endpoint.ip packet
  | _, _ => none

/-- One packet of a connected socket. -/
def connPacket (d : Device C T) (ipProtocol : Option UInt8) (peer : PeerRef) (peerAddr : IpAddr)
    (envs : ℕ → Env) (src : List UInt8) : Option (Device C T × List Sent) :=
  match payload ipProtocol (.new peerAddr 0) src with
  | none => some (d, [])
  | some data =>
    if data.head? = some 0x99 then some (d, []) -- Silently ignore signaling packets
    else
      (d.step (.peer peer (.tunnel (envs 0) (.decapsulate (some peerAddr) data maxUdpSize)))).bind
        fun (d, res) =>
          match res with
          | .done | .err _ => some (d, [])
          | .writeToNetwork packet =>
            (flushQueue peer (d.rounds peer) (fun k => envs (k + 1)) d).map fun (d, queued) =>
              (d, .reply packet :: queued)
          | .writeToTunnelV4 packet addr => some (d, d.toTunnel peer packet (.v4 addr))
          | .writeToTunnelV6 packet addr => some (d, d.toTunnel peer packet (.v6 addr))

/-- The packet that the peer's tunnel finds in it, which its own limiter lets pass. -/
def connReceived (d : Device C T) (ipProtocol : Option UInt8) (peer : PeerRef) (peerAddr : IpAddr)
    (env : Env) (src : List UInt8) : Option Packet :=
  match d.lock peer, payload ipProtocol (.new peerAddr 0) src with
  | some p, some data =>
    if data.head? = some 0x99 ∨ data = [] then none
    else
      match (p.tunnel.rateLimiter.verifyPacket C (some peerAddr) data cookieReplySz env.cookie).2 with
      | .ok packet => some packet
      | .error _ => none
  | _, _ => none

/-! ## The state -/

/-- A handler of a connected socket that is at work. -/
structure ConnCall where
  sock : Socket
  peer : PeerRef
  peerAddr : IpAddr

structure Server (C : Prims) (T : Type → Type) where
  device : Device C T
  net : Network
  reading : List ConnCall
  ipProtocol : Option UInt8
  useConnectedSocket : Bool

/-- Where a packet of the interface goes. -/
inductive Route
  | sendTo (sock : Socket) (addr : SocketAddr)
  | conn (sock : Socket)
  | stream (sock : Socket)

/-- What comes of a step. -/
inductive Report
  | quiet
  /-- A packet was given to the tunnel of a peer, and this was sent. -/
  | received (peer : PeerRef) (sent : List Sent)
  /-- A packet of the interface was encapsulated for a peer; `none` means that it was not sent. -/
  | routed (peer : PeerRef) (route : Option Route) (packet : List UInt8)

inductive Input
  /-- A line of a request. -/
  | request (op : Op)
  | listenPort (port : UInt16) (opening : Opening)
  /-- A UDP handler reads a segment; a connected socket may be opened for its peer. -/
  | datagram (fd : Fd) (envs : ℕ → Env) (addr : SocketAddr) (segment : List UInt8)
    (opened : Option Opened)
  /-- The handler of a connected socket is called, reads a packet, and returns. -/
  | connCall (fd : Fd)
  | connPacket (n : ℕ) (envs : ℕ → Env) (src : List UInt8)
  | connReturn (n : ℕ)
  | accept (fd : Fd) (accepted : Accepted)
  /-- A stream handler takes a whole packet from its framing buffer. -/
  | streamPacket (fd : Fd) (envs : ℕ → Env) (packet : List UInt8) (conns : ℕ → Option Connecting)
  | streamEnd (fd : Fd)
  | hangUp (fd : Fd)
  /-- The timer function of a peer. -/
  | timer (i : PeerRef) (env : Env)
  | resetCount (now : ℕ)
  /-- A packet is read from the interface. -/
  | tun (env : Env) (src : List UInt8) (conn : Option Connecting)

namespace Server

/-- The peers of the device. -/
def peers (d : Device C T) : List PeerRef := d.peers.entries.map Sigma.snd

variable (s : Server C T)

/-! ## Requests -/

/-- Calls on one peer come from handlers. -/
def isRequest : Op → Bool
  | .peer .. => false
  | .updatePeer .. | .removePeer .. | .clearPeers | .setKey .. => true

/-- The key of a peer that is removed. -/
def removedKey : Op → Option (Bytes 32)
  | .updatePeer _ pubKey true .. | .removePeer pubKey => some pubKey
  | _ => none

/-- The endpoint of a peer that is removed is shut down; nothing is when all are cleared. -/
def commandNet (op : Op) : Network :=
  match (removedKey op).bind fun pubKey => s.device.peers.lookup pubKey with
  | some i => s.net.shutdownEndpoint i
  | none => s.net

/-- A line of a request. -/
def command (op : Op) : Option (Server C T) :=
  if isRequest op then
    (s.device.step op).map fun (device, _) => { s with device, net := s.commandNet op }
  else none

/-! ## Packets from the network -/

/-- `set_endpoint` and `connect_endpoint` on the sockets. -/
def moveEndpoint (i : PeerRef) (addr : SocketAddr) (opened : Option Opened) : Option Network :=
  let net := if s.device.endpointAt i = some addr then s.net else s.net.shutdownEndpoint i
  if s.useConnectedSocket then (net.step (.connectEndpoint i addr opened)).map Prod.fst
  else some net

def datagram (envs : ℕ → Env) (addr : SocketAddr) (segment : List UInt8)
    (opened : Option Opened) : Option (Server C T × Report) :=
  (s.device.handleSegment s.ipProtocol envs addr segment).bind fun (device, sent) =>
    match s.device.segmentReceiver s.ipProtocol (envs 0) addr segment with
    | none => some ({ s with device }, .quiet)
    | some (i, packet) =>
      if s.device.handles i (envs 1) packet then
        (s.moveEndpoint i addr.finalAddr opened).map fun net =>
          ({ s with device, net }, .received i sent)
      else some ({ s with device }, .received i sent)

/-- What the stream handler sends to its endpoint goes through the connection map. -/
def connectFor (endpoint : SocketAddr) :
    List Sent → (ℕ → Option Connecting) → Network → Option Network
  | [], _, net => some net
  | .reply _ :: sent, conns, net | .queued _ :: sent, conns, net =>
    (net.step (.maybeConnectTcp endpoint (conns 0))).bind fun (net, _) =>
      connectFor endpoint sent (fun k => conns (k + 1)) net
  | .cookie _ :: sent, conns, net | .tunnel _ :: sent, conns, net =>
    connectFor endpoint sent conns net

def streamPacket (envs : ℕ → Env) (endpoint : SocketAddr) (packet : List UInt8)
    (conns : ℕ → Option Connecting) : Option (Server C T × Report) :=
  (s.device.handleStreamPacket envs endpoint packet).bind fun (device, sent) =>
    (connectFor endpoint sent conns s.net).map fun net =>
      ({ s with device, net },
        match s.device.streamReceiver (envs 0) endpoint packet with
        | none => .quiet
        | some (i, _) => .received i sent)

/-! ## Packets from the interface -/

/-- The socket for a packet to a peer, in TCP mode and in the others. -/
def route (device : Device C T) (i : PeerRef) (conn : Option Connecting) :
    Option (Network × Option Route) :=
  match device.transportMode with
  | .tcp =>
    match device.endpointAt i with
    | none => some (s.net, none)
    | some endpoint =>
      (s.net.step (.maybeConnectTcp endpoint conn)).map fun (net, stream) =>
        (net, stream.map Route.stream)
  | .udp | .rawIp =>
    match s.net.conns.lookup i, device.endpointAt i with
    | some conn, _ => some (s.net, some (.conn conn)) -- Prefer to send using the connected socket
    | none, some addr =>
      let udp := if addr.isIpv4 then s.net.udp4 else s.net.udp6
      some (s.net, udp.map fun sock => .sendTo sock addr)
    | none, none => some (s.net, none) -- No endpoint

def tun (env : Env) (src : List UInt8) (conn : Option Connecting) :
    Option (Server C T × Report) :=
  match (dstAddress src).bind s.device.peersByIp.find with
  | none => some (s, .quiet)
  | some i =>
    (s.device.step (.peer i (.tunnel env (.encapsulate src maxUdpSize)))).bind fun (device, res) =>
      match res with
      | .done | .err _ => some ({ s with device }, .quiet)
      | .writeToNetwork packet =>
        (s.route device i conn).map fun (net, route) =>
          ({ s with device, net }, .routed i route packet)
      | .writeToTunnelV4 .. | .writeToTunnelV6 .. => none -- Unexpected result from encapsulate

/-! ## Timers -/

/-- The timer function of a peer; an expired connection closes the connected socket. -/
def timer (i : PeerRef) (env : Env) : Option (Server C T) :=
  if s.net.udp4.isNone ∧ s.net.udp6.isNone ∨ (s.device.endpointAt i).isNone then some s
  else
    (s.device.step (.peer i (.tunnel env (.updateTimers maxUdpSize)))).map fun (device, res) =>
      let net := if res = .err .connectionExpired then s.net.shutdownEndpoint i else s.net
      { s with device, net }

/-! ## Steps -/

/-- The events of the sockets; a datagram socket hangs up when it has been shut down. -/
def socketEvent (op : Network.Op) : Option (Server C T × Report) :=
  (s.net.step op).map fun (net, _) => ({ s with net }, .quiet)

def step (s : Server C T) : Input → Option (Server C T × Report)
  | .request op =>
    if s.reading = [] then (s.command op).map fun s => (s, .quiet) else none
  | .listenPort port opening =>
    if s.reading = [] then
      s.socketEvent (.openListenSocket s.device.transportMode port (peers s.device) opening)
    else none
  | .datagram fd envs addr segment opened =>
    match s.net.ready fd with
    | some (.udp _) => s.datagram envs addr segment opened
    | _ => none
  | .connCall fd =>
    match s.net.ready fd with
    | some (.conn sock peer peerAddr) =>
      if sock.file ∈ s.net.shut ∨ sock ∈ s.reading.map ConnCall.sock then none
      else some ({ s with reading := ⟨sock, peer, peerAddr⟩ :: s.reading }, .quiet)
    | _ => none
  | .connPacket n envs src =>
    s.reading[n]?.bind fun call =>
      (s.device.connPacket s.ipProtocol call.peer call.peerAddr envs src).map fun (device, sent) =>
        ({ s with device }, .received call.peer sent)
  | .connReturn n => some ({ s with reading := s.reading.eraseIdx n }, .quiet)
  | .accept fd accepted => s.socketEvent (.accept fd accepted)
  | .streamPacket fd envs packet conns =>
    match s.net.ready fd with
    | some (.tcpStream sock endpoint) =>
      if sock.file ∈ s.net.ended then none else s.streamPacket envs endpoint packet conns
    | _ => none
  | .streamEnd fd => s.socketEvent (.streamEnd fd)
  | .hangUp fd =>
    match s.net.ready fd with
    | some (.conn sock _ _) =>
      if sock.file ∈ s.net.shut ∧ sock ∉ s.reading.map ConnCall.sock then
        s.socketEvent (.hangUp fd)
      else none
    | _ => s.socketEvent (.hangUp fd)
  | .timer i env => if i ∈ peers s.device then (s.timer i env).map fun s => (s, .quiet) else none
  | .resetCount now =>
    let device := { s.device with
      rateLimiter := s.device.rateLimiter.map fun r => r.resetCount now }
    some ({ s with device }, .quiet)
  | .tun env src conn => s.tun env src conn

/-- `Device::new`, before it listens. -/
def new (queue : EventPoll SocketHandler) (nextIndex : IndexLfsr) (transportMode : TransportMode)
    (ipProtocol : Option UInt8) (useConnectedSocket : Bool) : Server C T where
  device := Device.new nextIndex transportMode
  net := .new queue
  reading := []
  ipProtocol := ipProtocol
  useConnectedSocket := useConnectedSocket

end Server

/-! ## What packets do to the tables -/

/-- The peers in the heap change in what is their own, and the rate limiter changes. -/
def Touches (d d' : Device C T) : Prop :=
  ∃ heap rateLimiter, d' = { d with heap, rateLimiter } ∧ Touched d.heap heap

section Touches

variable {d d' d'' : Device C T} {i : PeerRef} {r : TunnResult} {sent : List Sent}
  {envs : ℕ → Env} {src : List UInt8}

omit [Table T IpNetwork IpAddr] in
theorem Touches.refl (d : Device C T) : d.Touches d := ⟨d.heap, d.rateLimiter, rfl, .refl _⟩

omit [Table T IpNetwork IpAddr] in
theorem Touches.trans (h : d.Touches d') (h' : d'.Touches d'') : d.Touches d'' := by
  obtain ⟨heap, rateLimiter, rfl, htouched⟩ := h
  obtain ⟨heap', rateLimiter', rfl, htouched'⟩ := h'
  exact ⟨heap', rateLimiter', rfl, htouched.trans htouched'⟩

omit [Table T IpNetwork IpAddr] in
theorem touches_limiter (d : Device C T) (rateLimiter : Option RateLimiter) :
    d.Touches { d with rateLimiter } := ⟨d.heap, rateLimiter, rfl, .refl _⟩

theorem touches_step {call : PeerCall} (h : d.step (.peer i call) = some (d', r)) :
    d.Touches d' := by
  obtain ⟨p, p', hlock, hstep, rfl⟩ := step_peer h
  exact ⟨_, d.rateLimiter, rfl, .set hlock (Peer.step_keeps hstep).1⟩

theorem touches_flushQueue {n : ℕ} (h : flushQueue i n envs d = some (d', sent)) :
    d.Touches d' := by
  induction n generalizing envs d d' sent with
  | zero =>
    cases h
    exact .refl d
  | succ n ih =>
    obtain ⟨⟨d₁, res⟩, hnext, hrest⟩ := Option.bind_eq_some_iff.mp h
    have hfirst := touches_step hnext
    cases res with
    | writeToNetwork packet =>
      obtain ⟨⟨d₂, sent₂⟩, hflush, heq⟩ := Option.map_eq_some_iff.mp hrest
      cases heq
      exact hfirst.trans (ih hflush)
    | done | err | writeToTunnelV4 | writeToTunnelV6 =>
      cases hrest
      exact hfirst

/-- After the tunnel's answer only its queue is sent. -/
theorem touches_connPacket {ipProtocol : Option UInt8} {peerAddr : IpAddr}
    (h : d.connPacket ipProtocol i peerAddr envs src = some (d', sent)) :
    d.Touches d' ∧ d'.endpointAt = d.endpointAt := by
  rw [connPacket] at h
  split at h
  · cases h
    exact ⟨.refl d, rfl⟩
  · split_ifs at h
    · cases h
      exact ⟨.refl d, rfl⟩
    · obtain ⟨⟨d₁, res⟩, hcall, h⟩ := Option.bind_eq_some_iff.mp h
      have hfirst := touches_step hcall
      have hkeep := endpointAt_step hcall fun addr heq => by cases heq
      cases res with
      | writeToNetwork packet =>
        obtain ⟨⟨d₂, queued⟩, hflush, heq⟩ := Option.map_eq_some_iff.mp h
        cases heq
        exact ⟨hfirst.trans (touches_flushQueue hflush),
          (endpointAt_flushQueue hflush).trans hkeep⟩
      | done | err | writeToTunnelV4 | writeToTunnelV6 =>
        cases h
        exact ⟨hfirst, hkeep⟩

theorem touches_handleStreamPacket {endpoint : SocketAddr}
    (h : d.handleStreamPacket envs endpoint src = some (d', sent)) :
    d.Touches d' ∧ d'.endpointAt = d.endpointAt := by
  rw [handleStreamPacket] at h
  split at h
  · next keyPair limiter hkey hlimiter =>
    obtain ⟨⟨d₁, sent₁, counted⟩, hpacket, heq⟩ := Option.map_eq_some_iff.mp h
    cases heq
    rw [handlePacket] at hpacket
    obtain ⟨limiter', hdevice⟩ := verify_device d keyPair limiter (envs 0) endpoint.ip src
    rcases hverify : d.verify keyPair limiter (envs 0) endpoint.ip src with ⟨d₂, verified⟩
    rw [hverify] at hpacket hdevice
    obtain rfl : d₂ = { d with rateLimiter := limiter' } := hdevice
    have hlimiter := touches_limiter d limiter'
    cases verified with
    | cookie | refused | unknown =>
      cases hpacket
      exact ⟨hlimiter, rfl⟩
    | packet i packet =>
      obtain ⟨⟨d₃, res⟩, hhandle, hpacket⟩ := Option.bind_eq_some_iff.mp hpacket
      obtain ⟨⟨d₄, queued⟩, hflush, heq⟩ := Option.map_eq_some_iff.mp hpacket
      cases heq
      have hkeep := endpointAt_step hhandle fun addr heq => by cases heq
      exact ⟨(hlimiter.trans (touches_step hhandle)).trans (touches_flushQueue hflush),
        (endpointAt_flushQueue hflush).trans hkeep⟩
  · cases h
    exact ⟨.refl d, rfl⟩

/-- The tables are touched, and the endpoint of the peer becomes the address that the packet came
from exactly when the peer handles it. -/
structure Arrives (d d' : Device C T) (received : Option (PeerRef × Packet)) (env : Env)
    (addr : SocketAddr) : Prop where
  touches : d.Touches d'
  moved : ∀ i packet, received = some (i, packet) → d.handles i env packet = true →
    d'.endpointAt = Function.update d.endpointAt i (some addr.finalAddr)
  kept : (∀ i packet, received = some (i, packet) → d.handles i env packet = false) →
    d'.endpointAt = d.endpointAt

theorem arrives_handleDatagram {keyPair : KeyPair C} {limiter : RateLimiter} {addr : SocketAddr}
    (h : d.handleDatagram keyPair limiter envs addr src = some (d', sent)) :
    d.Arrives d' (d.receiver keyPair limiter (envs 0) addr.ip src) (envs 1) addr := by
  rw [handleDatagram] at h
  obtain ⟨limiter', hdevice⟩ := verify_device d keyPair limiter (envs 0) addr.ip src
  rw [receiver]
  rcases hverify : d.verify keyPair limiter (envs 0) addr.ip src with ⟨d₁, verified⟩
  rw [hverify] at h hdevice
  obtain rfl : d₁ = { d with rateLimiter := limiter' } := hdevice
  have hlimiter := touches_limiter d limiter'
  cases verified with
  | cookie | refused | unknown =>
    cases h
    exact ⟨hlimiter, fun _ _ hnone => (by cases hnone), fun _ => rfl⟩
  | packet i packet =>
    obtain ⟨⟨d₂, res⟩, hhandle, h⟩ := Option.bind_eq_some_iff.mp h
    have hkeep := endpointAt_step hhandle fun addr heq => by cases heq
    have hsecond := hlimiter.trans (touches_step hhandle)
    obtain ⟨p, p', hlock, hcall, -⟩ := step_peer hhandle
    have hstep : d.step (.peer i (.handleVerifiedPacket (envs 1) packet maxUdpSize)) =
        some ({ d with heap := d.heap.set i p' }, res) := step_peer_of_lock hlock hcall
    by_cases herr : ∃ e, res = .err e
    · obtain ⟨e, rfl⟩ := herr
      cases h
      refine ⟨hsecond, fun j pkt heq hhandles => ?_, fun _ => hkeep⟩
      cases heq
      rw [handles, hstep] at hhandles
      cases hhandles
    · -- every result but an error sets the endpoint
      have hhandles : d.handles i (envs 1) packet = true := by
        rw [handles, hstep]
        cases res with
        | err e => exact absurd ⟨e, rfl⟩ herr
        | done | writeToNetwork | writeToTunnelV4 | writeToTunnelV6 => rfl
      have hset : ∀ {d₃ : Device C T} {r : TunnResult},
          d₂.step (.peer i (.setEndpoint addr.finalAddr)) = some (d₃, r) →
          d₃.endpointAt = Function.update d.endpointAt i (some addr.finalAddr) :=
        fun hstep => (endpointAt_setEndpoint hstep).trans (by rw [hkeep]; rfl)
      have hmoved : d.Touches d' ∧
          d'.endpointAt = Function.update d.endpointAt i (some addr.finalAddr) := by
        cases res with
        | err e => exact absurd ⟨e, rfl⟩ herr
        | writeToNetwork reply =>
          obtain ⟨⟨d₃, r₃⟩, hmove, hrest⟩ := Option.bind_eq_some_iff.mp h
          obtain ⟨⟨d₄, queued⟩, hflush, heq⟩ := Option.map_eq_some_iff.mp hrest
          cases heq
          exact ⟨(hsecond.trans (touches_step hmove)).trans (touches_flushQueue hflush),
            (endpointAt_flushQueue hflush).trans (hset hmove)⟩
        | done | writeToTunnelV4 | writeToTunnelV6 =>
          obtain ⟨⟨d₃, r₃⟩, hmove, hrest⟩ := Option.bind_eq_some_iff.mp h
          cases hrest
          exact ⟨hsecond.trans (touches_step hmove), hset hmove⟩
      refine ⟨hmoved.1, fun j pkt heq _ => ?_, fun hnone => ?_⟩
      · cases heq
        exact hmoved.2
      · rw [hnone i packet rfl] at hhandles
        cases hhandles

/-- A packet for nobody. -/
theorem arrives_none (env : Env) (addr : SocketAddr) : d.Arrives d none env addr :=
  ⟨.refl d, fun _ _ hnone => (by cases hnone), fun _ => rfl⟩

/-- **What a segment does.** -/
theorem arrives_handleSegment {ipProtocol : Option UInt8} {addr : SocketAddr}
    (h : d.handleSegment ipProtocol envs addr src = some (d', sent)) :
    d.Arrives d' (d.segmentReceiver ipProtocol (envs 0) addr src) (envs 1) addr := by
  rw [handleSegment] at h
  rw [segmentReceiver]
  rcases hkey : d.keyPair with _ | keyPair
  · rw [hkey] at h
    cases h
    exact arrives_none ..
  · rcases hlimiter : d.rateLimiter with _ | limiter
    · rw [hkey, hlimiter] at h
      cases h
      exact arrives_none ..
    · rcases hpayload : payload ipProtocol addr src with _ | packet
      · rw [hkey, hlimiter, hpayload] at h
        cases h
        exact arrives_none ..
      · rw [hkey, hlimiter, hpayload] at h
        exact arrives_handleDatagram h

omit [Table T IpNetwork IpAddr] in
theorem Touches.isPeer_iff (h : d.Touches d') : d'.IsPeer i ↔ d.IsPeer i := by
  obtain ⟨heap, rateLimiter, rfl, -⟩ := h
  exact Iff.rfl

omit [Table T IpNetwork IpAddr] in
theorem Touches.transportMode_eq (h : d.Touches d') : d'.transportMode = d.transportMode := by
  obtain ⟨heap, rateLimiter, rfl, -⟩ := h
  rfl

theorem Touches.consistent (h : d.Touches d') (hd : Consistent d) : Consistent d' := by
  obtain ⟨heap, rateLimiter, rfl, htouched⟩ := h
  exact hd.touch d.keyPair rateLimiter htouched

/-- A packet is given to one of the peers. -/
theorem isPeer_of_receiver {keyPair : KeyPair C} {limiter : RateLimiter} {env : Env} {addr : IpAddr}
    {packet : Packet} (hd : Consistent d)
    (h : d.receiver keyPair limiter env addr src = some (i, packet)) : d.IsPeer i := by
  rw [receiver] at h
  rcases hverify : d.verify keyPair limiter env addr src with ⟨d₁, verified⟩
  rw [hverify] at h
  cases verified with
  | cookie | refused | unknown => cases h
  | packet j packet =>
    cases h
    obtain ⟨-, hidentify, -⟩ := verify_packet hverify
    cases packet with
    | handshakeInit p =>
      rw [identify] at hidentify
      split at hidentify
      · exact ⟨_, hidentify⟩
      · cases hidentify
    | handshakeResponse p | packetCookieReply p | packetData p =>
      exact ((hd.byIdx _ i).mp hidentify).1

theorem isPeer_of_segmentReceiver {ipProtocol : Option UInt8} {env : Env} {addr : SocketAddr}
    {packet : Packet} (hd : Consistent d)
    (h : d.segmentReceiver ipProtocol env addr src = some (i, packet)) : d.IsPeer i := by
  rw [segmentReceiver] at h
  split at h
  · exact isPeer_of_receiver hd h
  · cases h

theorem isPeer_of_streamReceiver {env : Env} {endpoint : SocketAddr} {packet : Packet}
    (hd : Consistent d) (h : d.streamReceiver env endpoint src = some (i, packet)) :
    d.IsPeer i := by
  rw [streamReceiver] at h
  split at h
  · exact isPeer_of_receiver hd h
  · cases h

end Touches

/-! ## What the parts of a step do -/

namespace Server

section Parts

variable {s s' : Server C T} {i : PeerRef} {addr endpoint : SocketAddr} {opened : Option Opened}
  {net : Network} {envs : ℕ → Env} {src : List UInt8} {r : Report}
  {conns : ℕ → Option Connecting} {conn : Option Connecting} {sent : List Sent}

omit [Table T IpNetwork IpAddr] in
theorem moveEndpoint_cases (h : s.moveEndpoint i addr opened = some net) :
    ∃ moved, (s.device.endpointAt i = some addr ∧ moved = s.net ∨
        s.device.endpointAt i ≠ some addr ∧ moved = s.net.shutdownEndpoint i) ∧
      (net = moved ∨ ∃ stream, moved.step (.connectEndpoint i addr opened) = some (net, stream)) := by
  refine ⟨if s.device.endpointAt i = some addr then s.net else s.net.shutdownEndpoint i, ?_, ?_⟩
  · by_cases haddr : s.device.endpointAt i = some addr
    · exact Or.inl ⟨haddr, if_pos haddr⟩
    · exact Or.inr ⟨haddr, if_neg haddr⟩
  · rw [moveEndpoint] at h
    by_cases huse : s.useConnectedSocket = true
    · rw [if_pos huse] at h
      obtain ⟨⟨net', stream⟩, hstep, rfl⟩ := Option.map_eq_some_iff.mp h
      exact Or.inr ⟨stream, hstep⟩
    · rw [if_neg huse] at h
      exact Or.inl (Option.some.inj h).symm

theorem datagram_cases (h : s.datagram envs addr src opened = some (s', r)) :
    ∃ d, s.device.Arrives d (s.device.segmentReceiver s.ipProtocol (envs 0) addr src) (envs 1)
        addr ∧
      (∀ j sent, r = .received j sent → ∃ packet,
        s.device.segmentReceiver s.ipProtocol (envs 0) addr src = some (j, packet)) ∧
      ((∀ j packet, s.device.segmentReceiver s.ipProtocol (envs 0) addr src = some (j, packet) →
          s.device.handles j (envs 1) packet = false) ∧ s' = { s with device := d } ∨
        ∃ j packet net, s.device.segmentReceiver s.ipProtocol (envs 0) addr src = some (j, packet) ∧
          s.device.handles j (envs 1) packet = true ∧
          s.moveEndpoint j addr.finalAddr opened = some net ∧
          s' = { s with device := d, net := net }) := by
  obtain ⟨⟨d, sent⟩, hsegment, h⟩ := Option.bind_eq_some_iff.mp h
  refine ⟨d, arrives_handleSegment hsegment, ?_⟩
  dsimp only at h
  rcases hreceived : s.device.segmentReceiver s.ipProtocol (envs 0) addr src with _ | ⟨j, packet⟩
  · rw [hreceived] at h
    cases h
    exact ⟨fun _ _ heq => (by cases heq), Or.inl ⟨fun _ _ hnone => (by cases hnone), rfl⟩⟩
  · rw [hreceived] at h
    dsimp only at h
    split_ifs at h with hhandles
    · obtain ⟨net, hmove, heq⟩ := Option.map_eq_some_iff.mp h
      cases heq
      refine ⟨fun _ _ heq => ?_, Or.inr ⟨j, packet, net, rfl, hhandles, hmove, rfl⟩⟩
      cases heq
      exact ⟨packet, rfl⟩
    · cases h
      refine ⟨fun _ _ heq => ?_, Or.inl ⟨fun _ _ heq => ?_, rfl⟩⟩
      · cases heq
        exact ⟨packet, rfl⟩
      · cases heq
        exact Bool.eq_false_of_not_eq_true hhandles

theorem streamPacket_cases (h : s.streamPacket envs endpoint src conns = some (s', r)) :
    ∃ d sent net, s.device.Touches d ∧ d.endpointAt = s.device.endpointAt ∧
      connectFor endpoint sent conns s.net = some net ∧
      s' = { s with device := d, net := net } ∧
      ∀ j sent, r = .received j sent → ∃ packet,
        s.device.streamReceiver (envs 0) endpoint src = some (j, packet) := by
  obtain ⟨⟨d, sent⟩, hpacket, h⟩ := Option.bind_eq_some_iff.mp h
  obtain ⟨net, hconnect, heq⟩ := Option.map_eq_some_iff.mp h
  obtain ⟨rfl, rfl⟩ := Prod.mk.inj heq
  obtain ⟨htouches, hkeep⟩ := touches_handleStreamPacket hpacket
  refine ⟨d, sent, net, htouches, hkeep, hconnect, rfl, fun j sent' heq => ?_⟩
  rcases hreceived : s.device.streamReceiver (envs 0) endpoint src with _ | ⟨j', packet⟩
  · rw [hreceived] at heq
    cases heq
  · rw [hreceived] at heq
    cases heq
    exact ⟨packet, rfl⟩

theorem timer_cases {env : Env} (h : s.timer i env = some s') :
    ∃ d, s.device.Touches d ∧ d.endpointAt = s.device.endpointAt ∧
      (s' = { s with device := d } ∨
        s' = { s with device := d, net := s.net.shutdownEndpoint i }) := by
  rw [timer] at h
  split_ifs at h
  · cases h
    exact ⟨s.device, .refl _, rfl, Or.inl rfl⟩
  · obtain ⟨⟨d, res⟩, hstep, rfl⟩ := Option.map_eq_some_iff.mp h
    refine ⟨d, touches_step hstep, endpointAt_step hstep fun addr heq => (by cases heq), ?_⟩
    dsimp only
    split_ifs
    · exact Or.inr rfl
    · exact Or.inl rfl

theorem tun_cases {env : Env} (h : s.tun env src conn = some (s', r)) :
    ∃ d, s.device.Touches d ∧ d.endpointAt = s.device.endpointAt ∧
      (s' = { s with device := d } ∧ r = .quiet ∨
        ∃ i net route packet, (dstAddress src).bind s.device.peersByIp.find = some i ∧
          s.route d i conn = some (net, route) ∧ s' = { s with device := d, net := net } ∧
          r = .routed i route packet) := by
  rw [tun] at h
  split at h
  · cases h
    exact ⟨s.device, .refl _, rfl, Or.inl ⟨rfl, rfl⟩⟩
  · next i hfind =>
    obtain ⟨⟨d, res⟩, hstep, h⟩ := Option.bind_eq_some_iff.mp h
    refine ⟨d, touches_step hstep, endpointAt_step hstep fun addr heq => (by cases heq), ?_⟩
    cases res with
    | done | err =>
      cases h
      exact Or.inl ⟨rfl, rfl⟩
    | writeToNetwork packet =>
      obtain ⟨⟨net, route⟩, hroute, heq⟩ := Option.map_eq_some_iff.mp h
      cases heq
      exact Or.inr ⟨i, net, route, packet, hfind, hroute, rfl, rfl⟩
    | writeToTunnelV4 | writeToTunnelV6 => cases h

omit [Table T IpNetwork IpAddr] in
/-- A packet is routed without a change of the sockets, or over the connection of its endpoint. -/
theorem route_cases {d : Device C T} {route : Option Route}
    (h : s.route d i conn = some (net, route)) :
    net = s.net ∨ ∃ endpoint stream, d.transportMode = .tcp ∧ d.endpointAt i = some endpoint ∧
      s.net.step (.maybeConnectTcp endpoint conn) = some (net, stream) ∧
      route = stream.map Route.stream := by
  rw [Server.route] at h
  split at h
  · next hmode =>
    split at h
    · cases h
      exact Or.inl rfl
    · next endpoint hendpoint =>
      obtain ⟨⟨net', stream⟩, hstep, heq⟩ := Option.map_eq_some_iff.mp h
      cases heq
      exact Or.inr ⟨endpoint, stream, hmode, hendpoint, hstep, rfl⟩
  · split at h <;> cases h <;> exact Or.inl rfl
  · split at h <;> cases h <;> exact Or.inl rfl

end Parts

/-! ## The tables of a run -/

section Tables

variable {s s' : Server C T} {input : Input} {r : Report}

omit [Table T IpNetwork IpAddr] in
theorem device_socketEvent {op : Network.Op} (h : s.socketEvent op = some (s', r)) :
    s' = { s with net := s'.net } ∧ r = .quiet := by
  obtain ⟨⟨net, stream⟩, -, heq⟩ := Option.map_eq_some_iff.mp h
  cases heq
  exact ⟨rfl, rfl⟩

/-- What a step that is not a request does to the tables, and to the handlers at work. -/
structure Handled (s s' : Server C T) (input : Input) : Prop where
  touches : s.device.Touches s'.device
  endpoints : (∀ fd envs addr segment opened, input ≠ .datagram fd envs addr segment opened) →
    s'.device.endpointAt = s.device.endpointAt
  reading : ∀ call ∈ s'.reading, call ∈ s.reading ∨
    ∃ fd, s.net.ready fd = some (.conn call.sock call.peer call.peerAddr) ∧
      call.sock.file ∉ s.net.shut

theorem handled_of_step (hother : ∀ op, input ≠ .request op) (h : s.step input = some (s', r)) :
    s.Handled s' input := by
  have hsocket : ∀ op : Network.Op, s.socketEvent op = some (s', r) → s.Handled s' input := by
    intro op hevent
    rw [(device_socketEvent hevent).1]
    exact ⟨.refl _, fun _ => rfl, fun _ hcall => Or.inl hcall⟩
  cases input with
  | request op => exact (hother op rfl).elim
  | listenPort port opening =>
    rw [step] at h
    split_ifs at h
    exact hsocket _ h
  | datagram fd envs addr segment opened =>
    rw [step] at h
    split at h
    · obtain ⟨d, harrives, -, ⟨-, rfl⟩ | ⟨j, packet, net, -, -, -, rfl⟩⟩ := datagram_cases h
      · exact ⟨harrives.touches, fun hnot => (hnot _ _ _ _ _ rfl).elim,
          fun _ hcall => Or.inl hcall⟩
      · exact ⟨harrives.touches, fun hnot => (hnot _ _ _ _ _ rfl).elim,
          fun _ hcall => Or.inl hcall⟩
    · cases h
  | connCall fd =>
    rw [step] at h
    split at h
    · next sock peer peerAddr hready =>
      split_ifs at h with hbusy
      cases h
      refine ⟨.refl _, fun _ => rfl, fun call hcall => ?_⟩
      obtain rfl | hold := List.mem_cons.mp hcall
      · exact Or.inr ⟨fd, hready, fun hshut => hbusy (Or.inl hshut)⟩
      · exact Or.inl hold
    · cases h
  | connPacket n envs src =>
    obtain ⟨call, -, h⟩ := Option.bind_eq_some_iff.mp h
    obtain ⟨⟨d, sent⟩, hpacket, heq⟩ := Option.map_eq_some_iff.mp h
    cases heq
    obtain ⟨htouches, hkeep⟩ := touches_connPacket hpacket
    exact ⟨htouches, fun _ => hkeep, fun _ hcall => Or.inl hcall⟩
  | connReturn n =>
    cases h
    exact ⟨.refl _, fun _ => rfl,
      fun _ hcall => Or.inl (List.mem_of_mem_eraseIdx hcall)⟩
  | accept fd accepted => exact hsocket _ h
  | streamPacket fd envs packet conns =>
    rw [step] at h
    split at h
    · split_ifs at h
      obtain ⟨d, sent, net, htouches, hkeep, -, rfl, -⟩ := streamPacket_cases h
      exact ⟨htouches, fun _ => hkeep, fun _ hcall => Or.inl hcall⟩
    · cases h
  | streamEnd fd => exact hsocket _ h
  | hangUp fd =>
    rw [step] at h
    split at h
    · split_ifs at h
      exact hsocket _ h
    · exact hsocket _ h
  | timer i env =>
    rw [step] at h
    split_ifs at h
    obtain ⟨s₁, htimer, heq⟩ := Option.map_eq_some_iff.mp h
    cases heq
    obtain ⟨d, htouches, hkeep, rfl | rfl⟩ := timer_cases htimer
    · exact ⟨htouches, fun _ => hkeep, fun _ hcall => Or.inl hcall⟩
    · exact ⟨htouches, fun _ => hkeep, fun _ hcall => Or.inl hcall⟩
  | resetCount now =>
    cases h
    exact ⟨touches_limiter _ _, fun _ => rfl, fun _ hcall => Or.inl hcall⟩
  | tun env src conn =>
    obtain ⟨d, htouches, hkeep, ⟨rfl, -⟩ | ⟨i, net, route, packet, -, -, rfl, -⟩⟩ := tun_cases h
    · exact ⟨htouches, fun _ => hkeep, fun _ hcall => Or.inl hcall⟩
    · exact ⟨htouches, fun _ => hkeep, fun _ hcall => Or.inl hcall⟩

/-- A request is a call on the tables, and everything else touches them. -/
theorem step_device (h : s.step input = some (s', r)) :
    (∃ op res, input = .request op ∧ isRequest op = true ∧ s.reading = [] ∧
      s.device.step op = some (s'.device, res) ∧
      s' = { s with device := s'.device, net := s.commandNet op }) ∨
    (∀ op, input ≠ .request op) ∧ s.Handled s' input := by
  by_cases hcall : ∃ op, input = .request op
  · obtain ⟨op, rfl⟩ := hcall
    rw [step] at h
    split_ifs at h with hreading
    obtain ⟨s₁, hcommand, heq⟩ := Option.map_eq_some_iff.mp h
    cases heq
    rw [command] at hcommand
    split_ifs at hcommand with hrequest
    obtain ⟨⟨d, res⟩, hstep, rfl⟩ := Option.map_eq_some_iff.mp hcommand
    exact Or.inl ⟨op, res, rfl, hrequest, hreading, hstep, rfl⟩
  · rw [not_exists] at hcall
    exact Or.inr ⟨hcall, handled_of_step hcall h⟩

theorem transportMode_of_step (h : s.step input = some (s', r)) :
    s'.device.transportMode = s.device.transportMode := by
  obtain ⟨op, res, -, -, -, hcall, -⟩ | ⟨-, hhandled⟩ := step_device h
  · exact transportMode_step hcall
  · exact hhandled.touches.transportMode_eq

/-- No peer is new but the one that a request adds. -/
theorem isPeer_of_step (h : s.step input = some (s', r)) :
    s.device.heap.length ≤ s'.device.heap.length ∧
      ∀ i < s.device.heap.length, s'.device.IsPeer i → s.device.IsPeer i := by
  obtain ⟨op, res, -, -, -, hcall, -⟩ | ⟨-, hhandled⟩ := step_device h
  · obtain ⟨hle, hpeer⟩ := (step_change hcall).isPeer
    exact ⟨hle, fun i hlt hi => (hpeer i hi).resolve_right hlt.ne⟩
  · refine ⟨?_, fun i _ hi => hhandled.touches.isPeer_iff.mp hi⟩
    obtain ⟨heap, rateLimiter, heq, htouched⟩ := hhandled.touches
    rw [heq]
    exact htouched.length_eq.ge

theorem endpointAt_of_step {i : PeerRef} (h : s.step input = some (s', r))
    (hnot : ∀ fd envs addr segment opened, input ≠ .datagram fd envs addr segment opened)
    (hi : i < s.device.heap.length) : s'.device.endpointAt i = s.device.endpointAt i := by
  obtain ⟨op, res, -, hrequest, -, hcall, -⟩ | ⟨-, hhandled⟩ := step_device h
  · refine endpointAt_request hcall (fun peer call heq => ?_) hi
    subst heq
    cases hrequest
  · exact congrFun (hhandled.endpoints hnot) i

theorem consistent_of_step [LawfulTable T IpNetwork IpAddr] (h : s.step input = some (s', r))
    (hd : Consistent s.device) : Consistent s'.device := by
  obtain ⟨op, res, -, -, -, hcall, -⟩ | ⟨-, hhandled⟩ := step_device h
  · exact hd.change (step_change hcall)
  · exact hhandled.touches.consistent hd

end Tables

/-! ## The sockets of a run -/

section Reaches

variable {s s' : Server C T} {input : Input} {r : Report}

/-- The calls on the sockets in a step: the one that the step is, or those that come with packets,
requests and timers. -/
def Calls (s : Server C T) (input : Input) (net : Network) : Network.Op → Prop
  | .openListenSocket mode port _ opening =>
    net = s.net ∧ input = .listenPort port opening ∧ mode = s.device.transportMode
  | .accept fd accepted => net = s.net ∧ input = .accept fd accepted
  | .streamEnd fd => net = s.net ∧ input = .streamEnd fd
  | .hangUp fd => net = s.net ∧ input = .hangUp fd ∧ s.net.HangsUpShut (.hangUp fd)
  | .maybeConnectTcp .. => s.device.transportMode = .tcp ∨
      ∃ fd sock endpoint, s.net.ready fd = some (.tcpStream sock endpoint)
  | .connectEndpoint i _ _ => ∃ fd sock envs addr segment opened packet,
      s.net.ready fd = some (.udp sock) ∧ input = .datagram fd envs addr segment opened ∧
      s.device.segmentReceiver s.ipProtocol (envs 0) addr segment = some (i, packet)
  | .shutdownEndpoint _ => True

omit [Table T IpNetwork IpAddr] in
theorem Calls.hangsUpShut {net : Network} {op : Network.Op} (h : s.Calls input net op) :
    net.HangsUpShut op := by
  cases op with
  | hangUp fd =>
    obtain ⟨rfl, -, hshut⟩ := h
    exact hshut
  | openListenSocket | accept | maybeConnectTcp | streamEnd | connectEndpoint
  | shutdownEndpoint => trivial

omit [Table T IpNetwork IpAddr] in
theorem reaches_shutdownEndpoint (net : Network) (i : PeerRef) :
    Machine.Reaches Network.step (s.Calls input) net (net.shutdownEndpoint i) :=
  .tail (i := .shutdownEndpoint i) .refl trivial rfl

omit [Table T IpNetwork IpAddr] in
theorem reaches_connectFor {fd : Fd} {sock : Socket} {endpoint : SocketAddr} {sent : List Sent}
    {conns : ℕ → Option Connecting} {net net' : Network}
    (hready : s.net.ready fd = some (.tcpStream sock endpoint))
    (h : connectFor endpoint sent conns net = some net') :
    Machine.Reaches Network.step (s.Calls input) net net' := by
  induction sent generalizing conns net with
  | nil =>
    cases h
    exact .refl
  | cons packet sent ih =>
    cases packet with
    | reply | queued =>
      obtain ⟨⟨net₁, stream⟩, hstep, hrest⟩ := Option.bind_eq_some_iff.mp h
      exact .head (i := .maybeConnectTcp endpoint (conns 0)) (Or.inr ⟨fd, sock, endpoint, hready⟩)
        hstep (ih hrest)
    | cookie | tunnel => exact ih h

omit [Table T IpNetwork IpAddr] in
theorem reaches_socketEvent {op : Network.Op} (h : s.socketEvent op = some (s', r))
    (hop : s.Calls input s.net op) :
    Machine.Reaches Network.step (s.Calls input) s.net s'.net := by
  obtain ⟨⟨net, stream⟩, hstep, heq⟩ := Option.map_eq_some_iff.mp h
  cases heq
  exact .tail .refl hop hstep

omit [Table T IpNetwork IpAddr] in
theorem reaches_commandNet (op : Op) :
    Machine.Reaches Network.step (s.Calls input) s.net (s.commandNet op) := by
  rw [commandNet]
  split
  · exact reaches_shutdownEndpoint ..
  · exact .refl

/-- **The sockets of the device make a run of their own.** -/
theorem step_net (h : s.step input = some (s', r)) :
    Machine.Reaches Network.step (s.Calls input) s.net s'.net := by
  cases input with
  | request op =>
    rw [step] at h
    split_ifs at h
    obtain ⟨s₁, hcommand, heq⟩ := Option.map_eq_some_iff.mp h
    cases heq
    rw [command] at hcommand
    split_ifs at hcommand
    obtain ⟨⟨d, res⟩, -, rfl⟩ := Option.map_eq_some_iff.mp hcommand
    exact reaches_commandNet op
  | listenPort port opening =>
    rw [step] at h
    split_ifs at h
    exact reaches_socketEvent h ⟨rfl, rfl, rfl⟩
  | datagram fd envs addr segment opened =>
    rw [step] at h
    split at h
    · next sock hready =>
      obtain ⟨d, -, -, ⟨-, rfl⟩ | ⟨j, packet, net, hreceived, -, hmove, rfl⟩⟩ := datagram_cases h
      · exact .refl
      · obtain ⟨moved, hmoved, hnet⟩ := moveEndpoint_cases hmove
        have hreaches : Machine.Reaches Network.step
            (s.Calls (.datagram fd envs addr segment opened)) s.net moved := by
          obtain ⟨-, rfl⟩ | ⟨-, rfl⟩ := hmoved
          · exact .refl
          · exact reaches_shutdownEndpoint ..
        obtain rfl | ⟨stream, hstep⟩ := hnet
        · exact hreaches
        · exact hreaches.tail (i := .connectEndpoint j addr.finalAddr opened)
            ⟨fd, sock, envs, addr, segment, opened, packet, hready, rfl, hreceived⟩ hstep
    · cases h
  | connCall fd =>
    rw [step] at h
    split at h
    · split_ifs at h
      cases h
      exact .refl
    · cases h
  | connPacket n envs src =>
    obtain ⟨call, -, h⟩ := Option.bind_eq_some_iff.mp h
    obtain ⟨⟨d, sent⟩, -, heq⟩ := Option.map_eq_some_iff.mp h
    cases heq
    exact .refl
  | connReturn n =>
    cases h
    exact .refl
  | accept fd accepted => exact reaches_socketEvent h ⟨rfl, rfl⟩
  | streamPacket fd envs packet conns =>
    rw [step] at h
    split at h
    · next sock endpoint hready =>
      split_ifs at h
      obtain ⟨d, sent, net, -, -, hconnect, rfl, -⟩ := streamPacket_cases h
      exact reaches_connectFor hready hconnect
    · cases h
  | streamEnd fd => exact reaches_socketEvent h ⟨rfl, rfl⟩
  | hangUp fd =>
    rw [step] at h
    split at h
    · next sock peer peerAddr hready =>
      split_ifs at h with hshut
      refine reaches_socketEvent h ⟨rfl, rfl, fun sock' peer' peerAddr' hready' => ?_⟩
      obtain heq := Option.some.inj (hready.symm.trans hready')
      cases heq
      exact hshut.1
    · next hother =>
      exact reaches_socketEvent h ⟨rfl, rfl, fun sock peer peerAddr hready =>
        (hother sock peer peerAddr hready).elim⟩
  | timer i env =>
    rw [step] at h
    split_ifs at h
    obtain ⟨s₁, htimer, heq⟩ := Option.map_eq_some_iff.mp h
    cases heq
    obtain ⟨d, -, -, rfl | rfl⟩ := timer_cases htimer
    · exact .refl
    · exact reaches_shutdownEndpoint ..
  | resetCount now =>
    cases h
    exact .refl
  | tun env src conn =>
    obtain ⟨d, htouches, -, ⟨rfl, -⟩ | ⟨i, net, route, packet, -, hroute, rfl, -⟩⟩ := tun_cases h
    · exact .refl
    · obtain rfl | ⟨endpoint, stream, hmode, -, hstep, -⟩ := route_cases hroute
      · exact .refl
      · rw [htouches.transportMode_eq] at hmode
        exact .tail (i := .maybeConnectTcp endpoint conn) .refl (Or.inl hmode) hstep

/-- Ownership holds in every run of the device. -/
theorem owned_of_reaches {queue : EventPoll SocketHandler} {nextIndex : IndexLfsr}
    {transportMode : TransportMode} {ipProtocol : Option UInt8} {useConnectedSocket : Bool}
    {Q : Server C T → Input → Prop} (hqueue : Network.OtherEvents queue)
    (h : Machine.Reaches step Q (new queue nextIndex transportMode ipProtocol useConnectedSocket) s) :
    s.net.Owned :=
  h.invariant (I := fun s => s.net.Owned) (Network.owned_new hqueue) fun _ _ _ _ howned _ hstep =>
    (step_net hstep).invariant howned fun _ _ _ _ h _ hstep => h.step hstep

end Reaches

end Server

end NekoLink.Device
