import NekoLink.Device.ConnectedSockets
import NekoLink.Device.SocketAddresses

/-!
# The return path

What is read from the interface for a peer goes to the endpoint in the tables, or to the socket that
is connected to it. The handler of a UDP socket moves the endpoint to where the peer's last packet
came from. The handler of a connected socket has no need to, as long as the socket is the one that
the endpoint has; and the handler of a TCP stream never does.

* `accepted`: the packets that a peer is heard by, and where they come from.
* `return_path`: packets for a peer go where it was last heard, in the runs whose steps meet
  `KeepsPath`.
* `stream_peer_unreached`: a peer without an endpoint is not answered over TCP.
-/

namespace NekoLink.Device

open Wire Noise Routing

/-! ## Where packets come from -/

/-- The address that a packet comes from and, when it comes in a stream, the connection. -/
structure Origin where
  addr : SocketAddr
  file : Option ℕ
  deriving DecidableEq

variable {C : Prims} {T : Type → Type} [Table T IpNetwork IpAddr]

def isCookieReply : Packet → Bool
  | .packetCookieReply _ => true
  | .handshakeInit _ | .handshakeResponse _ | .packetData _ => false

/-- The peer of a handshake or data packet that its tunnel handles without an error. -/
def authenticated (d : Device C T) (env : Env) (received : Option (PeerRef × Packet)) :
    Option PeerRef :=
  received.bind fun (i, packet) =>
    if !isCookieReply packet && d.handles i env packet then some i else none

/-- The same for a connected socket, whose handler calls `decapsulate`. -/
def connAuthenticated (d : Device C T) (ipProtocol : Option UInt8) (peer : PeerRef)
    (peerAddr : IpAddr) (env : Env) (src : List UInt8) : Bool :=
  match d.connReceived ipProtocol peer peerAddr env src,
    payload ipProtocol (.new peerAddr 0) src with
  | some packet, some data =>
    !isCookieReply packet &&
      match d.step (.peer peer (.tunnel env (.decapsulate (some peerAddr) data maxUdpSize))) with
      | none | some (_, .err _) => false
      | some _ => true
  | _, _ => false

/-- Where the last packet of a peer came from. -/
def lastFrom (log : List (PeerRef × Origin)) (i : PeerRef) : Option Origin :=
  (log.reverse.find? fun e => e.1 = i).map Prod.snd

theorem lastFrom_append (log : List (PeerRef × Origin)) (j i : PeerRef) (origin : Origin) :
    lastFrom (log ++ [(j, origin)]) i = if j = i then some origin else lastFrom log i := by
  rw [lastFrom, Machine.find?_reverse_append, apply_ite (Option.map Prod.snd)]
  simp only [decide_eq_true_eq]
  rfl

theorem mem_of_lastFrom {log : List (PeerRef × Origin)} {i : PeerRef} {origin : Origin}
    (h : lastFrom log i = some origin) : (i, origin) ∈ log := by
  obtain ⟨⟨j, origin'⟩, hfind, rfl⟩ := Option.map_eq_some_iff.mp h
  have hj : j = i :=
    of_decide_eq_true (List.find?_some (p := fun e : PeerRef × Origin => decide (e.1 = i)) hfind)
  subst hj
  exact List.mem_reverse.mp (List.mem_of_find?_eq_some hfind)

namespace Server

/-- The peer whose packet a step accepts, and where the packet comes from. -/
def accepted (s : Server C T) : Input → Option (PeerRef × Origin)
  | .datagram _ envs addr segment _ =>
    (s.device.authenticated (envs 1)
      (s.device.segmentReceiver s.ipProtocol (envs 0) addr segment)).map fun i => (i, ⟨addr, none⟩)
  | .connPacket n envs src =>
    s.reading[n]?.bind fun call =>
      if s.device.connAuthenticated s.ipProtocol call.peer call.peerAddr (envs 0) src then
        (s.net.remotes.lookup call.sock.file).map fun addr => (call.peer, ⟨addr, none⟩)
      else none
  | .streamPacket fd envs packet _ =>
    match s.net.ready fd with
    | some (.tcpStream sock endpoint) =>
      (s.device.authenticated (envs 1)
        (s.device.streamReceiver (envs 0) endpoint packet)).map fun i =>
          (i, ⟨endpoint, some sock.file⟩)
    | _ => none
  | _ => none

/-- A device with what has been accepted so far. -/
abbrev Heard (C : Prims) (T : Type → Type) := Server C T × List (PeerRef × Origin)

/-- One of the peers was last heard from there. -/
def HeardFrom (q : Heard C T) (i : PeerRef) (origin : Origin) : Prop :=
  q.1.device.IsPeer i ∧ lastFrom q.2 i = some origin

/-- The packet goes to the address. In TCP mode it goes out on a connection to it that is open, and
on the one that the peer's packet came from as long as that is open. -/
def Follows (net : Network) (origin : Origin) : Option Route → Prop
  | none => False
  | some (.sendTo _ addr) => addr.finalAddr = origin.addr.finalAddr
  | some (.conn sock) =>
    ∃ addr, net.remotes.lookup sock.file = some addr ∧ addr.finalAddr = origin.addr.finalAddr
  | some (.stream sock) =>
    net.remotes.lookup sock.file = some origin.addr ∧ sock.file ∉ net.ended ∧
      ∃ file, origin.file = some file ∧ (file ∉ net.ended → sock.file = file)

/-! ## What keeps the path -/

/-- No peer's connection is lost by the call. -/
def SparesHeard (q : Heard C T) (op : Network.Op) : Prop :=
  ∀ i origin file, HeardFrom q i origin → origin.file = some file →
    q.1.net.Spares origin.addr file op

/-- There is a socket to send on. -/
def HasSocket (s : Server C T) (i : PeerRef) (conn : Option Connecting) : Prop :=
  match s.device.transportMode with
  | .tcp => ∀ endpoint, s.device.endpointAt i = some endpoint →
      s.net.tcpConnections.lookup endpoint = none → ∃ c ∈ conn, c.clone.isSome
  | .udp | .rawIp => ∀ addr, s.device.endpointAt i = some addr → s.net.conns.lookup i = none →
      (if addr.isIpv4 then s.net.udp4 else s.net.udp6).isSome

/-- **The steps that keep the return path.** A cookie reply comes from where its peer was heard
last, and a packet on a connected socket that has been shut down from the peer's endpoint. A packet
in a stream comes from the peer's endpoint, on the connection that the map has for it, and that
connection is not lost as long as it is open. -/
def KeepsPath (q : Heard C T) : Input → Prop
  | .listenPort port opening =>
    SparesHeard q (.openListenSocket q.1.device.transportMode port (peers q.1.device) opening)
  | .accept fd a => SparesHeard q (.accept fd a)
  | .streamEnd fd => SparesHeard q (.streamEnd fd)
  | .hangUp fd => SparesHeard q (.hangUp fd)
  | .datagram _ envs addr segment _ => ∀ i reply origin,
      q.1.device.segmentReceiver q.1.ipProtocol (envs 0) addr segment =
        some (i, .packetCookieReply reply) →
      q.1.device.handles i (envs 1) (.packetCookieReply reply) = true →
      HeardFrom q i origin → addr.finalAddr = origin.addr.finalAddr
  | .connPacket n envs src => ∀ call i origin, q.1.reading[n]? = some call →
      q.1.accepted (.connPacket n envs src) = some (i, origin) → q.1.device.IsPeer i →
      call.sock.file ∈ q.1.net.shut →
      ∃ endpoint, q.1.device.endpointAt i = some endpoint ∧
        endpoint.finalAddr = origin.addr.finalAddr
  | .streamPacket fd envs packet conns => ∀ i origin,
      q.1.accepted (.streamPacket fd envs packet conns) = some (i, origin) →
      q.1.device.endpointAt i = some origin.addr ∧
        ∃ stream, q.1.net.tcpConnections.lookup origin.addr = some stream ∧
          origin.file = some stream.file
  | .request _ | .connCall _ | .connReturn _ | .timer .. | .resetCount _ | .tun .. => True

/-! ## What is accepted is authentic -/

section Accepted

variable {d : Device C T} {env : Env} {received : Option (PeerRef × Packet)} {i : PeerRef}
  {origin : Origin}

/-- A packet that is handled is authentic, unless it is a cookie reply. -/
theorem authentic_of_not_err {t tunnel : Tunn C} {packet : Packet} {r : TunnResult}
    (h : t.handleVerifiedPacket env packet maxUdpSize = some (tunnel, r)) (hr : ∀ e, r ≠ .err e)
    (hcookie : ∀ reply, packet ≠ .packetCookieReply reply) : t.Authentic packet := by
  obtain ⟨-, e, he⟩ | ⟨hauthentic, -⟩ | ⟨reply, heq, -⟩ :=
    Tunn.handleVerifiedPacket_cases (by decide) h
  · exact absurd he (hr e)
  · exact hauthentic
  · exact absurd heq (hcookie reply)

theorem authenticated_eq_some (h : d.authenticated env received = some i) :
    ∃ packet, received = some (i, packet) ∧ d.handles i env packet = true ∧
      ∀ reply, packet ≠ .packetCookieReply reply := by
  obtain ⟨⟨j, packet⟩, hreceived, h⟩ := Option.bind_eq_some_iff.mp h
  dsimp only at h
  split_ifs at h with hhandles
  cases h
  obtain ⟨hcookie, hhandles⟩ := Bool.and_eq_true_iff.mp hhandles
  refine ⟨packet, hreceived, hhandles, ?_⟩
  rintro reply rfl
  cases hcookie

/-- **What is accepted is authentic.** -/
theorem authentic_of_authenticated (h : d.authenticated env received = some i) :
    ∃ p packet, received = some (i, packet) ∧ d.lock i = some p ∧ p.tunnel.Authentic packet := by
  obtain ⟨packet, rfl, hhandles, hcookie⟩ := authenticated_eq_some h
  rw [handles] at hhandles
  rcases hstep : d.step (.peer i (.handleVerifiedPacket env packet maxUdpSize)) with _ | ⟨d', r⟩
  · rw [hstep] at hhandles
    cases hhandles
  · obtain ⟨p, p', hlock, hcall, -⟩ := step_peer hstep
    obtain ⟨⟨tunnel, r'⟩, htunnel, heq⟩ := Option.map_eq_some_iff.mp hcall
    cases heq
    refine ⟨p, packet, rfl, hlock, authentic_of_not_err htunnel ?_ hcookie⟩
    rintro e rfl
    rw [hstep] at hhandles
    cases hhandles

/-- The rate limiter takes no part in it. -/
theorem authentic_of_limiter {t : Tunn C} {rateLimiter : RateLimiter} {packet : Packet}
    (h : Tunn.Authentic { t with rateLimiter } packet) : t.Authentic packet := by
  cases h with
  | handshakeInit haccepts => exact .handshakeInit haccepts
  | handshakeResponse hawait hopen => exact .handshakeResponse hawait hopen
  | packetData hs hopens => exact .packetData hs hopens

variable {ipProtocol : Option UInt8} {peerAddr : IpAddr} {src : List UInt8} {packet : Packet}

omit [Table T IpNetwork IpAddr] in
theorem connReceived_eq_some (h : d.connReceived ipProtocol i peerAddr env src = some packet) :
    ∃ p data, d.lock i = some p ∧ payload ipProtocol (.new peerAddr 0) src = some data ∧ data ≠ [] ∧
      (p.tunnel.rateLimiter.verifyPacket C (some peerAddr) data cookieReplySz env.cookie).2 =
        .ok packet := by
  rw [connReceived] at h
  split at h
  · next p data hlock hpayload =>
    split_ifs at h with hskip
    refine ⟨p, data, hlock, hpayload, fun hempty => hskip (Or.inr hempty), ?_⟩
    split at h
    · next packet' hverify =>
      cases h
      exact hverify
    · cases h
  · cases h

/-- The call that a packet of a connected socket is given to. -/
theorem connAuthenticated_eq_true
    (h : d.connAuthenticated ipProtocol i peerAddr env src = true) :
    ∃ packet data d' r, d.connReceived ipProtocol i peerAddr env src = some packet ∧
      (∀ reply, packet ≠ .packetCookieReply reply) ∧
      payload ipProtocol (.new peerAddr 0) src = some data ∧ (∀ e, r ≠ .err e) ∧
      d.step (.peer i (.tunnel env (.decapsulate (some peerAddr) data maxUdpSize))) =
        some (d', r) := by
  rw [connAuthenticated] at h
  split at h
  · next packet data hreceived hpayload =>
    obtain ⟨hcookie, h⟩ := Bool.and_eq_true_iff.mp h
    rcases hstep : d.step (.peer i (.tunnel env (.decapsulate (some peerAddr) data maxUdpSize)))
      with _ | ⟨d', r⟩
    · rw [hstep] at h
      cases h
    · rw [hstep] at h
      refine ⟨packet, data, d', r, hreceived, ?_, hpayload, ?_, hstep⟩
      · rintro reply rfl
        cases hcookie
      · rintro e rfl
        cases h
  · cases h

theorem authentic_of_connAuthenticated
    (h : d.connAuthenticated ipProtocol i peerAddr env src = true) :
    ∃ p packet, d.connReceived ipProtocol i peerAddr env src = some packet ∧
      d.lock i = some p ∧ p.tunnel.Authentic packet := by
  obtain ⟨packet, data, d', r, hreceived, hcookie, hpayload, hr, hstep⟩ :=
    connAuthenticated_eq_true h
  obtain ⟨p, data', hlock, hpayload', hne, hverify⟩ := connReceived_eq_some hreceived
  obtain rfl := Option.some.inj (hpayload'.symm.trans hpayload)
  obtain ⟨q, q', hlock', hcall, -⟩ := step_peer hstep
  obtain rfl := Option.some.inj (hlock'.symm.trans hlock)
  obtain ⟨⟨tunnel, r'⟩, htunnel, heq⟩ := Option.map_eq_some_iff.mp hcall
  cases heq
  refine ⟨q, packet, hreceived, hlock, ?_⟩
  have hdecapsulate : q.tunnel.decapsulate env (some peerAddr) data' maxUdpSize =
      some (tunnel, r) := htunnel
  rcases hlimiter : q.tunnel.rateLimiter.verifyPacket C (some peerAddr) data' cookieReplySz
    env.cookie with ⟨rateLimiter, verified⟩
  rw [hlimiter] at hverify
  obtain rfl : verified = .ok packet := hverify
  rw [Tunn.decapsulate, if_neg hne, hlimiter] at hdecapsulate
  exact authentic_of_limiter (authentic_of_not_err hdecapsulate hr hcookie)

end Accepted

/-! ## The sockets of a step -/

/-- A handler that a device in this mode has. -/
def SpeaksOver (mode : TransportMode) : SocketHandler → Prop
  | .other => True
  | .udp _ | .conn .. => mode ≠ .tcp
  | .tcpListener _ | .tcpStream .. => mode = .tcp

/-- **The sockets of a device in this mode.** -/
structure Sockets (mode : TransportMode) (net : Network) : Prop where
  owned : net.Owned
  connected : net.Connected
  addressed : net.Addressed
  speaks : ∀ fd handler, net.ready fd = some handler → SpeaksOver mode handler

/-- Files stay connected to what they are, and sockets that are shut down stay so. -/
structure Extends (net net' : Network) : Prop where
  files : net.files ≤ net'.files
  remotes : ∀ file < net.files, net'.remotes.lookup file = net.remotes.lookup file
  openOrShut : ∀ i file, net.OpenOrShut i file → net'.OpenOrShut i file

section Sockets

variable {s s' : Server C T} {input : Input} {r : Report} {net net' : Network} {op : Network.Op}
  {stream : Option Socket}

theorem Extends.refl (net : Network) : Extends net net :=
  ⟨le_rfl, fun _ _ => rfl, fun _ _ => id⟩

theorem Extends.trans {net'' : Network} (h : Extends net net') (h' : Extends net' net'') :
    Extends net net'' := by
  refine ⟨h.files.trans h'.files, fun file hlt => ?_, fun i file hold => ?_⟩
  · rw [h'.remotes file (lt_of_lt_of_le hlt h.files), h.remotes file hlt]
  · exact h'.openOrShut i file (h.openOrShut i file hold)

omit [Table T IpNetwork IpAddr] in
/-- What a call registers, the mode of the device asks for. -/
theorem speaksOver_of_registers {handler : SocketHandler}
    (hs : Sockets s.device.transportMode s.net) (hnet : Sockets s.device.transportMode net)
    (hcalls : s.Calls input net op) (hstep : net.step op = some (net', stream))
    (hregisters : op.Registers handler) : SpeaksOver s.device.transportMode handler := by
  cases op with
  | openListenSocket mode port peers opening =>
    obtain ⟨-, -, rfl⟩ := hcalls
    generalize s.device.transportMode = mode at hregisters
    cases mode <;> cases handler <;> first | exact hregisters.elim | rfl | nofun
  | accept fd a =>
    obtain ⟨⟨sock, hready⟩, -, -⟩ := Network.step_accept hstep
    have hmode : s.device.transportMode = .tcp := hnet.speaks fd _ hready
    cases handler with
    | tcpStream sock endpoint => exact hmode
    | other | udp | tcpListener | conn => exact hregisters.elim
  | maybeConnectTcp endpoint conn =>
    have hmode : s.device.transportMode = .tcp := by
      obtain hmode | ⟨fd, sock, endpoint, hready⟩ := hcalls
      · exact hmode
      · exact hs.speaks fd _ hready
    cases handler with
    | tcpStream sock endpoint => exact hmode
    | other | udp | tcpListener | conn => exact hregisters.elim
  | connectEndpoint i addr opened =>
    obtain ⟨fd, sock, envs, addr, segment, opened, packet, hready, -, -⟩ := hcalls
    have hmode : s.device.transportMode ≠ .tcp := hs.speaks fd _ hready
    cases handler with
    | conn sock j peerAddr => exact hmode
    | other | udp | tcpListener | tcpStream => exact hregisters.elim
  | streamEnd fd | hangUp fd | shutdownEndpoint i => exact hregisters.elim

omit [Table T IpNetwork IpAddr] in
/-- What one call keeps. -/
theorem Sockets.call (hnet : Sockets s.device.transportMode net)
    (hs : Sockets s.device.transportMode s.net) (hcalls : s.Calls input net op)
    (hstep : net.step op = some (net', stream)) :
    Sockets s.device.transportMode net' ∧ Extends net net' := by
  have hgrows := hnet.addressed.grows hnet.owned hstep
  refine ⟨⟨hnet.owned.step hstep, hnet.connected.step hnet.owned hcalls.hangsUpShut hstep,
    hnet.addressed.grow hnet.owned hgrows, fun fd handler hready => ?_⟩,
    hgrows.files, hgrows.remotes, fun i file hold => hold.step hstep⟩
  obtain hold | ⟨hregisters, -⟩ := hgrows.ready fd handler hready
  · exact hnet.speaks fd handler hold
  · exact speaksOver_of_registers hs hnet hcalls hstep hregisters

/-- **What a step keeps of the sockets.** -/
theorem sockets_step (hstep : s.step input = some (s', r))
    (hs : Sockets s.device.transportMode s.net) :
    Sockets s.device.transportMode s'.net ∧ Extends s.net s'.net := by
  refine (step_net hstep).invariant
    (I := fun net => Sockets s.device.transportMode net ∧ Extends s.net net) ⟨hs, .refl _⟩ ?_
  rintro net op net' stream ⟨hnet, hextends⟩ hcalls hcall
  obtain ⟨hnet', hnext⟩ := hnet.call hs hcalls hcall
  exact ⟨hnet', hextends.trans hnext⟩

/-- **A connection stays in the map**, when the calls of a step spare it. -/
theorem carries_step {addr : SocketAddr} {file : ℕ} (hstep : s.step input = some (s', r))
    (hs : Sockets s.device.transportMode s.net) (hmode : s.device.transportMode = .tcp)
    (h : s.net.Carries addr file)
    (hspares : ∀ net op, s.Calls input net op → net.Spares addr file op) :
    s'.net.Carries addr file := by
  refine ((step_net hstep).invariant
    (I := fun net => Sockets s.device.transportMode net ∧ net.Carries addr file) ⟨hs, h⟩ ?_).2
  rintro net op net' stream ⟨hnet, hcarries⟩ hcalls hcall
  refine ⟨(hnet.call hs hcalls hcall).1, ?_⟩
  refine hcarries.step hnet.owned hnet.addressed (fun fd sock i peerAddr hready => ?_)
    (hspares net op hcalls) hcall
  exact hnet.speaks fd _ hready hmode

/-- The guard spares the connections that peers were heard on. -/
theorem spares_of_keepsPath {q : Heard C T} {i : PeerRef} {origin : Origin} {file : ℕ}
    (hkeeps : KeepsPath q input) (hheard : HeardFrom q i origin) (hfile : origin.file = some file)
    (hcalls : q.1.Calls input net op) : net.Spares origin.addr file op := by
  cases op with
  | openListenSocket mode port peers opening =>
    obtain ⟨rfl, rfl, -⟩ := hcalls
    exact hkeeps i origin file hheard hfile
  | accept fd a | streamEnd fd =>
    obtain ⟨rfl, rfl⟩ := hcalls
    exact hkeeps i origin file hheard hfile
  | hangUp fd =>
    obtain ⟨rfl, rfl, -⟩ := hcalls
    exact hkeeps i origin file hheard hfile
  | maybeConnectTcp | connectEndpoint | shutdownEndpoint => trivial

omit [Table T IpNetwork IpAddr] in
/-- A packet in a stream takes no connection away. -/
theorem spares_of_streamPacket {fd : Fd} {envs : ℕ → Env} {packet : List UInt8}
    {conns : ℕ → Option Connecting} {addr : SocketAddr} {file : ℕ}
    (hcalls : s.Calls (.streamPacket fd envs packet conns) net op) : net.Spares addr file op := by
  cases op with
  | openListenSocket | hangUp => cases hcalls.2.1
  | accept | streamEnd => cases hcalls.2
  | maybeConnectTcp | connectEndpoint | shutdownEndpoint => trivial

end Sockets

/-! ## Endpoints and their sockets -/

/-- A peer has a socket only for its endpoint. -/
def ConnectedToEndpoints (s : Server C T) : Prop :=
  ∀ i conn, s.net.conns.lookup i = some conn →
    ∃ addr, s.device.endpointAt i = some addr ∧ s.net.remotes.lookup conn.file = some addr

/-- The packet of a segment is handled, and moves the endpoint of its peer. -/
structure Moves (s s' : Server C T) (envs : ℕ → Env) (addr : SocketAddr) (segment : List UInt8)
    (opened : Option Opened) (i : PeerRef) (packet : Packet) : Prop where
  received : s.device.segmentReceiver s.ipProtocol (envs 0) addr segment = some (i, packet)
  handles : s.device.handles i (envs 1) packet = true
  endpointAt : s'.device.endpointAt = Function.update s.device.endpointAt i (some addr.finalAddr)
  net : s.moveEndpoint i addr.finalAddr opened = some s'.net

section Endpoints

variable {s s' : Server C T} {input : Input} {r : Report} {fd : Fd} {envs : ℕ → Env}
  {addr : SocketAddr} {segment : List UInt8} {opened : Option Opened} {i j : PeerRef}
  {conn : Socket}

/-- **What a segment does**: its packet moves the endpoint, or is not handled. -/
theorem datagram_step (h : s.step (.datagram fd envs addr segment opened) = some (s', r)) :
    (∃ sock, s.net.ready fd = some (.udp sock)) ∧
    ((s'.device.endpointAt = s.device.endpointAt ∧ s'.net = s.net ∧
        ∀ i packet, s.device.segmentReceiver s.ipProtocol (envs 0) addr segment = some (i, packet) →
          s.device.handles i (envs 1) packet = false) ∨
      ∃ i packet, s.Moves s' envs addr segment opened i packet) := by
  rw [step] at h
  split at h
  · next sock hready =>
    refine ⟨⟨sock, hready⟩, ?_⟩
    obtain ⟨d, harrives, -, ⟨hunhandled, rfl⟩ |
      ⟨j, packet, net, hreceived, hhandles, hmove, rfl⟩⟩ := datagram_cases h
    · exact Or.inl ⟨harrives.kept hunhandled, rfl, hunhandled⟩
    · exact Or.inr ⟨j, packet, hreceived, hhandles, harrives.moved j packet hreceived hhandles,
        hmove⟩
  · cases h

omit [Table T IpNetwork IpAddr] in
/-- When the endpoint moves, the socket goes that the peer had for another one. -/
theorem lookup_moveEndpoint {net : Network} (h : s.moveEndpoint j addr opened = some net)
    (hi : net.conns.lookup i = some conn) :
    s.net.conns.lookup i = some conn ∧ (i = j → s.device.endpointAt j = some addr) ∨
      i = j ∧ net.remotes.lookup conn.file = some addr := by
  obtain ⟨moved, hmoved, hnet⟩ := moveEndpoint_cases h
  have hold : moved.conns.lookup i = some conn →
      s.net.conns.lookup i = some conn ∧ (i = j → s.device.endpointAt j = some addr) := by
    intro hi
    obtain ⟨haddr, rfl⟩ | ⟨-, rfl⟩ := hmoved
    · exact ⟨hi, fun _ => haddr⟩
    · obtain ⟨hne, hi⟩ := Network.lookup_shutdownEndpoint hi
      exact ⟨hi, fun heq => absurd heq hne⟩
  obtain rfl | ⟨stream, hstep⟩ := hnet
  · exact Or.inl (hold hi)
  · obtain hi | ⟨addr', opened', heq, hremote⟩ := Network.lookup_step hstep hi
    · exact Or.inl (hold hi)
    · cases heq
      exact Or.inr ⟨rfl, hremote⟩

omit [Table T IpNetwork IpAddr] in
theorem lt_of_endpointAt {d : Device C T} (h : d.endpointAt i = some addr) : i < d.heap.length := by
  obtain ⟨p, hlock, -⟩ := Option.bind_eq_some_iff.mp h
  exact lock_lt hlock

theorem ConnectedToEndpoints.step (h : s.ConnectedToEndpoints)
    (hs : Sockets s.device.transportMode s.net) (hstep : s.step input = some (s', r)) :
    s'.ConnectedToEndpoints := by
  intro i conn hi
  have hkeep : s.net.conns.lookup i = some conn →
      s'.device.endpointAt i = s.device.endpointAt i →
      ∃ addr, s'.device.endpointAt i = some addr ∧ s'.net.remotes.lookup conn.file = some addr := by
    intro hold heq
    obtain ⟨addr, hendpoint, hremote⟩ := h i conn hold
    refine ⟨addr, heq.trans hendpoint, ?_⟩
    rw [(sockets_step hstep hs).2.remotes _ (hs.connected.conns_lt i conn hold), hremote]
  by_cases hdatagram : ∃ fd envs addr segment opened, input = .datagram fd envs addr segment opened
  · obtain ⟨fd, envs, addr, segment, opened, rfl⟩ := hdatagram
    obtain ⟨-, ⟨heq, hnet, -⟩ | ⟨j, packet, hmoves⟩⟩ := datagram_step hstep
    · rw [hnet] at hi
      exact hkeep hi (congrFun heq i)
    · obtain ⟨hold, hsame⟩ | ⟨rfl, hremote⟩ := lookup_moveEndpoint hmoves.net hi
      · refine hkeep hold ?_
        rw [hmoves.endpointAt]
        by_cases hij : i = j
        · subst hij
          rw [Function.update_self, hsame rfl]
        · rw [Function.update_of_ne hij]
      · refine ⟨addr.finalAddr, ?_, hremote⟩
        rw [hmoves.endpointAt, Function.update_self]
  · obtain hold | ⟨fd, envs, addr, segment, opened, packet, heq, -⟩ := lookup_of_step hstep hi
    · obtain ⟨addr, hendpoint, -⟩ := h i conn hold
      refine hkeep hold (endpointAt_of_step hstep ?_ (lt_of_endpointAt hendpoint))
      rintro fd envs addr segment opened rfl
      exact hdatagram ⟨fd, envs, addr, segment, opened, rfl⟩
    · exact absurd ⟨fd, envs, addr, segment, opened, heq⟩ hdatagram

end Endpoints

/-! ## The invariant -/

/-- The endpoint of the peer is where it was heard from; in TCP mode so is the connection that the
map has for it. -/
structure Returns (s : Server C T) (i : PeerRef) (origin : Origin) : Prop where
  endpoint : ∃ addr, s.device.endpointAt i = some addr ∧ addr.finalAddr = origin.addr.finalAddr
  connection : s.device.transportMode = .tcp → s.device.endpointAt i = some origin.addr ∧
    ∃ file, origin.file = some file ∧ s.net.Carries origin.addr file

/-- **What holds as long as the steps keep the path.** -/
structure OnPath (q : Heard C T) : Prop where
  sockets : Sockets q.1.device.transportMode q.1.net
  consistent : Consistent q.1.device
  conns : q.1.ConnectedToEndpoints
  reading : ∀ call ∈ q.1.reading, q.1.device.transportMode ≠ .tcp ∧
    q.1.net.OpenOrShut call.peer call.sock.file
  heard_lt : ∀ e ∈ q.2, e.1 < q.1.device.heap.length
  heard_file : ∀ e ∈ q.2, e.2.file.isSome → q.1.device.transportMode = .tcp
  heard : ∀ i origin, HeardFrom q i origin → q.1.Returns i origin

section Steps

variable {q q' : Heard C T} {s s' : Server C T} {input : Input} {r : Report} {fd : Fd}
  {envs : ℕ → Env} {addr : SocketAddr} {segment : List UInt8} {opened : Option Opened}
  {i : PeerRef} {origin : Origin}

/-- Only a peer that has been created is heard, and on a connection only in TCP mode. -/
theorem accepted_spec (hs : Sockets s.device.transportMode s.net)
    (h : s.accepted input = some (i, origin)) :
    i < s.device.heap.length ∧ (origin.file.isSome → s.device.transportMode = .tcp) := by
  cases input with
  | datagram fd envs addr segment opened =>
    obtain ⟨j, hauthenticated, heq⟩ := Option.map_eq_some_iff.mp h
    cases heq
    obtain ⟨p, packet, -, hlock, -⟩ := authentic_of_authenticated hauthenticated
    exact ⟨lock_lt hlock, nofun⟩
  | connPacket n envs src =>
    obtain ⟨call, -, h⟩ := Option.bind_eq_some_iff.mp h
    split_ifs at h with hauthenticated
    obtain ⟨addr, -, heq⟩ := Option.map_eq_some_iff.mp h
    cases heq
    obtain ⟨p, packet, -, hlock, -⟩ := authentic_of_connAuthenticated hauthenticated
    exact ⟨lock_lt hlock, nofun⟩
  | streamPacket fd envs packet conns =>
    rw [accepted] at h
    split at h
    · next sock endpoint hready =>
      obtain ⟨j, hauthenticated, heq⟩ := Option.map_eq_some_iff.mp h
      cases heq
      obtain ⟨p, packet, -, hlock, -⟩ := authentic_of_authenticated hauthenticated
      exact ⟨lock_lt hlock, fun _ => hs.speaks fd _ hready⟩
    · cases h
  | request | listenPort | connCall | connReturn | accept | streamEnd | hangUp | timer | resetCount
  | tun => cases h

/-- The packet of a datagram that is accepted has moved the endpoint. -/
theorem returns_datagram (hs : Sockets s.device.transportMode s.net)
    (hstep : s.step (.datagram fd envs addr segment opened) = some (s', r))
    (haccepted : s.accepted (.datagram fd envs addr segment opened) = some (i, origin)) :
    s'.Returns i origin := by
  obtain ⟨j, hauthenticated, heq⟩ := Option.map_eq_some_iff.mp haccepted
  cases heq
  obtain ⟨packet, hreceived, hhandles, -⟩ := authenticated_eq_some hauthenticated
  obtain ⟨⟨sock, hready⟩, hmoved⟩ := datagram_step hstep
  have hmode : s.device.transportMode ≠ .tcp := hs.speaks fd _ hready
  refine ⟨⟨addr.finalAddr, ?_, addr.finalAddr_finalAddr⟩, fun htcp => ?_⟩
  · obtain ⟨-, -, hunhandled⟩ | ⟨j, packet', hmoves⟩ := hmoved
    · rw [hunhandled i packet hreceived] at hhandles
      cases hhandles
    · obtain ⟨rfl, -⟩ := Prod.mk.inj (Option.some.inj (hreceived.symm.trans hmoves.received))
      rw [hmoves.endpointAt, Function.update_self]
  · rw [transportMode_of_step hstep] at htcp
    exact absurd htcp hmode

/-- A datagram that is not accepted leaves the path as it was. -/
theorem Returns.datagram (h : s.Returns i origin) (hs : Sockets s.device.transportMode s.net)
    (hstep : s.step (.datagram fd envs addr segment opened) = some (s', r))
    (hcookie : ∀ reply, s.device.segmentReceiver s.ipProtocol (envs 0) addr segment =
        some (i, .packetCookieReply reply) →
      s.device.handles i (envs 1) (.packetCookieReply reply) = true →
      addr.finalAddr = origin.addr.finalAddr)
    (hother : ∀ origin', s.accepted (.datagram fd envs addr segment opened) ≠ some (i, origin')) :
    s'.Returns i origin := by
  obtain ⟨⟨sock, hready⟩, hmoved⟩ := datagram_step hstep
  have hmode : s.device.transportMode ≠ .tcp := hs.speaks fd _ hready
  refine ⟨?_, fun htcp => ?_⟩
  · obtain ⟨heq, -, -⟩ | ⟨j, packet, hmoves⟩ := hmoved
    · rw [heq]
      exact h.endpoint
    · by_cases hij : i = j
      · subst hij
        refine ⟨addr.finalAddr, by rw [hmoves.endpointAt, Function.update_self], ?_⟩
        rw [SocketAddr.finalAddr_finalAddr]
        have hcookie' : isCookieReply packet = true := by
          by_contra hnot
          refine hother ⟨addr, none⟩ ?_
          rw [accepted, authenticated, hmoves.received, Option.bind_some]
          simp [hnot, hmoves.handles]
        cases packet with
        | packetCookieReply reply => exact hcookie reply hmoves.received hmoves.handles
        | handshakeInit | handshakeResponse | packetData => cases hcookie'
      · rw [hmoves.endpointAt, Function.update_of_ne hij]
        exact h.endpoint
  · rw [transportMode_of_step hstep] at htcp
    exact absurd htcp hmode

/-- Without a datagram endpoints stay. -/
theorem Returns.keep (h : s.Returns i origin) (hs : Sockets s.device.transportMode s.net)
    (hstep : s.step input = some (s', r))
    (hnot : ∀ fd envs addr segment opened, input ≠ .datagram fd envs addr segment opened)
    (hspares : ∀ file, origin.file = some file → ∀ net op, s.Calls input net op →
      net.Spares origin.addr file op) : s'.Returns i origin := by
  obtain ⟨addr, hendpoint, haddr⟩ := h.endpoint
  have hkeep := endpointAt_of_step hstep hnot (lt_of_endpointAt hendpoint)
  refine ⟨⟨addr, hkeep.trans hendpoint, haddr⟩, fun htcp => ?_⟩
  rw [transportMode_of_step hstep] at htcp
  obtain ⟨hendpoint', file, hfile, hcarries⟩ := h.connection htcp
  exact ⟨hkeep.trans hendpoint', file, hfile,
    carries_step hstep hs htcp hcarries (hspares file hfile)⟩

/-- A packet on a connected socket comes from the endpoint. -/
theorem OnPath.returns_connPacket (h : OnPath q) {n : ℕ} {src : List UInt8}
    (hkeeps : KeepsPath q (.connPacket n envs src)) (hpeer : q.1.device.IsPeer i)
    (haccepted : q.1.accepted (.connPacket n envs src) = some (i, origin)) :
    q.1.Returns i origin := by
  obtain ⟨call, hcall, hreceived⟩ := Option.bind_eq_some_iff.mp haccepted
  split_ifs at hreceived
  obtain ⟨addr, hremote, heq⟩ := Option.map_eq_some_iff.mp hreceived
  cases heq
  obtain ⟨hmode, hopen⟩ := h.reading call (List.mem_of_getElem? hcall)
  refine ⟨?_, fun htcp => absurd htcp hmode⟩
  obtain hshut | ⟨conn, hi, hfile⟩ := hopen
  · exact hkeeps call _ _ hcall haccepted hpeer hshut
  · obtain ⟨addr', hendpoint, hremote'⟩ := h.conns _ conn hi
    rw [hfile, hremote] at hremote'
    obtain rfl := Option.some.inj hremote'
    exact ⟨addr, hendpoint, rfl⟩

/-- A packet in a stream comes on the connection that the map has. -/
theorem OnPath.returns_streamPacket {packet : List UInt8} {conns : ℕ → Option Connecting}
    (hkeeps : KeepsPath q (.streamPacket fd envs packet conns))
    (hstep : q.1.step (.streamPacket fd envs packet conns) = some (s', r))
    (haccepted : q.1.accepted (.streamPacket fd envs packet conns) = some (i, origin)) :
    q.1.Returns i origin := by
  obtain ⟨hendpoint, stream, hlookup, hfile⟩ := hkeeps i origin haccepted
  refine ⟨⟨origin.addr, hendpoint, rfl⟩, fun _ => ⟨hendpoint, stream.file, hfile, fun _ => ?_, ?_⟩⟩
  · exact ⟨stream, hlookup, rfl⟩
  · intro stream' hlookup'
    obtain rfl := Option.some.inj (hlookup'.symm.trans hlookup)
    rw [accepted] at haccepted
    rw [step] at hstep
    split at haccepted
    · next sock endpoint hready =>
      obtain ⟨j, -, heq⟩ := Option.map_eq_some_iff.mp haccepted
      cases heq
      have hsame : sock.file = stream'.file := Option.some.inj hfile
      rw [hready] at hstep
      dsimp only at hstep
      split_ifs at hstep with hended
      rw [← hsame]
      exact hended
    · cases haccepted

/-- What a packet that is accepted leaves. -/
theorem OnPath.returns_accepted (h : OnPath q) (hkeeps : KeepsPath q input)
    (hpeer : q.1.device.IsPeer i) (hstep : q.1.step input = some (s', r))
    (haccepted : q.1.accepted input = some (i, origin)) : s'.Returns i origin := by
  cases input with
  | datagram fd envs addr segment opened => exact returns_datagram h.sockets hstep haccepted
  | connPacket n envs src =>
    have hreturns := h.returns_connPacket hkeeps hpeer haccepted
    refine hreturns.keep h.sockets hstep nofun fun file hfile net op _ => ?_
    obtain ⟨call, hcall, hreceived⟩ := Option.bind_eq_some_iff.mp haccepted
    split_ifs at hreceived
    obtain ⟨addr, -, heq⟩ := Option.map_eq_some_iff.mp hreceived
    cases heq
    cases hfile
  | streamPacket fd envs packet conns =>
    have hreturns := OnPath.returns_streamPacket hkeeps hstep haccepted
    exact hreturns.keep h.sockets hstep nofun fun file _ net op hcalls =>
      spares_of_streamPacket hcalls
  | request | listenPort | connCall | connReturn | accept | streamEnd | hangUp | timer | resetCount
  | tun => cases haccepted

/-- What a step leaves of where a peer was heard before. -/
theorem OnPath.returns_heard (h : OnPath q) (hkeeps : KeepsPath q input)
    (hheard : HeardFrom q i origin) (hstep : q.1.step input = some (s', r))
    (hother : ∀ origin', q.1.accepted input ≠ some (i, origin')) : s'.Returns i origin := by
  have hreturns := h.heard i origin hheard
  by_cases hdatagram : ∃ fd envs addr segment opened, input = .datagram fd envs addr segment opened
  · obtain ⟨fd, envs, addr, segment, opened, rfl⟩ := hdatagram
    exact hreturns.datagram h.sockets hstep
      (fun reply hreceived hhandles => hkeeps i reply origin hreceived hhandles hheard) hother
  · refine hreturns.keep h.sockets hstep ?_ fun file hfile net op hcalls =>
      spares_of_keepsPath hkeeps hheard hfile hcalls
    rintro fd envs addr segment opened rfl
    exact hdatagram ⟨fd, envs, addr, segment, opened, rfl⟩

variable [LawfulTable T IpNetwork IpAddr]

/-- **What a step keeps.** -/
theorem OnPath.step (h : OnPath q) (hkeeps : KeepsPath q input)
    (hstep : Machine.logged Server.step accepted q input = some (q', r)) : OnPath q' := by
  obtain ⟨hstep, hlog⟩ := Machine.logged_eq_some.mp hstep
  have hmode := transportMode_of_step hstep
  obtain ⟨hsockets, hextends⟩ := sockets_step hstep h.sockets
  obtain ⟨hlength, hpeer⟩ := isPeer_of_step hstep
  refine ⟨by rw [hmode]; exact hsockets, consistent_of_step hstep h.consistent,
    h.conns.step h.sockets hstep, fun call hcall => ?_, fun e he => ?_, fun e he => ?_,
    fun i origin hheard => ?_⟩
  · rw [hmode]
    obtain ⟨op, res, -, -, hreading, -, heq⟩ | ⟨-, hhandled⟩ := step_device hstep
    · rw [heq] at hcall
      have hcall : call ∈ q.1.reading := hcall
      rw [hreading] at hcall
      exact absurd hcall List.not_mem_nil
    · obtain hold | ⟨fd, hready, -⟩ := hhandled.reading call hcall
      · obtain ⟨hudp, hopen⟩ := h.reading call hold
        exact ⟨hudp, hextends.openOrShut _ _ hopen⟩
      · exact ⟨h.sockets.speaks fd _ hready,
          hextends.openOrShut _ _ (h.sockets.connected.open_or_shut fd _ _ _ hready)⟩
  · rw [hlog] at he
    obtain hold | hnew := List.mem_append.mp he
    · exact lt_of_lt_of_le (h.heard_lt e hold) hlength
    · exact lt_of_lt_of_le (accepted_spec h.sockets (Option.mem_toList.mp hnew)).1 hlength
  · rw [hlog] at he
    rw [hmode]
    obtain hold | hnew := List.mem_append.mp he
    · exact h.heard_file e hold
    · exact (accepted_spec h.sockets (Option.mem_toList.mp hnew)).2
  · obtain ⟨hi, hlast⟩ := hheard
    rw [hlog] at hlast
    have hold : lastFrom q.2 i = some origin →
        (∀ origin', q.1.accepted input ≠ some (i, origin')) → q'.1.Returns i origin := by
      intro hlast hother
      have hlt := h.heard_lt _ (mem_of_lastFrom hlast)
      exact h.returns_heard hkeeps ⟨hpeer i hlt hi, hlast⟩ hstep hother
    rcases haccepted : q.1.accepted input with _ | ⟨j, origin'⟩
    · rw [haccepted, Option.toList_none, List.append_nil] at hlast
      exact hold hlast fun origin' heq => by rw [haccepted] at heq; cases heq
    · rw [haccepted, Option.toList_some, lastFrom_append] at hlast
      split_ifs at hlast with hji
      · subst hji
        cases hlast
        have hlt := (accepted_spec h.sockets haccepted).1
        exact h.returns_accepted hkeeps (hpeer j hlt hi) hstep haccepted
      · refine hold hlast fun origin'' heq => hji ?_
        rw [haccepted] at heq
        exact congrArg Prod.fst (Option.some.inj heq)

end Steps

/-! ## What does not keep the path -/

section Converse

variable {q : Heard C T} {s' : Server C T} {log' : List (PeerRef × Origin)} {input : Input}
  {r : Report} {fd : Fd} {envs : ℕ → Env} {addr : SocketAddr} {i : PeerRef} {origin : Origin}

/-- Without a request the peers stay. -/
theorem isPeer_of_handled (hstep : q.1.step input = some (s', r))
    (hnot : ∀ op, input ≠ .request op) (hi : q.1.device.IsPeer i) : s'.device.IsPeer i := by
  obtain ⟨op, res, heq, -⟩ | ⟨-, hhandled⟩ := step_device hstep
  · exact absurd heq (hnot op)
  · exact hhandled.touches.isPeer_iff.mpr hi

/-- The connections that peers are still heard on have been spared. -/
theorem OnPath.sparesHeard (h : OnPath q) {op : Network.Op}
    (hevent : q.1.socketEvent op = some (s', r))
    (hreturns : ∀ i origin, HeardFrom (s', q.2) i origin → s'.Returns i origin) :
    SparesHeard q op := by
  intro i origin file hheard hfile
  have hmode := h.heard_file _ (mem_of_lastFrom hheard.2) (Option.isSome_of_eq_some hfile)
  obtain ⟨⟨net, stream⟩, hstep, heq⟩ := Option.map_eq_some_iff.mp hevent
  cases heq
  obtain ⟨-, file₁, hfile₁, hcarries⟩ := (h.heard i origin hheard).connection hmode
  obtain ⟨-, file₂, hfile₂, hcarries'⟩ := (hreturns i origin hheard).connection hmode
  obtain rfl := Option.some.inj (hfile₁.symm.trans hfile)
  obtain rfl := Option.some.inj (hfile₂.symm.trans hfile)
  exact hcarries.spares hcarries' h.sockets.owned hstep

/-- A packet in a stream puts only new connections in the map. -/
theorem connections_streamPacket {s : Server C T} {packet : List UInt8}
    {conns : ℕ → Option Connecting}
    (hstep : s.step (.streamPacket fd envs packet conns) = some (s', r)) :
    s'.net.ended = s.net.ended ∧ ∀ addr stream, s'.net.tcpConnections.lookup addr = some stream →
      stream.file < s.net.files → s.net.tcpConnections.lookup addr = some stream := by
  refine ((step_net hstep).invariant (I := fun net => s.net.files ≤ net.files ∧
    net.ended = s.net.ended ∧ ∀ addr stream, net.tcpConnections.lookup addr = some stream →
      stream.file < s.net.files → s.net.tcpConnections.lookup addr = some stream)
    ⟨le_rfl, rfl, fun _ _ hold _ => hold⟩ ?_).2
  rintro net op net' stream ⟨hfiles, hended, hold⟩ hcalls hcall
  cases op with
  | openListenSocket | hangUp => cases hcalls.2.1
  | accept | streamEnd => cases hcalls.2
  | maybeConnectTcp endpoint conn =>
    obtain ⟨sock, -, rfl, -⟩ | ⟨-, -, rfl, -⟩ | ⟨fd, clone, added, -, -, rfl, -⟩ :=
      Network.maybeConnectTcp_cases (Network.step_maybeConnectTcp hcall).2
    · exact ⟨hfiles, hended, hold⟩
    · exact ⟨hfiles, hended, hold⟩
    · refine ⟨hfiles.trans (Nat.le_succ _), hended, fun addr stream hlookup hlt => ?_⟩
      obtain ⟨-, rfl⟩ | ⟨-, hlookup⟩ := lookup_insert_iff.mp hlookup
      · exact absurd hlt (not_lt.mpr hfiles)
      · exact hold addr stream hlookup hlt
  | connectEndpoint peer addr opened =>
    obtain ⟨fd, sock, envs, addr, segment, opened, packet, -, heq, -⟩ := hcalls
    cases heq
  | shutdownEndpoint peer =>
    cases hcall
    obtain ⟨conns, shut, heq, -⟩ := net.shutdownEndpoints_spec [peer]
    have hsame : net.shutdownEndpoint peer = { net with conns, shut } := heq
    rw [hsame]
    exact ⟨hfiles, hended, hold⟩

/-- The endpoint and the connection of a packet in a stream were there before. -/
theorem OnPath.keepsPath_streamPacket (h : OnPath q) {packet : List UInt8}
    {conns : ℕ → Option Connecting}
    (hstep : q.1.step (.streamPacket fd envs packet conns) = some (s', r))
    (haccepted : q.1.accepted (.streamPacket fd envs packet conns) = some (i, origin))
    (hreturns : q.1.device.IsPeer i → s'.Returns i origin) :
    q.1.device.endpointAt i = some origin.addr ∧
      ∃ stream, q.1.net.tcpConnections.lookup origin.addr = some stream ∧
        origin.file = some stream.file := by
  have hlt := (accepted_spec h.sockets haccepted).1
  have hkeep := endpointAt_of_step hstep nofun hlt
  rw [accepted] at haccepted
  split at haccepted
  · next sock endpoint hready =>
    obtain ⟨j, hauthenticated, heq⟩ := Option.map_eq_some_iff.mp haccepted
    cases heq
    obtain ⟨p, packet', hreceived, -, -⟩ := authentic_of_authenticated hauthenticated
    have hreturns := hreturns (isPeer_of_streamReceiver h.consistent hreceived)
    have hmode : s'.device.transportMode = .tcp :=
      (transportMode_of_step hstep).trans (h.sockets.speaks fd _ hready)
    obtain ⟨hendpoint, file, hfile, hcarries⟩ := hreturns.connection hmode
    obtain rfl := Option.some.inj hfile
    obtain ⟨hended, hold⟩ := connections_streamPacket hstep
    have hopen : sock.file ∉ s'.net.ended := by
      rw [hended]
      rw [Server.step, hready] at hstep
      dsimp only at hstep
      split_ifs at hstep with hclosed
      exact hclosed
    obtain ⟨stream, hlookup, hsame⟩ := hcarries.entry hopen
    have hlt : stream.file < q.1.net.files := by
      rw [hsame]
      exact h.sockets.owned.owner_lt fd sock (Network.owner_of_ready hready).2
    exact ⟨hkeep.symm.trans hendpoint, stream, hold _ stream hlookup hlt, congrArg some hsame.symm⟩
  · cases haccepted

/-- **Only the steps that keep the path** leave it to every peer. -/
theorem OnPath.keepsPath (h : OnPath q)
    (hstep : Machine.logged Server.step accepted q input = some ((s', log'), r))
    (hreturns : ∀ i origin, HeardFrom (s', log') i origin → s'.Returns i origin) :
    KeepsPath q input := by
  obtain ⟨hstep, hlog⟩ := Machine.logged_eq_some.mp hstep
  have hlog : log' = q.2 ++ (q.1.accepted input).toList := hlog
  have hstep : q.1.step input = some (s', r) := hstep
  -- a peer that is heard now, or was heard before a step on which none is
  have hnew : ∀ {i origin}, (∀ op, input ≠ .request op) →
      q.1.accepted input = some (i, origin) → q.1.device.IsPeer i → s'.Returns i origin := by
    intro i origin hnot haccepted hi
    refine hreturns i origin ⟨isPeer_of_handled hstep hnot hi, ?_⟩
    rw [hlog, haccepted, Option.toList_some, lastFrom_append, if_pos rfl]
  have hevent : ∀ {op}, q.1.accepted input = none → q.1.socketEvent op = some (s', r) →
      SparesHeard q op := by
    intro op hnone hevent
    rw [hlog, hnone, Option.toList_none, List.append_nil] at hreturns
    exact h.sparesHeard hevent hreturns
  cases input with
  | listenPort port opening =>
    rw [Server.step] at hstep
    split_ifs at hstep
    exact hevent rfl hstep
  | accept fd a => exact hevent rfl hstep
  | streamEnd fd => exact hevent rfl hstep
  | hangUp fd =>
    rw [Server.step] at hstep
    split at hstep
    · split_ifs at hstep
      exact hevent rfl hstep
    · exact hevent rfl hstep
  | datagram fd envs addr segment opened =>
    intro i reply origin hreceived hhandles hheard
    have hnone : q.1.accepted (.datagram fd envs addr segment opened) = none := by
      rw [accepted, hreceived]
      rfl
    rw [hlog, hnone, Option.toList_none, List.append_nil] at hreturns
    have hheard' : HeardFrom (s', q.2) i origin :=
      ⟨isPeer_of_handled hstep (fun _ heq => by cases heq) hheard.1, hheard.2⟩
    obtain ⟨addr', hendpoint, haddr⟩ := (hreturns i origin hheard').endpoint
    obtain ⟨-, ⟨-, -, hunhandled⟩ | ⟨j, packet, hmoves⟩⟩ := datagram_step hstep
    · rw [hunhandled i _ hreceived] at hhandles
      cases hhandles
    · obtain ⟨rfl, -⟩ := Prod.mk.inj (Option.some.inj (hreceived.symm.trans hmoves.received))
      rw [hmoves.endpointAt, Function.update_self] at hendpoint
      cases hendpoint
      rw [← haddr, SocketAddr.finalAddr_finalAddr]
  | connPacket n envs src =>
    intro call i origin _ haccepted hi _
    have hkeep := endpointAt_of_step hstep (fun _ _ _ _ _ heq => by cases heq)
      (accepted_spec h.sockets haccepted).1
    obtain ⟨addr, hendpoint, haddr⟩ := (hnew (fun _ heq => by cases heq) haccepted hi).endpoint
    exact ⟨addr, hkeep.symm.trans hendpoint, haddr⟩
  | streamPacket fd envs packet conns =>
    intro i origin haccepted
    exact h.keepsPath_streamPacket hstep haccepted (hnew (fun _ heq => by cases heq) haccepted)
  | request | connCall | connReturn | timer | resetCount | tun => trivial

end Converse

/-! ## Packets from the interface -/

section Tun

variable {s s' : Server C T} {log : List (PeerRef × Origin)} {env : Env} {src packet : List UInt8}
  {conn : Option Connecting} {i : PeerRef} {origin : Origin} {route : Option Route}

/-- The connection that the map gives is the one that carries the address, or a new one when that
has ended. -/
theorem follows_stream {net net' : Network} {file : ℕ} {stream : Option Socket}
    (howned : net.Owned) (haddressed : net.Addressed) (hcarries : net.Carries origin.addr file)
    (hfile : origin.file = some file)
    (hsocket : net.tcpConnections.lookup origin.addr = none → ∃ c ∈ conn, c.clone.isSome)
    (hstep : net.step (.maybeConnectTcp origin.addr conn) = some (net', stream)) :
    Follows net' origin (stream.map Route.stream) := by
  obtain ⟨sock, hlookup, rfl, rfl⟩ | ⟨hnone, hclone, -, -⟩ |
    ⟨fd, clone, added, hnone, -, rfl, rfl⟩ :=
      Network.maybeConnectTcp_cases (Network.step_maybeConnectTcp hstep).2
  · refine ⟨haddressed.entries _ _ hlookup, hcarries.live sock hlookup, file, hfile,
      fun hopen => ?_⟩
    obtain ⟨sock', hlookup', hsame⟩ := hcarries.entry hopen
    obtain rfl := Option.some.inj (hlookup'.symm.trans hlookup)
    exact hsame
  · obtain ⟨c, hc, hsome⟩ := hsocket hnone
    rw [hclone c hc] at hsome
    cases hsome
  · refine ⟨AList.lookup_insert _, fun hended => ?_, file, hfile, fun hopen => ?_⟩
    · exact absurd (howned.ended_lt _ hended) (lt_irrefl _)
    · obtain ⟨sock, hlookup, -⟩ := hcarries.entry hopen
      rw [hnone] at hlookup
      cases hlookup

/-- **The route follows the peer.** -/
theorem OnPath.follows_route {net : Network} (h : OnPath (s, log)) (hreturns : s.Returns i origin)
    (hsocket : s.HasSocket i conn) (hroute : s.route s.device i conn = some (net, route)) :
    Follows net origin route := by
  rw [Server.route] at hroute
  rw [HasSocket] at hsocket
  cases hmode : s.device.transportMode with
  | tcp =>
    obtain ⟨hendpoint, file, hfile, hcarries⟩ := hreturns.connection hmode
    simp only [hmode, hendpoint] at hroute hsocket
    obtain ⟨⟨net', stream⟩, hstep, heq⟩ := Option.map_eq_some_iff.mp hroute
    cases heq
    exact follows_stream h.sockets.owned h.sockets.addressed hcarries hfile (hsocket _ rfl) hstep
  | udp | rawIp =>
    obtain ⟨addr, hendpoint, haddr⟩ := hreturns.endpoint
    simp only [hmode] at hsocket
    rcases hconn : s.net.conns.lookup i with _ | sock
    · simp only [hmode, hconn, hendpoint] at hroute
      obtain ⟨rfl, rfl⟩ := Prod.mk.inj (Option.some.inj hroute)
      obtain ⟨sock, hudp⟩ := Option.isSome_iff_exists.mp (hsocket addr hendpoint hconn)
      rw [hudp]
      exact haddr
    · simp only [hmode, hconn] at hroute
      obtain ⟨rfl, rfl⟩ := Prod.mk.inj (Option.some.inj hroute)
      obtain ⟨addr', hendpoint', hremote⟩ := h.conns i sock hconn
      obtain rfl := Option.some.inj (hendpoint'.symm.trans hendpoint)
      exact ⟨addr', hremote, haddr⟩

omit [Table T IpNetwork IpAddr] in
/-- What is sent has a socket. -/
theorem hasSocket_of_route {net : Network} {route : Route}
    (hroute : s.route s.device i conn = some (net, some route)) : s.HasSocket i conn := by
  rw [Server.route] at hroute
  rw [HasSocket]
  cases hmode : s.device.transportMode with
  | tcp =>
    intro endpoint hendpoint hnone
    simp only [hmode, hendpoint] at hroute
    obtain ⟨⟨net', stream⟩, hstep, heq⟩ := Option.map_eq_some_iff.mp hroute
    obtain ⟨sock, hlookup, -, -⟩ | ⟨-, -, -, rfl⟩ | ⟨fd, clone, added, -, rfl, -, -⟩ :=
      Network.maybeConnectTcp_cases (Network.step_maybeConnectTcp hstep).2
    · rw [hnone] at hlookup
      cases hlookup
    · cases heq
    · exact ⟨_, rfl, rfl⟩
  | udp | rawIp =>
    intro addr hendpoint hconn
    simp only [hmode, hconn, hendpoint] at hroute
    obtain ⟨-, hudp⟩ := Prod.mk.inj (Option.some.inj hroute)
    obtain ⟨sock, hudp, -⟩ := Option.map_eq_some_iff.mp hudp
    rw [hudp]
    rfl

variable [LawfulTable T IpNetwork IpAddr]

/-- **What is routed follows the peer**, exactly when there is a socket for it. -/
theorem OnPath.follows_iff (h : OnPath (s, log))
    (hstep : s.step (.tun env src conn) = some (s', .routed i route packet))
    (hlast : lastFrom log i = some origin) : Follows s'.net origin route ↔ s.HasSocket i conn := by
  obtain ⟨d, htouches, hkeep, ⟨-, heq⟩ | ⟨j, net, route', packet', hfind, hroute, rfl, heq⟩⟩ :=
    tun_cases hstep
  · cases heq
  · cases heq
    have hpeer : s.device.IsPeer i := by
      obtain ⟨addr, -, hfind⟩ := Option.bind_eq_some_iff.mp hfind
      obtain ⟨n, hlongest⟩ := AllowedIps.find_eq_some.mp hfind
      exact h.consistent.byIp n i hlongest.lookup_eq
    have hsame : s.route d i conn = s.route s.device i conn := by
      rw [Server.route, Server.route, htouches.transportMode_eq, hkeep]
    rw [hsame] at hroute
    refine ⟨fun hfollows => ?_, fun hsocket =>
      h.follows_route (h.heard i origin ⟨hpeer, hlast⟩) hsocket hroute⟩
    rcases route with _ | route
    · exact hfollows.elim
    · exact hasSocket_of_route hroute

end Tun

/-! ## Runs -/

section Runs

variable [LawfulTable T IpNetwork IpAddr] {queue : EventPoll SocketHandler} {seed mask : UInt32}
  {hseed : Is24Bit seed} {hmask : Is24Bit mask} {transportMode : TransportMode}
  {ipProtocol : Option UInt8} {useConnectedSocket : Bool} {s s' : Server C T}
  {log : List (PeerRef × Origin)} {env : Env} {src packet : List UInt8} {conn : Option Connecting}
  {i : PeerRef} {origin : Origin} {route : Option Route}

theorem onPath_of_reaches {q : Heard C T} (hqueue : Network.OtherEvents queue)
    (h : Machine.Reaches (Machine.logged step accepted) KeepsPath
      (new queue (.new seed mask hseed hmask) transportMode ipProtocol useConnectedSocket, []) q) :
    OnPath q := by
  refine h.invariant ?_ fun q input q' r h hkeeps hstep => h.step hkeeps hstep
  refine ⟨⟨Network.owned_new hqueue, Network.connected_new hqueue, Network.addressed_new hqueue,
    fun fd handler hready => ?_⟩, consistent_new transportMode, fun i conn hi => ?_,
    fun call hcall => ?_, fun e he => ?_, fun e he => ?_, fun i origin hheard => ?_⟩
  · obtain rfl : handler = .other := hqueue fd _ (Network.owner_of_ready hready).1
    trivial
  · cases hi
  · exact absurd hcall List.not_mem_nil
  · exact absurd he List.not_mem_nil
  · exact absurd he List.not_mem_nil
  · cases hheard.2

/-- **The return path** in every run whose steps keep it: what is read from the interface for a
peer goes to the address that its last handshake or data packet came from and, over TCP, on the
connection on which that came, as long as it is open, when there is a socket for it. Only the steps
that keep the path leave the endpoint and the connection of every peer as this needs them. -/
theorem return_path (hqueue : Network.OtherEvents queue)
    (h : Machine.Reaches (Machine.logged step accepted) KeepsPath
      (new queue (.new seed mask hseed hmask) transportMode ipProtocol useConnectedSocket, [])
      (s, log)) :
    (∀ env src conn s' i route packet origin,
      s.step (.tun env src conn) = some (s', .routed i route packet) →
      lastFrom log i = some origin → (Follows s'.net origin route ↔ s.HasSocket i conn)) ∧
    ∀ input s' log' r, Machine.logged step accepted (s, log) input = some ((s', log'), r) →
      ((∀ i origin, HeardFrom (s', log') i origin → s'.Returns i origin) ↔
        KeepsPath (s, log) input) := by
  have hpath := onPath_of_reaches hqueue h
  refine ⟨fun env src conn s' i route packet origin hstep hlast => hpath.follows_iff hstep hlast,
    fun input s' log' r hstep => ⟨hpath.keepsPath hstep, fun hkeeps => ?_⟩⟩
  exact (hpath.step hkeeps hstep).heard

end Runs

/-! ## Two TCP peers -/

def streamServer : Server checksumPrims (PrefixMap IpNetwork) :=
  new .new sampleDevice.nextIndex .tcp none false

/-- The stream that a packet of the interface goes out on. -/
def streamOf : Report → Option (PeerRef × Option Socket)
  | .routed i none _ => some (i, none)
  | .routed i (some (.stream sock)) _ => some (i, some sock)
  | _ => none

theorem eq_of_streamOf {r : Report} {i : PeerRef} {sock : Option Socket}
    (h : streamOf r = some (i, sock)) : ∃ packet, r = .routed i (sock.map Route.stream) packet := by
  cases r with
  | routed j route packet =>
    rcases route with _ | ⟨sock', addr⟩ | sock' | sock'
    · cases h
      exact ⟨packet, rfl⟩
    · cases h
    · cases h
    · cases h
      exact ⟨packet, rfl⟩
  | quiet | received => cases h

def sampleIps : List AllowedIP := [sampleNet]

/-- The device gets a key, and a peer with an endpoint. -/
def dialRequests : List Input :=
  [.request sampleSetKey,
    .request (.updatePeer ⟨Tunn.sampleEnv 0 0, ⟨10 ^ 18, 0⟩⟩ (fill 32 6) false false (some homeAddr)
      sampleIps none none)]

/-- A packet for the peer, with a connection for its initiation. -/
def dialTun : Input := .tun (Tunn.sampleEnv 6 2) Tunn.samplePacket (some ⟨5, some 6, true⟩)

/-- The response of the other end to the initiation. -/
def streamResponse : List UInt8 :=
  match Machine.run step streamServer (dialRequests ++ [dialTun]) with
  | some (_, [_, _, .routed _ _ initiation]) =>
    match (Tunn.sampleTunn 2 1 9).decapsulate (Tunn.sampleEnv 5 3) none initiation 148 with
    | some (_, .writeToNetwork response) => response
    | _ => []
  | _ => []

def dialResponse : Input :=
  .streamPacket 5 (fun _ => Tunn.sampleEnv 6 5) streamResponse fun _ => none

/-- Another packet for the peer, which a new connection could be made for too. -/
def nextTun : Input := .tun (Tunn.sampleEnv 6 6) Tunn.samplePacket (some ⟨7, some 8, true⟩)

/-- Data for the peer goes out on the connection that its response came from. -/
theorem return_path_sample :
    ∃ s log s' packet, Machine.Reaches (Machine.logged step accepted) KeepsPath (streamServer, [])
        (s, log) ∧
      lastFrom log 0 = some ⟨homeAddr, some 0⟩ ∧
      s.step nextTun = some (s', .routed 0 (some (.stream ⟨6, 0⟩)) packet) ∧
      Follows s'.net ⟨homeAddr, some 0⟩ (some (.stream ⟨6, 0⟩)) := by
  have hrun : (Machine.run (Machine.logged step accepted) (streamServer, []) dialRequests).bind
      (fun q₀ => (Machine.logged step accepted q₀.1 dialTun).bind fun q₁ =>
        (Machine.logged step accepted q₁.1 dialResponse).bind fun q₂ =>
          (step q₂.1.1 nextTun).map fun w =>
            decide (q₀.1.2 = [] ∧
              q₁.1.1.accepted dialResponse = some (0, ⟨homeAddr, some 0⟩) ∧
              q₁.1.1.device.endpointAt 0 = some homeAddr ∧
              q₁.1.1.net.tcpConnections.lookup homeAddr = some ⟨6, 0⟩ ∧
              q₂.1.1.device.transportMode = .tcp ∧ streamOf w.2 = some (0, some ⟨6, 0⟩))) =
      some true := by
    decide +kernel
  obtain ⟨⟨⟨s₀, log₀⟩, rs⟩, hrequests, hrun⟩ := Option.bind_eq_some_iff.mp hrun
  obtain ⟨⟨⟨s₁, log₁⟩, r₁⟩, hdial, hrun⟩ := Option.bind_eq_some_iff.mp hrun
  obtain ⟨⟨⟨s₂, log₂⟩, r₂⟩, hresponse, hrun⟩ := Option.bind_eq_some_iff.mp hrun
  obtain ⟨⟨s', r⟩, hstep, heq⟩ := Option.map_eq_some_iff.mp hrun
  obtain ⟨hlog₀, haccepted, hendpoint, hlookup, hmode, hstream⟩ := of_decide_eq_true heq
  obtain ⟨packet, rfl⟩ := eq_of_streamOf hstream
  subst hlog₀
  obtain rfl : log₁ = [] := (Machine.logged_eq_some.mp hdial).2
  have hlog₂ : log₂ = [] ++ (s₁.accepted dialResponse).toList :=
    (Machine.logged_eq_some.mp hresponse).2
  rw [haccepted] at hlog₂
  subst hlog₂
  have hreaches : Machine.Reaches (Machine.logged step accepted) KeepsPath (streamServer, [])
      (s₂, [(0, ⟨homeAddr, some 0⟩)]) := by
    refine .tail (.tail (Machine.reaches_of_run_of_forall hrequests ?_) ?_ hdial) ?_ hresponse
    · intro input hinput q
      simp only [dialRequests, List.mem_cons, List.not_mem_nil, or_false] at hinput
      obtain rfl | rfl := hinput <;> trivial
    · trivial
    · intro i origin heq
      obtain ⟨rfl, rfl⟩ := Prod.mk.inj (Option.some.inj (heq.symm.trans haccepted))
      exact ⟨hendpoint, ⟨6, 0⟩, hlookup, rfl⟩
  refine ⟨s₂, _, s', packet, hreaches, rfl, hstep, ?_⟩
  refine ((return_path (fun fd e he => (by cases he)) hreaches).1 _ _ _ _ _ _ _ _ hstep rfl).mpr ?_
  rw [HasSocket, hmode]
  exact fun _ _ _ => ⟨_, rfl, rfl⟩

/-- A connection comes from a peer without an endpoint, which sends its initiation on it. -/
def acceptInputs : List Input :=
  [.listenPort 51820 ⟨some ⟨3, 4, true⟩, none⟩, .request sampleSetKey,
    .request (sampleAdd 6 sampleIps), .accept 4 ⟨homeAddr, true, ⟨5, some 6, true⟩⟩,
    .streamPacket 5 (fun _ => Tunn.sampleEnv 6 2) remoteInitiation.2 fun _ => none]

/-- A packet of the interface at the other end, which has the device's response. -/
def streamData : List UInt8 :=
  match Machine.run step streamServer acceptInputs with
  | some (_, [_, _, _, _, .received _ [.reply response]]) =>
    match remoteInitiation.1.decapsulate (Tunn.sampleEnv 5 3) none response 148 with
    | some (t, _) =>
      match t.encapsulate (Tunn.sampleEnv 5 4) Tunn.samplePacket 148 with
      | some (_, .writeToNetwork packet) => packet
      | _ => []
    | none => []
  | _ => []

/-- **A peer without an endpoint is not answered over TCP**: its handshake and its data have been
accepted on a connection that is open and in the map, and the packet for it is dropped. -/
theorem stream_peer_unreached :
    ∃ s log, Machine.Reaches (Machine.logged step accepted) (fun _ _ => True) (streamServer, [])
        (s, log) ∧
      HeardFrom (s, log) 0 ⟨homeAddr, some 1⟩ ∧ s.net.Carries homeAddr 1 ∧ 1 ∉ s.net.ended ∧
      ∃ input s' packet, s.step input = some (s', .routed 0 none packet) ∧
        ¬ Follows s'.net ⟨homeAddr, some 1⟩ none := by
  have hrun : (Machine.run (Machine.logged step accepted) (streamServer, []) (acceptInputs ++
      [.streamPacket 5 (fun _ => Tunn.sampleEnv 6 5) streamData fun _ => none])).bind (fun q =>
        (step q.1.1 nextTun).map fun w =>
          decide (q.1.1.device.peers.lookup (fill 32 6) = some 0 ∧
            lastFrom q.1.2 0 = some ⟨homeAddr, some 1⟩ ∧
            q.1.1.net.tcpConnections.lookup homeAddr = some ⟨6, 1⟩ ∧ q.1.1.net.ended = [] ∧
            streamOf w.2 = some (0, none))) = some true := by
    decide +kernel
  obtain ⟨⟨⟨s, log⟩, rs⟩, hrun, hstep⟩ := Option.bind_eq_some_iff.mp hrun
  obtain ⟨⟨s', r⟩, hstep, heq⟩ := Option.map_eq_some_iff.mp hstep
  obtain ⟨hpeer, hlast, hlookup, hended, hstream⟩ := of_decide_eq_true heq
  obtain ⟨packet, rfl⟩ := eq_of_streamOf hstream
  have hopen : ∀ file, file ∉ s.net.ended := fun file hmem => by
    rw [hended] at hmem
    exact absurd hmem List.not_mem_nil
  exact ⟨s, log, Machine.reaches_of_run hrun, ⟨⟨_, hpeer⟩, hlast⟩,
    ⟨fun _ => ⟨_, hlookup, rfl⟩, fun stream _ => hopen _⟩, hopen 1, nextTun, s', packet, hstep, id⟩

end Server

end NekoLink.Device
