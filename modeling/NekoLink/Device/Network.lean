import NekoLink.Device.EventLoop
import NekoLink.Device.Routing
import NekoLink.Foundations.Slots

/-!
# The sockets of the device

The registry `EventPoll` of `device/epoll.rs` as a vector of slots, and the functions of
`device/mod.rs` and `device/peer.rs` that open, register and close sockets. A socket is a file
descriptor and the open file behind it, which duplicates share; a handler owns the socket that it
is registered for. A new descriptor is one that is not in use. A panic ends the run.

* `Owned`: what the registry and the sockets of the device have to do with each other.
* `owned_of_reaches`: it holds in every run.
-/

namespace NekoLink.Device

open Wire Noise Routing

/-! ## The registry -/

structure Event (H : Type) where
  handler : H
  /-- Whether `epoll_ctl` has taken it. -/
  added : Bool
  deriving DecidableEq

/-- The events by the file descriptor of their trigger. -/
structure EventPoll (H : Type) where
  events : List (Option (Event H))

namespace EventPoll

variable {H : Type}

def new : EventPoll H := ⟨[]⟩

def get (q : EventPoll H) (fd : Fd) : Option (Event H) := Slots.get q.events fd

/-- `new_event`: the event is stored, and a previous one under its descriptor dropped, before the
system is asked to take it. -/
def newEvent (q : EventPoll H) (trigger : Fd) (handler : H) (added : Bool) : EventPoll H :=
  ⟨Slots.put q.events trigger ⟨handler, added⟩⟩

/-- Remove the event of a descriptor; `none` is an index out of range. -/
def clearEventByFd (q : EventPoll H) (index : Fd) : Option (EventPoll H × Option (Event H)) :=
  (Slots.take q.events index).map fun (events, event) => (⟨events⟩, event)

variable {q q' : EventPoll H} {fd : Fd} {o : Option (Event H)}

@[simp] theorem get_new : (new : EventPoll H).get fd = none := rfl

theorem get_newEvent (q : EventPoll H) (fd : Fd) (handler : H) (added : Bool) :
    (q.newEvent fd handler added).get = Function.update q.get fd (some ⟨handler, added⟩) :=
  Slots.get_put

theorem get_clearEventByFd (h : q.clearEventByFd fd = some (q', o)) :
    q'.get = Function.update q.get fd none ∧ o = q.get fd := by
  obtain ⟨⟨events, o'⟩, htake, heq⟩ := Option.map_eq_some_iff.mp h
  obtain ⟨rfl, rfl⟩ := Prod.mk.inj heq
  exact Slots.get_take htake

end EventPoll

/-! ## Sockets -/

/-- A file descriptor, and the open file that its duplicates share. -/
structure Socket where
  fd : Fd
  file : ℕ
  deriving DecidableEq

/-- The handlers, with the sockets that they own. -/
inductive SocketHandler
  /-- The interface, the control socket, the notices and the timers. -/
  | other
  | udp (sock : Socket)
  | tcpListener (sock : Socket)
  | tcpStream (sock : Socket) (endpoint : SocketAddr)
  | conn (sock : Socket) (peer : PeerRef) (peerAddr : IpAddr)
  deriving DecidableEq

def SocketHandler.socket : SocketHandler → Option Socket
  | .other => none
  | .udp sock | .tcpListener sock | .tcpStream sock _ | .conn sock _ _ => some sock

/-- A socket that is created and duplicated, and whether the handler's event is added. -/
structure Opened where
  fd : Fd
  clone : Fd
  added : Bool

/-- The same where the program goes on without the duplicate. -/
structure Connecting where
  fd : Fd
  clone : Option Fd
  added : Bool

/-- A new connection of the listener. -/
structure Accepted where
  addr : SocketAddr
  nonblocking : Bool
  conn : Connecting

/-- The sockets of an opening in TCP mode and in the others; `none` is a failure. -/
structure Opening where
  tcp : Option Opened
  udp : Option (Opened × Opened)

def Opened.fds (o : Opened) : List Fd := [o.fd, o.clone]

def Connecting.fds (o : Connecting) : List Fd := o.fd :: o.clone.toList

def Opening.fds (o : Opening) : TransportMode → List Fd
  | .tcp => o.tcp.toList.flatMap Opened.fds
  | .udp | .rawIp => o.udp.toList.flatMap fun (o4, o6) => o4.fds ++ o6.fds

structure Network where
  queue : EventPoll SocketHandler
  udp4 : Option Socket
  udp6 : Option Socket
  tcpListener : Option Socket
  /-- Map of peer endpoint address to TCP stream -/
  tcpConnections : HashMap SocketAddr Socket
  /-- The connected socket of a peer's endpoint. -/
  conns : HashMap PeerRef Socket
  /-- The number of files opened so far, which names the next one. -/
  files : ℕ
  /-- The addresses that files are connected to. -/
  remotes : HashMap ℕ SocketAddr
  /-- The files that have been shut down. -/
  shut : List ℕ
  /-- The files whose end has been reported. -/
  ended : List ℕ

namespace Network

/-- No sockets, and events of other descriptors. -/
def new (queue : EventPoll SocketHandler) : Network where
  queue := queue
  udp4 := none
  udp6 := none
  tcpListener := none
  tcpConnections := ∅
  conns := ∅
  files := 0
  remotes := ∅
  shut := []
  ended := []

variable (s : Network)

/-- The sockets that `open_listen_socket` closes. -/
def listening : List Socket :=
  s.udp4.toList ++ s.udp6.toList ++ s.tcpListener.toList ++ s.tcpConnections.entries.map Sigma.snd

/-- The sockets that no handler owns. -/
def stored : List Socket := s.listening ++ s.conns.entries.map Sigma.snd

/-- The descriptor is not in use. -/
def Free (fd : Fd) : Prop := s.queue.get fd = none ∧ ∀ sock ∈ s.stored, sock.fd ≠ fd

/-- The descriptors are not in use, and differ. -/
def Fresh (fds : List Fd) : Prop := fds.Nodup ∧ ∀ fd ∈ fds, s.Free fd

instance (fd : Fd) : Decidable (s.Free fd) := inferInstanceAs (Decidable (_ ∧ _))

instance (fds : List Fd) : Decidable (s.Fresh fds) := inferInstanceAs (Decidable (_ ∧ _))

/-- Register the handler that owns the socket. -/
def register (handler : SocketHandler) (sock : Socket) (added : Bool) : Network :=
  { s with queue := s.queue.newEvent sock.fd handler added }

def registerUdpHandler (udp : Socket) (added : Bool) : Network := s.register (.udp udp) udp added

def registerTcpListenerHandler (listener : Socket) (added : Bool) : Network :=
  s.register (.tcpListener listener) listener added

def registerTcpStreamHandler (sock : Socket) (endpoint : SocketAddr) (added : Bool) : Network :=
  s.register (.tcpStream sock endpoint) sock added

def registerConnHandler (peer : PeerRef) (udp : Socket) (peerAddr : IpAddr) (added : Bool) :
    Network :=
  s.register (.conn udp peer peerAddr) udp added

/-! ## Peers -/

def shutdownEndpoint (peer : PeerRef) : Network :=
  match s.conns.lookup peer with
  | none => s
  | some conn => { s with conns := s.conns.erase peer, shut := conn.file :: s.shut }

def shutdownEndpoints (peers : List PeerRef) : Network := peers.foldl shutdownEndpoint s

/-- `connect_endpoint` and `register_conn_handler`. -/
def connectEndpoint (peer : PeerRef) (addr : SocketAddr) (opened : Option Opened) :
    Option Network :=
  match s.conns.lookup peer, opened with
  | some _, _ => some s -- Connected
  | none, none => some s
  | none, some o =>
    if o.added then
      some ({ s with
        conns := s.conns.insert peer ⟨o.clone, s.files⟩
        files := s.files + 1
        remotes := s.remotes.insert s.files addr }.registerConnHandler peer ⟨o.fd, s.files⟩
          addr.ip o.added)
    else none

/-! ## Listening -/

/-- `clear_event_by_fd` for each socket. -/
def clearEvents : List Socket → EventPoll SocketHandler → Option (EventPoll SocketHandler)
  | [], q => some q
  | sock :: socks, q => (q.clearEventByFd sock.fd).bind fun (q, _) => clearEvents socks q

/-- Close any existing open socket, and remove them from the event loop. -/
def closeSockets (peers : List PeerRef) : Option Network :=
  (clearEvents s.listening s.queue).map fun queue =>
    { s with
      queue
      udp4 := none
      udp6 := none
      tcpListener := none
      tcpConnections := ∅ }.shutdownEndpoints peers

/-- TCP Server Mode -/
def openTcp : Option Opened → Network
  | none => s
  | some o =>
    { s with
      tcpListener := some ⟨o.fd, s.files⟩
      files := s.files + 1 }.registerTcpListenerHandler ⟨o.clone, s.files⟩ o.added

/-- Open new sockets and bind to the port. -/
def openUdp (peers : List PeerRef) : Option (Opened × Opened) → Network
  | none => s
  | some (o4, o6) =>
    let opened := { s with files := s.files + 2 }
    let with4 := opened.registerUdpHandler ⟨o4.clone, s.files⟩ o4.added
    if !o4.added then with4
    else
      let with6 := with4.registerUdpHandler ⟨o6.clone, s.files + 1⟩ o6.added
      if !o6.added then with6
      else
        { with6 with
          udp4 := some ⟨o4.fd, s.files⟩
          udp6 := some ⟨o6.fd, s.files + 1⟩ }.shutdownEndpoints peers

def openSockets (mode : TransportMode) (port : UInt16) (peers : List PeerRef)
    (opening : Opening) : Network :=
  match mode with
  | .tcp => if port = 0 then s else s.openTcp opening.tcp
  | .udp | .rawIp => s.openUdp peers opening.udp

/-- `open_listen_socket`; the descriptors of the closed sockets may be used again. -/
def openListenSocket (mode : TransportMode) (port : UInt16) (peers : List PeerRef)
    (opening : Opening) : Option Network :=
  (s.closeSockets peers).bind fun s =>
    if s.Fresh (opening.fds mode) then some (s.openSockets mode port peers opening) else none

/-! ## Connections -/

/-- One round of the accept loop. -/
def accept (a : Accepted) : Network :=
  if !a.nonblocking then s
  else
    let accepted := { s with
      files := s.files + 1
      remotes := s.remotes.insert s.files a.addr
      tcpConnections :=
        match a.conn.clone with
        | some clone => s.tcpConnections.insert a.addr ⟨clone, s.files⟩
        | none => s.tcpConnections }
    accepted.registerTcpStreamHandler ⟨a.conn.fd, s.files⟩ a.addr a.conn.added

/-- The connection of an endpoint, which is made when there is none. -/
def maybeConnectTcp (endpoint : SocketAddr) (conn : Option Connecting) :
    Network × Option Socket :=
  match s.tcpConnections.lookup endpoint, conn with
  | some stream, _ => (s, some stream)
  | none, none | none, some ⟨_, none, _⟩ => (s, none)
  | none, some ⟨fd, some clone, added⟩ =>
    let stream := ⟨clone, s.files⟩
    let connected := { s with
      files := s.files + 1
      remotes := s.remotes.insert s.files endpoint
      tcpConnections := s.tcpConnections.insert endpoint stream }
    (connected.registerTcpStreamHandler ⟨fd, s.files⟩ endpoint added, some stream)

/-- A stream read has failed, or given nothing. -/
def streamEnd (sock : Socket) (endpoint : SocketAddr) : Network :=
  { s with tcpConnections := s.tcpConnections.erase endpoint, ended := sock.file :: s.ended }

/-- The EoF branch of the event loop. -/
def hangUp (sock : Socket) : Option Network :=
  (s.queue.clearEventByFd sock.fd).map fun (queue, _) =>
    { s with queue, ended := sock.file :: s.ended }

/-! ## Runs -/

inductive Op
  | openListenSocket (mode : TransportMode) (port : UInt16) (peers : List PeerRef)
    (opening : Opening)
  | accept (fd : Fd) (accepted : Accepted)
  | maybeConnectTcp (endpoint : SocketAddr) (conn : Option Connecting)
  | streamEnd (fd : Fd)
  | hangUp (fd : Fd)
  | connectEndpoint (peer : PeerRef) (addr : SocketAddr) (opened : Option Opened)
  | shutdownEndpoint (peer : PeerRef)

/-- The handler that can be called for a descriptor. -/
def ready (fd : Fd) : Option SocketHandler :=
  (s.queue.get fd).bind fun e => if e.added then some e.handler else none

/-- One call, with the stream that `maybe_connect_tcp` gives. -/
def step (s : Network) : Op → Option (Network × Option Socket)
  | .openListenSocket mode port peers opening =>
    (s.openListenSocket mode port peers opening).map fun s => (s, none)
  | .accept fd a =>
    match s.ready fd with
    | some (.tcpListener _) => if s.Fresh a.conn.fds then some (s.accept a, none) else none
    | _ => none
  | .maybeConnectTcp endpoint conn =>
    if s.Fresh (conn.toList.flatMap Connecting.fds) then some (s.maybeConnectTcp endpoint conn)
    else none
  | .streamEnd fd =>
    match s.ready fd with
    | some (.tcpStream sock endpoint) => some (s.streamEnd sock endpoint, none)
    | _ => none
  | .hangUp fd =>
    ((s.ready fd).bind SocketHandler.socket).bind fun sock =>
      (s.hangUp sock).map fun s => (s, none)
  | .connectEndpoint peer addr opened =>
    if s.Fresh (opened.toList.flatMap Opened.fds) then
      (s.connectEndpoint peer addr opened).map fun s => (s, none)
    else none
  | .shutdownEndpoint peer => some (s.shutdownEndpoint peer, none)

/-- A datagram socket hangs up only when it has been shut down. -/
def HangsUpShut (s : Network) : Op → Prop
  | .hangUp fd => ∀ sock peer peerAddr, s.ready fd = some (.conn sock peer peerAddr) →
      sock.file ∈ s.shut
  | _ => True

/-! ## What the parts of a call do -/

section Parts

variable {s s' : Network} {peers : List PeerRef} {sock : Socket} {fd : Fd}

theorem mem_map_snd {K : Type} [DecidableEq K] {m : HashMap K Socket} :
    sock ∈ m.entries.map Sigma.snd ↔ ∃ k, m.lookup k = some sock := by
  rw [List.mem_map]
  constructor
  · rintro ⟨⟨k, v⟩, hmem, rfl⟩
    exact ⟨k, mem_entries_iff.mp hmem⟩
  · rintro ⟨k, hlookup⟩
    exact ⟨⟨k, sock⟩, mem_entries_iff.mpr hlookup, rfl⟩

theorem mem_listening :
    sock ∈ s.listening ↔ s.udp4 = some sock ∨ s.udp6 = some sock ∨ s.tcpListener = some sock ∨
      ∃ endpoint, s.tcpConnections.lookup endpoint = some sock := by
  rw [listening, List.mem_append, List.mem_append, List.mem_append, Option.mem_toList,
    Option.mem_toList, Option.mem_toList, mem_map_snd, or_assoc, or_assoc]

theorem mem_stored :
    sock ∈ s.stored ↔ sock ∈ s.listening ∨ ∃ peer, s.conns.lookup peer = some sock := by
  rw [stored, List.mem_append, mem_map_snd]

/-- **What `shutdown_endpoint` does** for some peers. -/
theorem shutdownEndpoints_spec (s : Network) (peers : List PeerRef) :
    ∃ conns shut, s.shutdownEndpoints peers = { s with conns, shut } ∧
      (∀ peer conn, conns.lookup peer = some conn ↔
        peer ∉ peers ∧ s.conns.lookup peer = some conn) ∧
      ∀ file, file ∈ shut ↔ file ∈ s.shut ∨
        ∃ peer ∈ peers, ∃ conn, s.conns.lookup peer = some conn ∧ conn.file = file := by
  induction peers generalizing s with
  | nil => exact ⟨s.conns, s.shut, rfl, by simp, by simp⟩
  | cons peer peers ih =>
    obtain ⟨conns, shut, heq, hconns, hshut⟩ := ih (s.shutdownEndpoint peer)
    rw [shutdownEndpoint] at heq hconns hshut
    have hall : s.shutdownEndpoints (peer :: peers) =
        (s.shutdownEndpoint peer).shutdownEndpoints peers := rfl
    rw [hall, shutdownEndpoint]
    rcases hpeer : s.conns.lookup peer with _ | conn
    · simp only [hpeer] at heq hconns hshut
      refine ⟨conns, shut, heq, fun peer' conn' => ?_, fun file => ?_⟩
      · rw [hconns, List.mem_cons, not_or, and_assoc]
        refine ⟨fun h => ⟨?_, h⟩, And.right⟩
        rintro rfl
        rw [hpeer] at h
        cases h.2
      · simp [hshut, hpeer]
    · simp only [hpeer] at heq hconns hshut
      refine ⟨conns, shut, heq, fun peer' conn' => ?_, fun file => ?_⟩
      · rw [hconns, lookup_erase_iff, List.mem_cons, not_or, and_assoc, and_left_comm]
      · rw [hshut, List.mem_cons]
        constructor
        · rintro ((rfl | hold) | ⟨peer', hmem, conn', hlookup, rfl⟩)
          · exact Or.inr ⟨peer, List.mem_cons_self, conn, hpeer, rfl⟩
          · exact Or.inl hold
          · exact Or.inr ⟨peer', List.mem_cons_of_mem _ hmem, conn',
              (lookup_erase_iff.mp hlookup).2, rfl⟩
        · rintro (hold | ⟨peer', hmem, conn', hlookup, rfl⟩)
          · exact Or.inl (Or.inr hold)
          · by_cases hne : peer' = peer
            · subst hne
              rw [hpeer] at hlookup
              cases hlookup
              exact Or.inl (Or.inl rfl)
            · exact Or.inr ⟨peer', (List.mem_cons.mp hmem).resolve_left hne, conn',
                lookup_erase_iff.mpr ⟨hne, hlookup⟩, rfl⟩

theorem ready_shutdownEndpoints (s : Network) (peers : List PeerRef) :
    (s.shutdownEndpoints peers).ready = s.ready := by
  obtain ⟨conns, shut, heq, -⟩ := s.shutdownEndpoints_spec peers
  rw [heq]
  rfl

/-- Clearing events takes out those of the sockets and no others. -/
theorem get_clearEvents {socks : List Socket} {q q' : EventPoll SocketHandler}
    (h : clearEvents socks q = some q') (fd : Fd) :
    q'.get fd = if ∃ sock ∈ socks, sock.fd = fd then none else q.get fd := by
  induction socks generalizing q with
  | nil =>
    cases h
    simp
  | cons sock socks ih =>
    obtain ⟨⟨q₁, o⟩, hclear, hrest⟩ := Option.bind_eq_some_iff.mp h
    obtain ⟨hget, -⟩ := EventPoll.get_clearEventByFd hclear
    rw [ih hrest, hget]
    by_cases hfd : fd = sock.fd
    · subst hfd
      simp
    · rw [Function.update_of_ne hfd]
      simp [Ne.symm hfd]

theorem tcpConnections_shutdownEndpoints (s : Network) (peers : List PeerRef) :
    (s.shutdownEndpoints peers).tcpConnections = s.tcpConnections := by
  obtain ⟨conns, shut, heq, -⟩ := s.shutdownEndpoints_spec peers
  rw [heq]

/-- No connection is left in the map. -/
theorem tcpConnections_openListenSocket {mode : TransportMode} {port : UInt16} {opening : Opening}
    (h : s.openListenSocket mode port peers opening = some s') : s'.tcpConnections = ∅ := by
  obtain ⟨s₁, hclose, hopen⟩ := Option.bind_eq_some_iff.mp h
  obtain ⟨queue, -, rfl⟩ := Option.map_eq_some_iff.mp hclose
  split_ifs at hopen
  cases hopen
  cases mode with
  | tcp =>
    rw [openSockets]
    split_ifs
    · exact tcpConnections_shutdownEndpoints ..
    · rcases opening.tcp with _ | o
      · exact tcpConnections_shutdownEndpoints ..
      · exact tcpConnections_shutdownEndpoints ..
  | udp | rawIp =>
    rw [openSockets]
    rcases opening.udp with _ | ⟨o4, o6⟩
    · exact tcpConnections_shutdownEndpoints ..
    · rw [openUdp]
      dsimp only
      split_ifs
      · exact tcpConnections_shutdownEndpoints ..
      · exact tcpConnections_shutdownEndpoints ..
      · exact (tcpConnections_shutdownEndpoints ..).trans (tcpConnections_shutdownEndpoints ..)

/-- **What `maybe_connect_tcp` does.** -/
theorem maybeConnectTcp_cases {endpoint : SocketAddr} {conn : Option Connecting}
    {r : Option Socket} (h : s.maybeConnectTcp endpoint conn = (s', r)) :
    (∃ stream, s.tcpConnections.lookup endpoint = some stream ∧ s' = s ∧ r = some stream) ∨
    (s.tcpConnections.lookup endpoint = none ∧ (∀ c ∈ conn, c.clone = none) ∧
      s' = s ∧ r = none) ∨
    ∃ fd clone added, s.tcpConnections.lookup endpoint = none ∧
      conn = some ⟨fd, some clone, added⟩ ∧
      s' = { s with
          files := s.files + 1
          remotes := s.remotes.insert s.files endpoint
          tcpConnections := s.tcpConnections.insert endpoint ⟨clone, s.files⟩
        }.registerTcpStreamHandler ⟨fd, s.files⟩ endpoint added ∧
      r = some ⟨clone, s.files⟩ := by
  rcases hlookup : s.tcpConnections.lookup endpoint with _ | stream
  · rcases conn with _ | ⟨fd, _ | clone, added⟩ <;> simp only [maybeConnectTcp, hlookup] at h <;>
      obtain ⟨rfl, rfl⟩ := Prod.mk.inj h
    · exact Or.inr (Or.inl ⟨rfl, by simp, rfl, rfl⟩)
    · exact Or.inr (Or.inl ⟨rfl, by simp, rfl, rfl⟩)
    · exact Or.inr (Or.inr ⟨fd, clone, added, rfl, rfl, rfl, rfl⟩)
  · simp only [maybeConnectTcp, hlookup] at h
    obtain ⟨rfl, rfl⟩ := Prod.mk.inj h
    exact Or.inl ⟨stream, rfl, rfl, rfl⟩

/-- **What `connect_endpoint` does**, when it does not panic. -/
theorem connectEndpoint_cases {peer : PeerRef} {addr : SocketAddr} {opened : Option Opened}
    (h : s.connectEndpoint peer addr opened = some s') :
    s' = s ∨ ∃ o, s.conns.lookup peer = none ∧ opened = some o ∧ o.added = true ∧
      s' = { s with
        conns := s.conns.insert peer ⟨o.clone, s.files⟩
        files := s.files + 1
        remotes := s.remotes.insert s.files addr }.registerConnHandler peer ⟨o.fd, s.files⟩
          addr.ip o.added := by
  rcases hlookup : s.conns.lookup peer with _ | conn
  · rcases opened with _ | o
    · simp only [connectEndpoint, hlookup] at h
      exact Or.inl (Option.some.inj h).symm
    · simp only [connectEndpoint, hlookup] at h
      split_ifs at h with hadded
      exact Or.inr ⟨o, rfl, rfl, hadded, (Option.some.inj h).symm⟩
  · simp only [connectEndpoint, hlookup] at h
    exact Or.inl (Option.some.inj h).symm

/-- **What a hang-up does**, when it does not panic. -/
theorem hangUp_spec (h : s.hangUp sock = some s') :
    ∃ queue : EventPoll SocketHandler, queue.get = Function.update s.queue.get sock.fd none ∧
      s' = { s with queue, ended := sock.file :: s.ended } := by
  obtain ⟨⟨queue, o⟩, hclear, heq⟩ := Option.map_eq_some_iff.mp h
  exact ⟨queue, (EventPoll.get_clearEventByFd hclear).1, heq.symm⟩

/-- The events after a hang-up were there before. -/
theorem get_of_hangUp {e : Event SocketHandler} (h : s.hangUp sock = some s')
    (hget : s'.queue.get fd = some e) : s.queue.get fd = some e := by
  obtain ⟨queue, hqueue, rfl⟩ := hangUp_spec h
  have hupdate : queue.get fd = some e := hget
  rw [hqueue] at hupdate
  by_cases hfd : fd = sock.fd
  · rw [hfd, Function.update_self] at hupdate
    cases hupdate
  · rwa [Function.update_of_ne hfd] at hupdate

end Parts

/-! ## What each call is -/

section Steps

variable {s s' : Network} {fd : Fd} {r : Option Socket}

theorem step_openListenSocket {mode : TransportMode} {port : UInt16} {peers : List PeerRef}
    {opening : Opening} (h : s.step (.openListenSocket mode port peers opening) = some (s', r)) :
    s.openListenSocket mode port peers opening = some s' := by
  obtain ⟨s₁, hopen, heq⟩ := Option.map_eq_some_iff.mp h
  cases heq
  exact hopen

theorem step_accept {a : Accepted} (h : s.step (.accept fd a) = some (s', r)) :
    (∃ sock, s.ready fd = some (.tcpListener sock)) ∧ s.Fresh a.conn.fds ∧ s' = s.accept a := by
  rw [step] at h
  split at h
  · next sock hready =>
    split_ifs at h with hfresh
    cases h
    exact ⟨⟨sock, hready⟩, hfresh, rfl⟩
  · cases h

theorem step_maybeConnectTcp {endpoint : SocketAddr} {conn : Option Connecting}
    (h : s.step (.maybeConnectTcp endpoint conn) = some (s', r)) :
    s.Fresh (conn.toList.flatMap Connecting.fds) ∧
      s.maybeConnectTcp endpoint conn = (s', r) := by
  rw [step] at h
  split_ifs at h with hfresh
  exact ⟨hfresh, Option.some.inj h⟩

theorem step_streamEnd (h : s.step (.streamEnd fd) = some (s', r)) :
    ∃ sock endpoint, s.ready fd = some (.tcpStream sock endpoint) ∧
      s' = s.streamEnd sock endpoint := by
  rw [step] at h
  split at h
  · next sock endpoint hready =>
    cases h
    exact ⟨sock, endpoint, hready, rfl⟩
  · cases h

theorem step_hangUp (h : s.step (.hangUp fd) = some (s', r)) :
    ∃ handler sock, s.ready fd = some handler ∧ handler.socket = some sock ∧
      s.hangUp sock = some s' := by
  obtain ⟨sock, hready, hstep⟩ := Option.bind_eq_some_iff.mp h
  obtain ⟨handler, hready, hsocket⟩ := Option.bind_eq_some_iff.mp hready
  obtain ⟨s₁, hhang, heq⟩ := Option.map_eq_some_iff.mp hstep
  cases heq
  exact ⟨handler, sock, hready, hsocket, hhang⟩

theorem step_connectEndpoint {peer : PeerRef} {addr : SocketAddr} {opened : Option Opened}
    (h : s.step (.connectEndpoint peer addr opened) = some (s', r)) :
    s.Fresh (opened.toList.flatMap Opened.fds) ∧
      s.connectEndpoint peer addr opened = some s' := by
  rw [step] at h
  split_ifs at h with hfresh
  obtain ⟨s₁, hconnect, heq⟩ := Option.map_eq_some_iff.mp h
  cases heq
  exact ⟨hfresh, hconnect⟩

end Steps

/-! ## Ownership -/

/-- The socket of the handler of a descriptor. -/
def owner (s : Network) (fd : Fd) : Option Socket :=
  (s.queue.get fd).bind fun e => e.handler.socket

/-- **The registry and the sockets.** A handler owns the descriptor under which it is registered and
no other handler has its file; the sockets that no handler owns have no events. -/
structure Owned (s : Network) : Prop where
  fd_eq : ∀ fd sock, s.owner fd = some sock → sock.fd = fd
  unique : ∀ fd fd' sock sock', s.owner fd = some sock → s.owner fd' = some sock' →
    sock.file = sock'.file → fd = fd'
  apart : ∀ sock ∈ s.stored, s.queue.get sock.fd = none
  owner_lt : ∀ fd sock, s.owner fd = some sock → sock.file < s.files
  stored_lt : ∀ sock ∈ s.stored, sock.file < s.files
  ended_lt : ∀ file ∈ s.ended, file < s.files

namespace Owned

variable {s s' : Network} {sock : Socket} {handler : SocketHandler} {added : Bool}

/-- Events and sockets may go, and files may be closed. -/
theorem drop (h : Owned s) (hget : ∀ fd e, s'.queue.get fd = some e → s.queue.get fd = some e)
    (hstored : ∀ sock ∈ s'.stored, sock ∈ s.stored) (hfiles : s'.files = s.files)
    (hended : ∀ file ∈ s'.ended, file < s.files) : Owned s' := by
  have howner : ∀ fd sock, s'.owner fd = some sock → s.owner fd = some sock := by
    intro fd sock hfd
    obtain ⟨e, he, hsock⟩ := Option.bind_eq_some_iff.mp hfd
    rw [owner, hget fd e he, Option.bind_some, hsock]
  refine ⟨fun fd sock hfd => h.fd_eq fd sock (howner fd sock hfd),
    fun fd fd' sock sock' hfd hfd' => h.unique fd fd' sock sock' (howner fd sock hfd)
      (howner fd' sock' hfd'), fun sock hsock => ?_, ?_, ?_, ?_⟩
  · refine Option.eq_none_iff_forall_not_mem.mpr fun e he => ?_
    have hgone := h.apart sock (hstored sock hsock)
    rw [hget sock.fd e he] at hgone
    cases hgone
  · intro fd sock hfd
    rw [hfiles]
    exact h.owner_lt fd sock (howner fd sock hfd)
  · intro sock hsock
    rw [hfiles]
    exact h.stored_lt sock (hstored sock hsock)
  · intro file hfile
    rw [hfiles]
    exact hended file hfile

/-- New files may be opened, and duplicates of them stored that have no events. -/
theorem store (h : Owned s) (hqueue : s'.queue = s.queue) (hfiles : s.files ≤ s'.files)
    (hstored : ∀ sock ∈ s'.stored, sock ∈ s.stored ∨
      s.queue.get sock.fd = none ∧ sock.file < s'.files)
    (hended : s'.ended = s.ended) : Owned s' := by
  have howner : s'.owner = s.owner := by
    funext fd
    rw [owner, hqueue, owner]
  refine ⟨?_, ?_, fun sock hsock => ?_, fun fd sock hfd => ?_, fun sock hsock => ?_,
    fun file hfile => ?_⟩
  · rw [howner]
    exact h.fd_eq
  · rw [howner]
    exact h.unique
  · rw [hqueue]
    obtain hold | ⟨hnone, -⟩ := hstored sock hsock
    · exact h.apart sock hold
    · exact hnone
  · rw [howner] at hfd
    exact lt_of_lt_of_le (h.owner_lt fd sock hfd) hfiles
  · obtain hold | ⟨-, hlt⟩ := hstored sock hsock
    · exact lt_of_lt_of_le (h.stored_lt sock hold) hfiles
    · exact hlt
  · rw [hended] at hfile
    exact lt_of_lt_of_le (h.ended_lt file hfile) hfiles

end Owned

/-- The sockets of the handlers after a registration. -/
theorem owner_register (s : Network) (handler : SocketHandler) (sock : Socket) (added : Bool) :
    (s.register handler sock added).owner =
      Function.update s.owner sock.fd handler.socket := by
  funext fd
  rw [owner, register, EventPoll.get_newEvent]
  by_cases hfd : fd = sock.fd
  · subst hfd
    rw [Function.update_self, Function.update_self, Option.bind_some]
  · rw [Function.update_of_ne hfd, Function.update_of_ne hfd, owner]

/-- The handlers that can be called after a registration. -/
theorem ready_register (s : Network) (handler : SocketHandler) (sock : Socket) (added : Bool) :
    (s.register handler sock added).ready =
      Function.update s.ready sock.fd (if added then some handler else none) := by
  funext fd
  rw [ready, register, EventPoll.get_newEvent]
  by_cases hfd : fd = sock.fd
  · subst hfd
    rw [Function.update_self, Function.update_self, Option.bind_some]
  · rw [Function.update_of_ne hfd, Function.update_of_ne hfd, ready]

/-- A handler is registered that owns the only socket of its file. -/
theorem Owned.register {s : Network} (h : Owned s) {handler : SocketHandler} (sock : Socket)
    (added : Bool) (hsocket : handler.socket = some sock)
    (hfree : ∀ sock' ∈ s.stored, sock'.fd ≠ sock.fd) (hlt : sock.file < s.files)
    (hnew : ∀ fd sock', s.owner fd = some sock' → sock'.file ≠ sock.file) :
    Owned (s.register handler sock added) := by
  have howner : ∀ fd sock', (s.register handler sock added).owner fd = some sock' →
      fd = sock.fd ∧ sock' = sock ∨ fd ≠ sock.fd ∧ s.owner fd = some sock' := by
    intro fd sock' hfd
    rw [owner_register, hsocket] at hfd
    by_cases heq : fd = sock.fd
    · subst heq
      rw [Function.update_self] at hfd
      exact Or.inl ⟨rfl, (Option.some.inj hfd).symm⟩
    · rw [Function.update_of_ne heq] at hfd
      exact Or.inr ⟨heq, hfd⟩
  refine ⟨fun fd sock' hfd => ?_, fun fd fd' sock₁ sock₂ hfd hfd' hfile => ?_,
    fun sock' hsock' => ?_, fun fd sock' hfd => ?_, h.stored_lt, h.ended_lt⟩
  · obtain ⟨rfl, rfl⟩ | ⟨-, hold⟩ := howner fd sock' hfd
    · rfl
    · exact h.fd_eq fd sock' hold
  · obtain ⟨rfl, rfl⟩ | ⟨-, hold⟩ := howner fd sock₁ hfd
    · obtain ⟨rfl, -⟩ | ⟨-, hold'⟩ := howner fd' sock₂ hfd'
      · rfl
      · exact absurd hfile.symm (hnew fd' sock₂ hold')
    · obtain ⟨rfl, rfl⟩ | ⟨-, hold'⟩ := howner fd' sock₂ hfd'
      · exact absurd hfile (hnew fd sock₁ hold)
      · exact h.unique fd fd' sock₁ sock₂ hold hold' hfile
  · rw [Network.register, EventPoll.get_newEvent, Function.update_of_ne (hfree sock' hsock')]
    exact h.apart sock' hsock'
  · obtain ⟨-, rfl⟩ | ⟨-, hold⟩ := howner fd sock' hfd
    · exact hlt
    · exact h.owner_lt fd sock' hold

namespace Owned

variable {s s' : Network} {peers : List PeerRef} {fd : Fd} {sock : Socket}

theorem shutdownEndpoints (h : Owned s) (peers : List PeerRef) :
    Owned (s.shutdownEndpoints peers) := by
  obtain ⟨conns, shut, heq, hconns, -⟩ := s.shutdownEndpoints_spec peers
  rw [heq]
  refine h.drop (fun _ _ he => he) (fun sock hsock => ?_) rfl h.ended_lt
  obtain hlistening | ⟨peer, hpeer⟩ := mem_stored.mp hsock
  · exact mem_stored.mpr (Or.inl hlistening)
  · exact mem_stored.mpr (Or.inr ⟨peer, ((hconns peer sock).mp hpeer).2⟩)

/-- Events go, and the sockets that were listening. -/
theorem close (h : Owned s) {queue : EventPoll SocketHandler}
    (hget : ∀ fd e, queue.get fd = some e → s.queue.get fd = some e) :
    Owned { s with
      queue
      udp4 := none
      udp6 := none
      tcpListener := none
      tcpConnections := ∅ } := by
  refine h.drop hget (fun sock hsock => ?_) rfl h.ended_lt
  obtain hlistening | hconn := mem_stored.mp hsock
  · obtain hnone | hnone | hnone | ⟨endpoint, hnone⟩ := mem_listening.mp hlistening <;> cases hnone
  · exact mem_stored.mpr (Or.inr hconn)

theorem closeSockets (h : Owned s) (hclose : s.closeSockets peers = some s') : Owned s' := by
  obtain ⟨queue, hclear, rfl⟩ := Option.map_eq_some_iff.mp hclose
  refine Owned.shutdownEndpoints (h.close fun fd e he => ?_) peers
  rw [get_clearEvents hclear] at he
  split_ifs at he
  exact he

/-- The sockets that are closed have no events. -/
theorem ready_closeSockets (h : Owned s) (hclose : s.closeSockets peers = some s') :
    s'.ready = s.ready := by
  obtain ⟨queue, hclear, rfl⟩ := Option.map_eq_some_iff.mp hclose
  funext fd
  have hget : queue.get fd = s.queue.get fd := by
    rw [get_clearEvents hclear]
    split_ifs with hmem
    · obtain ⟨sock, hsock, rfl⟩ := hmem
      exact (h.apart sock (mem_stored.mpr (Or.inl hsock))).symm
    · rfl
  rw [ready_shutdownEndpoints, ready, ready, hget]

/-- A file is opened, and its handler registered. -/
theorem openFile (h : Owned s) {handler : SocketHandler} {own : Fd} (added : Bool)
    (hsocket : handler.socket = some ⟨own, s.files⟩) (hown : s.Free own)
    (hqueue : s'.queue = s.queue) (hfiles : s'.files = s.files + 1) (hended : s'.ended = s.ended)
    (hstored : ∀ sock ∈ s'.stored, sock ∈ s.stored ∨
      sock.file = s.files ∧ sock.fd ≠ own ∧ s.Free sock.fd) :
    Owned (s'.register handler ⟨own, s.files⟩ added) := by
  have hstore : Owned s' := by
    refine h.store hqueue (by omega) (fun sock hsock => ?_) hended
    obtain hold | ⟨hfile, -, hfree⟩ := hstored sock hsock
    · exact Or.inl hold
    · exact Or.inr ⟨hfree.1, by omega⟩
  refine hstore.register _ added hsocket (fun sock hsock => ?_) (by dsimp only; omega)
    fun fd sock hfd heq => ?_
  · obtain hold | ⟨-, hne, -⟩ := hstored sock hsock
    · exact hown.2 sock hold
    · exact hne
  · rw [owner, hqueue] at hfd
    have hlt := h.owner_lt fd sock hfd
    dsimp only at heq
    omega

theorem openTcp (h : Owned s) {o : Option Opened} (hfresh : s.Fresh (o.toList.flatMap Opened.fds)) :
    Owned (s.openTcp o) := by
  rcases o with _ | o
  · exact h
  · obtain ⟨hne, hfd, hclone⟩ : o.fd ≠ o.clone ∧ s.Free o.fd ∧ s.Free o.clone := by
      simpa [Opened.fds, Fresh] using hfresh
    rw [Network.openTcp]
    refine h.openFile o.added rfl hclone rfl rfl rfl fun sock hsock => ?_
    simp only [mem_stored, mem_listening] at hsock ⊢
    obtain (h4 | h6 | htcp | hstream) | hconn := hsock
    · exact Or.inl (Or.inl (Or.inl h4))
    · exact Or.inl (Or.inl (Or.inr (Or.inl h6)))
    · cases htcp
      exact Or.inr ⟨rfl, hne, hfd⟩
    · exact Or.inl (Or.inl (Or.inr (Or.inr (Or.inr hstream))))
    · exact Or.inl (Or.inr hconn)

theorem openUdp (h : Owned s) {o : Option (Opened × Opened)}
    (hfresh : s.Fresh (o.toList.flatMap fun (o4, o6) => o4.fds ++ o6.fds)) :
    Owned (s.openUdp peers o) := by
  rcases o with _ | ⟨o4, o6⟩
  · exact h
  · obtain ⟨⟨h46, h4c6, hc46, hc4c6⟩, ⟨hc4, hc6⟩, hfree4, hfreec4, hfree6, hfreec6⟩ :
        (o4.fd ≠ o6.fd ∧ o4.fd ≠ o6.clone ∧ o4.clone ≠ o6.fd ∧ o4.clone ≠ o6.clone) ∧
        (o4.fd ≠ o4.clone ∧ o6.fd ≠ o6.clone) ∧
        s.Free o4.fd ∧ s.Free o4.clone ∧ s.Free o6.fd ∧ s.Free o6.clone := by
      simp [Opened.fds, Fresh] at hfresh
      tauto
    have hopened : Owned { s with files := s.files + 2 } :=
      h.store rfl (by dsimp only; omega) (fun sock hsock => Or.inl hsock) rfl
    have hwith4 : Owned (Network.registerUdpHandler { s with files := s.files + 2 }
        ⟨o4.clone, s.files⟩ o4.added) :=
      hopened.register ⟨o4.clone, s.files⟩ o4.added rfl hfreec4.2 (by dsimp only; omega)
        fun fd sock hfd => (h.owner_lt fd sock hfd).ne
    have hwith6 : Owned (Network.registerUdpHandler (Network.registerUdpHandler
        { s with files := s.files + 2 } ⟨o4.clone, s.files⟩ o4.added) ⟨o6.clone, s.files + 1⟩
          o6.added) :=
      hwith4.register ⟨o6.clone, s.files + 1⟩ o6.added rfl hfreec6.2
      (show s.files + 1 < s.files + 2 by omega) fun fd sock hfd heq => by
        rw [registerUdpHandler, owner_register] at hfd
        by_cases hfd4 : fd = o4.clone
        · subst hfd4
          rw [Function.update_self] at hfd
          cases hfd
          simp at heq
        · rw [Function.update_of_ne hfd4] at hfd
          have hlt := h.owner_lt fd sock hfd
          dsimp only at heq
          omega
    rw [Network.openUdp]
    dsimp only
    split_ifs
    · exact hwith4
    · exact hwith6
    · refine Owned.shutdownEndpoints ?_ peers
      refine hwith6.store rfl le_rfl (fun sock hsock => ?_) rfl
      have hget : ∀ fd, s.Free fd → fd ≠ o4.clone → fd ≠ o6.clone →
          (Network.register (Network.register { s with files := s.files + 2 }
            (.udp ⟨o4.clone, s.files⟩) ⟨o4.clone, s.files⟩ o4.added)
            (.udp ⟨o6.clone, s.files + 1⟩) ⟨o6.clone, s.files + 1⟩ o6.added).queue.get fd = none := by
        intro fd hfree hne4 hne6
        rw [Network.register, EventPoll.get_newEvent, Function.update_of_ne hne6, Network.register,
          EventPoll.get_newEvent, Function.update_of_ne hne4]
        exact hfree.1
      obtain hlistening | hconn := mem_stored.mp hsock
      · obtain h4 | h6 | hrest := mem_listening.mp hlistening
        · cases h4
          exact Or.inr ⟨hget _ hfree4 hc4 h4c6, show s.files < s.files + 2 by omega⟩
        · cases h6
          exact Or.inr ⟨hget _ hfree6 hc46.symm hc6, show s.files + 1 < s.files + 2 by omega⟩
        · exact Or.inl (mem_stored.mpr (Or.inl (mem_listening.mpr (Or.inr (Or.inr hrest)))))
      · exact Or.inl (mem_stored.mpr (Or.inr hconn))

theorem openListenSocket (h : Owned s) {mode : TransportMode} {port : UInt16} {opening : Opening}
    (hopen : s.openListenSocket mode port peers opening = some s') : Owned s' := by
  obtain ⟨s₁, hclose, hopen⟩ := Option.bind_eq_some_iff.mp hopen
  have h₁ := h.closeSockets hclose
  split_ifs at hopen with hfresh
  cases hopen
  cases mode with
  | tcp =>
    rw [openSockets]
    split_ifs
    · exact h₁
    · exact h₁.openTcp hfresh
  | udp | rawIp => exact h₁.openUdp hfresh

theorem accept (h : Owned s) {a : Accepted} (hfresh : s.Fresh a.conn.fds) :
    Owned (s.accept a) := by
  rw [Network.accept]
  split_ifs
  · exact h
  · refine h.openFile a.conn.added rfl (hfresh.2 _ List.mem_cons_self) rfl rfl rfl
      fun sock hsock => ?_
    simp only [mem_stored, mem_listening] at hsock ⊢
    obtain (h4 | h6 | htcp | ⟨endpoint, hstream⟩) | hconn := hsock
    · exact Or.inl (Or.inl (Or.inl h4))
    · exact Or.inl (Or.inl (Or.inr (Or.inl h6)))
    · exact Or.inl (Or.inl (Or.inr (Or.inr (Or.inl htcp))))
    · rcases hclone : a.conn.clone with _ | clone
      · rw [hclone] at hstream
        exact Or.inl (Or.inl (Or.inr (Or.inr (Or.inr ⟨endpoint, hstream⟩))))
      · rw [hclone] at hstream
        obtain ⟨-, rfl⟩ | ⟨-, hold⟩ := lookup_insert_iff.mp hstream
        · obtain ⟨hne, -, hfree⟩ : a.conn.fd ≠ clone ∧ s.Free a.conn.fd ∧ s.Free clone := by
            simpa [Connecting.fds, hclone, Fresh] using hfresh
          exact Or.inr ⟨rfl, hne.symm, hfree⟩
        · exact Or.inl (Or.inl (Or.inr (Or.inr (Or.inr ⟨endpoint, hold⟩))))
    · exact Or.inl (Or.inr hconn)

theorem maybeConnectTcp (h : Owned s) {endpoint : SocketAddr} {conn : Option Connecting}
    {r : Option Socket} (hfresh : s.Fresh (conn.toList.flatMap Connecting.fds))
    (hconnect : s.maybeConnectTcp endpoint conn = (s', r)) : Owned s' := by
  obtain ⟨stream, -, rfl, -⟩ | ⟨-, -, rfl, -⟩ | ⟨fd, clone, added, -, rfl, rfl, -⟩ :=
    maybeConnectTcp_cases hconnect
  · exact h
  · exact h
  · obtain ⟨hne, hfd, hclone⟩ : fd ≠ clone ∧ s.Free fd ∧ s.Free clone := by
      simpa [Connecting.fds, Fresh] using hfresh
    refine h.openFile added rfl hfd rfl rfl rfl fun sock hsock => ?_
    simp only [mem_stored, mem_listening] at hsock ⊢
    obtain (h4 | h6 | htcp | ⟨endpoint', hstream⟩) | hconn := hsock
    · exact Or.inl (Or.inl (Or.inl h4))
    · exact Or.inl (Or.inl (Or.inr (Or.inl h6)))
    · exact Or.inl (Or.inl (Or.inr (Or.inr (Or.inl htcp))))
    · obtain ⟨-, rfl⟩ | ⟨-, hold⟩ := lookup_insert_iff.mp hstream
      · exact Or.inr ⟨rfl, hne.symm, hclone⟩
      · exact Or.inl (Or.inl (Or.inr (Or.inr (Or.inr ⟨endpoint', hold⟩))))
    · exact Or.inl (Or.inr hconn)

theorem connectEndpoint (h : Owned s) {peer : PeerRef} {addr : SocketAddr} {o : Option Opened}
    (hfresh : s.Fresh (o.toList.flatMap Opened.fds))
    (hconnect : s.connectEndpoint peer addr o = some s') : Owned s' := by
  obtain rfl | ⟨o, -, rfl, -, rfl⟩ := connectEndpoint_cases hconnect
  · exact h
  · obtain ⟨hne, hfd, hclone⟩ : o.fd ≠ o.clone ∧ s.Free o.fd ∧ s.Free o.clone := by
      simpa [Opened.fds, Fresh] using hfresh
    refine h.openFile o.added rfl hfd rfl rfl rfl fun sock hsock => ?_
    obtain hlistening | ⟨peer', hconn⟩ := mem_stored.mp hsock
    · exact Or.inl (mem_stored.mpr (Or.inl hlistening))
    · obtain ⟨-, rfl⟩ | ⟨-, hold⟩ := lookup_insert_iff.mp hconn
      · exact Or.inr ⟨rfl, hne.symm, hclone⟩
      · exact Or.inl (mem_stored.mpr (Or.inr ⟨peer', hold⟩))

end Owned

/-- The handler of a ready descriptor owns a socket under it. -/
theorem owner_of_ready {s : Network} {fd : Fd} {handler : SocketHandler}
    (h : s.ready fd = some handler) :
    s.queue.get fd = some ⟨handler, true⟩ ∧ s.owner fd = handler.socket := by
  obtain ⟨⟨handler', added⟩, hget, heq⟩ := Option.bind_eq_some_iff.mp h
  dsimp only at heq
  split_ifs at heq with hadded
  cases heq
  cases hadded
  exact ⟨hget, by rw [owner, hget, Option.bind_some]⟩

theorem ready_of_get {s : Network} {fd : Fd} {handler : SocketHandler}
    (h : s.queue.get fd = some ⟨handler, true⟩) : s.ready fd = some handler := by
  rw [ready, h, Option.bind_some, if_pos rfl]

/-- A handler that can be called after a hang-up could be before. -/
theorem ready_of_hangUp {s s' : Network} {sock : Socket} {fd : Fd} {handler : SocketHandler}
    (h : s.hangUp sock = some s') (hready : s'.ready fd = some handler) :
    s.ready fd = some handler :=
  ready_of_get (get_of_hangUp h (owner_of_ready hready).1)

theorem Owned.step {s s' : Network} {op : Op} {r : Option Socket} (h : Owned s)
    (hstep : s.step op = some (s', r)) : Owned s' := by
  cases op with
  | openListenSocket mode port peers opening =>
    exact h.openListenSocket (step_openListenSocket hstep)
  | accept fd a =>
    obtain ⟨-, hfresh, rfl⟩ := step_accept hstep
    exact h.accept hfresh
  | maybeConnectTcp endpoint conn =>
    obtain ⟨hfresh, hconnect⟩ := step_maybeConnectTcp hstep
    exact h.maybeConnectTcp hfresh hconnect
  | streamEnd fd =>
    obtain ⟨sock, endpoint, hready, rfl⟩ := step_streamEnd hstep
    obtain ⟨-, howner⟩ := owner_of_ready hready
    refine h.drop (fun _ _ he => he) (fun sock' hsock' => ?_) rfl fun file hfile => ?_
    · simp only [mem_stored, mem_listening] at hsock' ⊢
      obtain (h4 | h6 | htcp | ⟨endpoint', hstream⟩) | hconn := hsock'
      · exact Or.inl (Or.inl h4)
      · exact Or.inl (Or.inr (Or.inl h6))
      · exact Or.inl (Or.inr (Or.inr (Or.inl htcp)))
      · exact Or.inl (Or.inr (Or.inr (Or.inr ⟨endpoint', (lookup_erase_iff.mp hstream).2⟩)))
      · exact Or.inr hconn
    · obtain rfl | hold := List.mem_cons.mp hfile
      · exact h.owner_lt fd sock howner
      · exact h.ended_lt file hold
  | hangUp fd =>
    obtain ⟨handler, sock, hready, hsocket, hhang⟩ := step_hangUp hstep
    obtain ⟨-, howner⟩ := owner_of_ready hready
    obtain ⟨queue, -, rfl⟩ := hangUp_spec hhang
    refine h.drop (fun fd' e he => get_of_hangUp hhang he) (fun _ hsock => hsock) rfl
      fun file hfile => ?_
    obtain rfl | hold := List.mem_cons.mp hfile
    · exact h.owner_lt fd sock (howner.trans hsocket)
    · exact h.ended_lt file hold
  | connectEndpoint peer addr opened =>
    obtain ⟨hfresh, hconnect⟩ := step_connectEndpoint hstep
    exact h.connectEndpoint hfresh hconnect
  | shutdownEndpoint peer =>
    cases hstep
    exact h.shutdownEndpoints [peer]

/-- Events of other descriptors own no sockets. -/
def OtherEvents (queue : EventPoll SocketHandler) : Prop :=
  ∀ fd e, queue.get fd = some e → e.handler = .other

theorem owned_new {queue : EventPoll SocketHandler} (h : OtherEvents queue) : Owned (new queue) := by
  have howner : ∀ fd, (new queue).owner fd = none := by
    intro fd
    rw [owner]
    rcases hget : (new queue).queue.get fd with _ | e
    · rfl
    · rw [Option.bind_some, h fd e hget]
      rfl
  refine ⟨fun fd sock hfd => ?_, fun fd fd' sock sock' hfd => ?_, fun sock hsock => ?_,
    fun fd sock hfd => ?_, fun sock hsock => ?_, fun file hfile => ?_⟩
  · rw [howner] at hfd
    cases hfd
  · rw [howner] at hfd
    cases hfd
  · exact absurd hsock List.not_mem_nil
  · rw [howner] at hfd
    cases hfd
  · exact absurd hsock List.not_mem_nil
  · exact absurd hfile List.not_mem_nil

/-- **Ownership holds in every run.** -/
theorem owned_of_reaches {queue : EventPoll SocketHandler} {Q : Network → Op → Prop} {s : Network}
    (hqueue : OtherEvents queue) (h : Machine.Reaches step Q (new queue) s) : Owned s :=
  h.invariant (owned_new hqueue) fun _ _ _ _ h _ hstep => h.step hstep

end Network

end NekoLink.Device
