import NekoLink.Device.TcpHandler
import NekoLink.Foundations.Runs

/-!
# The event loop in TCP mode

The worker threads of `DeviceHandle::event_loop` with the registry of `EventPoll`, and the handlers
that a device has in TCP mode. A step is one event that a thread waits for and handles, with the
answers of the system calls on the way. A request on the control socket may change every table; its
effect is an answer. The file descriptor of a new socket is one that has no handler yet.

* `step_spec`: what a step changes outside its own handler.
* `tcp_events_keep_running`: while no stream read fails or gives nothing, the exit notice and the
  end of a thread come from a signal, the control socket or the interface alone.
* `stream_eof_exits`: one connection that is closed ends the device.
-/

namespace NekoLink.Device

open Wire Noise Routing

theorem dst_le_of_ipv4 {packet : List UInt8}
    (h : packet.headD 0 >>> 4 = 4 ∧ ipv4MinHeaderSize ≤ packet.length) :
    16 + 4 ≤ packet.length := h.2

theorem dst_le_of_ipv6 {packet : List UInt8}
    (h : packet.headD 0 >>> 4 = 6 ∧ ipv6MinHeaderSize ≤ packet.length) :
    24 + 16 ≤ packet.length := h.2

/-- The destination of an IP packet. -/
def dstAddress (packet : List UInt8) : Option IpAddr :=
  if h : packet.headD 0 >>> 4 = 4 ∧ ipv4MinHeaderSize ≤ packet.length then
    some (.v4 (fieldAt packet 16 4 (dst_le_of_ipv4 h)))
  else if h : packet.headD 0 >>> 4 = 6 ∧ ipv6MinHeaderSize ≤ packet.length then
    some (.v6 (fieldAt packet 24 16 (dst_le_of_ipv6 h)))
  else none

abbrev Fd := ℕ

abbrev Thread := ℕ

inductive Handler
  | api
  | apiFd
  | monitor
  | signal
  | yieldNotice
  | exitNotice
  | resetCount
  | peerTimers
  | iface
  | tcpListener
  | tcpStream (endpoint : SocketAddr) (framing : TcpFraming)

/-- What the handlers change. -/
structure Tables (C : Prims) (T : Type → Type) where
  device : Device C T
  /-- The registered events by their file descriptor. -/
  events : Fd → Option Handler
  /-- Map of peer endpoint address to TCP stream; a handle is named by the one it is cloned from. -/
  tcpConnections : HashMap SocketAddr Fd

structure EventLoop (C : Prims) (T : Type → Type) where
  tables : Tables C T
  uapiFd : Option Fd
  exitNotice : Bool
  /-- The threads that are in their loop. -/
  running : List Thread

/-- A new connection of the listener, and whether it could be set up. -/
structure Accepting where
  fd : Fd
  addr : SocketAddr
  nonblocking : Bool
  cloned : Bool

/-- How the reads of the interface come to an end. -/
inductive TunEnd
  | itr
  | wouldBlock
  | fatal
  deriving DecidableEq

/-- What the system calls of a handler answer. -/
structure Answers (C : Prims) (T : Type → Type) where
  now : ℕ
  envs : ℕ → ℕ → Env
  /-- The file descriptors of the sockets it creates; `none` is a failure. -/
  fds : ℕ → Option Fd
  /-- A request on the control socket. -/
  request : Tables C T → Tables C T
  lineRead : Bool
  pathExists : Bool
  accepts : List Accepting
  incoming : Incoming
  tunPackets : List (List UInt8)
  tunEnd : TunEnd

/-- `WaitResult` -/
inductive Wait (C : Prims) (T : Type → Type)
  | ok (answers : Answers C T)
  | eof
  | error

structure Turn (C : Prims) (T : Type → Type) where
  thread : Thread
  fd : Fd
  wait : Wait C T

variable {C : Prims} {T : Type → Type} [Table T IpNetwork IpAddr]

/-! ## Connections -/

/-- `register_tcp_stream_handler` -/
def Tables.registerStream (s : Tables C T) (fd : Fd) (endpoint : SocketAddr) :
    Option (Tables C T) :=
  if (s.events fd).isNone then
    some { s with events := Function.update s.events fd (some (.tcpStream endpoint .new)) }
  else none

/-- `maybe_connect_tcp` -/
def Tables.maybeConnectTcp (s : Tables C T) (endpoint : SocketAddr) (fd : Option Fd) :
    Option (Tables C T) :=
  match s.tcpConnections.lookup endpoint, fd with
  | some _, _ => some s
  | none, none => some s
  | none, some fd =>
    { s with tcpConnections := s.tcpConnections.insert endpoint fd }.registerStream fd endpoint

/-- What a handler sends to its endpoint goes through the connection map, but for cookies. -/
def Tables.connectFor (endpoint : SocketAddr) (fds : ℕ → Option Fd) :
    ℕ → List Sent → Tables C T → Option (Tables C T)
  | _, [], s => some s
  | n, .reply _ :: sent, s | n, .queued _ :: sent, s =>
    (s.maybeConnectTcp endpoint (fds n)).bind (connectFor endpoint fds (n + 1) sent)
  | n, .cookie _ :: sent, s | n, .tunnel _ :: sent, s => connectFor endpoint fds n sent s

/-! ## Handlers -/

/-- The accept loop. -/
def listenerHandler : List Accepting → Tables C T → Option (Tables C T)
  | [], s => some s
  | conn :: accepts, s =>
    if !conn.nonblocking then listenerHandler accepts s
    else
      let s :=
        if conn.cloned then { s with tcpConnections := s.tcpConnections.insert conn.addr conn.fd }
        else s
      (s.registerStream conn.fd conn.addr).bind (listenerHandler accepts)

/-- One packet read from the interface. -/
def ifacePacket (s : Tables C T) (env : Env) (fd : Option Fd) (src : List UInt8) :
    Option (Tables C T) :=
  match (dstAddress src).bind s.device.peersByIp.find with
  | none => some s
  | some i =>
    (s.device.step (.peer i (.tunnel env (.encapsulate src maxUdpSize)))).bind
      fun (device, res) =>
        let s := { s with device }
        match res, (device.lock i).bind Peer.endpoint with
        | .writeToNetwork _, some endpoint => s.maybeConnectTcp endpoint fd
        | _, _ => some s

def ifacePackets (envs : ℕ → Env) (fds : ℕ → Option Fd) :
    ℕ → List (List UInt8) → Tables C T → Option (Tables C T)
  | _, [], s => some s
  | n, src :: packets, s =>
    (ifacePacket s (envs n) (fds n) src).bind (ifacePackets envs fds (n + 1) packets)

/-- The reads of the interface. -/
def ifaceHandler (s : Tables C T) (a : Answers C T) : Option (Tables C T × Action) :=
  if a.tunPackets.length ≤ maxItr ∧ (a.tunEnd = .itr ↔ a.tunPackets.length = maxItr) then
    (ifacePackets (a.envs 0) a.fds 0 a.tunPackets s).map fun s =>
      (s, if a.tunEnd = .fatal then .exit else .continue)
  else none

/-- Read, handle and send; the framing buffer stays with the handler. -/
def tcpStreamHandler (s : Tables C T) (fd : Fd) (endpoint : SocketAddr) (framing : TcpFraming)
    (a : Answers C T) : Option (Tables C T × Action) :=
  (streamHandler s.device a.envs framing endpoint a.incoming).bind fun r =>
    let s := { s with
      device := r.device
      events := Function.update s.events fd (some (.tcpStream endpoint r.framing))
      tcpConnections :=
        if r.closed then s.tcpConnections.erase endpoint else s.tcpConnections }
    (Tables.connectFor endpoint a.fds 0 r.sent s).map fun s => (s, r.action)

/-- The call of a handler; the notice of exit is ready only when it has been triggered. -/
def EventLoop.handle (s : EventLoop C T) (fd : Fd) (a : Answers C T) :
    Handler → Option (EventLoop C T × Action)
  | .api => some ({ s with tables := a.request s.tables }, .continue)
  | .apiFd =>
    if a.lineRead then some ({ s with tables := a.request s.tables }, .continue)
    else some ({ s with exitNotice := true }, .exit)
  | .monitor =>
    if a.pathExists then some (s, .continue) else some ({ s with exitNotice := true }, .exit)
  | .signal => some (s, .exit)
  | .yieldNotice => some (s, .yield)
  | .exitNotice => if s.exitNotice then some (s, .exit) else none
  | .resetCount =>
    let device := { s.tables.device with
      rateLimiter := s.tables.device.rateLimiter.map fun r => r.resetCount a.now }
    some ({ s with tables := { s.tables with device } }, .continue)
  | .peerTimers => some (s, .continue) -- there are no UDP sockets
  | .iface => (ifaceHandler s.tables a).map fun (tables, action) => ({ s with tables }, action)
  | .tcpListener =>
    (listenerHandler a.accepts s.tables).map fun tables => ({ s with tables }, .continue)
  | .tcpStream endpoint framing =>
    (tcpStreamHandler s.tables fd endpoint framing a).map fun (tables, action) =>
      ({ s with tables }, action)

/-- `trigger_exit` and the end of the thread. -/
def EventLoop.leave (s : EventLoop C T) (thread : Thread) : EventLoop C T :=
  { s with exitNotice := true, running := s.running.erase thread }

/-- One turn of the loop of a thread. -/
def EventLoop.step (s : EventLoop C T) (i : Turn C T) : Option (EventLoop C T × Unit) :=
  if i.thread ∈ s.running then
    match i.wait, s.tables.events i.fd with
    | .error, _ => some (s, ()) -- Poll error
    | _, none => none
    | .eof, some _ =>
      if s.uapiFd = some i.fd then some (s.leave i.thread, ())
      else
        let events := Function.update s.tables.events i.fd none
        some ({ s with tables := { s.tables with events } }, ())
    | .ok a, some handler =>
      (s.handle i.fd a handler).map fun (s, action) =>
        match action with
        | .continue | .yield => (s, ())
        | .exit => (s.leave i.thread, ())
  else none

/-! ## What happens in a turn -/

/-- What a turn may mean to the whole device, or to one connection. -/
inductive Happening
  | signal
  /-- The control socket is gone. -/
  | uapi
  /-- A read of the interface has failed. -/
  | tunRead
  /-- A request on the control socket. -/
  | request
  /-- The end of file was reported for a file descriptor. -/
  | closed (fd : Fd)
  deriving DecidableEq

/-- The happenings that end the device by design. -/
def Happening.stops : Happening → Bool
  | .signal | .uapi | .tunRead => true
  | .request | .closed _ => false

def happening (s : EventLoop C T) (i : Turn C T) : Option Happening :=
  match i.wait, s.tables.events i.fd with
  | .eof, some _ => some (if s.uapiFd = some i.fd then .uapi else .closed i.fd)
  | .ok _, some .signal => some .signal
  | .ok _, some .api => some .request
  | .ok a, some .apiFd => some (if a.lineRead then .request else .uapi)
  | .ok a, some .monitor => if a.pathExists then none else some .uapi
  | .ok a, some .iface => if a.tunEnd = .fatal then some .tunRead else none
  | _, _ => none

/-- No stream read fails or gives nothing. -/
def StreamsGoOn (s : EventLoop C T) (i : Turn C T) : Prop :=
  ∀ a endpoint framing, i.wait = .ok a →
    s.tables.events i.fd = some (.tcpStream endpoint framing) →
    ¬ a.incoming.Ends (maxDatagramSize - framing.unprocessedI)

/-- A connection has its handler. -/
def Tables.Serves (s : Tables C T) (fd : Fd) (endpoint : SocketAddr) : Prop :=
  ∃ framing, s.events fd = some (.tcpStream endpoint framing)

/-! ## Connections keep their handlers -/

section Serves

variable {s s' : Tables C T} {fd fd' : Fd} {endpoint endpoint' : SocketAddr} {fds : ℕ → Option Fd}

omit [Table T IpNetwork IpAddr] in
theorem Tables.Serves.registerStream (h : s.Serves fd endpoint)
    (hstep : s.registerStream fd' endpoint' = some s') : s'.Serves fd endpoint := by
  rw [Tables.registerStream] at hstep
  split_ifs at hstep with hfree
  cases hstep
  obtain ⟨framing, hfd⟩ := h
  have hne : fd ≠ fd' := by
    rintro rfl
    rw [hfd] at hfree
    cases hfree
  exact ⟨framing, (Function.update_of_ne hne ..).trans hfd⟩

omit [Table T IpNetwork IpAddr] in
theorem Tables.Serves.maybeConnectTcp {fd' : Option Fd} (h : s.Serves fd endpoint)
    (hstep : s.maybeConnectTcp endpoint' fd' = some s') : s'.Serves fd endpoint := by
  rcases hlookup : s.tcpConnections.lookup endpoint' with _ | fd₀
  · rcases fd' with _ | fd'
    · simp only [Tables.maybeConnectTcp, hlookup] at hstep
      cases hstep
      exact h
    · simp only [Tables.maybeConnectTcp, hlookup] at hstep
      have h₁ : Tables.Serves
          { s with tcpConnections := s.tcpConnections.insert endpoint' fd' } fd endpoint := h
      exact h₁.registerStream hstep
  · simp only [Tables.maybeConnectTcp, hlookup] at hstep
    cases hstep
    exact h

omit [Table T IpNetwork IpAddr] in
theorem Tables.Serves.connectFor {n : ℕ} {sent : List Sent} (h : s.Serves fd endpoint)
    (hstep : Tables.connectFor endpoint' fds n sent s = some s') : s'.Serves fd endpoint := by
  induction sent generalizing n s with
  | nil =>
    cases hstep
    exact h
  | cons packet sent ih =>
    cases packet with
    | reply | queued =>
      obtain ⟨s₁, hconnect, hrest⟩ := Option.bind_eq_some_iff.mp hstep
      exact ih (h.maybeConnectTcp hconnect) hrest
    | cookie | tunnel => exact ih h hstep

omit [Table T IpNetwork IpAddr] in
theorem Tables.Serves.listenerHandler {accepts : List Accepting} (h : s.Serves fd endpoint)
    (hstep : Device.listenerHandler accepts s = some s') : s'.Serves fd endpoint := by
  induction accepts generalizing s with
  | nil =>
    cases hstep
    exact h
  | cons conn accepts ih =>
    rw [Device.listenerHandler] at hstep
    split_ifs at hstep
    · exact ih h hstep
    · obtain ⟨s₁, hregister, hrest⟩ := Option.bind_eq_some_iff.mp hstep
      have h₁ : Tables.Serves
          { s with tcpConnections := s.tcpConnections.insert conn.addr conn.fd } fd endpoint := h
      exact ih (h₁.registerStream hregister) hrest
    · obtain ⟨s₁, hregister, hrest⟩ := Option.bind_eq_some_iff.mp hstep
      exact ih (h.registerStream hregister) hrest

theorem Tables.Serves.ifacePackets {envs : ℕ → Env} {n : ℕ} {packets : List (List UInt8)}
    (h : s.Serves fd endpoint) (hstep : Device.ifacePackets envs fds n packets s = some s') :
    s'.Serves fd endpoint := by
  induction packets generalizing n s with
  | nil =>
    cases hstep
    exact h
  | cons src packets ih =>
    obtain ⟨s₁, hpacket, hrest⟩ := Option.bind_eq_some_iff.mp hstep
    refine ih ?_ hrest
    rw [ifacePacket] at hpacket
    split at hpacket
    · cases hpacket
      exact h
    · obtain ⟨⟨device, res⟩, -, hconnect⟩ := Option.bind_eq_some_iff.mp hpacket
      dsimp only at hconnect
      split at hconnect
      · have h₁ : Tables.Serves { s with device } fd endpoint := h
        exact h₁.maybeConnectTcp hconnect
      · cases hconnect
        exact h

end Serves

/-! ## One turn -/

section Turns

variable {s s' : EventLoop C T} {i : Turn C T} {u : Unit} {a : Answers C T} {handler : Handler}
  {action : Action}

/-- Only a thread in its loop takes a turn. -/
theorem mem_running_of_step (h : s.step i = some (s', u)) : i.thread ∈ s.running := by
  by_contra hmem
  rw [EventLoop.step, if_neg hmem] at h
  cases h

/-- The handler of the interface asks to exit when its reads end in an error. -/
theorem ifaceHandler_eq_some {tables tables' : Tables C T}
    (h : ifaceHandler tables a = some (tables', action)) :
    ifacePackets (a.envs 0) a.fds 0 a.tunPackets tables = some tables' ∧
      (action = .exit → a.tunEnd = .fatal) := by
  rw [ifaceHandler] at h
  by_cases hreads : a.tunPackets.length ≤ maxItr ∧ (a.tunEnd = .itr ↔ a.tunPackets.length = maxItr)
  · rw [if_pos hreads] at h
    obtain ⟨tables₁, hpackets, heq⟩ := Option.map_eq_some_iff.mp h
    obtain ⟨rfl, rfl⟩ := Prod.mk.inj heq
    refine ⟨hpackets, fun hexit => ?_⟩
    by_contra hfatal
    rw [if_neg hfatal] at hexit
    cases hexit
  · rw [if_neg hreads] at h
    cases h

/-- A handler leaves the notice and the threads alone; and when it asks to exit, something happened
that ends the device, or a stream read has ended. -/
theorem handle_spec (h : s.handle i.fd a handler = some (s', action)) (hwait : i.wait = .ok a)
    (hevent : s.tables.events i.fd = some handler) (hon : StreamsGoOn s i)
    (hnotice : s.exitNotice = false) (hstops : ∀ e, happening s i = some e → e.stops = false) :
    action ≠ .exit ∧ s'.exitNotice = false ∧ s'.running = s.running := by
  have hhappening : ∀ e, (happening s i = some e) → e.stops = false := hstops
  rw [happening, hwait, hevent] at hhappening
  cases handler with
  | api =>
    cases h
    exact ⟨by simp, hnotice, rfl⟩
  | apiFd =>
    rw [EventLoop.handle] at h
    split_ifs at h with hline
    · cases h
      exact ⟨by simp, hnotice, rfl⟩
    · exact absurd (hhappening .uapi (by simp [hline])) (by decide)
  | monitor =>
    rw [EventLoop.handle] at h
    split_ifs at h with hpath
    · cases h
      exact ⟨by simp, hnotice, rfl⟩
    · exact absurd (hhappening .uapi (by simp [hpath])) (by decide)
  | signal => exact absurd (hhappening .signal rfl) (by decide)
  | yieldNotice =>
    cases h
    exact ⟨by simp, hnotice, rfl⟩
  | exitNotice =>
    rw [EventLoop.handle, if_neg (by simp [hnotice])] at h
    cases h
  | resetCount | peerTimers =>
    cases h
    exact ⟨by simp, hnotice, rfl⟩
  | iface =>
    obtain ⟨⟨tables, action⟩, hiface, heq⟩ := Option.map_eq_some_iff.mp h
    cases heq
    refine ⟨fun hexit => ?_, hnotice, rfl⟩
    have hfatal := (ifaceHandler_eq_some hiface).2 hexit
    exact absurd (hhappening .tunRead (by simp [hfatal])) (by decide)
  | tcpListener =>
    obtain ⟨tables, -, heq⟩ := Option.map_eq_some_iff.mp h
    cases heq
    exact ⟨by simp, hnotice, rfl⟩
  | tcpStream endpoint framing =>
    obtain ⟨⟨tables, action⟩, hstream, heq⟩ := Option.map_eq_some_iff.mp h
    cases heq
    obtain ⟨r, hr, hsend⟩ := Option.bind_eq_some_iff.mp hstream
    obtain ⟨tables, -, heq⟩ := Option.map_eq_some_iff.mp hsend
    cases heq
    refine ⟨fun hexit => ?_, hnotice, rfl⟩
    exact hon a endpoint framing hwait hevent ((streamHandler_exit_iff hr).1.mp hexit)

/-- **One turn**, when nothing happens that ends the device and stream reads go on. -/
theorem step_running (h : s.step i = some (s', u)) (hon : StreamsGoOn s i)
    (hnotice : s.exitNotice = false) (hstops : ∀ e, happening s i = some e → e.stops = false) :
    s'.exitNotice = false ∧ s'.running = s.running := by
  rw [EventLoop.step, if_pos (mem_running_of_step h)] at h
  rcases hwait : i.wait with a | _ | _
  · rcases hevent : s.tables.events i.fd with _ | handler
    · simp only [hwait, hevent] at h
      cases h
    · simp only [hwait, hevent] at h
      obtain ⟨⟨s₁, action⟩, hhandle, heq⟩ := Option.map_eq_some_iff.mp h
      obtain ⟨hexit, hkeep⟩ := handle_spec hhandle hwait hevent hon hnotice hstops
      cases action with
      | «continue» | yield =>
        cases heq
        exact hkeep
      | exit => exact absurd rfl hexit
  · rcases hevent : s.tables.events i.fd with _ | handler
    · simp only [hwait, hevent] at h
      cases h
    · simp only [hwait, hevent] at h
      split_ifs at h with huapi
      · have hhappening : happening s i = some .uapi := by
          rw [happening, hwait, hevent]
          simp [huapi]
        exact absurd (hstops _ hhappening) (by decide)
      · cases h
        exact ⟨hnotice, rfl⟩
  · simp only [hwait] at h
    cases h
    exact ⟨hnotice, rfl⟩

/-- A handler keeps the other connections, unless it serves the control socket. -/
theorem handle_serves {fd fd' : Fd} {endpoint : SocketAddr}
    (h : s.handle fd' a handler = some (s', action)) (hevent : s.tables.events fd' = some handler)
    (hapi : handler ≠ .api) (hline : handler = .apiFd → a.lineRead = false)
    (hserves : s.tables.Serves fd endpoint) : s'.tables.Serves fd endpoint := by
  cases handler with
  | api => exact absurd rfl hapi
  | apiFd =>
    rw [EventLoop.handle, if_neg (by simp [hline rfl])] at h
    cases h
    exact hserves
  | monitor =>
    rw [EventLoop.handle] at h
    split_ifs at h <;> cases h <;> exact hserves
  | signal | yieldNotice | resetCount | peerTimers =>
    cases h
    exact hserves
  | exitNotice =>
    rw [EventLoop.handle] at h
    split_ifs at h
    cases h
    exact hserves
  | iface =>
    obtain ⟨⟨tables, action⟩, hiface, heq⟩ := Option.map_eq_some_iff.mp h
    cases heq
    exact hserves.ifacePackets (ifaceHandler_eq_some hiface).1
  | tcpListener =>
    obtain ⟨tables, hlisten, heq⟩ := Option.map_eq_some_iff.mp h
    cases heq
    exact hserves.listenerHandler hlisten
  | tcpStream endpoint' framing =>
    obtain ⟨⟨tables, action⟩, hstream, heq⟩ := Option.map_eq_some_iff.mp h
    cases heq
    obtain ⟨r, -, hsend⟩ := Option.bind_eq_some_iff.mp hstream
    obtain ⟨tables, hconnect, heq⟩ := Option.map_eq_some_iff.mp hsend
    cases heq
    refine Tables.Serves.connectFor ?_ hconnect
    -- the handler that ran is put back with its buffer
    obtain ⟨framing', hfd⟩ := hserves
    by_cases hfds : fd = fd'
    · subst hfds
      rw [hevent] at hfd
      cases hfd
      exact ⟨r.framing, Function.update_self ..⟩
    · exact ⟨framing', (Function.update_of_ne hfds ..).trans hfd⟩

/-- **One turn** keeps a connection that is not itself closed, unless it serves a request. -/
theorem step_serves {fd : Fd} {endpoint : SocketAddr} (h : s.step i = some (s', u))
    (hrequest : happening s i ≠ some .request) (hclosed : happening s i ≠ some (.closed fd))
    (hserves : s.tables.Serves fd endpoint) : s'.tables.Serves fd endpoint := by
  rw [EventLoop.step, if_pos (mem_running_of_step h)] at h
  rcases hwait : i.wait with a | _ | _
  · rcases hevent : s.tables.events i.fd with _ | handler
    · simp only [hwait, hevent] at h
      cases h
    · rw [happening, hwait, hevent] at hrequest
      simp only [hwait, hevent] at h
      obtain ⟨⟨s₁, action⟩, hhandle, heq⟩ := Option.map_eq_some_iff.mp h
      have hkeep := handle_serves hhandle hevent (by rintro rfl; exact hrequest rfl)
        (by rintro rfl; simpa using hrequest) hserves
      cases action with
      | «continue» | yield | exit =>
        cases heq
        exact hkeep
  · rcases hevent : s.tables.events i.fd with _ | handler
    · simp only [hwait, hevent] at h
      cases h
    · rw [happening, hwait, hevent] at hclosed
      simp only [hwait, hevent] at h
      split_ifs at h with huapi
      · cases h
        exact hserves
      · cases h
        obtain ⟨framing, hfd⟩ := hserves
        have hne : fd ≠ i.fd := by
          rintro rfl
          simp [huapi] at hclosed
        exact ⟨framing, (Function.update_of_ne hne ..).trans hfd⟩
  · simp only [hwait] at h
    cases h
    exact hserves

end Turns

/-! ## Runs -/

/-- The event loop with the log of what has happened. -/
abbrev EventLoop.loggedStep (q : EventLoop C T × List Happening) (i : Turn C T) :
    Option ((EventLoop C T × List Happening) × Unit) :=
  Machine.logged EventLoop.step happening q i

/-- **TCP events keep the device running.** In every run in which no stream read fails or gives
nothing, exit is triggered and a thread leaves its loop only after a signal, the loss of the control
socket or a failed read of the interface; and whatever happens, a connection keeps its handler until
the control socket is used or the end of its own file is reported. -/
theorem tcp_events_keep_running {s₀ s : EventLoop C T} {log : List Happening}
    (h : Machine.Reaches EventLoop.loggedStep (fun q i => StreamsGoOn q.1 i) (s₀, []) (s, log))
    (hstart : s₀.exitNotice = false) :
    (s.exitNotice = true ∨ s.running ≠ s₀.running → ∃ e ∈ log, e.stops = true) ∧
      ∀ fd endpoint, s₀.tables.Serves fd endpoint → .request ∉ log → .closed fd ∉ log →
        s.tables.Serves fd endpoint := by
  have hall := h.invariant (I := fun q =>
    ((∀ e ∈ q.2, e.stops = false) → q.1.exitNotice = false ∧ q.1.running = s₀.running) ∧
      ∀ fd endpoint, s₀.tables.Serves fd endpoint → .request ∉ q.2 → .closed fd ∉ q.2 →
        q.1.tables.Serves fd endpoint)
    ⟨fun _ => ⟨hstart, rfl⟩, fun _ _ hserves _ _ => hserves⟩ ?_
  · refine ⟨fun hleft => ?_, hall.2⟩
    by_contra hnone
    obtain ⟨hnotice, hrunning⟩ := hall.1 fun e he =>
      Bool.eq_false_of_not_eq_true fun hstops => hnone ⟨e, he, hstops⟩
    rcases hleft with hleft | hleft
    · exact absurd (hnotice.symm.trans hleft) (by decide)
    · exact hleft hrunning
  · rintro ⟨s, log⟩ i ⟨s', log'⟩ u ⟨hrunning, hserving⟩ hon hstep
    obtain ⟨hstep, rfl⟩ := Machine.logged_eq_some.mp hstep
    constructor
    · intro hstops
      obtain ⟨hnotice, hthreads⟩ := hrunning fun e he => hstops e (List.mem_append_left _ he)
      obtain ⟨hnotice', hthreads'⟩ := step_running hstep hon hnotice fun e he =>
        hstops e (List.mem_append_right _ (by rw [he]; exact List.mem_singleton_self e))
      exact ⟨hnotice', hthreads'.trans hthreads⟩
    · intro fd endpoint hserves hrequest hclosed
      have hthere := hserving fd endpoint hserves
        (fun hmem => hrequest (List.mem_append_left _ hmem))
        (fun hmem => hclosed (List.mem_append_left _ hmem))
      refine step_serves hstep (fun heq => hrequest ?_) (fun heq => hclosed ?_) hthere
      · exact List.mem_append_right _ (by rw [heq]; exact List.mem_singleton_self _)
      · exact List.mem_append_right _ (by rw [heq]; exact List.mem_singleton_self _)

/-! ## One connection -/

/-- A device that listens, with two threads. -/
def sampleLoop : EventLoop checksumPrims (PrefixMap IpNetwork) where
  tables :=
    { device := sampleDevice
      events := fun fd => if fd = 5 then some .tcpListener else none
      tcpConnections := ∅ }
  uapiFd := none
  exitNotice := false
  running := [0, 1]

def sampleAddr : SocketAddr := .v4 ⟨[192, 0, 2, 1], rfl⟩ 40000

def sampleAnswers : Answers checksumPrims (PrefixMap IpNetwork) where
  now := 0
  envs := fun _ _ => Tunn.sampleEnv 0 0
  fds := fun _ => none
  request := id
  lineRead := true
  pathExists := true
  accepts := []
  incoming := .wouldBlock
  tunPackets := []
  tunEnd := .wouldBlock

/-- A connection is accepted. -/
def sampleAccept : Turn checksumPrims (PrefixMap IpNetwork) :=
  ⟨0, 5, .ok { sampleAnswers with accepts := [⟨9, sampleAddr, true, true⟩] }⟩

/-- The handler of the connection is called, and finds this. -/
def sampleRead (incoming : Incoming) : Turn checksumPrims (PrefixMap IpNetwork) :=
  ⟨1, 9, .ok { sampleAnswers with incoming }⟩

theorem tcp_events_keep_running_sample :
    ∃ s : EventLoop checksumPrims (PrefixMap IpNetwork),
      (Machine.run EventLoop.step sampleLoop [sampleAccept, sampleRead .wouldBlock]).map Prod.fst =
        some s ∧ ¬ (s.exitNotice = true ∨ s.running ≠ [0, 1]) := by
  have hrun : (Machine.run EventLoop.loggedStep (sampleLoop, [])
      [sampleAccept, sampleRead .wouldBlock]).map (fun q => q.1.2) = some [] := by decide
  obtain ⟨⟨⟨s, log⟩, us⟩, hrun, hlog⟩ := Option.map_eq_some_iff.mp hrun
  obtain rfl : log = [] := hlog
  have hreaches : Machine.Reaches EventLoop.loggedStep (fun q i => StreamsGoOn q.1 i)
      (sampleLoop, []) (s, []) := by
    refine Machine.reaches_of_run_of_forall hrun fun i hi q a endpoint framing hwait _ => ?_
    simp only [List.mem_cons, List.not_mem_nil, or_false] at hi
    rcases hi with rfl | rfl <;> cases hwait <;> simp [Incoming.ends_iff, sampleAnswers]
  refine ⟨s, ?_, fun hleft => ?_⟩
  · obtain ⟨s₁, u₁, us₁, h₁, hrun, -⟩ := Machine.run_cons_eq_some.mp hrun
    obtain ⟨s₂, u₂, us₂, h₂, hrun, -⟩ := Machine.run_cons_eq_some.mp hrun
    obtain ⟨rfl, -⟩ := Prod.mk.inj (Option.some.inj hrun)
    rw [Machine.run_cons_of_step (Machine.logged_eq_some.mp h₁).1,
      Machine.run_cons_of_step (Machine.logged_eq_some.mp h₂).1]
    rfl
  · obtain ⟨e, he, -⟩ := (tcp_events_keep_running hreaches rfl).1 hleft
    exact absurd he List.not_mem_nil

/-- **The end of one stream** triggers exit, and nothing else has happened. -/
theorem stream_eof_exits :
    ¬ ∀ (s₀ s : EventLoop checksumPrims (PrefixMap IpNetwork)) (log : List Happening),
      s₀.exitNotice = false →
      Machine.Reaches EventLoop.loggedStep (fun _ _ => True) (s₀, []) (s, log) →
      s.exitNotice = true → ∃ e ∈ log, e.stops = true := by
  intro hclaim
  have hrun : (Machine.run EventLoop.loggedStep (sampleLoop, [])
      [sampleAccept, sampleRead .eof]).map (fun q => (q.1.1.exitNotice, q.1.2)) =
      some (true, []) := by decide
  obtain ⟨⟨⟨s, log⟩, us⟩, hrun, heq⟩ := Option.map_eq_some_iff.mp hrun
  obtain ⟨hnotice, rfl⟩ := Prod.mk.inj heq
  obtain ⟨e, he, -⟩ := hclaim sampleLoop s _ rfl (Machine.reaches_of_run hrun) hnotice
  exact absurd he List.not_mem_nil

end NekoLink.Device
