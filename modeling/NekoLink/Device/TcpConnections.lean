import NekoLink.Device.Network

/-!
# The map of TCP connections

An entry of `tcp_connections` is written by the accept loop or by `maybe_connect_tcp`, and erased by
the stream handler of its connection; the event loop removes a handler by itself when its connection
hangs up.

* `live_step_iff`: what keeps every entry with the handler of its connection in one call.
* `tcp_connections_live_iff`: the same in a run, and what it means to `maybe_connect_tcp`.
* `refused_connection_stays`: a connection that was refused, and is given again.
-/

namespace NekoLink.Device.Network

/-- The stream has a handler that reads the same connection. -/
def Serves (s : Network) (endpoint : SocketAddr) (stream : Socket) : Prop :=
  ∃ fd sock, s.ready fd = some (.tcpStream sock endpoint) ∧ sock.file = stream.file

/-- The map holds only connections that are read and have not ended. -/
def Live (s : Network) : Prop :=
  ∀ endpoint stream, s.tcpConnections.lookup endpoint = some stream →
    s.Serves endpoint stream ∧ stream.file ∉ s.ended

/-- The system takes the handler of an entry, and a connection that hangs up is not in the map. -/
def InStep (s : Network) : Op → Prop
  | .accept _ a => a.nonblocking = true → a.conn.clone.isSome → a.conn.added = true
  | .maybeConnectTcp endpoint conn => s.tcpConnections.lookup endpoint = none →
      ∀ c ∈ conn, c.clone.isSome → c.added = true
  | .hangUp fd => ∀ sock endpoint stream, s.ready fd = some (.tcpStream sock endpoint) →
      s.tcpConnections.lookup endpoint = some stream → stream.file ≠ sock.file
  | _ => True

/-! ## One call -/

section Calls

variable {s s' : Network} {endpoint : SocketAddr} {stream sock : Socket} {fd : Fd} {op : Op}
  {r : Option Socket}

/-- A ready handler stays when its event does. -/
theorem Serves.mono (h : s.Serves endpoint stream)
    (hget : ∀ fd handler, s.ready fd = some handler → s'.queue.get fd = s.queue.get fd) :
    s'.Serves endpoint stream := by
  obtain ⟨fd, sock, hready, hfile⟩ := h
  refine ⟨fd, sock, ready_of_get ?_, hfile⟩
  rw [hget fd _ hready]
  exact (owner_of_ready hready).1

/-- Registering for a free descriptor leaves the events that there are. -/
theorem get_register_of_ready {handler handler' : SocketHandler} {added : Bool}
    (hfree : s.queue.get sock.fd = none) (hready : s.ready fd = some handler) :
    (s.register handler' sock added).queue.get fd = s.queue.get fd := by
  rw [register, EventPoll.get_newEvent]
  refine Function.update_of_ne ?_ ..
  rintro rfl
  rw [(owner_of_ready hready).1] at hfree
  cases hfree

/-- An entry whose handler is the one of an ended connection is that connection's. -/
theorem eq_of_file_eq (h : Owned s) {handler : SocketHandler}
    (hready : s.ready fd = some handler) (hsocket : handler.socket = some sock)
    (hserves : s.Serves endpoint stream) (hfile : stream.file = sock.file) :
    handler = .tcpStream sock endpoint := by
  obtain ⟨fd', sock', hready', hfile'⟩ := hserves
  obtain rfl : fd' = fd := h.unique fd' fd sock' sock (owner_of_ready hready').2
    ((owner_of_ready hready).2.trans hsocket) (hfile'.trans hfile)
  obtain rfl := Option.some.inj (hready.symm.trans hready')
  cases hsocket
  rfl

/-- A new connection is put into the map, and its handler registered. -/
theorem live_insert_iff (h : Owned s) (hlive : s.Live) (remotes : HashMap ℕ SocketAddr)
    {clone : Fd} {added : Bool} (hfree : s.queue.get fd = none) :
    Live ({ s with
      files := s.files + 1
      remotes
      tcpConnections := s.tcpConnections.insert endpoint ⟨clone, s.files⟩
    }.registerTcpStreamHandler ⟨fd, s.files⟩ endpoint added) ↔ added = true := by
  constructor
  · intro hlive'
    obtain ⟨⟨fd', sock, hready, hfile⟩, -⟩ :=
      hlive' endpoint ⟨clone, s.files⟩ (AList.lookup_insert _)
    obtain ⟨hget, howner⟩ := owner_of_ready hready
    by_cases hfd : fd' = fd
    · subst hfd
      rw [registerTcpStreamHandler, register, EventPoll.get_newEvent, Function.update_self] at hget
      exact congrArg Event.added (Option.some.inj hget)
    · rw [registerTcpStreamHandler, owner_register, Function.update_of_ne hfd] at howner
      exact absurd hfile (h.owner_lt fd' sock howner).ne
  · rintro rfl endpoint' stream hlookup
    obtain ⟨rfl, rfl⟩ | ⟨-, hold⟩ := lookup_insert_iff.mp hlookup
    · refine ⟨⟨fd, ⟨fd, s.files⟩, ready_of_get ?_, rfl⟩, fun hended => ?_⟩
      · rw [registerTcpStreamHandler, register, EventPoll.get_newEvent, Function.update_self]
      · exact absurd (h.ended_lt _ hended) (lt_irrefl _)
    · obtain ⟨hserves, hended⟩ := hlive endpoint' stream hold
      exact ⟨hserves.mono fun fd' handler hready => get_register_of_ready hfree hready, hended⟩

/-- A handler is registered for a free descriptor, and the map stays. -/
theorem Live.register (hlive : s.Live) (hqueue : s'.queue = s.queue)
    (hconnections : s'.tcpConnections = s.tcpConnections) (hended : s'.ended = s.ended)
    (handler : SocketHandler) (added : Bool) (hfree : s.queue.get sock.fd = none) :
    Live (s'.register handler sock added) := by
  intro endpoint stream hlookup
  have hlookup' : s'.tcpConnections.lookup endpoint = some stream := hlookup
  rw [hconnections] at hlookup'
  obtain ⟨hserves, hfile⟩ := hlive endpoint stream hlookup'
  refine ⟨hserves.mono fun fd handler' hready => ?_, ?_⟩
  · have hready' : s'.ready fd = some handler' := by
      rw [ready, hqueue]
      exact hready
    rw [get_register_of_ready (by rw [hqueue]; exact hfree) hready', hqueue]
  · have hsame : (s'.register handler sock added).ended = s.ended := hended
    rw [hsame]
    exact hfile

/-- An accepted connection keeps the map exactly when its handler is taken. -/
theorem live_accept_iff (h : Owned s) (hlive : s.Live) {a : Accepted}
    (hfresh : s.Fresh a.conn.fds) :
    (s.accept a).Live ↔ (a.nonblocking = true → a.conn.clone.isSome → a.conn.added = true) := by
  have hfree := (hfresh.2 a.conn.fd List.mem_cons_self).1
  rw [accept]
  rcases hnonblocking : a.nonblocking with _ | _
  · rw [if_pos (by rfl)]
    exact ⟨fun _ hn => (by cases hn), fun _ => hlive⟩
  · rw [if_neg (by decide)]
    rcases hclone : a.conn.clone with _ | clone
    · refine ⟨fun _ _ hsome => (by cases hsome), fun _ => ?_⟩
      exact hlive.register rfl rfl rfl _ _ hfree
    · refine (live_insert_iff h hlive _ hfree).trans ⟨fun hadded _ _ => hadded, fun hadded => ?_⟩
      exact hadded rfl rfl

theorem live_maybeConnectTcp_iff (h : Owned s) (hlive : s.Live) {conn : Option Connecting}
    (hfresh : s.Fresh (conn.toList.flatMap Connecting.fds))
    (hconnect : s.maybeConnectTcp endpoint conn = (s', r)) :
    s'.Live ↔ (s.tcpConnections.lookup endpoint = none →
      ∀ c ∈ conn, c.clone.isSome → c.added = true) := by
  obtain ⟨stream, hlookup, rfl, -⟩ | ⟨-, hnone, rfl, -⟩ |
    ⟨fd, clone, added, hlookup, rfl, rfl, -⟩ := maybeConnectTcp_cases hconnect
  · exact ⟨fun _ hnone => (by rw [hlookup] at hnone; cases hnone), fun _ => hlive⟩
  · refine ⟨fun _ _ c hc hsome => ?_, fun _ => hlive⟩
    rw [hnone c hc] at hsome
    cases hsome
  · have hfree : s.queue.get fd = none :=
      (hfresh.2 fd (by simp [Connecting.fds])).1
    refine (live_insert_iff h hlive _ hfree).trans ⟨fun hadded _ c hc _ => ?_, fun hadded => ?_⟩
    · cases hc
      exact hadded
    · exact hadded hlookup _ rfl rfl

/-- The end of a connection takes its entry out. -/
theorem live_streamEnd (h : Owned s) (hlive : s.Live)
    (hready : s.ready fd = some (.tcpStream sock endpoint)) : (s.streamEnd sock endpoint).Live := by
  intro endpoint' stream hlookup
  obtain ⟨hne, hold⟩ := lookup_erase_iff.mp hlookup
  obtain ⟨hserves, hfile⟩ := hlive endpoint' stream hold
  refine ⟨hserves, fun hended => ?_⟩
  obtain heq | hended := List.mem_cons.mp hended
  · cases eq_of_file_eq h hready rfl hserves heq
    exact hne rfl
  · exact hfile hended

/-- A hang-up keeps the map exactly when the connection is not in it. -/
theorem live_hangUp_iff (h : Owned s) (hlive : s.Live) {handler : SocketHandler}
    (hready : s.ready fd = some handler) (hsocket : handler.socket = some sock)
    (hstep : s.hangUp sock = some s') :
    s'.Live ↔ ∀ sock' endpoint stream, s.ready fd = some (.tcpStream sock' endpoint) →
      s.tcpConnections.lookup endpoint = some stream → stream.file ≠ sock'.file := by
  obtain ⟨queue, hget, rfl⟩ := hangUp_spec hstep
  constructor
  · intro hlive' sock' endpoint stream hready' hlookup hfile
    obtain rfl := Option.some.inj (hready.symm.trans hready')
    cases hsocket
    exact (hlive' endpoint stream hlookup).2 (hfile ▸ List.mem_cons_self)
  · intro hnot endpoint stream hlookup
    obtain ⟨hserves, hfile⟩ := hlive endpoint stream hlookup
    have hother : stream.file ≠ sock.file := by
      intro heq
      obtain rfl := eq_of_file_eq h hready hsocket hserves heq
      exact hnot sock endpoint stream hready hlookup heq
    refine ⟨?_, fun hended => ?_⟩
    · obtain ⟨fd', sock', hready', hfile'⟩ := hserves
      obtain ⟨hevent, howner⟩ := owner_of_ready hready'
      refine ⟨fd', sock', ready_of_get ?_, hfile'⟩
      rw [hget, Function.update_of_ne, hevent]
      rintro rfl
      have hfd : sock.fd = fd := h.fd_eq fd sock ((owner_of_ready hready).2.trans hsocket)
      rw [hfd] at howner
      obtain rfl := Option.some.inj
        (howner.symm.trans ((owner_of_ready hready).2.trans hsocket))
      exact hother hfile'.symm
    · obtain heq | hended := List.mem_cons.mp hended
      · exact hother heq
      · exact hfile hended

theorem live_of_empty (h : s.tcpConnections = ∅) : s.Live := by
  intro endpoint stream hlookup
  rw [h] at hlookup
  cases hlookup

/-- **What keeps the map in one call.** -/
theorem live_step_iff (h : Owned s) (hlive : s.Live) (hstep : s.step op = some (s', r)) :
    s'.Live ↔ s.InStep op := by
  cases op with
  | openListenSocket mode port peers opening =>
    have hopen := step_openListenSocket hstep
    exact ⟨fun _ => trivial, fun _ => live_of_empty (tcpConnections_openListenSocket hopen)⟩
  | accept fd a =>
    obtain ⟨-, hfresh, rfl⟩ := step_accept hstep
    exact live_accept_iff h hlive hfresh
  | maybeConnectTcp endpoint conn =>
    obtain ⟨hfresh, hconnect⟩ := step_maybeConnectTcp hstep
    exact live_maybeConnectTcp_iff h hlive hfresh hconnect
  | streamEnd fd =>
    obtain ⟨sock, endpoint, hready, rfl⟩ := step_streamEnd hstep
    exact ⟨fun _ => trivial, fun _ => live_streamEnd h hlive hready⟩
  | hangUp fd =>
    obtain ⟨handler, sock, hready, hsocket, hhang⟩ := step_hangUp hstep
    exact live_hangUp_iff h hlive hready hsocket hhang
  | connectEndpoint peer addr opened =>
    refine ⟨fun _ => trivial, fun _ => ?_⟩
    obtain ⟨hfresh, hconnect⟩ := step_connectEndpoint hstep
    obtain rfl | ⟨o, -, rfl, -, rfl⟩ := connectEndpoint_cases hconnect
    · exact hlive
    · exact hlive.register rfl rfl rfl _ _ (hfresh.2 o.fd (by simp [Opened.fds])).1
  | shutdownEndpoint peer =>
    cases hstep
    obtain ⟨conns, shut, heq, -⟩ := s.shutdownEndpoints_spec [peer]
    have hsame : s.shutdownEndpoint peer = { s with conns, shut } := heq
    rw [hsame]
    exact ⟨fun _ => trivial, fun _ => hlive⟩

end Calls

/-! ## Runs -/

theorem live_of_reaches {queue : EventPoll SocketHandler} {s : Network} (hqueue : OtherEvents queue)
    (h : Machine.Reaches step InStep (new queue) s) : Owned s ∧ s.Live := by
  refine h.invariant (I := fun s => Owned s ∧ s.Live) ⟨owned_new hqueue, live_of_empty rfl⟩ ?_
  rintro s op s' r ⟨howned, hlive⟩ hin hstep
  exact ⟨howned.step hstep, (live_step_iff howned hlive hstep).mpr hin⟩

/-- **The map holds only live connections** in every run in which the system takes every handler of
an entry and nothing hangs up while it is in the map: every entry has the read handler of its
connection, and what `maybe_connect_tcp` gives has not ended, and is read or new. A call that is
not such leaves an entry without its handler, or one that has ended. -/
theorem tcp_connections_live_iff {queue : EventPoll SocketHandler} {s : Network}
    (hqueue : OtherEvents queue) (h : Machine.Reaches step InStep (new queue) s) :
    s.Live ∧
    (∀ endpoint conn stream, (s.maybeConnectTcp endpoint conn).2 = some stream →
      stream.file ∉ s.ended ∧ (s.Serves endpoint stream ∨ stream.file = s.files)) ∧
    ∀ op s' r, s.step op = some (s', r) → (s'.Live ↔ s.InStep op) := by
  obtain ⟨howned, hlive⟩ := live_of_reaches hqueue h
  refine ⟨hlive, fun endpoint conn stream hgiven => ?_, fun op s' r => live_step_iff howned hlive⟩
  rcases hconnect : s.maybeConnectTcp endpoint conn with ⟨s', given⟩
  rw [hconnect] at hgiven
  obtain ⟨stream', hlookup, -, rfl⟩ | ⟨-, -, -, rfl⟩ | ⟨fd, clone, added, -, -, -, rfl⟩ :=
    maybeConnectTcp_cases hconnect
  · cases hgiven
    obtain ⟨hserves, hended⟩ := hlive endpoint stream hlookup
    exact ⟨hended, Or.inl hserves⟩
  · cases hgiven
  · cases hgiven
    exact ⟨fun hended => absurd (howned.ended_lt _ hended) (lt_irrefl _), Or.inr rfl⟩

/-! ## A connection that is refused -/

/-- A connection to an endpoint that is then refused, and reported as a hang-up. -/
def refusedOps : List Op := [.maybeConnectTcp sampleAddr (some ⟨3, some 4, true⟩), .hangUp 3]

/-- A connection that is accepted, and then closed by the other side. -/
def closedOps : List Op :=
  [.openListenSocket .tcp 51820 [] ⟨some ⟨3, 4, true⟩, none⟩,
    .accept 4 ⟨sampleAddr, true, ⟨5, some 6, true⟩⟩, .streamEnd 5]

/-- After the end of its stream an endpoint gets a new connection. -/
theorem tcp_connections_live_sample :
    ∃ s stream, (Machine.run step (new .new) closedOps).map Prod.fst = some s ∧
      (s.maybeConnectTcp sampleAddr (some ⟨7, some 8, true⟩)).2 = some stream ∧
      stream.file ∉ s.ended ∧ s.ended ≠ [] := by
  have hrun : (Machine.run step (new .new) closedOps).map (fun q =>
      ((q.1.maybeConnectTcp sampleAddr (some ⟨7, some 8, true⟩)).2, decide (q.1.ended ≠ []))) =
      some (some (Socket.mk 8 2), true) := by decide
  obtain ⟨⟨s, rs⟩, hrun, heq⟩ := Option.map_eq_some_iff.mp hrun
  obtain ⟨hgiven, hended⟩ := Prod.mk.inj heq
  have hreaches : Machine.Reaches step InStep (new .new) s := by
    refine Machine.reaches_of_run_of_forall hrun fun op hop s => ?_
    simp only [closedOps, List.mem_cons, List.not_mem_nil, or_false] at hop
    obtain rfl | rfl | rfl := hop
    · trivial
    · exact fun _ _ => rfl
    · trivial
  refine ⟨s, Socket.mk 8 2, by rw [hrun]; rfl, hgiven, ?_, of_decide_eq_true hended⟩
  exact ((tcp_connections_live_iff (fun fd e he => (by cases he)) hreaches).2.1 _ _ _ hgiven).1

/-- **A refused connection stays in the map**: its handler is gone, and it is given again. -/
theorem refused_connection_stays :
    ¬ ∀ s, Machine.Reaches step (fun _ _ => True) (new .new) s →
      (∀ endpoint stream, s.tcpConnections.lookup endpoint = some stream →
        s.Serves endpoint stream) ∧
      ∀ endpoint conn stream, (s.maybeConnectTcp endpoint conn).2 = some stream →
        stream.file ∉ s.ended := by
  intro hclaim
  have hrun : (Machine.run step (new .new) refusedOps).map (fun q =>
      ((q.1.maybeConnectTcp sampleAddr (some ⟨5, some 6, true⟩)).2, q.1.ended)) =
      some (some (Socket.mk 4 0), [0]) := by decide
  obtain ⟨⟨s, rs⟩, hrun, heq⟩ := Option.map_eq_some_iff.mp hrun
  obtain ⟨hgiven, hended⟩ := Prod.mk.inj heq
  refine (hclaim s (Machine.reaches_of_run hrun)).2 _ _ _ hgiven ?_
  rw [hended]
  exact List.mem_singleton_self 0

end NekoLink.Device.Network
