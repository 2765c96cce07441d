import NekoLink.Device.Network

/-!
# Where the sockets are connected

A file is connected to one address for good, so the handlers and the maps that have it agree on the
address.

* `Addressed`: they do, in every run.
* `Carries`: the map has the connection that a peer is heard on, as long as it is open, and no other
  that has ended.
* `Carries.step`, `Carries.spares`: exactly the calls that keep this.
-/

namespace NekoLink.Device

open Wire Noise Routing

/-- What the file of a handler is connected to. -/
def SocketHandler.ConnectedTo (remotes : HashMap ℕ SocketAddr) : SocketHandler → Prop
  | .other => True
  | .udp sock | .tcpListener sock => remotes.lookup sock.file = none
  | .tcpStream sock endpoint => remotes.lookup sock.file = some endpoint
  | .conn sock _ peerAddr => ∃ addr, remotes.lookup sock.file = some addr ∧ addr.ip = peerAddr

namespace Network

/-- The handlers that a call registers. -/
def Op.Registers : Op → SocketHandler → Prop
  | .openListenSocket .tcp _ _ _, .tcpListener _ => True
  | .openListenSocket .udp _ _ _, .udp _ | .openListenSocket .rawIp _ _ _, .udp _ => True
  | .accept .., .tcpStream .. | .maybeConnectTcp .., .tcpStream .. => True
  | .connectEndpoint i _ _, .conn _ j _ => i = j
  | _, _ => False

/-- **The handlers and the connections agree with the files.** -/
structure Addressed (s : Network) : Prop where
  handlers : ∀ fd handler, s.ready fd = some handler → handler.ConnectedTo s.remotes
  entries : ∀ endpoint stream, s.tcpConnections.lookup endpoint = some stream →
    s.remotes.lookup stream.file = some endpoint
  remotes_lt : ∀ file addr, s.remotes.lookup file = some addr → file < s.files

/-- What a call does to the addresses: it connects new files only, and what it registers or puts in
the map is connected as it says. -/
structure Grows (s s' : Network) (op : Op) : Prop where
  ready : ∀ fd handler, s'.ready fd = some handler →
    s.ready fd = some handler ∨ op.Registers handler ∧ handler.ConnectedTo s'.remotes
  remotes : ∀ file < s.files, s'.remotes.lookup file = s.remotes.lookup file
  remotes_lt : ∀ file addr, s'.remotes.lookup file = some addr → file < s'.files
  entries : ∀ endpoint stream, s'.tcpConnections.lookup endpoint = some stream →
    s.tcpConnections.lookup endpoint = some stream ∨
      s'.remotes.lookup stream.file = some endpoint
  files : s.files ≤ s'.files

section Calls

variable {s s' : Network} {peers : List PeerRef} {op : Op} {r : Option Socket} {fd : Fd}
  {handler handler' : SocketHandler} {sock : Socket} {added : Bool} {addr endpoint : SocketAddr}

theorem SocketHandler.ConnectedTo.congr {remotes remotes' : HashMap ℕ SocketAddr}
    (h : handler.ConnectedTo remotes)
    (hremotes : ∀ sock, handler.socket = some sock →
      remotes'.lookup sock.file = remotes.lookup sock.file) : handler.ConnectedTo remotes' := by
  cases handler with
  | other => trivial
  | udp sock | tcpListener sock => exact (hremotes sock rfl).trans h
  | tcpStream sock endpoint => exact (hremotes sock rfl).trans h
  | conn sock i peerAddr =>
    obtain ⟨addr, hlookup, hip⟩ := h
    exact ⟨addr, (hremotes sock rfl).trans hlookup, hip⟩

theorem Addressed.grow (h : Addressed s) (howned : Owned s) (hgrows : Grows s s' op) :
    Addressed s' := by
  refine ⟨fun fd handler hready => ?_, fun endpoint stream hlookup => ?_, hgrows.remotes_lt⟩
  · obtain hold | ⟨-, hconnected⟩ := hgrows.ready fd handler hready
    · refine SocketHandler.ConnectedTo.congr (h.handlers fd handler hold) fun sock hsock => ?_
      exact hgrows.remotes _ (howned.owner_lt fd sock ((owner_of_ready hold).2.trans hsock))
    · exact hconnected
  · obtain hold | hnew := hgrows.entries endpoint stream hlookup
    · have hmem : stream ∈ s.stored :=
        mem_stored.mpr (Or.inl (mem_listening.mpr (Or.inr (Or.inr (Or.inr ⟨endpoint, hold⟩)))))
      rw [hgrows.remotes _ (howned.stored_lt stream hmem)]
      exact h.entries endpoint stream hold
    · exact hnew

/-- A registered handler is the new one, or was there. -/
theorem ready_register_cases (h : (s.register handler sock added).ready fd = some handler') :
    s.ready fd = some handler' ∨ handler' = handler := by
  rw [ready_register] at h
  by_cases hfd : fd = sock.fd
  · subst hfd
    rw [Function.update_self] at h
    split_ifs at h
    exact Or.inr (Option.some.inj h).symm
  · rw [Function.update_of_ne hfd] at h
    exact Or.inl h

/-! ## The parts of a call -/

/-- The shutdown of endpoints changes no addresses. -/
theorem frame_shutdownEndpoints (s : Network) (peers : List PeerRef) :
    (s.shutdownEndpoints peers).remotes = s.remotes ∧
      (s.shutdownEndpoints peers).ended = s.ended ∧
      (s.shutdownEndpoints peers).files = s.files := by
  obtain ⟨conns, shut, heq, -⟩ := s.shutdownEndpoints_spec peers
  rw [heq]
  exact ⟨rfl, rfl, rfl⟩

/-- What a call that opens listen sockets does to the addresses and the handlers. -/
structure OpensFrom (s s' : Network) (op : Op) : Prop where
  remotes : s'.remotes = s.remotes
  ended : s'.ended = s.ended
  files : s.files ≤ s'.files
  ready : ∀ fd handler, s'.ready fd = some handler → s.ready fd = some handler ∨
    op.Registers handler ∧ ∀ sock, handler.socket = some sock → s.files ≤ sock.file

theorem OpensFrom.refl (s : Network) (op : Op) : OpensFrom s s op :=
  ⟨rfl, rfl, le_rfl, fun _ _ => Or.inl⟩

/-- A handler of a new file is registered. -/
theorem OpensFrom.register (h : OpensFrom s s' op) (handler : SocketHandler) (sock : Socket)
    (added : Bool) (hregisters : op.Registers handler) (hsocket : handler.socket = some sock)
    (hfile : s.files ≤ sock.file) : OpensFrom s (s'.register handler sock added) op := by
  refine ⟨h.remotes, h.ended, h.files, fun fd handler' hready => ?_⟩
  obtain hold | rfl := ready_register_cases hready
  · exact h.ready fd handler' hold
  · refine Or.inr ⟨hregisters, fun sock' hsock' => ?_⟩
    obtain rfl := Option.some.inj (hsocket.symm.trans hsock')
    exact hfile

theorem OpensFrom.shutdownEndpoints (h : OpensFrom s s' op) (peers : List PeerRef) :
    OpensFrom s (s'.shutdownEndpoints peers) op := by
  obtain ⟨hremotes, hended, hfiles⟩ := s'.frame_shutdownEndpoints peers
  refine ⟨hremotes.trans h.remotes, hended.trans h.ended, hfiles.symm ▸ h.files, ?_⟩
  rw [ready_shutdownEndpoints]
  exact h.ready

theorem opensFrom_openUdp (s : Network) (peers : List PeerRef) (o : Option (Opened × Opened))
    (hregisters : ∀ sock, op.Registers (.udp sock)) : OpensFrom s (s.openUdp peers o) op := by
  rcases o with _ | ⟨o4, o6⟩
  · exact .refl ..
  · have hopened : OpensFrom s { s with files := s.files + 2 } op :=
      ⟨rfl, rfl, Nat.le_add_right _ _, fun _ _ => Or.inl⟩
    have hwith4 := hopened.register (.udp ⟨o4.clone, s.files⟩) ⟨o4.clone, s.files⟩ o4.added
      (hregisters _) rfl le_rfl
    have hwith6 := hwith4.register (.udp ⟨o6.clone, s.files + 1⟩) ⟨o6.clone, s.files + 1⟩ o6.added
      (hregisters _) rfl (Nat.le_succ _)
    rw [openUdp]
    dsimp only
    split_ifs
    · exact hwith4
    · exact hwith6
    · refine OpensFrom.shutdownEndpoints ?_ peers
      exact ⟨hwith6.remotes, hwith6.ended, hwith6.files, hwith6.ready⟩

theorem opensFrom_openSockets (s : Network) (mode : TransportMode) (port : UInt16)
    (peers : List PeerRef) (opening : Opening) :
    OpensFrom s (s.openSockets mode port peers opening)
      (.openListenSocket mode port peers opening) := by
  cases mode with
  | tcp =>
    rw [openSockets]
    split_ifs
    · exact .refl ..
    · rcases opening.tcp with _ | o
      · exact .refl ..
      · have hopened : OpensFrom s { s with
            tcpListener := some ⟨o.fd, s.files⟩
            files := s.files + 1 } (.openListenSocket .tcp port peers opening) :=
          ⟨rfl, rfl, Nat.le_succ _, fun _ _ => Or.inl⟩
        exact hopened.register (.tcpListener ⟨o.clone, s.files⟩) ⟨o.clone, s.files⟩ o.added trivial
          rfl le_rfl
  | udp | rawIp => exact opensFrom_openUdp _ _ _ fun _ => trivial

theorem opensFrom_openListenSocket (howned : Owned s) {mode : TransportMode} {port : UInt16}
    {opening : Opening} (h : s.openListenSocket mode port peers opening = some s') :
    OpensFrom s s' (.openListenSocket mode port peers opening) := by
  obtain ⟨s₁, hclose, hopen⟩ := Option.bind_eq_some_iff.mp h
  split_ifs at hopen
  cases hopen
  have hready := howned.ready_closeSockets hclose
  obtain ⟨queue, -, rfl⟩ := Option.map_eq_some_iff.mp hclose
  obtain ⟨hremotes, hended, hfiles⟩ := frame_shutdownEndpoints { s with
    queue
    udp4 := none
    udp6 := none
    tcpListener := none
    tcpConnections := ∅ } peers
  have hopens := opensFrom_openSockets (Network.shutdownEndpoints { s with
    queue
    udp4 := none
    udp6 := none
    tcpListener := none
    tcpConnections := ∅ } peers) mode port peers opening
  refine ⟨hopens.remotes.trans hremotes, hopens.ended.trans hended, ?_, fun fd handler hnew => ?_⟩
  · exact le_trans hfiles.ge hopens.files
  · obtain hold | ⟨hregisters, hfile⟩ := hopens.ready fd handler hnew
    · rw [hready] at hold
      exact Or.inl hold
    · refine Or.inr ⟨hregisters, fun sock hsock => ?_⟩
      exact le_trans hfiles.ge (hfile sock hsock)

theorem Addressed.grows_refl (h : Addressed s) : Grows s s op :=
  ⟨fun _ _ => Or.inl, fun _ _ => rfl, h.remotes_lt, fun _ _ => Or.inl, le_rfl⟩

/-- A new file is connected, and a handler of it registered. -/
theorem Addressed.connect (h : Addressed s) {addr : SocketAddr} (handler : SocketHandler)
    (sock : Socket) (added : Bool) (hready : s'.ready = s.ready)
    (hremotes : s'.remotes = s.remotes.insert s.files addr) (hfiles : s'.files = s.files + 1)
    (hentries : ∀ endpoint stream, s'.tcpConnections.lookup endpoint = some stream →
      s.tcpConnections.lookup endpoint = some stream ∨ endpoint = addr ∧ stream.file = s.files)
    (hregisters : op.Registers handler)
    (hconnected : handler.ConnectedTo (s.remotes.insert s.files addr)) :
    Grows s (s'.register handler sock added) op := by
  have hsame : (s'.register handler sock added).remotes = s.remotes.insert s.files addr := hremotes
  refine ⟨fun fd handler' hnew => ?_, fun file hfile => ?_, fun file addr' hlookup => ?_,
    fun endpoint stream hlookup => ?_, hfiles.symm ▸ Nat.le_succ _⟩
  · obtain hold | rfl := ready_register_cases hnew
    · rw [hready] at hold
      exact Or.inl hold
    · rw [hsame]
      exact Or.inr ⟨hregisters, hconnected⟩
  · rw [hsame]
    exact AList.lookup_insert_ne hfile.ne
  · have hfiles' : (s'.register handler sock added).files = s.files + 1 := hfiles
    rw [hsame] at hlookup
    rw [hfiles']
    obtain ⟨rfl, -⟩ | ⟨-, hold⟩ := lookup_insert_iff.mp hlookup
    · exact Nat.lt_succ_self _
    · exact (h.remotes_lt file addr' hold).trans (Nat.lt_succ_self _)
  · obtain hold | ⟨rfl, hfile⟩ := hentries endpoint stream hlookup
    · exact Or.inl hold
    · rw [hsame, hfile]
      exact Or.inr (AList.lookup_insert _)

/-- **What a call does to the addresses.** -/
theorem Addressed.grows (h : Addressed s) (howned : Owned s) (hstep : s.step op = some (s', r)) :
    Grows s s' op := by
  cases op with
  | openListenSocket mode port peers opening =>
    have hopen := step_openListenSocket hstep
    have hopens := opensFrom_openListenSocket howned hopen
    -- the new files are connected to nothing
    have hnone : ∀ file, s.files ≤ file → s.remotes.lookup file = none := by
      intro file hle
      refine Option.eq_none_iff_forall_ne_some.mpr fun addr hlookup => ?_
      exact absurd (h.remotes_lt file addr hlookup) (not_lt.mpr hle)
    refine ⟨fun fd handler hready => ?_, fun file _ => by rw [hopens.remotes],
      fun file addr hlookup => ?_, fun endpoint stream hlookup => ?_, hopens.files⟩
    · obtain hold | ⟨hregisters, hfile⟩ := hopens.ready fd handler hready
      · exact Or.inl hold
      · refine Or.inr ⟨hregisters, ?_⟩
        rw [hopens.remotes]
        cases handler with
        | other => trivial
        | udp sock | tcpListener sock => exact hnone _ (hfile sock rfl)
        | tcpStream | conn => cases mode <;> cases hregisters
    · rw [hopens.remotes] at hlookup
      exact lt_of_lt_of_le (h.remotes_lt file addr hlookup) hopens.files
    · rw [tcpConnections_openListenSocket hopen] at hlookup
      cases hlookup
  | accept fd a =>
    obtain ⟨-, -, rfl⟩ := step_accept hstep
    rw [accept]
    split_ifs
    · exact h.grows_refl
    · refine h.connect (.tcpStream ⟨a.conn.fd, s.files⟩ a.addr) ⟨a.conn.fd, s.files⟩ a.conn.added
        rfl rfl rfl (fun endpoint stream hlookup => ?_) trivial (AList.lookup_insert _)
      rcases hclone : a.conn.clone with _ | clone
      · simp only [hclone] at hlookup
        exact Or.inl hlookup
      · simp only [hclone] at hlookup
        obtain ⟨rfl, rfl⟩ | ⟨-, hold⟩ := lookup_insert_iff.mp hlookup
        · exact Or.inr ⟨rfl, rfl⟩
        · exact Or.inl hold
  | maybeConnectTcp endpoint conn =>
    obtain ⟨stream, -, rfl, -⟩ | ⟨-, -, rfl, -⟩ | ⟨fd, clone, added, -, -, rfl, -⟩ :=
      maybeConnectTcp_cases (step_maybeConnectTcp hstep).2
    · exact h.grows_refl
    · exact h.grows_refl
    · refine h.connect (.tcpStream ⟨fd, s.files⟩ endpoint) ⟨fd, s.files⟩ added rfl rfl rfl
        (fun endpoint' stream hlookup => ?_) trivial (AList.lookup_insert _)
      obtain ⟨rfl, rfl⟩ | ⟨-, hold⟩ := lookup_insert_iff.mp hlookup
      · exact Or.inr ⟨rfl, rfl⟩
      · exact Or.inl hold
  | streamEnd fd =>
    obtain ⟨sock, endpoint, -, rfl⟩ := step_streamEnd hstep
    exact ⟨fun _ _ => Or.inl, fun _ _ => rfl, h.remotes_lt,
      fun endpoint stream hlookup => Or.inl (lookup_erase_iff.mp hlookup).2, le_rfl⟩
  | hangUp fd =>
    obtain ⟨handler, sock, -, -, hhang⟩ := step_hangUp hstep
    obtain ⟨queue, -, rfl⟩ := hangUp_spec hhang
    exact ⟨fun fd' handler' hready => Or.inl (ready_of_hangUp hhang hready), fun _ _ => rfl,
      h.remotes_lt, fun _ _ => Or.inl, le_rfl⟩
  | connectEndpoint peer addr opened =>
    obtain rfl | ⟨o, -, -, -, rfl⟩ := connectEndpoint_cases (step_connectEndpoint hstep).2
    · exact h.grows_refl
    · exact h.connect (.conn ⟨o.fd, s.files⟩ peer addr.ip) ⟨o.fd, s.files⟩ o.added rfl rfl rfl
        (fun _ _ => Or.inl) rfl ⟨addr, AList.lookup_insert _, rfl⟩
  | shutdownEndpoint peer =>
    cases hstep
    obtain ⟨conns, shut, heq, -⟩ := s.shutdownEndpoints_spec [peer]
    have hsame : s.shutdownEndpoint peer = { s with conns, shut } := heq
    rw [hsame]
    exact ⟨fun _ _ => Or.inl, fun _ _ => rfl, h.remotes_lt, fun _ _ => Or.inl, le_rfl⟩

end Calls

theorem addressed_new {queue : EventPoll SocketHandler} (h : OtherEvents queue) :
    Addressed (new queue) := by
  refine ⟨fun fd handler hready => ?_, fun endpoint stream hlookup => ?_,
    fun file addr hlookup => ?_⟩
  · obtain rfl : handler = .other := h fd _ (owner_of_ready hready).1
    trivial
  · cases hlookup
  · cases hlookup

/-! ## The connection of an address -/

/-- The map has the file as the connection of the address while it is open, and never one that has
ended. -/
structure Carries (s : Network) (addr : SocketAddr) (file : ℕ) : Prop where
  entry : file ∉ s.ended →
    ∃ stream, s.tcpConnections.lookup addr = some stream ∧ stream.file = file
  live : ∀ stream, s.tcpConnections.lookup addr = some stream → stream.file ∉ s.ended

/-- The call does not take the connection out of the map, nor leave one there that hangs up. -/
def Spares (s : Network) (addr : SocketAddr) (file : ℕ) : Op → Prop
  | .openListenSocket .. =>
    ∀ stream, s.tcpConnections.lookup addr = some stream → stream.file ≠ file
  | .accept _ a => a.addr = addr → a.nonblocking = true → a.conn.clone.isSome →
      ∀ stream, s.tcpConnections.lookup addr = some stream → stream.file ≠ file
  | .streamEnd fd => ∀ sock, s.ready fd = some (.tcpStream sock addr) →
      ∀ stream, s.tcpConnections.lookup addr = some stream →
        stream.file = sock.file ∨ stream.file ≠ file
  | .hangUp fd => ∀ sock, s.ready fd = some (.tcpStream sock addr) →
      ∀ stream, s.tcpConnections.lookup addr = some stream → stream.file ≠ sock.file
  | _ => True

section Carries

variable {s s' : Network} {op : Op} {r : Option Socket} {fd : Fd} {sock : Socket}
  {addr endpoint : SocketAddr} {file : ℕ}

/-- The map and the ended files stay. -/
theorem Carries.of_eq (h : s.Carries addr file) (hmap : s'.tcpConnections = s.tcpConnections)
    (hended : s'.ended = s.ended) : s'.Carries addr file := by
  constructor
  · rw [hmap, hended]
    exact h.entry
  · rw [hmap, hended]
    exact h.live

/-- Nothing is carried by the file any more, and a new connection is put in the map. -/
theorem Carries.insert (h : s.Carries addr file) (howned : Owned s) {clone : Fd}
    (hmap : s'.tcpConnections = s.tcpConnections.insert endpoint ⟨clone, s.files⟩)
    (hended : s'.ended = s.ended) (hspares : endpoint = addr →
      ∀ stream, s.tcpConnections.lookup addr = some stream → stream.file ≠ file) :
    s'.Carries addr file := by
  constructor
  · intro hopen
    rw [hended] at hopen
    obtain ⟨stream, hlookup, hfile⟩ := h.entry hopen
    rw [hmap]
    by_cases heq : addr = endpoint
    · exact absurd hfile (hspares heq.symm stream hlookup)
    · exact ⟨stream, lookup_insert_iff.mpr (Or.inr ⟨heq, hlookup⟩), hfile⟩
  · intro stream hlookup
    rw [hmap] at hlookup
    rw [hended]
    obtain ⟨-, rfl⟩ | ⟨-, hold⟩ := lookup_insert_iff.mp hlookup
    · exact fun hended => absurd (howned.ended_lt _ hended) (lt_irrefl _)
    · exact h.live stream hold

/-- A connection ends, and is taken out of the map. -/
theorem Carries.streamEnd (h : s.Carries addr file) (haddressed : Addressed s)
    (hready : s.ready fd = some (.tcpStream sock endpoint)) (hspares : endpoint = addr →
      ∀ stream, s.tcpConnections.lookup addr = some stream →
        stream.file = sock.file ∨ stream.file ≠ file) :
    (s.streamEnd sock endpoint).Carries addr file := by
  constructor
  · intro hopen
    obtain ⟨hne, hopen⟩ := not_or.mp (List.mem_cons.not.mp hopen)
    obtain ⟨stream, hlookup, hfile⟩ := h.entry hopen
    refine ⟨stream, lookup_erase_iff.mpr ⟨?_, hlookup⟩, hfile⟩
    rintro rfl
    obtain hself | hother := hspares rfl stream hlookup
    · exact hne (hfile.symm.trans hself)
    · exact hother hfile
  · intro stream hlookup hended
    obtain ⟨hne, hold⟩ := lookup_erase_iff.mp hlookup
    obtain hself | hended := List.mem_cons.mp hended
    · -- a file has one address
      have haddr := haddressed.entries addr stream hold
      rw [hself, haddressed.handlers fd _ hready] at haddr
      exact hne (Option.some.inj haddr).symm
    · exact h.live stream hold hended

/-- A connection hangs up that is not in the map. -/
theorem Carries.hangUp (h : s.Carries addr file) (haddressed : Addressed s)
    {handler : SocketHandler} (hready : s.ready fd = some handler)
    (hsocket : handler.socket = some sock)
    (hconn : ∀ sock i peerAddr, handler ≠ .conn sock i peerAddr)
    (hspares : ∀ sock, handler = .tcpStream sock addr →
      ∀ stream, s.tcpConnections.lookup addr = some stream → stream.file ≠ sock.file)
    (hstep : s.hangUp sock = some s') : s'.Carries addr file := by
  obtain ⟨⟨queue, o⟩, -, rfl⟩ := Option.map_eq_some_iff.mp hstep
  constructor
  · intro hopen
    exact h.entry fun hended => hopen (List.mem_cons_of_mem _ hended)
  · intro stream hlookup hended
    obtain hself | hended := List.mem_cons.mp hended
    · have haddr := haddressed.entries addr stream hlookup
      rw [hself] at haddr
      have hconnected := haddressed.handlers fd handler hready
      cases handler with
      | other => cases hsocket
      | udp sock' | tcpListener sock' =>
        cases hsocket
        have hnone : s.remotes.lookup sock.file = none := hconnected
        rw [hnone] at haddr
        cases haddr
      | tcpStream sock' endpoint =>
        cases hsocket
        have hendpoint : s.remotes.lookup sock.file = some endpoint := hconnected
        obtain rfl := Option.some.inj (hendpoint.symm.trans haddr)
        exact hspares sock rfl stream hlookup hself
      | conn sock' i peerAddr => exact hconn sock' i peerAddr rfl
    · exact h.live stream hlookup hended

/-- **A call that spares the connection** keeps it in the map. -/
theorem Carries.step (h : s.Carries addr file) (howned : Owned s) (haddressed : Addressed s)
    (hconn : ∀ fd sock i peerAddr, s.ready fd ≠ some (.conn sock i peerAddr))
    (hspares : s.Spares addr file op) (hstep : s.step op = some (s', r)) :
    s'.Carries addr file := by
  cases op with
  | openListenSocket mode port peers opening =>
    have hopen := step_openListenSocket hstep
    have hempty := tcpConnections_openListenSocket hopen
    constructor
    · intro hended
      rw [(opensFrom_openListenSocket howned hopen).ended] at hended
      obtain ⟨stream, hlookup, hfile⟩ := h.entry hended
      exact absurd hfile (hspares stream hlookup)
    · intro stream hlookup
      rw [hempty] at hlookup
      cases hlookup
  | accept fd a =>
    obtain ⟨-, -, rfl⟩ := step_accept hstep
    rw [accept]
    split_ifs with hblocking
    · exact h
    · have hnonblocking : a.nonblocking = true := by simpa using hblocking
      rcases hclone : a.conn.clone with _ | clone
      · exact h.of_eq rfl rfl
      · refine h.insert howned rfl rfl fun haddr => ?_
        exact hspares haddr hnonblocking (by rw [hclone]; rfl)
  | maybeConnectTcp endpoint conn =>
    obtain ⟨stream, -, rfl, -⟩ | ⟨-, -, rfl, -⟩ | ⟨fd, clone, added, hnone, -, rfl, -⟩ :=
      maybeConnectTcp_cases (step_maybeConnectTcp hstep).2
    · exact h
    · exact h
    · refine h.insert howned rfl rfl fun haddr stream hlookup => ?_
      rw [← haddr, hnone] at hlookup
      cases hlookup
  | streamEnd fd =>
    obtain ⟨sock, endpoint, hready, rfl⟩ := step_streamEnd hstep
    refine h.streamEnd haddressed hready fun haddr => ?_
    exact hspares sock (haddr ▸ hready)
  | hangUp fd =>
    obtain ⟨handler, sock, hready, hsocket, hhang⟩ := step_hangUp hstep
    refine h.hangUp haddressed hready hsocket (fun sock' i peerAddr heq => ?_)
      (fun sock' heq => hspares sock' (heq ▸ hready)) hhang
    exact hconn fd sock' i peerAddr (heq ▸ hready)
  | connectEndpoint peer addr' opened =>
    obtain rfl | ⟨o, -, -, -, rfl⟩ := connectEndpoint_cases (step_connectEndpoint hstep).2
    · exact h
    · exact h.of_eq rfl rfl
  | shutdownEndpoint peer =>
    cases hstep
    exact h.of_eq (tcpConnections_shutdownEndpoints s [peer]) (s.frame_shutdownEndpoints [peer]).2.1

/-- What still carries the connection has spared it. -/
theorem Carries.spares (h : s.Carries addr file) (h' : s'.Carries addr file) (howned : Owned s)
    (hstep : s.step op = some (s', r)) : s.Spares addr file op := by
  cases op with
  | openListenSocket mode port peers opening =>
    rintro stream hlookup rfl
    have hopen := step_openListenSocket hstep
    have hended := h.live stream hlookup
    rw [← (opensFrom_openListenSocket howned hopen).ended] at hended
    obtain ⟨stream', hlookup', -⟩ := h'.entry hended
    rw [tcpConnections_openListenSocket hopen] at hlookup'
    cases hlookup'
  | accept fd a =>
    rintro rfl hnonblocking hclone stream hlookup rfl
    obtain ⟨clone, hclone⟩ := Option.isSome_iff_exists.mp hclone
    obtain ⟨-, -, rfl⟩ := step_accept hstep
    have haccept : s.accept a = { s with
        files := s.files + 1
        remotes := s.remotes.insert s.files a.addr
        tcpConnections := s.tcpConnections.insert a.addr ⟨clone, s.files⟩
      }.registerTcpStreamHandler ⟨a.conn.fd, s.files⟩ a.addr a.conn.added := by
      rw [accept, if_neg (by simp [hnonblocking]), hclone]
    rw [haccept] at h'
    obtain ⟨stream', hlookup', hfile⟩ := h'.entry (h.live stream hlookup)
    -- the new connection has a file of its own
    have hnew : stream' = ⟨clone, s.files⟩ :=
      (Option.some.inj ((AList.lookup_insert _).symm.trans hlookup')).symm
    have hmem : stream ∈ s.stored :=
      mem_stored.mpr (Or.inl (mem_listening.mpr (Or.inr (Or.inr (Or.inr ⟨_, hlookup⟩)))))
    rw [hnew] at hfile
    exact (howned.stored_lt stream hmem).ne' hfile
  | streamEnd fd =>
    intro sock hready stream hlookup
    by_contra hlost
    obtain ⟨hother, hsame⟩ := not_or.mp hlost
    obtain rfl := not_not.mp hsame
    obtain ⟨sock', endpoint, hready', rfl⟩ := step_streamEnd hstep
    cases hready.symm.trans hready'
    obtain ⟨stream', hlookup', -⟩ := h'.entry fun hended =>
      (List.mem_cons.mp hended).elim hother (h.live stream hlookup)
    exact (lookup_erase_iff.mp hlookup').1 rfl
  | hangUp fd =>
    intro sock hready stream hlookup hsame
    obtain ⟨handler, sock', hready', hsocket, hhang⟩ := step_hangUp hstep
    cases hready.symm.trans hready'
    cases hsocket
    obtain ⟨queue, -, rfl⟩ := hangUp_spec hhang
    exact h'.live stream hlookup (hsame ▸ List.mem_cons_self)
  | maybeConnectTcp | connectEndpoint | shutdownEndpoint => trivial

end Carries

end Network

end NekoLink.Device
