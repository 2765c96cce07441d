import NekoLink.Device.Server
import NekoLink.Noise.Channel

/-!
# Connected sockets and their peers

The handler of a connected socket keeps its peer, whatever the tables say, until the socket is shut
down and the event loop drops it. A peer that is removed has its socket shut down; `clear_peers` only
empties the tables.

* `Network.Connected`: a handler that can be called has the socket that its peer has now, or one that
  has been shut down.
* `removed_peers_lose_sockets`: the peers of such handlers, in the runs that clear the peers only when
  they have no sockets.
* `cleared_peer_receives`: what else `clear_peers` leaves.
-/

namespace NekoLink.Device

open Wire Noise Routing

namespace Network

/-- The file has been shut down, or is that of the peer's connected socket. -/
def OpenOrShut (s : Network) (i : PeerRef) (file : ℕ) : Prop :=
  file ∈ s.shut ∨ ∃ conn, s.conns.lookup i = some conn ∧ conn.file = file

/-- **The connected sockets and their handlers.** -/
structure Connected (s : Network) : Prop where
  open_or_shut : ∀ fd sock i peerAddr, s.ready fd = some (.conn sock i peerAddr) →
    s.OpenOrShut i sock.file
  served : ∀ i conn, s.conns.lookup i = some conn → conn.file ∉ s.shut ∧
    ∃ fd sock peerAddr, s.ready fd = some (.conn sock i peerAddr) ∧ sock.file = conn.file
  injective : ∀ i j conn conn', s.conns.lookup i = some conn → s.conns.lookup j = some conn' →
    conn.file = conn'.file → i = j
  conns_lt : ∀ i conn, s.conns.lookup i = some conn → conn.file < s.files
  shut_lt : ∀ file ∈ s.shut, file < s.files

/-- What is shut down stays so, and a connected socket that goes is shut down. -/
theorem OpenOrShut.shutdownEndpoints {s : Network} {i : PeerRef} {file : ℕ}
    (h : s.OpenOrShut i file) (peers : List PeerRef) :
    (s.shutdownEndpoints peers).OpenOrShut i file := by
  obtain ⟨conns, shut, heq, hconns, hshut⟩ := s.shutdownEndpoints_spec peers
  rw [heq]
  obtain hold | ⟨conn, hi, hfile⟩ := h
  · exact Or.inl ((hshut _).mpr (Or.inl hold))
  · by_cases hmem : i ∈ peers
    · exact Or.inl ((hshut _).mpr (Or.inr ⟨i, hmem, conn, hi, hfile⟩))
    · exact Or.inr ⟨conn, (hconns i conn).mpr ⟨hmem, hi⟩, hfile⟩

namespace Connected

variable {s s' : Network} {peers : List PeerRef} {fd : Fd} {sock : Socket} {i : PeerRef}
  {op : Op} {r : Option Socket}

/-- The connected sockets stay, with their handlers. -/
theorem keep (h : Connected s) (hconns : s'.conns = s.conns) (hshut : s'.shut = s.shut)
    (hfiles : s.files ≤ s'.files)
    (hready : ∀ fd sock i peerAddr, s'.ready fd = some (.conn sock i peerAddr) ↔
      s.ready fd = some (.conn sock i peerAddr)) : Connected s' := by
  refine ⟨fun fd sock i peerAddr hfd => ?_, fun i conn hi => ?_, ?_, fun i conn hi => ?_,
    fun file hfile => ?_⟩
  · rw [OpenOrShut, hconns, hshut]
    exact h.open_or_shut fd sock i peerAddr ((hready fd sock i peerAddr).mp hfd)
  · rw [hconns] at hi
    obtain ⟨hopen, fd, sock, peerAddr, hfd, hfile⟩ := h.served i conn hi
    rw [hshut]
    exact ⟨hopen, fd, sock, peerAddr, (hready fd sock i peerAddr).mpr hfd, hfile⟩
  · rw [hconns]
    exact h.injective
  · rw [hconns] at hi
    exact lt_of_lt_of_le (h.conns_lt i conn hi) hfiles
  · rw [hshut] at hfile
    exact lt_of_lt_of_le (h.shut_lt file hfile) hfiles

/-- The connected sockets stay, and another handler is registered for a free descriptor. -/
theorem register (h : Connected s) (hqueue : s'.queue = s.queue) (hconns : s'.conns = s.conns)
    (hshut : s'.shut = s.shut) (hfiles : s.files ≤ s'.files) (handler : SocketHandler)
    (sock : Socket) (added : Bool) (hfree : s.queue.get sock.fd = none)
    (hhandler : ∀ sock i peerAddr, handler ≠ .conn sock i peerAddr) :
    Connected (s'.register handler sock added) := by
  refine h.keep hconns hshut hfiles fun fd sock' i peerAddr => ?_
  have hsame : s'.ready = s.ready := by
    funext fd
    rw [ready, hqueue, ready]
  rw [ready_register, hsame]
  by_cases hfd : fd = sock.fd
  · subst hfd
    rw [Function.update_self]
    constructor
    · intro hready
      split_ifs at hready
      exact absurd (Option.some.inj hready) (hhandler sock' i peerAddr)
    · intro hready
      rw [(owner_of_ready hready).1] at hfree
      cases hfree
  · rw [Function.update_of_ne hfd]

theorem shutdownEndpoints (h : Connected s) (peers : List PeerRef) :
    Connected (s.shutdownEndpoints peers) := by
  have hopen := fun i file (h : s.OpenOrShut i file) => h.shutdownEndpoints peers
  obtain ⟨conns, shut, heq, hconns, hshut⟩ := s.shutdownEndpoints_spec peers
  rw [heq] at hopen ⊢
  refine ⟨fun fd sock i peerAddr hready => ?_, fun i conn hi => ?_,
    fun i j conn conn' hi hj => ?_, fun i conn hi => ?_, fun file hfile => ?_⟩
  · exact hopen i _ (h.open_or_shut fd sock i peerAddr hready)
  · obtain ⟨hmem, hi⟩ := (hconns i conn).mp hi
    obtain ⟨hopen, hserved⟩ := h.served i conn hi
    refine ⟨fun hshutdown => ?_, hserved⟩
    obtain hold | ⟨j, hj, conn', hlookup, hfile⟩ := (hshut _).mp hshutdown
    · exact hopen hold
    · obtain rfl := h.injective j i conn' conn hlookup hi hfile
      exact hmem hj
  · exact h.injective i j conn conn' ((hconns i conn).mp hi).2 ((hconns j conn').mp hj).2
  · exact h.conns_lt i conn ((hconns i conn).mp hi).2
  · obtain hold | ⟨j, -, conn, hlookup, rfl⟩ := (hshut _).mp hfile
    · exact h.shut_lt file hold
    · exact h.conns_lt j conn hlookup

/-- The sockets that are closed have no events. -/
theorem closeSockets (h : Connected s) (howned : Owned s)
    (hclose : s.closeSockets peers = some s') : Connected s' := by
  have hready := howned.ready_closeSockets hclose
  obtain ⟨queue, -, rfl⟩ := Option.map_eq_some_iff.mp hclose
  rw [ready_shutdownEndpoints] at hready
  refine shutdownEndpoints ?_ peers
  refine h.keep rfl rfl le_rfl fun fd sock i peerAddr => ?_
  rw [hready]

theorem openSockets (h : Connected s) {mode : TransportMode} {port : UInt16} {opening : Opening}
    (hfresh : s.Fresh (opening.fds mode)) :
    Connected (s.openSockets mode port peers opening) := by
  cases mode with
  | tcp =>
    rw [Network.openSockets]
    split_ifs
    · exact h
    · rcases htcp : opening.tcp with _ | o
      · exact h
      · have hclone : s.Free o.clone := hfresh.2 _ (by simp [Opening.fds, htcp, Opened.fds])
        exact h.register (by rfl) (by rfl) (by rfl) (Nat.le_succ _)
          (.tcpListener ⟨o.clone, s.files⟩) ⟨o.clone, s.files⟩ o.added hclone.1
          (fun _ _ _ h => by cases h)
  | udp | rawIp =>
    rw [Network.openSockets]
    rcases hudp : opening.udp with _ | ⟨o4, o6⟩
    · exact h
    · have hfds : s.Fresh (o4.fds ++ o6.fds) := by simpa [Opening.fds, hudp] using hfresh
      have hne : o6.clone ≠ o4.clone := by
        intro heq
        have h4 : o4.clone ∈ o4.fds := by simp [Opened.fds]
        have h6 : o4.clone ∈ o6.fds := by simp [Opened.fds, heq]
        exact List.disjoint_of_nodup_append hfds.1 h4 h6
      have hopened : Connected { s with files := s.files + 2 } :=
        h.keep rfl rfl (Nat.le_add_right _ _) fun _ _ _ _ => Iff.rfl
      have hwith4 := hopened.register rfl rfl rfl le_rfl (.udp ⟨o4.clone, s.files⟩)
        ⟨o4.clone, s.files⟩ o4.added (hfds.2 _ (by simp [Opened.fds])).1 (fun _ _ _ h => by cases h)
      have hwith6 := hwith4.register rfl rfl rfl le_rfl (.udp ⟨o6.clone, s.files + 1⟩)
        ⟨o6.clone, s.files + 1⟩ o6.added (by
          rw [Network.register, EventPoll.get_newEvent, Function.update_of_ne hne]
          exact (hfds.2 _ (by simp [Opened.fds])).1) (fun _ _ _ h => by cases h)
      rw [openUdp]
      dsimp only
      split_ifs
      · exact hwith4
      · exact hwith6
      · refine shutdownEndpoints ?_ peers
        exact hwith6.keep rfl rfl le_rfl fun _ _ _ _ => Iff.rfl

theorem openListenSocket (h : Connected s) (howned : Owned s) {mode : TransportMode}
    {port : UInt16} {opening : Opening}
    (hopen : s.openListenSocket mode port peers opening = some s') : Connected s' := by
  obtain ⟨s₁, hclose, hopen⟩ := Option.bind_eq_some_iff.mp hopen
  split_ifs at hopen with hfresh
  cases hopen
  exact (h.closeSockets howned hclose).openSockets hfresh

theorem accept (h : Connected s) {a : Accepted} (hfresh : s.Fresh a.conn.fds) :
    Connected (s.accept a) := by
  rw [Network.accept]
  split_ifs
  · exact h
  · exact h.register (by rfl) (by rfl) (by rfl) (Nat.le_succ _)
      (.tcpStream ⟨a.conn.fd, s.files⟩ a.addr) ⟨a.conn.fd, s.files⟩ a.conn.added
      (hfresh.2 _ List.mem_cons_self).1 (fun _ _ _ h => by cases h)

theorem maybeConnectTcp (h : Connected s) {endpoint : SocketAddr} {conn : Option Connecting}
    {r : Option Socket} (hfresh : s.Fresh (conn.toList.flatMap Connecting.fds))
    (hconnect : s.maybeConnectTcp endpoint conn = (s', r)) : Connected s' := by
  obtain ⟨stream, -, rfl, -⟩ | ⟨-, -, rfl, -⟩ | ⟨fd, clone, added, -, rfl, rfl, -⟩ :=
    maybeConnectTcp_cases hconnect
  · exact h
  · exact h
  · exact h.register (by rfl) (by rfl) (by rfl) (Nat.le_succ _)
      (.tcpStream ⟨fd, s.files⟩ endpoint) ⟨fd, s.files⟩ added
      (hfresh.2 fd (by simp [Connecting.fds])).1 (fun _ _ _ h => by cases h)

/-- A new connected socket has a file of its own. -/
theorem connectEndpoint (h : Connected s) {addr : SocketAddr} {o : Option Opened}
    (hfresh : s.Fresh (o.toList.flatMap Opened.fds))
    (hconnect : s.connectEndpoint i addr o = some s') : Connected s' := by
  obtain rfl | ⟨o, hnone, rfl, hadded, rfl⟩ := connectEndpoint_cases hconnect
  · exact h
  · have hfree : s.queue.get o.fd = none := (hfresh.2 o.fd (by simp [Opened.fds])).1
    refine ⟨fun fd sock j peerAddr hready => ?_, fun j conn hj => ?_,
      fun j k conn conn' hj hk hfile => ?_, fun j conn hj => ?_, fun file hfile => ?_⟩
    · rw [registerConnHandler, ready_register] at hready
      by_cases hfd : fd = o.fd
      · subst hfd
        rw [Function.update_self, if_pos hadded] at hready
        cases hready
        exact Or.inr ⟨_, AList.lookup_insert _, rfl⟩
      · rw [Function.update_of_ne hfd] at hready
        obtain hshut | ⟨conn, hj, hfile⟩ := h.open_or_shut fd sock j peerAddr hready
        · exact Or.inl hshut
        · refine Or.inr ⟨conn, lookup_insert_iff.mpr (Or.inr ⟨?_, hj⟩), hfile⟩
          rintro rfl
          rw [hnone] at hj
          cases hj
    · obtain ⟨rfl, rfl⟩ | ⟨-, hold⟩ := lookup_insert_iff.mp hj
      · refine ⟨fun hshut => absurd (h.shut_lt _ hshut) (lt_irrefl _), o.fd, ⟨o.fd, s.files⟩,
          addr.ip, ?_, rfl⟩
        rw [registerConnHandler, ready_register, Function.update_self, if_pos hadded]
      · obtain ⟨hopen, fd, sock, peerAddr, hready, hfile⟩ := h.served j conn hold
        refine ⟨hopen, fd, sock, peerAddr, ?_, hfile⟩
        rw [registerConnHandler, ready_register, Function.update_of_ne]
        · exact hready
        · rintro rfl
          rw [(owner_of_ready hready).1] at hfree
          cases hfree
    · obtain ⟨rfl, rfl⟩ | ⟨-, hj'⟩ := lookup_insert_iff.mp hj
      · obtain ⟨rfl, -⟩ | ⟨-, hk'⟩ := lookup_insert_iff.mp hk
        · rfl
        · exact absurd hfile (h.conns_lt k conn' hk').ne'
      · obtain ⟨rfl, rfl⟩ | ⟨-, hk'⟩ := lookup_insert_iff.mp hk
        · exact absurd hfile (h.conns_lt j conn hj').ne
        · exact h.injective j k conn conn' hj' hk' hfile
    · obtain ⟨-, rfl⟩ | ⟨-, hold⟩ := lookup_insert_iff.mp hj
      · exact Nat.lt_succ_self _
      · exact (h.conns_lt j conn hold).trans (Nat.lt_succ_self _)
    · exact (h.shut_lt file hfile).trans (Nat.lt_succ_self _)

/-- A handler goes whose socket has been shut down, if it is a connected socket. -/
theorem hangUp (h : Connected s) (howned : Owned s) {handler : SocketHandler}
    (hready : s.ready fd = some handler) (hsocket : handler.socket = some sock)
    (hshut : ∀ sock i peerAddr, handler = .conn sock i peerAddr → sock.file ∈ s.shut)
    (hhang : s.hangUp sock = some s') : Connected s' := by
  obtain ⟨queue, hget, rfl⟩ := hangUp_spec hhang
  have hfd : sock.fd = fd := howned.fd_eq fd sock ((owner_of_ready hready).2.trans hsocket)
  refine ⟨fun fd' sock' i peerAddr hready' => ?_, fun i conn hi => ?_, h.injective, h.conns_lt,
    h.shut_lt⟩
  · exact h.open_or_shut fd' sock' i peerAddr (ready_of_hangUp hhang hready')
  · obtain ⟨hopen, fd', sock', peerAddr, hready', hfile⟩ := h.served i conn hi
    refine ⟨hopen, fd', sock', peerAddr, ?_, hfile⟩
    rw [ready, hget, Function.update_of_ne]
    · exact hready'
    · rintro rfl
      rw [hfd] at hready'
      have hgone := hshut sock' i peerAddr (Option.some.inj (hready.symm.trans hready'))
      rw [hfile] at hgone
      exact hopen hgone

theorem step (h : Connected s) (howned : Owned s) (hop : s.HangsUpShut op)
    (hstep : s.step op = some (s', r)) : Connected s' := by
  cases op with
  | openListenSocket mode port peers opening =>
    exact h.openListenSocket howned (step_openListenSocket hstep)
  | accept fd a =>
    obtain ⟨-, hfresh, rfl⟩ := step_accept hstep
    exact h.accept hfresh
  | maybeConnectTcp endpoint conn =>
    obtain ⟨hfresh, hconnect⟩ := step_maybeConnectTcp hstep
    exact h.maybeConnectTcp hfresh hconnect
  | streamEnd fd =>
    obtain ⟨sock, endpoint, -, rfl⟩ := step_streamEnd hstep
    exact h.keep rfl rfl le_rfl fun _ _ _ _ => Iff.rfl
  | hangUp fd =>
    obtain ⟨handler, sock, hready, hsocket, hhang⟩ := step_hangUp hstep
    refine h.hangUp howned hready hsocket (fun sock' i peerAddr heq => ?_) hhang
    exact hop sock' i peerAddr (heq ▸ hready)
  | connectEndpoint peer addr opened =>
    obtain ⟨hfresh, hconnect⟩ := step_connectEndpoint hstep
    exact h.connectEndpoint hfresh hconnect
  | shutdownEndpoint peer =>
    cases hstep
    exact h.shutdownEndpoints [peer]

end Connected

theorem connected_new {queue : EventPoll SocketHandler} (h : OtherEvents queue) :
    Connected (new queue) := by
  refine ⟨fun fd sock i peerAddr hready => ?_, fun i conn hi => ?_, fun i j conn conn' hi => ?_,
    fun i conn hi => ?_, fun file hfile => ?_⟩
  · cases h fd _ (owner_of_ready hready).1
  · cases hi
  · cases hi
  · cases hi
  · exact absurd hfile List.not_mem_nil

/-! ## Which peers have sockets -/

section Conns

variable {s s' : Network} {peers : List PeerRef} {i : PeerRef} {conn : Socket} {op : Op}
  {r : Option Socket}

theorem lookup_shutdownEndpoints (h : (s.shutdownEndpoints peers).conns.lookup i = some conn) :
    i ∉ peers ∧ s.conns.lookup i = some conn := by
  obtain ⟨conns, shut, heq, hconns, -⟩ := s.shutdownEndpoints_spec peers
  rw [heq] at h
  exact (hconns i conn).mp h

theorem lookup_shutdownEndpoint {peer : PeerRef}
    (h : (s.shutdownEndpoint peer).conns.lookup i = some conn) :
    i ≠ peer ∧ s.conns.lookup i = some conn := by
  have hall : (s.shutdownEndpoints [peer]).conns.lookup i = some conn := h
  obtain ⟨hne, hold⟩ := lookup_shutdownEndpoints hall
  exact ⟨fun heq => hne (List.mem_singleton.mpr heq), hold⟩

/-- Connected sockets go only by being shut down, and none is new. -/
structure Shuts (s s' : Network) : Prop where
  conns : ∀ i conn, s'.conns.lookup i = some conn → s.conns.lookup i = some conn
  openOrShut : ∀ i file, s.OpenOrShut i file → s'.OpenOrShut i file

theorem Shuts.of_eq (hconns : s'.conns = s.conns) (hshut : s'.shut = s.shut) : Shuts s s' := by
  refine ⟨fun i conn hi => ?_, fun i file h => ?_⟩
  · rw [hconns] at hi
    exact hi
  · rw [OpenOrShut, hconns, hshut]
    exact h

theorem Shuts.trans {s'' : Network} (h : Shuts s s') (h' : Shuts s' s'') : Shuts s s'' :=
  ⟨fun i conn hi => h.conns i conn (h'.conns i conn hi),
    fun i file hold => h'.openOrShut i file (h.openOrShut i file hold)⟩

theorem shuts_shutdownEndpoints (s : Network) (peers : List PeerRef) :
    Shuts s (s.shutdownEndpoints peers) :=
  ⟨fun _ _ hi => (lookup_shutdownEndpoints hi).2, fun _ _ h => h.shutdownEndpoints peers⟩

theorem shuts_openSockets (s : Network) (mode : TransportMode) (port : UInt16)
    (peers : List PeerRef) (opening : Opening) :
    Shuts s (s.openSockets mode port peers opening) := by
  cases mode with
  | tcp =>
    rw [openSockets]
    split_ifs
    · exact .of_eq rfl rfl
    · rcases opening.tcp with _ | o
      · exact .of_eq rfl rfl
      · exact .of_eq rfl rfl
  | udp | rawIp =>
    rw [openSockets]
    rcases opening.udp with _ | ⟨o4, o6⟩
    · exact .of_eq rfl rfl
    · rw [openUdp]
      dsimp only
      split_ifs
      · exact .of_eq rfl rfl
      · exact .of_eq rfl rfl
      · refine Shuts.trans ?_ (shuts_shutdownEndpoints _ peers)
        exact .of_eq rfl rfl

/-- **What a call does to the connected sockets.** -/
theorem step_conns (h : s.step op = some (s', r)) :
    Shuts s s' ∨ ∃ i addr opened, ∃ o : Opened, op = .connectEndpoint i addr opened ∧
      s.conns.lookup i = none ∧ s' = { s with
        conns := s.conns.insert i ⟨o.clone, s.files⟩
        files := s.files + 1
        remotes := s.remotes.insert s.files addr }.registerConnHandler i ⟨o.fd, s.files⟩ addr.ip
          o.added := by
  cases op with
  | openListenSocket mode port peers opening =>
    obtain ⟨s₂, hclose, hopen⟩ := Option.bind_eq_some_iff.mp (step_openListenSocket h)
    obtain ⟨queue, -, rfl⟩ := Option.map_eq_some_iff.mp hclose
    split_ifs at hopen
    cases hopen
    refine Or.inl (Shuts.trans ?_ (shuts_openSockets ..))
    refine Shuts.trans ?_ (shuts_shutdownEndpoints _ peers)
    exact .of_eq rfl rfl
  | accept fd a =>
    obtain ⟨-, -, rfl⟩ := step_accept h
    rw [accept]
    split_ifs
    · exact Or.inl (.of_eq rfl rfl)
    · exact Or.inl (.of_eq rfl rfl)
  | maybeConnectTcp endpoint conn' =>
    refine Or.inl ?_
    obtain ⟨stream, -, rfl, -⟩ | ⟨-, -, rfl, -⟩ | ⟨fd, clone, added, -, -, rfl, -⟩ :=
      maybeConnectTcp_cases (step_maybeConnectTcp h).2
    · exact .of_eq rfl rfl
    · exact .of_eq rfl rfl
    · exact .of_eq rfl rfl
  | streamEnd fd =>
    obtain ⟨sock, endpoint, -, rfl⟩ := step_streamEnd h
    exact Or.inl (.of_eq rfl rfl)
  | hangUp fd =>
    obtain ⟨handler, sock, -, -, hhang⟩ := step_hangUp h
    obtain ⟨queue, -, rfl⟩ := hangUp_spec hhang
    exact Or.inl (.of_eq rfl rfl)
  | connectEndpoint peer addr opened =>
    obtain rfl | ⟨o, hnone, -, -, rfl⟩ := connectEndpoint_cases (step_connectEndpoint h).2
    · exact Or.inl (.of_eq rfl rfl)
    · exact Or.inr ⟨peer, addr, opened, o, rfl, hnone, rfl⟩
  | shutdownEndpoint peer =>
    cases h
    exact Or.inl (shuts_shutdownEndpoints s [peer])

/-- Only `connect_endpoint` gives a socket to a peer, which is connected to the address. -/
theorem lookup_step (h : s.step op = some (s', r)) (hi : s'.conns.lookup i = some conn) :
    s.conns.lookup i = some conn ∨
      ∃ addr opened, op = .connectEndpoint i addr opened ∧
        s'.remotes.lookup conn.file = some addr := by
  obtain hshuts | ⟨j, addr, opened, o, rfl, -, rfl⟩ := step_conns h
  · exact Or.inl (hshuts.conns i conn hi)
  · obtain ⟨rfl, rfl⟩ | ⟨-, hold⟩ := lookup_insert_iff.mp hi
    · exact Or.inr ⟨addr, opened, rfl, AList.lookup_insert _⟩
    · exact Or.inl hold

theorem OpenOrShut.step {file : ℕ} (hopen : s.OpenOrShut i file)
    (h : s.step op = some (s', r)) : s'.OpenOrShut i file := by
  obtain hshuts | ⟨j, addr, opened, o, rfl, hnone, rfl⟩ := step_conns h
  · exact hshuts.openOrShut i file hopen
  · obtain hshut | ⟨conn, hi, hfile⟩ := hopen
    · exact Or.inl hshut
    · refine Or.inr ⟨conn, lookup_insert_iff.mpr (Or.inr ⟨?_, hi⟩), hfile⟩
      rintro rfl
      rw [hnone] at hi
      cases hi

end Conns

end Network

namespace Server

variable {C : Prims} {T : Type → Type} [Table T IpNetwork IpAddr]

/-- **Every connected socket belongs to a peer of the device**, when its handler can be called, or has
been shut down. -/
def SocketsOfPeers (s : Server C T) : Prop :=
  ∀ fd sock i peerAddr, s.net.ready fd = some (.conn sock i peerAddr) →
    sock.file ∈ s.net.shut ∨ s.device.IsPeer i

/-- The peers are cleared only when none of them has a connected socket. -/
def ClearsNoSocket (s : Server C T) : Input → Prop
  | .request .clearPeers => ∀ i, s.device.IsPeer i → s.net.conns.lookup i = none
  | _ => True

/-- What holds as long as the peers are cleared only so. -/
structure Attached (s : Server C T) : Prop where
  owned : s.net.Owned
  connected : s.net.Connected
  consistent : Consistent s.device
  conns : ∀ i conn, s.net.conns.lookup i = some conn → s.device.IsPeer i
  reading : ∀ call ∈ s.reading, s.device.IsPeer call.peer

section Steps

variable {s s' : Server C T} {input : Input} {r : Report} {i : PeerRef} {conn : Socket}

theorem Attached.socketsOfPeers (h : Attached s) : s.SocketsOfPeers := by
  intro fd sock i peerAddr hready
  obtain hshut | ⟨conn, hi, -⟩ := h.connected.open_or_shut fd sock i peerAddr hready
  · exact Or.inl hshut
  · exact Or.inr (h.conns i conn hi)

theorem connected_step (hstep : s.step input = some (s', r)) (howned : s.net.Owned)
    (hconnected : s.net.Connected) : s'.net.Owned ∧ s'.net.Connected := by
  refine (step_net hstep).invariant (I := fun net => net.Owned ∧ net.Connected)
    ⟨howned, hconnected⟩ ?_
  rintro net op net' stream ⟨howned, hconnected⟩ hcalls hstep
  exact ⟨howned.step hstep, hconnected.step howned hcalls.hangsUpShut hstep⟩

/-- A connected socket is as old as the step, or the peer of a datagram has got it. -/
theorem lookup_of_step (hstep : s.step input = some (s', r))
    (hi : s'.net.conns.lookup i = some conn) :
    s.net.conns.lookup i = some conn ∨ ∃ fd envs addr segment opened packet,
      input = .datagram fd envs addr segment opened ∧
      s.device.segmentReceiver s.ipProtocol (envs 0) addr segment = some (i, packet) := by
  refine (step_net hstep).invariant (I := fun net => net.conns.lookup i = some conn →
    s.net.conns.lookup i = some conn ∨ ∃ fd envs addr segment opened packet,
      input = .datagram fd envs addr segment opened ∧
      s.device.segmentReceiver s.ipProtocol (envs 0) addr segment = some (i, packet)) Or.inl ?_ hi
  intro net op net' stream hold hcalls hstep hi
  obtain hi | ⟨addr, opened, rfl, -⟩ := Network.lookup_step hstep hi
  · exact hold hi
  · obtain ⟨fd, sock, envs, addr, segment, opened, packet, -, rfl, hreceived⟩ := hcalls
    exact Or.inr ⟨fd, envs, addr, segment, opened, packet, rfl, hreceived⟩

/-- A removed peer has no connected socket. -/
theorem lookup_removed (h : Attached s) {pubKey : Bytes 32} {net : Network}
    (hnet : net = match s.device.peers.lookup pubKey with
      | some j => s.net.shutdownEndpoint j
      | none => s.net) (hi : net.conns.lookup i = some conn) :
    (s.device.removePeer pubKey).IsPeer i := by
  rcases hpeer : s.device.peers.lookup pubKey with _ | j
  · rw [hpeer] at hnet
    subst hnet
    rw [removePeer_of_none hpeer]
    exact h.conns i conn hi
  · rw [hpeer] at hnet
    subst hnet
    obtain ⟨hne, hold⟩ := Network.lookup_shutdownEndpoint hi
    obtain ⟨p, hlock⟩ := h.consistent.alive j ⟨pubKey, hpeer⟩
    rw [removePeer_of_some hpeer hlock]
    exact (isPeer_erase h.consistent hpeer rfl).mpr
      ⟨h.conns i conn hold, hne⟩

/-- What a request leaves to a peer that it takes out. -/
theorem lookup_command (h : Attached s) {op : Op} {d : Device C T} {res : TunnResult}
    (hclears : s.ClearsNoSocket (.request op)) (hrequest : isRequest op = true)
    (hstep : s.device.step op = some (d, res)) (hi : (s.commandNet op).conns.lookup i = some conn) :
    d.IsPeer i := by
  cases op with
  | updatePeer seed pubKey remove replaceIps endpoint allowedIps keepalive presharedKey =>
    obtain ⟨d₁, hupdate, heq⟩ := Option.map_eq_some_iff.mp hstep
    cases heq
    obtain ⟨rfl, rfl⟩ | ⟨rfl, -, rfl⟩ | ⟨rfl, habsent, lfsr, idx, -, ⟨-, rfl⟩ | ⟨kp, -, rfl⟩⟩ :=
      updatePeer_cases hupdate
    · exact lookup_removed h rfl hi
    · exact h.conns i conn hi
    · exact h.conns i conn hi
    · exact (isPeer_addPeer habsent).mpr (Or.inl (h.conns i conn hi))
  | removePeer pubKey =>
    cases hstep
    exact lookup_removed h rfl hi
  | clearPeers =>
    have hnone : s.net.conns.lookup i = none := hclears i (h.conns i conn hi)
    have hsome : s.net.conns.lookup i = some conn := hi
    rw [hnone] at hsome
    cases hsome
  | setKey env privateKey =>
    obtain ⟨d₁, hset, heq⟩ := Option.map_eq_some_iff.mp hstep
    cases heq
    rw [setKey] at hset
    dsimp only at hset
    split_ifs at hset
    · cases hset
      exact h.conns i conn hi
    · obtain ⟨heap, -, rfl⟩ := Option.map_eq_some_iff.mp hset
      exact h.conns i conn hi
  | peer peer call => cases hrequest

theorem isPeer_of_received {sent : List Sent} (h : Attached s)
    (hstep : s.step input = some (s', .received i sent)) : s.device.IsPeer i := by
  have hsocket : ∀ op : Network.Op, s.socketEvent op ≠ some (s', .received i sent) := by
    intro op hevent
    cases (device_socketEvent hevent).2
  cases input with
  | request op =>
    rw [step] at hstep
    split_ifs at hstep
    obtain ⟨s₁, -, heq⟩ := Option.map_eq_some_iff.mp hstep
    cases heq
  | listenPort port opening =>
    rw [step] at hstep
    split_ifs at hstep
    exact absurd hstep (hsocket _)
  | datagram fd envs addr segment opened =>
    rw [step] at hstep
    split at hstep
    · obtain ⟨d, -, hreceived, -⟩ := datagram_cases hstep
      obtain ⟨packet, hreceived⟩ := hreceived i sent rfl
      exact isPeer_of_segmentReceiver h.consistent hreceived
    · cases hstep
  | connCall fd =>
    rw [step] at hstep
    split at hstep
    · split_ifs at hstep
      cases hstep
    · cases hstep
  | connPacket n envs src =>
    obtain ⟨call, hcall, hstep⟩ := Option.bind_eq_some_iff.mp hstep
    obtain ⟨⟨d, sent'⟩, -, heq⟩ := Option.map_eq_some_iff.mp hstep
    cases heq
    exact h.reading call (List.mem_of_getElem? hcall)
  | connReturn n => cases hstep
  | accept fd accepted => exact absurd hstep (hsocket _)
  | streamPacket fd envs packet conns =>
    rw [step] at hstep
    split at hstep
    · split_ifs at hstep
      obtain ⟨d, sent', net, -, -, -, -, hreceived⟩ := streamPacket_cases hstep
      obtain ⟨packet, hreceived⟩ := hreceived i sent rfl
      exact isPeer_of_streamReceiver h.consistent hreceived
    · cases hstep
  | streamEnd fd => exact absurd hstep (hsocket _)
  | hangUp fd =>
    rw [step] at hstep
    split at hstep
    · split_ifs at hstep
      exact absurd hstep (hsocket _)
    · exact absurd hstep (hsocket _)
  | timer i env =>
    rw [step] at hstep
    split_ifs at hstep
    obtain ⟨s₁, -, heq⟩ := Option.map_eq_some_iff.mp hstep
    cases heq
  | resetCount now => cases hstep
  | tun env src conn =>
    obtain ⟨d, -, -, ⟨-, heq⟩ | ⟨j, net, route, packet, -, -, -, heq⟩⟩ := tun_cases hstep
    · cases heq
    · cases heq

variable [LawfulTable T IpNetwork IpAddr]

/-- What a step keeps. -/
theorem Attached.step (h : Attached s) (hclears : s.ClearsNoSocket input)
    (hstep : s.step input = some (s', r)) : Attached s' := by
  obtain ⟨howned, hconnected⟩ := connected_step hstep h.owned h.connected
  have hconsistent := consistent_of_step hstep h.consistent
  obtain ⟨op, res, rfl, hrequest, hreading, hcall, heq⟩ | ⟨-, hhandled⟩ := step_device hstep
  · refine ⟨howned, hconnected, hconsistent, fun i conn hi => ?_, fun call hmem => ?_⟩
    · rw [heq] at hi
      exact lookup_command h hclears hrequest hcall hi
    · rw [heq] at hmem
      have hmem : call ∈ s.reading := hmem
      rw [hreading] at hmem
      exact absurd hmem List.not_mem_nil
  · refine ⟨howned, hconnected, hconsistent, fun i conn hi => ?_, fun call hmem => ?_⟩
    · rw [hhandled.touches.isPeer_iff]
      obtain hold | ⟨fd, envs, addr, segment, opened, packet, -, hreceived⟩ :=
        lookup_of_step hstep hi
      · exact h.conns i conn hold
      · exact isPeer_of_segmentReceiver h.consistent hreceived
    · rw [hhandled.touches.isPeer_iff]
      obtain hold | ⟨fd, hready, hopen⟩ := hhandled.reading call hmem
      · exact h.reading call hold
      · exact (h.socketsOfPeers fd _ _ _ hready).resolve_left hopen

/-- **Exactly the steps that clear no socket** keep the sockets with their peers. -/
theorem socketsOfPeers_step_iff (h : Attached s) (hstep : s.step input = some (s', r)) :
    s'.SocketsOfPeers ↔ s.ClearsNoSocket input := by
  refine ⟨fun hsockets => ?_, fun hclears => (h.step hclears hstep).socketsOfPeers⟩
  cases input with
  | request op =>
    cases op with
    | clearPeers =>
      rintro i -
      rcases hlookup : s.net.conns.lookup i with _ | conn
      · rfl
      · obtain ⟨op, res, heq, -, -, hcall, hs'⟩ | ⟨hnot, -⟩ := step_device hstep
        · cases heq
          obtain ⟨hopen, fd, sock, peerAddr, hready, hfile⟩ := h.connected.served i conn hlookup
          have hcleared : s.device.clearPeers = s'.device :=
            congrArg Prod.fst (Option.some.inj hcall)
          rw [SocketsOfPeers, hs', ← hcleared] at hsockets
          obtain hshut | ⟨pubKey, hpeer⟩ := hsockets fd sock i peerAddr hready
          · rw [← hfile] at hopen
            exact absurd hshut hopen
          · cases hpeer
        · exact absurd rfl (hnot _)
    | updatePeer | removePeer | setKey | peer => trivial
  | listenPort | datagram | connCall | connPacket | connReturn | accept | streamPacket | streamEnd
  | hangUp | timer | resetCount | tun => trivial

omit [LawfulTable T IpNetwork IpAddr] in
/-- A peer that is taken out does not come back. -/
theorem not_isPeer_step (hlt : i < s.device.heap.length) (hnot : ¬ s.device.IsPeer i)
    (hstep : s.step input = some (s', r)) :
    i < s'.device.heap.length ∧ ¬ s'.device.IsPeer i := by
  obtain ⟨hle, hpeer⟩ := isPeer_of_step hstep
  exact ⟨lt_of_lt_of_le hlt hle, fun hi => hnot (hpeer i hlt hi)⟩

end Steps

/-! ## Runs -/

section Runs

variable [LawfulTable T IpNetwork IpAddr] {queue : EventPoll SocketHandler} {seed mask : UInt32}
  {hseed : Is24Bit seed} {hmask : Is24Bit mask} {transportMode : TransportMode}
  {ipProtocol : Option UInt8} {useConnectedSocket : Bool} {s : Server C T}

theorem attached_of_reaches (hqueue : Network.OtherEvents queue)
    (h : Machine.Reaches step ClearsNoSocket
      (new queue (.new seed mask hseed hmask) transportMode ipProtocol useConnectedSocket) s) :
    Attached s := by
  refine h.invariant ?_ fun s input s' r h hclears hstep => h.step hclears hstep
  refine ⟨Network.owned_new hqueue, Network.connected_new hqueue, consistent_new transportMode,
    fun i conn hi => ?_, fun call hcall => ?_⟩
  · cases hi
  · exact absurd hcall List.not_mem_nil

/-- **Removed peers lose their sockets** in every run that clears the peers only when none of them
has a connected socket: a handler that can be called has a peer of the device or a socket that has
been shut down, what a peer is given comes while it is a peer, and a peer that was taken out is
given nothing more. A request that clears the peers otherwise leaves a handler behind. -/
theorem removed_peers_lose_sockets (hqueue : Network.OtherEvents queue)
    (h : Machine.Reaches step ClearsNoSocket
      (new queue (.new seed mask hseed hmask) transportMode ipProtocol useConnectedSocket) s) :
    s.SocketsOfPeers ∧
    (∀ input s' i sent, s.step input = some (s', .received i sent) → s.device.IsPeer i) ∧
    (∀ i, i < s.device.heap.length → ¬ s.device.IsPeer i →
      ∀ s', Machine.Reaches step ClearsNoSocket s s' →
        ∀ input s'' sent, s'.step input ≠ some (s'', .received i sent)) ∧
    ∀ input s' r, s.step input = some (s', r) → (s'.SocketsOfPeers ↔ s.ClearsNoSocket input) := by
  have hs := attached_of_reaches hqueue h
  refine ⟨hs.socketsOfPeers, fun input s' i sent => isPeer_of_received hs,
    fun i hlt hnot s' hreaches input s'' sent hstep => ?_,
    fun input s' r => socketsOfPeers_step_iff hs⟩
  have hgone := hreaches.invariant
    (I := fun s => i < s.device.heap.length ∧ ¬ s.device.IsPeer i) ⟨hlt, hnot⟩
    fun s input s' r h _ hstep => not_isPeer_step h.1 h.2 hstep
  exact hgone.2 (isPeer_of_received (attached_of_reaches hqueue (h.trans hreaches)) hstep)

end Runs

/-! ## A peer that is cleared -/

def sampleServer : Server checksumPrims (PrefixMap IpNetwork) :=
  new .new sampleDevice.nextIndex .udp none true

/-- The tunnel at the other end, and its initiation. -/
def remoteInitiation : Tunn checksumPrims × List UInt8 :=
  match (Tunn.sampleTunn 2 1 9).formatHandshakeInitiation (Tunn.sampleEnv 5 1) 148 false with
  | (t, .writeToNetwork packet) => (t, packet)
  | (t, _) => (t, [])

/-- The device gets a key and a peer, whose initiation opens a connected socket. -/
def handshakeInputs : List Input :=
  [.listenPort 51820 ⟨none, some (⟨3, 5, true⟩, ⟨4, 6, true⟩)⟩,
    .request sampleSetKey,
    .request (sampleAdd 6 [sampleNet]),
    .datagram 5 (fun _ => Tunn.sampleEnv 6 2) homeAddr remoteInitiation.2 (some ⟨7, 8, true⟩)]

/-- A packet of the interface at the other end, which has the device's response. -/
def remoteData : List UInt8 :=
  match Machine.run step sampleServer handshakeInputs with
  | some (_, [_, _, _, .received _ [.reply response]]) =>
    match remoteInitiation.1.decapsulate (Tunn.sampleEnv 5 3) none response 148 with
    | some (t, _) =>
      match t.encapsulate (Tunn.sampleEnv 5 4) Tunn.samplePacket 148 with
      | some (_, .writeToNetwork packet) => packet
      | _ => []
    | none => []
  | _ => []

/-- What is written to the interface for a peer. -/
def toInterface : Report → Option (PeerRef × List UInt8)
  | .received i [.tunnel packet] => some (i, packet)
  | _ => none

theorem eq_of_toInterface {r : Report} {i : PeerRef} {packet : List UInt8}
    (h : toInterface r = some (i, packet)) : r = .received i [.tunnel packet] := by
  simp only [toInterface] at h
  split at h
  · cases h
    rfl
  · cases h

theorem mem_peers {d : Device checksumPrims (PrefixMap IpNetwork)} {i : PeerRef}
    (h : d.IsPeer i) : i ∈ peers d := by
  obtain ⟨pubKey, hpeer⟩ := h
  exact List.mem_map.mpr ⟨⟨pubKey, i⟩, mem_entries_iff.mpr hpeer, rfl⟩

/-- Without entries there are no peers. -/
theorem not_isPeer_of_peers {d : Device checksumPrims (PrefixMap IpNetwork)} (h : peers d = [])
    (i : PeerRef) : ¬ d.IsPeer i := fun hpeer => by
  have hmem := mem_peers hpeer
  rw [h] at hmem
  exact absurd hmem List.not_mem_nil

/-- Another peer comes, without a socket, and the first one goes. -/
def replacedInputs : List Input :=
  handshakeInputs ++ [.request (sampleAdd 8 []), .request (.removePeer (fill 32 6))]

/-- After the removal, and after a request that clears the peers then, the handler is still there,
and its socket is shut down. -/
theorem removed_peers_lose_sockets_sample :
    ∃ s s' r, Machine.Reaches step ClearsNoSocket sampleServer s ∧
      s.step (.request .clearPeers) = some (s', r) ∧
      s'.net.ready 7 = some (.conn ⟨7, 2⟩ 0 homeAddr.ip) ∧ 2 ∈ s'.net.shut := by
  have hrun : (Machine.run step sampleServer replacedInputs).bind (fun q =>
      (q.1.step (.request .clearPeers)).map fun w =>
        ((peers q.1.device).map fun i => (q.1.net.conns.lookup i).isNone, w.1.net.ready 7,
          peers w.1.device)) =
      some ([true], some (.conn ⟨7, 2⟩ 0 homeAddr.ip), []) := by decide +kernel
  obtain ⟨⟨s, rs⟩, hrun, hstep⟩ := Option.bind_eq_some_iff.mp hrun
  obtain ⟨⟨s', r⟩, hstep, heq⟩ := Option.map_eq_some_iff.mp hstep
  simp only [Prod.mk.injEq] at heq
  obtain ⟨hunconnected, hready, hpeers⟩ := heq
  have hreaches : Machine.Reaches step ClearsNoSocket sampleServer s := by
    refine Machine.reaches_of_run_of_forall hrun fun input hinput s => ?_
    simp only [replacedInputs, handshakeInputs, List.cons_append, List.nil_append, List.mem_cons,
      List.not_mem_nil, or_false] at hinput
    obtain rfl | rfl | rfl | rfl | rfl | rfl := hinput <;> trivial
  have hclears : s.ClearsNoSocket (.request .clearPeers) := by
    intro i hi
    have hmem := List.mem_map_of_mem (f := fun i => (s.net.conns.lookup i).isNone) (mem_peers hi)
    rw [hunconnected, List.mem_singleton] at hmem
    exact Option.isNone_iff_eq_none.mp hmem
  refine ⟨s, s', r, hreaches, hstep, hready, ?_⟩
  have hsockets := (removed_peers_lose_sockets (fun fd e he => (by cases he))
    (hreaches.tail hclears hstep)).1
  exact (hsockets 7 _ 0 _ hready).resolve_right (not_isPeer_of_peers hpeers 0)

/-- **A peer that is cleared still receives**: its handler can be called, its socket is open, and a
packet that comes afterwards is decrypted for it and written to the interface. -/
theorem cleared_peer_receives :
    ∃ s, Machine.Reaches step (fun _ _ => True) sampleServer s ∧ (∀ i, ¬ s.device.IsPeer i) ∧
      ¬ s.SocketsOfPeers ∧
      ∃ input s', s.step input = some (s', .received 0 [.tunnel Tunn.samplePacket]) := by
  have hrun : (Machine.run step sampleServer
      (handshakeInputs ++ [.request .clearPeers, .connCall 7])).bind (fun q =>
        (q.1.step (.connPacket 0 (fun _ => Tunn.sampleEnv 6 5) remoteData)).map fun w =>
          (toInterface w.2, q.1.net.ready 7, q.1.net.shut, peers q.1.device)) =
      some (some (0, Tunn.samplePacket), some (.conn ⟨7, 2⟩ 0 homeAddr.ip), [], []) := by
    decide +kernel
  obtain ⟨⟨s, rs⟩, hrun, hstep⟩ := Option.bind_eq_some_iff.mp hrun
  obtain ⟨⟨s', r⟩, hstep, heq⟩ := Option.map_eq_some_iff.mp hstep
  simp only [Prod.mk.injEq] at heq
  obtain ⟨htunnel, hready, hshut, hpeers⟩ := heq
  have hnot := not_isPeer_of_peers hpeers
  refine ⟨s, Machine.reaches_of_run hrun, hnot, fun hsockets => ?_,
    .connPacket 0 (fun _ => Tunn.sampleEnv 6 5) remoteData, s', ?_⟩
  · obtain hmem | hpeer := hsockets 7 _ 0 _ hready
    · rw [hshut] at hmem
      exact absurd hmem List.not_mem_nil
    · exact hnot 0 hpeer
  · rw [← eq_of_toInterface htunnel]
    exact hstep

end Server

end NekoLink.Device
