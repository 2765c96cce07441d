import NekoLink.Device.Network

/-!
# Opening the listen sockets again

`open_listen_socket` clears the events of the sockets that it closes and registers handlers for
those that it opens. It stores one descriptor of a socket and registers the handler under the other.

* `opens_openTcp`, `matches_openUdp_iff`: when the registry matches the sockets just opened.
* `opens_cleanly_iff`: a call does what it should exactly when there was nothing to close.
* `reopening_leaves_handlers`: the handlers of the sockets before, and an index out of range.
-/

namespace NekoLink.Device.Network

/-- Each call of `clear_event_by_fd` finds the event of its socket. -/
def Hits : List Socket → EventPoll SocketHandler → Prop
  | [], _ => True
  | sock :: socks, q => ∃ q' e sock', q.clearEventByFd sock.fd = some (q', some e) ∧
      e.handler.socket = some sock' ∧ sock'.file = sock.file ∧ Hits socks q'

/-- **The registry matches the open sockets**: the handlers of sockets are those of the sockets in
`udp4`, `udp6` and `tcp_listener`, and each of these has its own. -/
structure Matches (s : Network) : Prop where
  registered : ∀ fd sock, s.owner fd = some sock → ∃ stored ∈ s.listening, stored.file = sock.file
  handled : ∀ stored ∈ s.listening, ∃ fd handler sock, s.ready fd = some handler ∧
    handler.socket = some sock ∧ sock.file = stored.file
  connections : s.tcpConnections = ∅

/-- No handler owns the file of the socket, and no other descriptor of it is open. -/
def Gone (s : Network) (sock : Socket) : Prop :=
  (∀ fd sock', s.owner fd = some sock' → sock'.file ≠ sock.file) ∧
    ∀ sock' ∈ s.stored, sock'.file ≠ sock.file

/-- What `open_listen_socket` should do. -/
def OpensCleanly (s : Network) (mode : TransportMode) (port : UInt16) (peers : List PeerRef)
    (opening : Opening) : Prop :=
  Hits s.listening s.queue ∧ ∃ s', s.openListenSocket mode port peers opening = some s' ∧
    s'.Matches ∧ ∀ sock ∈ s.listening, s'.Gone sock

/-- The descriptors that the system gives are not in use, once the sockets are closed. -/
def CanOpen (s : Network) (mode : TransportMode) (peers : List PeerRef) (opening : Opening) : Prop :=
  ∀ s', s.closeSockets peers = some s' → s'.Fresh (opening.fds mode)

/-- There is nothing to close. -/
structure Bare (s : Network) : Prop where
  listening : s.listening = []
  owner : ∀ fd, s.owner fd = none

/-- The system takes the handlers of the sockets that are opened. -/
def Taken (opening : Opening) (port : UInt16) : TransportMode → Prop
  | .tcp => port ≠ 0 → ∀ o ∈ opening.tcp, o.added = true
  | .udp | .rawIp => ∀ o ∈ opening.udp, o.1.added = true ∧ o.2.added = true

/-! ## The sockets just opened -/

/-- Sockets are opened, with these files, and a handler is registered for the duplicate of each. -/
structure Opens (s s' : Network) (news : List (Opened × ℕ)) : Prop where
  listening : ∀ stored, stored ∈ s'.listening ↔ ∃ n ∈ news, stored = ⟨n.1.fd, n.2⟩
  owner : ∀ fd sock, s'.owner fd = some sock →
    s.owner fd = some sock ∨ ∃ n ∈ news, fd = n.1.clone ∧ sock = ⟨n.1.clone, n.2⟩
  kept : ∀ fd sock, s.owner fd = some sock → s'.owner fd = some sock
  event : ∀ n ∈ news, ∃ handler, s'.queue.get n.1.clone = some ⟨handler, n.1.added⟩ ∧
    handler.socket = some ⟨n.1.clone, n.2⟩
  new : ∀ n ∈ news, s.files ≤ n.2
  distinct : ∀ n ∈ news, ∀ n' ∈ news, n.2 = n'.2 → n = n'

section Opening

variable {s s' : Network} {peers : List PeerRef} {o o4 o6 : Opened}

theorem listening_eq_nil :
    s.listening = [] ↔
      s.udp4 = none ∧ s.udp6 = none ∧ s.tcpListener = none ∧ s.tcpConnections = ∅ := by
  have hentries : s.tcpConnections.entries = [] ↔ s.tcpConnections = ∅ :=
    ⟨fun h => AList.ext h, fun h => by rw [h]; rfl⟩
  rw [listening, List.append_eq_nil_iff, List.append_eq_nil_iff, List.append_eq_nil_iff,
    Option.toList_eq_nil_iff, Option.toList_eq_nil_iff, Option.toList_eq_nil_iff,
    List.map_eq_nil_iff, hentries, and_assoc, and_assoc]

/-- Without sockets there should be no handlers of sockets. -/
theorem matches_iff_of_listening (h : s.listening = []) :
    s.Matches ↔ ∀ fd, s.owner fd = none := by
  constructor
  · intro hmatches fd
    refine Option.eq_none_iff_forall_not_mem.mpr fun sock hsock => ?_
    obtain ⟨stored, hmem, -⟩ := hmatches.registered fd sock hsock
    rw [h] at hmem
    exact absurd hmem List.not_mem_nil
  · intro hnone
    refine ⟨fun fd sock hsock => ?_, fun stored hmem => ?_, (listening_eq_nil.mp h).2.2.2⟩
    · rw [hnone] at hsock
      cases hsock
    · rw [h] at hmem
      exact absurd hmem List.not_mem_nil

theorem not_matches_of_owner (h : s.listening = []) {fd : Fd} {sock : Socket}
    (hsock : s.owner fd = some sock) : ¬ s.Matches := by
  intro hmatches
  rw [(matches_iff_of_listening h).mp hmatches fd] at hsock
  cases hsock

/-- The registry matches the sockets exactly when nothing else was registered. -/
theorem Opens.matches_iff (hs : Owned s) {news : List (Opened × ℕ)} (h : s.Opens s' news)
    (hconnections : s'.tcpConnections = ∅) :
    s'.Matches ↔ (∀ fd, s.owner fd = none) ∧ ∀ n ∈ news, n.1.added = true := by
  constructor
  · intro hmatches
    refine ⟨fun fd => Option.eq_none_iff_forall_not_mem.mpr fun sock hsock => ?_, fun n hn => ?_⟩
    · obtain ⟨stored, hmem, hfile⟩ := hmatches.registered fd sock (h.kept fd sock hsock)
      obtain ⟨n, hn, rfl⟩ := (h.listening stored).mp hmem
      have hnew := h.new n hn
      have hold := hs.owner_lt fd sock hsock
      dsimp only at hfile
      omega
    · obtain ⟨fd, handler, sock, hready, hsocket, hfile⟩ :=
        hmatches.handled _ ((h.listening _).mpr ⟨n, hn, rfl⟩)
      obtain ⟨hget, howner⟩ := owner_of_ready hready
      have hnew := h.new n hn
      obtain hold | ⟨n', hn', rfl, rfl⟩ := h.owner fd sock (howner.trans hsocket)
      · have hlt := hs.owner_lt fd sock hold
        dsimp only at hfile
        omega
      · obtain rfl := h.distinct n' hn' n hn hfile
        obtain ⟨handler', hevent, -⟩ := h.event n' hn
        exact congrArg Event.added (Option.some.inj (hevent.symm.trans hget))
  · rintro ⟨hnone, hadded⟩
    refine ⟨fun fd sock hsock => ?_, fun stored hmem => ?_, hconnections⟩
    · obtain hold | ⟨n, hn, -, rfl⟩ := h.owner fd sock hsock
      · rw [hnone] at hold
        cases hold
      · exact ⟨_, (h.listening _).mpr ⟨n, hn, rfl⟩, rfl⟩
    · obtain ⟨n, hn, rfl⟩ := (h.listening stored).mp hmem
      obtain ⟨handler, hevent, hsocket⟩ := h.event n hn
      refine ⟨n.1.clone, handler, _, ?_, hsocket, rfl⟩
      rw [ready, hevent, Option.bind_some, if_pos (hadded n hn)]

theorem owner_of_free {fd : Fd} (h : s.Free fd) : s.owner fd = none := by
  rw [owner, h.1, Option.bind_none]

/-- The listener is opened. -/
theorem opens_openTcp (h : s.listening = []) (hfree : s.Free o.clone) :
    s.Opens (s.openTcp (some o)) [(o, s.files)] := by
  obtain ⟨h4, h6, -, hconnections⟩ := listening_eq_nil.mp h
  have howner : (s.openTcp (some o)).owner =
      Function.update s.owner o.clone (some ⟨o.clone, s.files⟩) := owner_register ..
  refine ⟨fun stored => ?_, fun fd sock hsock => ?_, fun fd sock hsock => ?_, fun n hn => ?_,
    fun n hn => ?_, fun n hn n' hn' _ => ?_⟩
  · have hlistening : (s.openTcp (some o)).listening = [⟨o.fd, s.files⟩] := by
      simp [openTcp, registerTcpListenerHandler, register, listening, h4, h6, hconnections]
    simp [hlistening]
  · rw [howner] at hsock
    by_cases hfd : fd = o.clone
    · subst hfd
      rw [Function.update_self] at hsock
      exact Or.inr ⟨_, List.mem_singleton_self _, rfl, (Option.some.inj hsock).symm⟩
    · rw [Function.update_of_ne hfd] at hsock
      exact Or.inl hsock
  · rw [howner, Function.update_of_ne]
    · exact hsock
    · rintro rfl
      rw [owner_of_free hfree] at hsock
      cases hsock
  · obtain rfl := List.mem_singleton.mp hn
    refine ⟨.tcpListener ⟨o.clone, s.files⟩, ?_, rfl⟩
    rw [openTcp, registerTcpListenerHandler, register, EventPoll.get_newEvent, Function.update_self]
  · obtain rfl := List.mem_singleton.mp hn
    exact le_rfl
  · rw [List.mem_singleton.mp hn, List.mem_singleton.mp hn']

/-- What is shut down afterwards makes no difference. -/
theorem Opens.shutdownEndpoints {news : List (Opened × ℕ)} (h : s.Opens s' news)
    (peers : List PeerRef) : s.Opens (s'.shutdownEndpoints peers) news := by
  obtain ⟨conns, shut, heq, -⟩ := s'.shutdownEndpoints_spec peers
  rw [heq]
  exact ⟨h.listening, h.owner, h.kept, h.event, h.new, h.distinct⟩

/-- Both sockets are opened. -/
theorem opens_openUdp (h : s.listening = []) (hfree4 : s.Free o4.clone) (hfree6 : s.Free o6.clone)
    (hne : o4.clone ≠ o6.clone) (h4 : o4.added = true) (h6 : o6.added = true) :
    s.Opens (s.openUdp peers (some (o4, o6))) [(o4, s.files), (o6, s.files + 1)] := by
  obtain ⟨-, -, htcp, hconnections⟩ := listening_eq_nil.mp h
  simp only [openUdp, h4, h6, Bool.not_true, Bool.false_eq_true, if_false]
  refine Opens.shutdownEndpoints ?_ peers
  generalize ht : ({ (Network.registerUdpHandler _ _ true) with
    udp4 := some ⟨o4.fd, s.files⟩
    udp6 := some ⟨o6.fd, s.files + 1⟩ } : Network) = t
  have hget : t.queue.get = Function.update
      (Function.update s.queue.get o4.clone (some ⟨.udp ⟨o4.clone, s.files⟩, true⟩)) o6.clone
      (some ⟨.udp ⟨o6.clone, s.files + 1⟩, true⟩) := by
    rw [← ht, registerUdpHandler, register, EventPoll.get_newEvent, registerUdpHandler, register,
      EventPoll.get_newEvent]
  have hlistening : t.listening = [⟨o4.fd, s.files⟩, ⟨o6.fd, s.files + 1⟩] := by
    simp [← ht, listening, registerUdpHandler, register, htcp, hconnections]
  have hown4 : t.owner o4.clone = some ⟨o4.clone, s.files⟩ := by
    rw [owner, hget, Function.update_of_ne hne, Function.update_self]
    rfl
  have hown6 : t.owner o6.clone = some ⟨o6.clone, s.files + 1⟩ := by
    rw [owner, hget, Function.update_self]
    rfl
  have hown : ∀ fd, fd ≠ o4.clone → fd ≠ o6.clone → t.owner fd = s.owner fd := by
    intro fd hfd4 hfd6
    rw [owner, hget, Function.update_of_ne hfd6, Function.update_of_ne hfd4, owner]
  refine ⟨fun stored => by simp [hlistening], fun fd sock hsock => ?_, fun fd sock hsock => ?_, ?_,
    by simp, by simp⟩
  · by_cases hfd4 : fd = o4.clone
    · rw [hfd4, hown4] at hsock
      exact Or.inr ⟨_, List.mem_cons_self, hfd4, (Option.some.inj hsock).symm⟩
    · by_cases hfd6 : fd = o6.clone
      · rw [hfd6, hown6] at hsock
        exact Or.inr ⟨(o6, s.files + 1), by simp, hfd6, (Option.some.inj hsock).symm⟩
      · exact Or.inl ((hown fd hfd4 hfd6).symm.trans hsock)
  · rw [hown]
    · exact hsock
    · rintro rfl
      rw [owner_of_free hfree4] at hsock
      cases hsock
    · rintro rfl
      rw [owner_of_free hfree6] at hsock
      cases hsock
  · simp only [List.forall_mem_cons, List.not_mem_nil, false_implies, implies_true, and_true]
    refine ⟨⟨.udp ⟨o4.clone, s.files⟩, ?_, rfl⟩, .udp ⟨o6.clone, s.files + 1⟩, ?_, rfl⟩
    · rw [hget, Function.update_of_ne hne, Function.update_self, h4]
    · rw [hget, Function.update_self, h6]

/-- A handler that is not taken stays, and its socket is not kept. -/
theorem matches_openUdp_iff (hs : Owned s) (h : s.listening = []) (hfree4 : s.Free o4.clone)
    (hfree6 : s.Free o6.clone) (hne : o4.clone ≠ o6.clone) :
    (s.openUdp peers (some (o4, o6))).Matches ↔
      (∀ fd, s.owner fd = none) ∧ o4.added = true ∧ o6.added = true := by
  rcases h4 : o4.added with _ | _
  · have heq : s.openUdp peers (some (o4, o6)) =
        { s with files := s.files + 2 }.registerUdpHandler ⟨o4.clone, s.files⟩ false := by
      simp [openUdp, h4]
    have hown : (s.openUdp peers (some (o4, o6))).owner o4.clone = some ⟨o4.clone, s.files⟩ := by
      rw [heq, registerUdpHandler, owner_register, Function.update_self]
      rfl
    exact iff_of_false (not_matches_of_owner (by rw [heq]; exact h) hown) (by simp)
  · rcases h6 : o6.added with _ | _
    · have heq : s.openUdp peers (some (o4, o6)) =
          ({ s with files := s.files + 2 }.registerUdpHandler ⟨o4.clone, s.files⟩
            true).registerUdpHandler ⟨o6.clone, s.files + 1⟩ false := by
        simp [openUdp, h4, h6]
      have hown : (s.openUdp peers (some (o4, o6))).owner o6.clone =
          some ⟨o6.clone, s.files + 1⟩ := by
        rw [heq, registerUdpHandler, owner_register, Function.update_self]
        rfl
      exact iff_of_false (not_matches_of_owner (by rw [heq]; exact h) hown) (by simp)
    · have hopens : Opens s (s.openUdp peers (some (o4, o6))) _ :=
        opens_openUdp h hfree4 hfree6 hne h4 h6
      rw [hopens.matches_iff hs]
      · simp [h4, h6]
      · obtain ⟨-, -, -, hconnections⟩ := listening_eq_nil.mp h
        simp only [openUdp, h4, h6, Bool.not_true, Bool.false_eq_true, if_false]
        rw [tcpConnections_shutdownEndpoints]
        exact hconnections

/-- **When the registry matches the sockets** that are opened when there were none. -/
theorem matches_openSockets_iff (hs : Owned s) (h : s.listening = []) {mode : TransportMode}
    {port : UInt16} {opening : Opening} (hfresh : s.Fresh (opening.fds mode)) :
    (s.openSockets mode port peers opening).Matches ↔
      (∀ fd, s.owner fd = none) ∧ Taken opening port mode := by
  cases mode with
  | tcp =>
    rw [openSockets]
    split_ifs with hport
    · rw [matches_iff_of_listening h]
      exact ⟨fun hnone => ⟨hnone, fun hne => absurd hport hne⟩, And.left⟩
    · rcases htcp : opening.tcp with _ | o
      · rw [openTcp, matches_iff_of_listening h]
        refine ⟨fun hnone => ⟨hnone, fun _ o ho => ?_⟩, And.left⟩
        rw [htcp] at ho
        cases ho
      · have hfree : s.Free o.clone := hfresh.2 _ (by simp [Opening.fds, htcp, Opened.fds])
        obtain ⟨-, -, -, hconnections⟩ := listening_eq_nil.mp h
        rw [(opens_openTcp h hfree).matches_iff hs hconnections]
        simp [Taken, htcp, hport]
  | udp | rawIp =>
    rw [openSockets]
    rcases hudp : opening.udp with _ | ⟨o4, o6⟩
    · rw [openUdp, matches_iff_of_listening h]
      refine ⟨fun hnone => ⟨hnone, fun o ho => ?_⟩, And.left⟩
      rw [hudp] at ho
      cases ho
    · have hfds : s.Fresh (o4.fds ++ o6.fds) := by simpa [Opening.fds, hudp] using hfresh
      have hne : o4.clone ≠ o6.clone := by
        have hnodup := hfds.1
        simp [Opened.fds] at hnodup
        tauto
      rw [matches_openUdp_iff hs h (hfds.2 _ (by simp [Opened.fds]))
        (hfds.2 _ (by simp [Opened.fds])) hne]
      simp [Taken, hudp]

/-- No event is found for a socket that is closed, so there was none. -/
theorem listening_eq_nil_of_hits (hs : Owned s) (h : Hits s.listening s.queue) :
    s.listening = [] := by
  rcases hlist : s.listening with _ | ⟨sock, socks⟩
  · rfl
  · rw [hlist] at h
    obtain ⟨q, e, -, hclear, -⟩ := h
    have hmem : sock ∈ s.stored := by
      rw [stored, hlist]
      exact List.mem_cons_self
    have hnone := (EventPoll.get_clearEventByFd hclear).2
    rw [hs.apart sock hmem] at hnone
    cases hnone

/-- With nothing to close only the peers' connections are shut down. -/
theorem closeSockets_of_listening (h : s.listening = []) (peers : List PeerRef) :
    s.closeSockets peers = some (s.shutdownEndpoints peers) := by
  obtain ⟨h4, h6, htcp, hconnections⟩ := listening_eq_nil.mp h
  rw [closeSockets, h, clearEvents, Option.map_some]
  obtain ⟨queue, udp4, udp6, tcpListener, tcpConnections, conns, files, remotes, shut, ended⟩ := s
  cases h4
  cases h6
  cases htcp
  cases hconnections
  rfl

end Opening

/-! ## Runs -/

/-- **A call of `open_listen_socket` is clean** exactly when there was nothing to close, and the
system takes the handlers: in every state reached, every call of `clear_event_by_fd` finds the event
of its socket, and afterwards the registry matches the open sockets and the former ones are gone,
exactly when there were no sockets and no handlers of sockets before. -/
theorem opens_cleanly_iff {queue : EventPoll SocketHandler} {s : Network} {mode : TransportMode}
    {port : UInt16} {peers : List PeerRef} {opening : Opening} (hqueue : OtherEvents queue)
    (h : Machine.Reaches step (fun _ _ => True) (new queue) s)
    (hopen : s.CanOpen mode peers opening) :
    s.OpensCleanly mode port peers opening ↔ s.Bare ∧ Taken opening port mode := by
  have hs := owned_of_reaches hqueue h
  -- what the call does when there is nothing to close
  have hcall : s.listening = [] → ∃ s₁ : Network, s₁.Owned ∧ s₁.listening = [] ∧ s₁.owner = s.owner ∧
      s₁.Fresh (opening.fds mode) ∧ s.openListenSocket mode port peers opening =
        some (s₁.openSockets mode port peers opening) := by
    intro hlistening
    have hclose := closeSockets_of_listening hlistening peers
    have hfresh := hopen _ hclose
    obtain ⟨conns, shut, heq, -⟩ := s.shutdownEndpoints_spec peers
    refine ⟨s.shutdownEndpoints peers, hs.shutdownEndpoints peers, ?_, ?_, hfresh, ?_⟩
    · rw [heq]
      exact hlistening
    · rw [heq]
      rfl
    · rw [openListenSocket, hclose, Option.bind_some, if_pos hfresh]
  constructor
  · rintro ⟨hhits, s', hstep, hmatches, -⟩
    have hlistening := listening_eq_nil_of_hits hs hhits
    obtain ⟨s₁, hs₁, hlistening₁, howner, hfresh, heq⟩ := hcall hlistening
    obtain rfl := Option.some.inj (heq.symm.trans hstep)
    obtain ⟨hnone, htaken⟩ := (matches_openSockets_iff hs₁ hlistening₁ hfresh).mp hmatches
    rw [howner] at hnone
    exact ⟨⟨hlistening, hnone⟩, htaken⟩
  · rintro ⟨⟨hlistening, hnone⟩, htaken⟩
    obtain ⟨s₁, hs₁, hlistening₁, howner, hfresh, heq⟩ := hcall hlistening
    rw [← howner] at hnone
    rw [OpensCleanly, hlistening]
    exact ⟨trivial, _, heq, (matches_openSockets_iff hs₁ hlistening₁ hfresh).mpr ⟨hnone, htaken⟩,
      fun sock hmem => absurd hmem List.not_mem_nil⟩

/-! ## Opening again -/

/-- The UDP sockets, with the descriptors of their duplicates. -/
def sampleOpening (clone4 clone6 : Fd) : Opening := ⟨none, some (⟨3, clone4, true⟩, ⟨4, clone6, true⟩)⟩

/-- The first opening is clean. -/
theorem opens_cleanly_sample : (new .new).OpensCleanly .udp 0 [] (sampleOpening 5 6) := by
  have hopen : (new .new).CanOpen .udp [] (sampleOpening 5 6) := by
    intro s' hclose
    cases hclose
    decide
  refine (opens_cleanly_iff (fun fd e he => (by cases he)) .refl hopen).mpr
    ⟨⟨rfl, fun fd => rfl⟩, fun o ho => ?_⟩
  cases ho
  exact ⟨rfl, rfl⟩

/-- **The second opening leaves the handlers of the first**: the descriptors that are cleared have no
events, and the handlers stay under the duplicates. In TCP mode, when a connection has been accepted
last, the index of its duplicate is out of range. -/
theorem reopening_leaves_handlers :
    (∃ s, Machine.Reaches step (fun _ _ => True) (new .new) s ∧
      s.CanOpen .udp [] (sampleOpening 7 8) ∧
      ¬ s.OpensCleanly .udp 51820 [] (sampleOpening 7 8)) ∧
    ∃ s, Machine.Reaches step (fun _ _ => True) (new .new) s ∧ s.closeSockets [] = none := by
  constructor
  · have hrun : (Machine.run step (new .new) [.openListenSocket .udp 0 [] (sampleOpening 5 6)]).map
        (fun q => ((q.1.closeSockets []).map fun s => decide (s.Fresh [3, 7, 4, 8]),
          (q.1.openListenSocket .udp 51820 [] (sampleOpening 7 8)).map fun s =>
            (s.owner 5, s.listening))) =
        some (some true, some (some ⟨5, 0⟩, [⟨3, 2⟩, ⟨4, 3⟩])) := by decide
    obtain ⟨⟨s, rs⟩, hrun, heq⟩ := Option.map_eq_some_iff.mp hrun
    obtain ⟨hfresh, hopen⟩ := Prod.mk.inj heq
    refine ⟨s, Machine.reaches_of_run hrun, fun s' hclose => ?_, ?_⟩
    · dsimp only at hfresh
      rw [hclose] at hfresh
      exact of_decide_eq_true (Option.some.inj hfresh)
    · rintro ⟨-, s', hstep, hmatches, -⟩
      dsimp only at hopen
      rw [hstep] at hopen
      obtain ⟨howner, hlistening⟩ := Prod.mk.inj (Option.some.inj hopen)
      obtain ⟨stored, hmem, hfile⟩ := hmatches.registered 5 _ howner
      rw [hlistening] at hmem
      simp only [List.mem_cons, List.not_mem_nil, or_false] at hmem
      obtain rfl | rfl := hmem <;> cases hfile
  · have hrun : (Machine.run step (new .new)
        [.openListenSocket .tcp 51820 [] ⟨some ⟨3, 4, true⟩, none⟩,
          .accept 4 ⟨sampleAddr, true, ⟨5, some 6, true⟩⟩]).map
        (fun q => (q.1.closeSockets []).isNone) = some true := by decide
    obtain ⟨⟨s, rs⟩, hrun, hnone⟩ := Option.map_eq_some_iff.mp hrun
    exact ⟨s, Machine.reaches_of_run hrun, Option.isNone_iff_eq_none.mp hnone⟩

end NekoLink.Device.Network
