import NekoLink.Device.AppliedRequests
import NekoLink.Device.ListenSockets

/-!
# Changing the listen port

`open_listen_socket` closes what is open before it opens anything, so a failure leaves the device
without its former sockets. In TCP mode failures are only logged, and the port is not stored.

* `failed_unchanged_iff`: when a call that fails in UDP mode has changed nothing.
* `allOrNothing_iff`: when a change of the port is all or nothing.
* `port_in_use`: a port in use, on a device that was listening.
-/

namespace NekoLink.Device

open Wire Noise Routing

/-- The descriptors that the system gives for a socket and for its duplicate. -/
structure OpenFds where
  tcp : Fd × Fd
  udp4 : Fd × Fd
  udp6 : Fd × Fd

/-- The UDP sockets are created and bound; the port is one that was assigned, for port 0. -/
def OpenReply.opens (r : OpenReply) (port : ℕ) : Bool :=
  r.udp4.opened && (port != 0 || r.localPort.isSome) && r.udp6.opened

/-- The sockets that are opened. -/
def OpenReply.opening (r : OpenReply) (port : ℕ) (fds : OpenFds) : Opening where
  tcp :=
    if r.tcp.created && r.tcp.bound then some ⟨fds.tcp.1, fds.tcp.2, r.tcp.registered⟩ else none
  udp :=
    if r.opens port then
      some (⟨fds.udp4.1, fds.udp4.2, r.udp4.registered⟩,
        ⟨fds.udp6.1, fds.udp6.2, r.udp6.registered⟩)
    else none

/-- The handlers of the UDP sockets are registered, for duplicates of them. -/
def OpenReply.registers (r : OpenReply) : Bool :=
  r.udp4.cloned && r.udp4.registered && r.udp6.cloned && r.udp6.registered

/-- A step fails. In TCP mode nothing is opened for port 0. -/
def OpenReply.Fails (r : OpenReply) (mode : TransportMode) (port : UInt16) : Prop :=
  match mode with
  | .tcp => port ≠ 0 ∧
      (r.tcp.created && r.tcp.bound && r.tcp.cloned && r.tcp.registered) = false
  | .udp | .rawIp => (r.opens port.toNat && r.registers) = false

/-- The sockets of a device with their handlers, and the ports that they are bound to. -/
structure Listener where
  network : Network
  ports : Listening

namespace Listener

variable (s : Listener)

/-- `open_listen_socket`, and whether it succeeds. -/
def openListenSocket (mode : TransportMode) (port : UInt16) (peers : List PeerRef) (r : OpenReply)
    (fds : OpenFds) : Option (Listener × Bool) :=
  (s.network.openListenSocket mode port peers (r.opening port.toNat fds)).bind fun network =>
    (s.ports.openListenSocket mode port.toNat { r with cleared := true }).map fun (ports, opened) =>
      (⟨network, ports⟩, opened)

/-- The line `listen_port` of `api_set`. -/
def setListenPort (mode : TransportMode) (port : UInt16) (peers : List PeerRef) (r : OpenReply)
    (fds : OpenFds) : Option (Listener × Option Status) :=
  (s.openListenSocket mode port peers r fds).map fun (s, opened) =>
    (s, if opened then none else some .eaddrinuse)

/-- The sockets, their handlers, the port and the peers' connected sockets are as before. -/
structure Unchanged (s s' : Listener) : Prop where
  listening : s'.network.listening = s.network.listening
  handlers : s'.network.queue.get = s.network.queue.get
  conns : s'.network.conns = s.network.conns
  shut : s'.network.shut = s.network.shut
  listenPort : s'.ports.listenPort = s.ports.listenPort

/-- The device is bound to the port, or to one that was assigned for port 0 in UDP mode, and stores
it. -/
structure Bound (mode : TransportMode) (port : UInt16) (s : Listener) : Prop where
  boundTo : s.ports.BoundTo mode port.toNat
  stored : mode = .tcp → s.ports.listenPort = port.toNat
  sockets : s.network.listening ≠ []

/-- **A change of the port is all or nothing.** -/
def AllOrNothing (s : Listener) (mode : TransportMode) (port : UInt16) (peers : List PeerRef)
    (r : OpenReply) (fds : OpenFds) : Prop :=
  ∃ s' status, s.setListenPort mode port peers r fds = some (s', status) ∧
    (r.Fails mode port → status = some .eaddrinuse ∧ s.Unchanged s') ∧
    (status = none → (mode = .tcp → port ≠ 0) → s'.Bound mode port)

/-- There is nothing to close. -/
def Idle (s : Listener) (peers : List PeerRef) : Prop :=
  s.network.listening = [] ∧ ∀ peer ∈ peers, s.network.conns.lookup peer = none

/-- The call gets through the closing of the sockets; and in TCP mode nothing is opened, or nothing
fails and the port is the one that is stored; in the others nothing fails, or there is nothing to
close and the sockets are not created and bound. -/
def Safe (s : Listener) (mode : TransportMode) (port : UInt16) (peers : List PeerRef)
    (r : OpenReply) : Prop :=
  s.network.closeSockets peers ≠ none ∧
    match mode with
    | .tcp => port = 0 ∨ (¬ r.Fails .tcp port ∧ s.ports.listenPort = port.toNat)
    | .udp | .rawIp => ¬ r.Fails mode port ∨ (r.opens port.toNat = false ∧ s.Idle peers)

end Listener

/-! ## The ports -/

section Ports

variable {port : ℕ} {r : OpenReply}

/-- A socket is not created and bound. -/
theorem openUdp_of_not_opens (l : Listening) (h : r.opens port = false) :
    l.openUdp port r = some (l, false) := by
  rw [OpenReply.opens] at h
  rw [Listening.openUdp]
  rcases h4 : r.udp4.opened with _ | _
  · rfl
  · rw [if_neg (by decide)]
    by_cases hzero : port = 0
    · rw [if_pos hzero]
      rcases hlocal : r.localPort with _ | p
      · rfl
      · dsimp only
        rw [if_pos]
        simpa [hzero, hlocal, h4] using h
    · rw [if_neg hzero]
      dsimp only
      rw [if_pos]
      simpa [hzero, h4] using h

/-- They are, and the handlers are to be registered. -/
theorem openUdp_of_opens (l : Listening) (h : r.opens port = true) : ∃ p, (port = 0 ∨ p = port) ∧
    l.openUdp port r =
      if !r.udp4.cloned then none
      else if !r.udp4.registered then some (l, false)
      else if !r.udp6.cloned then none
      else if !r.udp6.registered then some (l, false)
      else some ({ l with udp4 := some p, udp6 := some p, listenPort := p }, true) := by
  rw [OpenReply.opens, Bool.and_eq_true, Bool.and_eq_true] at h
  obtain ⟨⟨h4, hport⟩, h6⟩ := h
  obtain ⟨p, hassigned, hp⟩ : ∃ p, (if port = 0 then r.localPort else some port) = some p ∧
      (port = 0 ∨ p = port) := by
    by_cases hzero : port = 0
    · rw [if_pos hzero]
      obtain ⟨p, hp⟩ := Option.isSome_iff_exists.mp (by simpa [hzero] using hport)
      exact ⟨p, hp, .inl hzero⟩
    · exact ⟨port, if_neg hzero, .inr rfl⟩
  refine ⟨p, hp, ?_⟩
  rw [Listening.openUdp, hassigned]
  simp [h4, h6]

end Ports

/-! ## The sockets -/

namespace Network

variable {s closed : Network} {peers : List PeerRef}

/-- What is left when the sockets are closed. -/
theorem listening_closeSockets (h : s.closeSockets peers = some closed) :
    closed.listening = [] := by
  obtain ⟨queue, -, rfl⟩ := Option.map_eq_some_iff.mp h
  obtain ⟨conns, shut, heq, -⟩ := shutdownEndpoints_spec _ peers
  rw [heq]
  rfl

theorem queue_closeSockets (h : s.closeSockets peers = some closed) (hnil : s.listening = []) :
    closed.queue = s.queue := by
  obtain ⟨queue, hclear, rfl⟩ := Option.map_eq_some_iff.mp h
  obtain ⟨conns, shut, heq, -⟩ := shutdownEndpoints_spec _ peers
  rw [hnil] at hclear
  cases hclear
  rw [heq]

theorem lookup_closeSockets (h : s.closeSockets peers = some closed) {peer : PeerRef}
    (hpeer : peer ∈ peers) : closed.conns.lookup peer = none := by
  obtain ⟨queue, -, rfl⟩ := Option.map_eq_some_iff.mp h
  obtain ⟨conns, shut, heq, hconns, -⟩ := shutdownEndpoints_spec _ peers
  rw [heq]
  refine Option.eq_none_iff_forall_not_mem.mpr fun conn hconn => ?_
  exact ((hconns peer conn).mp hconn).1 hpeer

theorem shutdownEndpoints_of_none (h : ∀ peer ∈ peers, s.conns.lookup peer = none) :
    s.shutdownEndpoints peers = s := by
  induction peers with
  | nil => rfl
  | cons peer peers ih =>
    have hpeer : s.shutdownEndpoint peer = s := by
      rw [shutdownEndpoint, h peer List.mem_cons_self]
    rw [shutdownEndpoints, List.foldl_cons, hpeer]
    exact ih fun peer' hmem => h peer' (List.mem_cons_of_mem peer hmem)

/-- A handler that is registered stays, when one of the two is not taken. -/
theorem openUdp_of_failed (peers : List PeerRef) {o4 o6 : Opened} (hnil : s.listening = [])
    (hne : o4.clone ≠ o6.clone) (h : (o4.added && o6.added) = false) :
    (s.openUdp peers (some (o4, o6))).listening = [] ∧
      (s.openUdp peers (some (o4, o6))).queue.get o4.clone ≠ none := by
  rw [openUdp]
  dsimp only
  rcases h4 : o4.added with _ | _
  · rw [if_pos (by decide)]
    refine ⟨hnil, ?_⟩
    rw [registerUdpHandler, register, EventPoll.get_newEvent, Function.update_self]
    exact Option.some_ne_none _
  · have h6 : o6.added = false := by simpa [h4] using h
    rw [if_neg (by decide), h6, if_pos (by decide)]
    refine ⟨hnil, ?_⟩
    rw [registerUdpHandler, register, EventPoll.get_newEvent, Function.update_of_ne hne,
      registerUdpHandler, register, EventPoll.get_newEvent, Function.update_self]
    exact Option.some_ne_none _

theorem openUdp_of_added {o4 o6 : Opened} (h4 : o4.added = true) (h6 : o6.added = true) :
    (s.openUdp peers (some (o4, o6))).udp4 = some ⟨o4.fd, s.files⟩ := by
  simp only [openUdp, h4, h6, Bool.not_true, Bool.false_eq_true, if_false]
  obtain ⟨conns, shut, heq, -⟩ := shutdownEndpoints_spec _ peers
  rw [heq]

end Network

namespace Listener

variable {s : Listener} {mode : TransportMode} {port : UInt16} {peers : List PeerRef}
  {r : OpenReply} {fds : OpenFds} {closed : Network}

theorem setListenPort_eq (hclose : s.network.closeSockets peers = some closed)
    (hfresh : closed.Fresh ((r.opening port.toNat fds).fds mode)) :
    s.setListenPort mode port peers r fds =
      (s.ports.openListenSocket mode port.toNat { r with cleared := true }).map
        fun (ports, opened) =>
          (⟨closed.openSockets mode port peers (r.opening port.toNat fds), ports⟩,
            if opened then none else some .eaddrinuse) := by
  rw [setListenPort, openListenSocket, Network.openListenSocket, hclose, Option.bind_some,
    if_pos hfresh, Option.bind_some, Option.map_map]
  rfl

/-- **When a call that does not create and bind its sockets has changed nothing.** -/
theorem failed_unchanged_iff (hclose : s.network.closeSockets peers = some closed)
    (ports : Listening) (hport : ports.listenPort = s.ports.listenPort) :
    s.Unchanged ⟨closed, ports⟩ ↔ s.Idle peers := by
  constructor
  · intro h
    have hnil : s.network.listening = [] :=
      h.listening.symm.trans (Network.listening_closeSockets hclose)
    refine ⟨hnil, fun peer hpeer => ?_⟩
    rw [← h.conns]
    exact Network.lookup_closeSockets hclose hpeer
  · rintro ⟨hnil, hconns⟩
    have hsame := Network.closeSockets_of_listening hnil peers
    rw [Network.shutdownEndpoints_of_none hconns, hclose] at hsame
    obtain rfl := Option.some.inj hsame
    exact ⟨rfl, rfl, rfl, rfl, hport⟩

/-- In TCP mode. -/
theorem allOrNothing_tcp (hclose : s.network.closeSockets peers = some closed)
    (hfresh : closed.Fresh ((r.opening port.toNat fds).fds .tcp)) :
    s.AllOrNothing .tcp port peers r fds ↔
      port = 0 ∨ (¬ r.Fails .tcp port ∧ s.ports.listenPort = port.toNat) := by
  rw [AllOrNothing, setListenPort_eq hclose hfresh, Listening.openListenSocket, if_pos rfl]
  dsimp only
  by_cases hzero : port = 0
  · rw [if_pos (by rw [hzero]; rfl), Option.map_some]
    refine iff_of_true ⟨_, _, rfl, fun hfails => absurd hzero hfails.1, fun _ hport => ?_⟩
      (.inl hzero)
    exact absurd hzero (hport rfl)
  · have hnat : port.toNat ≠ 0 := fun h => hzero (UInt16.toNat_inj.mp h)
    -- a step that fails is not reported
    have hsilent : (r.tcp.created && r.tcp.bound && r.tcp.cloned && r.tcp.registered) = false →
        ¬ (port = 0 ∨ (¬ r.Fails .tcp port ∧ s.ports.listenPort = port.toNat)) := by
      rintro hfails (h | ⟨hok, -⟩)
      · exact hzero h
      · exact hok ⟨hzero, hfails⟩
    rw [if_neg hnat, Listening.openTcp]
    dsimp only
    rcases hbound : (r.tcp.created && r.tcp.bound) with _ | _
    · refine iff_of_false ?_ (hsilent (by simp [hbound]))
      rintro ⟨s', status, heq, hfails, -⟩
      cases heq
      cases (hfails ⟨hzero, by simp [hbound]⟩).1
    rcases hcloned : r.tcp.cloned with _ | _
    · refine iff_of_false ?_ (hsilent (by simp [hcloned]))
      rintro ⟨s', status, heq, -⟩
      cases heq
    rcases hregistered : r.tcp.registered with _ | _
    · refine iff_of_false ?_ (hsilent (by simp [hregistered]))
      rintro ⟨s', status, heq, hfails, -⟩
      cases heq
      cases (hfails ⟨hzero, by simp [hregistered]⟩).1
    have hok : ¬ r.Fails .tcp port := by
      rintro ⟨-, hfails⟩
      simp [hbound, hcloned, hregistered] at hfails
    have hopening : closed.openSockets .tcp port peers (r.opening port.toNat fds) =
        closed.openTcp (some ⟨fds.tcp.1, fds.tcp.2, r.tcp.registered⟩) := by
      simp [Network.openSockets, OpenReply.opening, hbound, hzero]
    constructor
    · rintro ⟨s', status, heq, -, hbinds⟩
      cases heq
      exact .inr ⟨hok, (hbinds rfl fun _ => hzero).stored rfl⟩
    · rintro (h | ⟨-, hstored⟩)
      · exact absurd h hzero
      · refine ⟨_, _, rfl, fun hfails => absurd hfails hok, fun _ _ => ⟨⟨_, rfl, .inr rfl⟩,
          fun _ => hstored, ?_⟩⟩
        dsimp only
        rw [hopening]
        refine List.ne_nil_of_mem (a := ⟨fds.tcp.1, closed.files⟩) ?_
        exact Network.mem_listening.mpr (.inr (.inr (.inl rfl)))

/-- In the other modes. -/
theorem allOrNothing_udp (hmode : mode ≠ .tcp)
    (hclose : s.network.closeSockets peers = some closed)
    (hfresh : closed.Fresh ((r.opening port.toNat fds).fds mode)) :
    s.AllOrNothing mode port peers r fds ↔
      (r.opens port.toNat && r.registers) = true ∨ (r.opens port.toNat = false ∧ s.Idle peers) := by
  have hopen : s.ports.openListenSocket mode port.toNat { r with cleared := true } =
      { s.ports with udp4 := none, udp6 := none, tcpListener := none }.openUdp port.toNat
        { r with cleared := true } := by
    cases mode with
    | tcp => exact absurd rfl hmode
    | udp | rawIp => rfl
  have hsockets : ∀ opening, closed.openSockets mode port peers opening =
      closed.openUdp peers opening.udp := by
    cases mode with
    | tcp => exact absurd rfl hmode
    | udp | rawIp => exact fun _ => rfl
  have hfails : r.Fails mode port ↔ (r.opens port.toNat && r.registers) = false := by
    cases mode with
    | tcp => exact absurd rfl hmode
    | udp | rawIp => exact Iff.rfl
  rw [AllOrNothing, setListenPort_eq hclose hfresh, hopen, hsockets, hfails]
  rcases hopens : r.opens port.toNat with _ | _
  · -- nothing is opened
    have hnone : (r.opening port.toNat fds).udp = none := by simp [OpenReply.opening, hopens]
    rw [hnone, Network.openUdp, openUdp_of_not_opens (r := { r with cleared := true }) _ hopens]
    have hiff := failed_unchanged_iff (s := s) hclose
      { s.ports with udp4 := none, udp6 := none, tcpListener := none } rfl
    constructor
    · rintro ⟨s', status, heq, hunchanged, -⟩
      cases heq
      exact .inr ⟨rfl, hiff.mp (hunchanged rfl).2⟩
    · rintro (h | ⟨-, hidle⟩)
      · cases h
      · exact ⟨_, _, rfl, fun _ => ⟨rfl, hiff.mpr hidle⟩, fun h => by cases h⟩
  · obtain ⟨p, hp, hports⟩ := openUdp_of_opens (r := { r with cleared := true })
      { s.ports with udp4 := none, udp6 := none, tcpListener := none } hopens
    have hsome : (r.opening port.toNat fds).udp = some (⟨fds.udp4.1, fds.udp4.2, r.udp4.registered⟩,
        ⟨fds.udp6.1, fds.udp6.2, r.udp6.registered⟩) := by simp [OpenReply.opening, hopens]
    rw [hsome, hports]
    dsimp only
    rcases hregisters : r.registers with _ | _
    · refine iff_of_false ?_ (by simp)
      rintro ⟨s', status, heq, hunchanged, -⟩
      obtain ⟨⟨ports, opened⟩, hports, heq⟩ := Option.map_eq_some_iff.mp heq
      cases heq
      -- a duplicate fails, which is a panic, or a handler is not taken
      have hadded : (r.udp4.registered && r.udp6.registered) = false := by
        rw [OpenReply.registers] at hregisters
        by_contra hboth
        rw [Bool.not_eq_false, Bool.and_eq_true] at hboth
        rcases h4 : r.udp4.cloned with _ | _
        · simp [h4] at hports
        · rcases h6 : r.udp6.cloned with _ | _
          · simp [h4, h6, hboth] at hports
          · simp [h4, h6, hboth] at hregisters
      have hfree : closed.Fresh ([fds.udp4.1, fds.udp4.2] ++ [fds.udp6.1, fds.udp6.2]) := by
        have hfds : (r.opening port.toNat fds).fds mode =
            [fds.udp4.1, fds.udp4.2] ++ [fds.udp6.1, fds.udp6.2] := by
          cases mode with
          | tcp => exact absurd rfl hmode
          | udp | rawIp => simp [Opening.fds, hsome, Opened.fds]
        rwa [hfds] at hfresh
      have hne : (⟨fds.udp4.1, fds.udp4.2, r.udp4.registered⟩ : Opened).clone ≠
          (⟨fds.udp6.1, fds.udp6.2, r.udp6.registered⟩ : Opened).clone := by
        intro heq
        have hnodup := hfree.1
        simp [show fds.udp4.2 = fds.udp6.2 from heq] at hnodup
      obtain ⟨hnil, hget⟩ := Network.openUdp_of_failed peers
        (Network.listening_closeSockets hclose) hne hadded
      have hsame := (hunchanged rfl).2
      have hqueue := Network.queue_closeSockets hclose (hsame.listening.symm.trans hnil)
      refine hget ?_
      rw [hsame.handlers, ← hqueue]
      exact (hfree.2 fds.udp4.2 (by simp)).1
    · obtain ⟨⟨⟨h4c, h4⟩, h6c⟩, h6⟩ : ((r.udp4.cloned = true ∧ r.udp4.registered = true) ∧
          r.udp6.cloned = true) ∧ r.udp6.registered = true := by
        simpa [OpenReply.registers] using hregisters
      refine iff_of_true ?_ (.inl rfl)
      simp only [h4c, h4, h6c, h6, Bool.not_true, Bool.false_eq_true, if_false, Option.map_some]
      refine ⟨_, _, rfl, (fun h => by cases h), fun _ _ => ⟨?_, fun h => absurd h hmode, ?_⟩⟩
      · cases mode with
        | tcp => exact absurd rfl hmode
        | udp | rawIp => exact ⟨p, rfl, rfl, rfl, hp⟩
      · exact List.ne_nil_of_mem
          (Network.mem_listening.mpr (.inl (Network.openUdp_of_added rfl rfl)))

/-- **A change of the port is all or nothing** exactly when the closing gets through, and: in TCP
mode the port is 0, or nothing fails and the port is the one that is stored; in the other modes
nothing fails, or there is nothing to close and the sockets are not created and bound. -/
theorem allOrNothing_iff (hopen : s.network.CanOpen mode peers (r.opening port.toNat fds)) :
    s.AllOrNothing mode port peers r fds ↔ s.Safe mode port peers r := by
  rcases hclose : s.network.closeSockets peers with _ | closed
  · refine iff_of_false ?_ fun hsafe => hsafe.1 hclose
    rintro ⟨s', status, heq, -⟩
    rw [setListenPort, openListenSocket, Network.openListenSocket, hclose] at heq
    cases heq
  · have hfresh := hopen closed hclose
    have hsome : s.network.closeSockets peers ≠ none := by simp [hclose]
    rw [Safe.eq_def, and_iff_right hsome]
    cases mode with
    | tcp => exact allOrNothing_tcp hclose hfresh
    | udp | rawIp =>
      rw [allOrNothing_udp (by decide) hclose hfresh]
      simp [OpenReply.Fails]

/-! ## A port in use -/

/-- A device that does not listen. -/
def idle : Listener := ⟨.new .new, ⟨none, none, none, 0⟩⟩

def sampleFds (first : Fd) : OpenFds :=
  ⟨(first, first + 1), (first, first + 1), (first + 2, first + 3)⟩

def socketOk : SocketReply := ⟨true, true, true, true, true, true⟩

def openOk : OpenReply := ⟨true, socketOk, socketOk, socketOk, none⟩

/-- The port is in use. -/
def openRefused : OpenReply :=
  let refused : SocketReply := { socketOk with bound := false }
  ⟨true, refused, refused, socketOk, none⟩

/-- The first opening. -/
theorem allOrNothing_iff_sample : idle.AllOrNothing .udp 51820 [] openOk (sampleFds 3) := by
  have hopen : idle.network.CanOpen .udp []
      (openOk.opening (51820 : UInt16).toNat (sampleFds 3)) := by
    intro closed hclose
    cases hclose
    decide
  refine (allOrNothing_iff hopen).mpr ⟨nofun, .inl ?_⟩
  rw [OpenReply.Fails]
  decide

/-- **A port in use.** A device that is listening answers with an error, and has lost its sockets;
in TCP mode it answers that the port is set. -/
theorem port_in_use :
    (∃ s : Listener, idle.setListenPort .udp 51820 [] openOk (sampleFds 3) = some (s, none) ∧
      ¬ s.AllOrNothing .udp 51821 [] openRefused (sampleFds 7)) ∧
    ¬ idle.AllOrNothing .tcp 51821 [] openRefused (sampleFds 7) := by
  constructor
  · have hrun : (idle.setListenPort .udp 51820 [] openOk (sampleFds 3)).map
        (fun q => (q.2, (q.1.network.closeSockets []).isSome, q.1.network.listening)) =
        some (none, true, [⟨3, 0⟩, ⟨5, 1⟩]) := by decide
    obtain ⟨⟨s, status⟩, hset, heq⟩ := Option.map_eq_some_iff.mp hrun
    obtain ⟨hstatus, hrest⟩ := Prod.mk.inj heq
    obtain ⟨hclose, hlistening⟩ := Prod.mk.inj hrest
    obtain ⟨closed, hclose⟩ := Option.isSome_iff_exists.mp hclose
    obtain rfl : status = none := hstatus
    refine ⟨s, hset, fun hall => ?_⟩
    have hfresh : closed.Fresh
        ((openRefused.opening (51821 : UInt16).toNat (sampleFds 7)).fds .udp) :=
      ⟨List.nodup_nil, fun fd hfd => absurd hfd List.not_mem_nil⟩
    obtain hok | ⟨-, hnil, -⟩ := (allOrNothing_udp (by decide) hclose hfresh).mp hall
    · exact absurd hok (by decide)
    · cases hlistening.symm.trans hnil
  · intro hall
    have hfresh : idle.network.Fresh
        ((openRefused.opening (51821 : UInt16).toNat (sampleFds 7)).fds .tcp) :=
      ⟨List.nodup_nil, fun fd hfd => absurd hfd List.not_mem_nil⟩
    have hclose : idle.network.closeSockets [] = some idle.network := rfl
    obtain hzero | ⟨hok, -⟩ := (allOrNothing_tcp hclose hfresh).mp hall
    · exact absurd hzero (by decide)
    · exact hok ⟨by decide, by decide⟩

end Listener

end NekoLink.Device
