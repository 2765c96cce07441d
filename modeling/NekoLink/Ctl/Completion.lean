import NekoLink.Ctl.Signaling
import Mathlib.Data.List.ReduceOption

/-!
# A push and its answer

Two nodes of one mode with one key: a push of the first is delivered to the second, and its answer
to the first. The port in a message is what the data plane answers to a get request, so it depends
on the mode in which `run_instance` starts the data plane.

* `listenPort_of_runs`: the control plane knows the port of a data plane in UDP mode only.
* **`signaling_completes_iff`**: both nodes configure each other exactly in the mode `ip`, and in
  the mode `udp` when both data planes have ports.
* `tcp_push_discarded`: in the mode `tcp` the push is discarded.
-/

namespace NekoLink.Ctl

open Wire Noise Device Routing Text

/-! ## The data planes -/

/-- The mode of the data plane that `run_instance` starts. -/
def NekoConfig.transportMode (config : NekoConfig) : TransportMode :=
  if config.mode = "tcp" ∨ config.mode = "mullvad-tcp" then .tcp
  else if config.mode = "ip" ∧ config.ipProtocol.isSome = true then .rawIp
  else .udp

section

variable {C : Prims} {T : Type → Type} [Table T IpNetwork IpAddr]

/-- A get request to the interface is answered by a device in the mode of the configuration. -/
structure Runs (W : World) (config : NekoConfig) (d : Device C T) (s : Settings) : Prop where
  mode : d.transportMode = config.transportMode
  answers : ∃ (P : Printers) (time : ℕ) (response : List Char),
    getResponse P s time d = some response ∧ W.uapi config.interface = some response

/-- **The port of a data plane** is known in UDP mode only. -/
theorem listenPort_of_runs {W : World} {config : NekoConfig} {d : Device C T} {s : Settings}
    (h : Runs W config d s) : W.listenPort config.interface =
      if config.transportMode = .udp ∧ s.listenPort ≠ 0 then some s.listenPort else none := by
  obtain ⟨P, time, response, hresponse, huapi⟩ := h.answers
  rw [World.listenPort, huapi, Option.bind_some, actualListenPort_eq hresponse, h.mode]

end

/-! ## The modes -/

inductive SignalMode
  | udp
  | ip
  | tcp
  | mullvadTcp
  deriving DecidableEq

namespace SignalMode

def name : SignalMode → String
  | .udp => "udp"
  | .ip => "ip"
  | .tcp => "tcp"
  | .mullvadTcp => "mullvad-tcp"

/-- The instances of the pipeline, which in the mode `ip` is that of a protocol. -/
def takes (proto : UInt8) : SignalMode → NekoConfig → Bool
  | .udp => udpTakes
  | .ip => rawTakes proto
  | .tcp => tcpTakes
  | .mullvadTcp => tcpTakes

section

variable (P : Parsers) (R : Printers) (C : Prims) (W : World)

/-- The push of the send task of the mode. -/
def push (state : NekoState) (peer : PeerConfig) :
    SignalMode → Option (SocketAddr × List UInt8)
  | .udp => udpPush P C W state peer
  | .ip => rawPush P C W state peer
  | .tcp => tcpPush P R C W state peer
  | .mullvadTcp => tcpPush P R C W state peer

/-- A header of an IP packet without options. -/
structure IpHeader where
  bytes : Bytes 20
  version : bytes.head &&& 0xf0 = 0x40

/-- The receive task of the mode answers a message, which in the mode `ip` has a header. -/
def Receives (proto : UInt8) (header : IpHeader) (src : SocketAddr) (states : List NekoState)
    (datagram : List UInt8) (a : Answer) : SignalMode → Prop
  | .udp => udpReceive R C W src states datagram = some a
  | .ip => ∃ answers, rawReceive R C W proto src.ip states (header.bytes.toList ++ datagram) =
      some answers ∧ a ∈ answers
  | .tcp => tcpReceive R C W src states datagram = some a
  | .mullvadTcp => tcpReceive R C W src states datagram = some a

/-- What becomes of the answer: in the TCP modes the send task reads it from its stream, and in the
others it comes to the receive task. -/
def Acknowledges (proto : UInt8) (header : IpHeader) (src : SocketAddr) (states : List NekoState)
    (state : NekoState) (reply : List UInt8) (call : ConfigureCall) : SignalMode → Prop
  | .udp => ∃ a, SignalMode.udp.Receives R C W proto header src states reply a ∧ a.call = call
  | .ip => ∃ a, SignalMode.ip.Receives R C W proto header src states reply a ∧ a.call = call
  | .tcp => tcpAck R C src state reply = some call
  | .mullvadTcp => tcpAck R C src state reply = some call

/-- The call is about the key of an instance and the port that its data plane reports. -/
def Names (state : NekoState) (src : SocketAddr) (call : ConfigureCall) (mode : SignalMode) :
    Prop :=
  call.peerPubKey = state.pubKey ∧
    match mode with
    | .ip => call.endpoint = R.ipAddr src.ip
    | _ => ∃ port, W.listenPort state.config.interface = some port ∧
        call.endpoint = R.ipAddr src.ip ++ ':' :: writeUnsigned port.toNat

end

/-- The part of a message that is sealed. -/
def body (datagram : List UInt8) : SignalMode → List UInt8
  | .ip => datagram.tail
  | _ => datagram

end SignalMode

/-- No other instance of the pipeline opens a message. -/
structure OnlyReader (C : Prims) (takes : NekoConfig → Bool) (states : List NekoState)
    (state : NekoState) (message : List UInt8) : Prop where
  mem : state ∈ states
  others : ∀ s ∈ states, takes s.config → s ≠ state →
    openSignal C (deriveCipher C s.config.psk) message = none

/-! ## The meeting of two nodes -/

/-- Two nodes, the first of which pushes: their instances, what each turn finds, and the addresses
that each sees of the other. -/
structure Meeting (C : Prims) (T : Type → Type) where
  proto : UInt8
  stateA : NekoState
  stateB : NekoState
  /-- All instances of the nodes -/
  statesA : List NekoState
  statesB : List NekoState
  /-- The data planes of the two -/
  deviceA : Device C T
  deviceB : Device C T
  settingsA : Settings
  settingsB : Settings
  /-- The push to the peer -/
  worldA : World
  peer : PeerConfig
  dst : SocketAddr
  datagram : List UInt8
  /-- Its arrival -/
  worldB : World
  srcA : SocketAddr
  headerA : SignalMode.IpHeader
  /-- The arrival of the answer -/
  worldA' : World
  srcB : SocketAddr
  headerB : SignalMode.IpHeader

namespace Meeting

variable {C : Prims} {T : Type → Type} [Table T IpNetwork IpAddr]

/-- Two honest nodes of a mode, and the push. -/
structure Honest (P : Parsers) (R : Printers) (m : Meeting C T) (mode : SignalMode) : Prop where
  modeA : m.stateA.config.mode = mode.name
  modeB : m.stateB.config.mode = mode.name
  compatA : m.stateA.config.nativeWgCompat = false
  compatB : m.stateB.config.nativeWgCompat = false
  psk : m.stateA.config.psk = m.stateB.config.psk
  keys : m.stateA.pubKey ≠ m.stateB.pubKey
  protoA : mode = .ip → m.stateA.config.rawProtocol = m.proto
  protoB : mode = .ip → m.stateB.config.rawProtocol = m.proto
  runsA : Runs m.worldA m.stateA.config m.deviceA m.settingsA
  runsB : Runs m.worldB m.stateB.config m.deviceB m.settingsB
  pushed : mode.push P R C m.worldA m.stateA m.peer = some (m.dst, m.datagram)
  readerB : OnlyReader C (mode.takes m.proto) m.statesB m.stateB (mode.body m.datagram)
  readerA : ∀ a, mode.Receives R C m.worldB m.proto m.headerA m.srcA m.statesB m.datagram a →
    OnlyReader C (mode.takes m.proto) m.statesA m.stateA (mode.body a.reply)

/-- Both messages are read, and each node configures the other. -/
def Completes (R : Printers) (m : Meeting C T) (mode : SignalMode) : Prop :=
  ∃ a call, mode.Receives R C m.worldB m.proto m.headerA m.srcA m.statesB m.datagram a ∧
    mode.Acknowledges R C m.worldA' m.proto m.headerB m.srcB m.statesA m.stateA a.reply call ∧
    mode.Names R m.worldA m.stateA m.srcA a.call ∧ mode.Names R m.worldB m.stateB m.srcB call

end Meeting

/-! ## The receive tasks among other instances -/

theorem findSome?_eq_of_unique {α β : Type*} {l : List α} {f : α → Option β} {x : α}
    (hx : x ∈ l) (h : ∀ a ∈ l, a ≠ x → f a = none) : l.findSome? f = f x := by
  induction l with
  | nil => cases hx
  | cons a l ih =>
    rw [List.findSome?_cons]
    by_cases ha : a = x
    · subst ha
      cases hf : f a with
      | some b => rfl
      | none =>
        refine List.findSome?_eq_none_iff.mpr fun b hb => ?_
        by_cases hba : b = a
        · rw [hba, hf]
        · exact h b (List.mem_cons_of_mem _ hb) hba
    · rw [h a List.mem_cons_self ha]
      exact ih ((List.mem_cons.mp hx).resolve_left (Ne.symm ha)) fun b hb =>
        h b (List.mem_cons_of_mem _ hb)

theorem mapM_eq_some_map {α β : Type*} {l : List α} {f : α → Option β} {g : α → β}
    (h : ∀ a ∈ l, f a = some (g a)) : l.mapM f = some (l.map g) := by
  induction l with
  | nil => rfl
  | cons a l ih =>
    rw [List.mapM_cons, h a List.mem_cons_self, ih fun b hb => h b (List.mem_cons_of_mem _ hb)]
    rfl

section

variable {R : Printers} {C : Prims} {W W' : World} {src : SocketAddr} {state state' : NekoState}
  {states : List NekoState} {addr : List Char} {mode : String} {port : UInt16}

/-- The instance that reads a message is the one that answers. -/
theorem findSome?_answer [C.Lawful] {takes : NekoConfig → Bool} {own : NekoState → UInt16}
    (h : OnlyReader C takes states state' (ownSignal C W state addr mode (some port)))
    (htakes : takes state'.config = true) (hpsk : state'.config.psk = state.config.psk)
    (hmode : state'.config.mode ≠ "ip") :
    (states.findSome? fun s => if takes s.config then
        answer R C W' (own s) src (ownSignal C W state addr mode (some port)) s else none) =
      if port = 0 then none
      else some (answerOf R C W' (own state') src (ownOffer W state addr mode port) state') := by
  rw [findSome?_eq_of_unique h.mem, if_pos htakes, answer_ownSignal hpsk hmode]
  intro s hs hne
  by_cases hs' : takes s.config = true
  · rw [if_pos hs', answer, h.others s hs hs' hne, Option.bind_none]
  · rw [if_neg hs']

variable (R W' src) in
theorem udpReceive_onlyReader [C.Lawful]
    (h : OnlyReader C udpTakes states state' (ownSignal C W state addr mode (some port)))
    (htakes : udpTakes state'.config = true) (hpsk : state'.config.psk = state.config.psk) :
    udpReceive R C W' src states (ownSignal C W state addr mode (some port)) =
      if port = 0 then none
      else
        some (answerOf R C W' (udpPort W' state'.config) src (ownOffer W state addr mode port)
          state') := by
  have hmode : state'.config.mode ≠ "ip" := by
    rw [mode_of_udpTakes htakes]
    decide
  unfold udpReceive
  rw [fits_ownSignal (by decide), Option.bind_some]
  exact findSome?_answer h htakes hpsk hmode

variable (R W' src) in
theorem tcpReceive_onlyReader [C.Lawful]
    (h : OnlyReader C tcpTakes states state' (ownSignal C W state addr mode (some port)))
    (htakes : tcpTakes state'.config = true) (hpsk : state'.config.psk = state.config.psk)
    (hmode : state'.config.mode ≠ "ip") :
    tcpReceive R C W' src states (ownSignal C W state addr mode (some port)) =
      if port = 0 then none
      else
        some (answerOf R C W' (tcpPort W' state'.config) src (ownOffer W state addr mode port)
          state') := by
  unfold tcpReceive
  rw [fits_ownSignal (by decide), Option.bind_some]
  exact findSome?_answer h htakes hpsk hmode

/-- The message after the header and the magic byte. -/
theorem rawPacket_ownSignal (header : SignalMode.IpHeader) :
    rawPacket (header.bytes.toList ++ 0x99 :: ownSignal C W state addr mode none) =
      some (ownSignal C W state addr mode none) := by
  have hheader : header.bytes.toList.length = 20 := header.bytes.toList_length
  have hlen : (ownSignal C W state addr mode none).length = 62 := by simp
  generalize ownSignal C W state addr mode none = sealed at hlen
  have htotal : (header.bytes.toList ++ 0x99 :: sealed).length = 83 := by
    rw [List.length_append, List.length_cons, hheader, hlen]
  have hhead : (header.bytes.toList ++ 0x99 :: sealed).headD 0 = header.bytes.head := by
    rw [← List.Vector.cons_head_tail header.bytes, List.Vector.toList_cons]
    rfl
  have hmagic : (header.bytes.toList ++ 0x99 :: sealed)[20]? = some 0x99 := by
    rw [List.getElem?_append_right (by omega), hheader]
    rfl
  have hrest : (header.bytes.toList ++ 0x99 :: sealed).drop 21 = sealed := by
    rw [show header.bytes.toList ++ 0x99 :: sealed = (header.bytes.toList ++ [0x99]) ++ sealed by
      simp]
    exact List.drop_left' (by simp [hheader])
  have hversion : 20 ≤ 83 ∧ header.bytes.head &&& 0xf0 = 0x40 := ⟨by decide, header.version⟩
  unfold rawPacket
  rw [List.take_of_length_le (by omega)]
  simp only [htotal, hhead, if_pos hversion]
  rw [if_pos ⟨by decide, hmagic⟩, hrest]

/-- What an instance of the raw pipeline makes of the message of another. -/
def rawAnswerOf (R : Printers) (C : Prims) (W W' : World) (ip : IpAddr) (addr : List Char)
    (mode : String) (state state' : NekoState) : Answer where
  call :=
    { interface := state'.config.interface
      peerPubKey := state.pubKey
      endpoint := R.ipAddr ip
      keepalive := state'.config.persistentKeepalive
      peerMtu := some (offeredMtu W state.config addr mode)
      autoSyncMtu := state'.config.mtu = some 0
      mode := "ip" }
  reply := 0x99 :: ownSignal C W' state' (R.ipAddr ip) "ip" none

theorem rawAnswer_ownSignal [C.Lawful] {proto : UInt8} {ip : IpAddr}
    (htakes : rawTakes proto state'.config = true)
    (hpsk : state'.config.psk = state.config.psk) :
    rawAnswer R C W' proto ip (ownSignal C W state addr mode none) state' =
      some (some (rawAnswerOf R C W W' ip addr mode state state')) := by
  generalize hoffer : offeredMtu W state.config addr mode = mtu
  have hlen : (signal state.pubKey mtu none).length = 34 := length_signal
  unfold rawAnswer
  rw [if_pos htakes, ownSignal, hpsk, openSignal_sealSignal, hoffer]
  dsimp only
  rw [dif_pos (by omega)]
  simp only [take_signal, slice_signal, ofNat_beValue_beBytes, hlen, le_refl, if_true, rawAnswerOf,
    hoffer]
  rfl

variable (R W') in
/-- The instance that reads a message is among those that answer, and none panics. -/
theorem rawReceive_ownSignal [C.Lawful] {proto : UInt8} (ip : IpAddr) (header : SignalMode.IpHeader)
    (h : OnlyReader C (rawTakes proto) states state' (ownSignal C W state addr mode none))
    (htakes : rawTakes proto state'.config = true) (hpsk : state'.config.psk = state.config.psk) :
    ∃ answers, rawReceive R C W' proto ip states
        (header.bytes.toList ++ 0x99 :: ownSignal C W state addr mode none) = some answers ∧
      rawAnswerOf R C W W' ip addr mode state state' ∈ answers := by
  have hanswer : ∀ s ∈ states, rawAnswer R C W' proto ip (ownSignal C W state addr mode none) s =
      some ((rawAnswer R C W' proto ip (ownSignal C W state addr mode none) s).getD none) := by
    intro s hs
    by_cases hne : s = state'
    · rw [hne, rawAnswer_ownSignal htakes hpsk, Option.getD_some]
    · unfold rawAnswer
      by_cases hs' : rawTakes proto s.config = true
      · rw [if_pos hs', h.others s hs hs' hne]
        rfl
      · rw [if_neg hs']
        rfl
  unfold rawReceive
  rw [rawPacket_ownSignal]
  dsimp only
  rw [mapM_eq_some_map hanswer, Option.map_some]
  refine ⟨_, rfl, List.reduceOption_mem_iff.mpr (List.mem_map.mpr ⟨state', h.mem, ?_⟩)⟩
  rw [rawAnswer_ownSignal htakes hpsk, Option.getD_some]

end

/-! ## Which meetings complete -/

namespace Meeting

section

variable {C : Prims} {T : Type → Type} [Table T IpNetwork IpAddr] {P : Parsers} {R : Printers}
  {m : Meeting C T}

theorem udpTakes_of_mode {config : NekoConfig} (hmode : config.mode = "udp")
    (hcompat : config.nativeWgCompat = false) : udpTakes config = true := by
  simp [udpTakes, hmode, hcompat]

theorem rawTakes_of_mode {config : NekoConfig} (hmode : config.mode = "ip")
    (hcompat : config.nativeWgCompat = false) : rawTakes config.rawProtocol config = true := by
  simp [rawTakes, hmode, hcompat]

theorem tcpTakes_of_mode {config : NekoConfig}
    (hmode : config.mode = "tcp" ∨ config.mode = "mullvad-tcp")
    (hcompat : config.nativeWgCompat = false) : tcpTakes config = true := by
  rcases hmode with hmode | hmode <;> simp [tcpTakes, hmode, hcompat]

/-- A data plane in TCP mode reports no port. -/
theorem listenPort_of_tcp {W : World} {config : NekoConfig} {d : Device C T} {s : Settings}
    (h : Runs W config d s) (hmode : config.mode = "tcp" ∨ config.mode = "mullvad-tcp") :
    W.listenPort config.interface = none := by
  rw [listenPort_of_runs h, NekoConfig.transportMode, if_pos hmode]
  rfl

theorem listenPort_of_udp {W : World} {config : NekoConfig} {d : Device C T} {s : Settings}
    (h : Runs W config d s) (hmode : config.mode = "udp") :
    W.listenPort config.interface = if s.listenPort ≠ 0 then some s.listenPort else none := by
  rw [listenPort_of_runs h]
  simp [NekoConfig.transportMode, hmode]

/-- What a call names, when it comes from a message with the port of a data plane. -/
theorem names_answerOf {W W' : World} {state state' : NekoState} {src : SocketAddr}
    {addr : List Char} {mode : String} {port own : UInt16} (hport : port ≠ 0)
    (hlisten : W.listenPort state.config.interface = some port) :
    SignalMode.udp.Names R W state src
      (answerOf R C W' own src (ownOffer W state addr mode port) state').call := by
  refine ⟨rfl, port, hlisten, ?_⟩
  show endpointText R src.ip port = _
  have hpos : 0 < port := UInt16.pos_iff_ne_zero.mpr hport
  rw [endpointText, if_pos hpos]

/-- In the TCP modes nothing can name the port of the data plane. -/
theorem not_completes_tcp (h : m.Honest P R .tcp) : ¬ m.Completes R .tcp := by
  rintro ⟨a, call, -, -, ⟨-, port, hport, -⟩, -⟩
  rw [listenPort_of_tcp h.runsA (.inl h.modeA)] at hport
  cases hport

theorem not_completes_mullvadTcp (h : m.Honest P R .mullvadTcp) : ¬ m.Completes R .mullvadTcp := by
  rintro ⟨a, call, -, -, ⟨-, port, hport, -⟩, -⟩
  rw [listenPort_of_tcp h.runsA (.inr h.modeA)] at hport
  cases hport

theorem completes_ip [C.Lawful] (h : m.Honest P R .ip) : m.Completes R .ip := by
  have htakesA : rawTakes m.proto m.stateA.config = true :=
    h.protoA rfl ▸ rawTakes_of_mode h.modeA h.compatA
  have htakesB : rawTakes m.proto m.stateB.config = true :=
    h.protoB rfl ▸ rawTakes_of_mode h.modeB h.compatB
  obtain ⟨ip, -, heq⟩ := Option.map_eq_some_iff.mp h.pushed
  obtain ⟨-, hdatagram⟩ := Prod.mk.inj heq
  have hreaderB := h.readerB
  rw [← hdatagram] at hreaderB
  obtain ⟨answers, hreceive, hmem⟩ := rawReceive_ownSignal R m.worldB m.srcA.ip
    m.headerA hreaderB htakesB h.psk.symm
  rw [hdatagram] at hreceive
  have hreceives : SignalMode.ip.Receives R C m.worldB m.proto m.headerA m.srcA m.statesB
      m.datagram _ := ⟨answers, hreceive, hmem⟩
  obtain ⟨answers', hreceive', hmem'⟩ := rawReceive_ownSignal R m.worldA' m.srcB.ip
    m.headerB (h.readerA _ hreceives) htakesA h.psk
  exact ⟨_, _, hreceives, ⟨_, ⟨answers', hreceive', hmem'⟩, rfl⟩, ⟨rfl, rfl⟩, rfl, rfl⟩

/-- In UDP mode the port in a message is that of the data plane. -/
theorem udpPort_of_runs {W : World} {config : NekoConfig} {d : Device C T} {s : Settings}
    (h : Runs W config d s) (hmode : config.mode = "udp") : udpPort W config = s.listenPort := by
  rw [udpPort, listenPort_of_udp h hmode]
  by_cases hport : s.listenPort = 0
  · rw [if_neg (not_not_intro hport), hport]
    rfl
  · rw [if_pos hport]
    rfl

theorem completes_udp_iff [C.Lawful] (h : m.Honest P R .udp) :
    m.Completes R .udp ↔ m.settingsA.listenPort ≠ 0 ∧ m.settingsB.listenPort ≠ 0 := by
  have htakesA := udpTakes_of_mode h.modeA h.compatA
  have htakesB := udpTakes_of_mode h.modeB h.compatB
  have hlistenA := listenPort_of_udp h.runsA h.modeA
  have hlistenB := listenPort_of_udp h.runsB h.modeB
  constructor
  · rintro ⟨a, call, -, -, ⟨-, portA, hportA, -⟩, -, portB, hportB, -⟩
    rw [hlistenA] at hportA
    rw [hlistenB] at hportB
    exact ⟨(Option.ite_none_right_eq_some.mp hportA).1, (Option.ite_none_right_eq_some.mp hportB).1⟩
  · rintro ⟨hA, hB⟩
    rw [if_pos hA] at hlistenA
    rw [if_pos hB] at hlistenB
    obtain ⟨addr, -, heq⟩ := Option.map_eq_some_iff.mp h.pushed
    obtain ⟨-, hdatagram⟩ := Prod.mk.inj heq
    rw [udpPort_of_runs h.runsA h.modeA] at hdatagram
    have hreaderB := h.readerB
    rw [← hdatagram] at hreaderB
    have hreceive := udpReceive_onlyReader R m.worldB m.srcA hreaderB htakesB h.psk.symm
    rw [if_neg hA, hdatagram, udpPort_of_runs h.runsB h.modeB] at hreceive
    have hreaderA := h.readerA _ hreceive
    have hacknowledge := udpReceive_onlyReader R m.worldA' m.srcB hreaderA htakesA h.psk
    rw [if_neg hB] at hacknowledge
    exact ⟨_, _, hreceive, ⟨_, hacknowledge, rfl⟩, names_answerOf hA hlistenA,
      names_answerOf hB hlistenB⟩

/-- **Signalling completes** exactly in the mode `ip`, and in the mode `udp` between data planes
with ports. -/
theorem signaling_completes_iff [C.Lawful] {mode : SignalMode} (h : m.Honest P R mode) :
    m.Completes R mode ↔
      mode = .ip ∨ mode = .udp ∧ m.settingsA.listenPort ≠ 0 ∧ m.settingsB.listenPort ≠ 0 := by
  cases mode with
  | udp =>
    rw [completes_udp_iff h]
    exact ⟨fun hports => .inr ⟨rfl, hports⟩, fun hor => (hor.resolve_left (by decide)).2⟩
  | ip => exact ⟨fun _ => .inl rfl, fun _ => completes_ip h⟩
  | tcp =>
    refine ⟨fun hcompletes => absurd hcompletes (not_completes_tcp h), fun hor => ?_⟩
    rcases hor with hip | ⟨hudp, -⟩
    · cases hip
    · cases hudp
  | mullvadTcp =>
    refine ⟨fun hcompletes => absurd hcompletes (not_completes_mullvadTcp h), fun hor => ?_⟩
    rcases hor with hip | ⟨hudp, -⟩
    · cases hip
    · cases hudp

/-- In the mode `tcp` the push is discarded. -/
theorem tcp_push_discarded [C.Lawful] (h : m.Honest P R .tcp) (a : Answer) :
    ¬ SignalMode.tcp.Receives R C m.worldB m.proto m.headerA m.srcA m.statesB m.datagram a := by
  intro hreceives
  have htakesB := tcpTakes_of_mode (.inl h.modeB) h.compatB
  have hmode : m.stateB.config.mode ≠ "ip" := by
    rw [h.modeB]
    decide
  have hport : tcpPort m.worldA m.stateA.config = 0 := by
    have hother : m.stateA.config.mode ≠ "mullvad-tcp" := by
      rw [h.modeA]
      decide
    rw [tcpPort, if_neg hother, listenPort_of_tcp h.runsA (.inl h.modeA)]
    rfl
  obtain ⟨addr, -, heq⟩ := Option.map_eq_some_iff.mp h.pushed
  obtain ⟨-, hdatagram⟩ := Prod.mk.inj heq
  have hreaderB := h.readerB
  rw [← hdatagram] at hreaderB
  have hreceive := tcpReceive_onlyReader R m.worldB m.srcA hreaderB htakesB
    h.psk.symm hmode
  rw [if_pos hport, hdatagram] at hreceive
  rw [SignalMode.Receives, hreceive] at hreceives
  cases hreceives

end

/-! ## A concrete meeting -/

/-- An instance of a mode. -/
def sampleOf (mode : SignalMode) (key peer : UInt8) : NekoState :=
  { sampleInstance key peer with
    config := { (sampleInstance key peer).config with mode := mode.name } }

/-- A device without peers, in the mode in which it is started. -/
def samplePlane (mode : SignalMode) : Device checksumPrims (PrefixMap IpNetwork) :=
  .new sampleDevice.nextIndex (sampleOf mode 7 2).config.transportMode

/-- A turn at which it runs, with a port. -/
def planeWorld (mode : SignalMode) : World :=
  { sampleWorld with
    uapi := fun _ => getResponse samplePrinters ⟨51820, none, none⟩ 0 (samplePlane mode) }

def sampleHeader : SignalMode.IpHeader :=
  ⟨⟨0x45 :: List.replicate 19 0, rfl⟩, by decide⟩

/-- The push of the sample. -/
def planePush (mode : SignalMode) : Option (SocketAddr × List UInt8) :=
  mode.push sampleNames samplePrinters checksumPrims (planeWorld mode) (sampleOf mode 7 2)
    (samplePeer 2)

/-- Two nodes of a mode, at 10.0.0.1 and 10.0.0.2. -/
def sampleMeeting (mode : SignalMode) : Meeting checksumPrims (PrefixMap IpNetwork) where
  proto := 141
  stateA := sampleOf mode 7 2
  stateB := sampleOf mode 8 1
  statesA := [sampleOf mode 7 2]
  statesB := [sampleOf mode 8 1]
  deviceA := samplePlane mode
  deviceB := samplePlane mode
  settingsA := ⟨51820, none, none⟩
  settingsB := ⟨51820, none, none⟩
  worldA := planeWorld mode
  peer := samplePeer 2
  dst := ((planePush mode).map Prod.fst).getD (.new (sampleIp 2) 0)
  datagram := ((planePush mode).map Prod.snd).getD []
  worldB := planeWorld mode
  srcA := .new (sampleIp 1) 40000
  headerA := sampleHeader
  worldA' := planeWorld mode
  srcB := .new (sampleIp 2) 12580
  headerB := sampleHeader

theorem onlyReader_singleton (takes : NekoConfig → Bool) (state : NekoState)
    (message : List UInt8) : OnlyReader checksumPrims takes [state] state message where
  mem := List.mem_singleton_self state
  others _ hs _ hne := absurd (List.mem_singleton.mp hs) hne

theorem runs_samplePlane (mode : SignalMode) (key peer : UInt8) :
    Runs (planeWorld mode) (sampleOf mode key peer).config (samplePlane mode) ⟨51820, none, none⟩
    where
  mode := rfl
  answers := by
    have hsome : (getResponse samplePrinters ⟨51820, none, none⟩ 0 (samplePlane mode)).isSome := by
      cases mode <;> decide +kernel
    obtain ⟨response, hresponse⟩ := Option.isSome_iff_exists.mp hsome
    exact ⟨samplePrinters, 0, response, hresponse, hresponse⟩

theorem honest_sampleMeeting (mode : SignalMode) :
    (sampleMeeting mode).Honest sampleNames samplePrinters mode where
  modeA := rfl
  modeB := rfl
  compatA := rfl
  compatB := rfl
  psk := rfl
  keys := by
    show fill 32 7 ≠ fill 32 8
    decide
  protoA _ := rfl
  protoB _ := rfl
  runsA := runs_samplePlane mode 7 2
  runsB := runs_samplePlane mode 8 1
  pushed := by
    have hsome : (planePush mode).isSome := by
      cases mode <;> decide +kernel
    obtain ⟨message, hmessage⟩ := Option.isSome_iff_exists.mp hsome
    show planePush mode = some (((planePush mode).map Prod.fst).getD _,
      ((planePush mode).map Prod.snd).getD _)
    rw [hmessage]
    rfl
  readerB := onlyReader_singleton _ _ _
  readerA _ _ := onlyReader_singleton _ _ _

/-- Between UDP nodes it completes. -/
theorem signaling_completes_sample : (sampleMeeting .udp).Completes samplePrinters .udp :=
  (signaling_completes_iff (honest_sampleMeeting .udp)).mpr
    (.inr ⟨rfl, by decide, by decide⟩)

/-- **In the mode `tcp`** neither node configures the other. -/
theorem signaling_incomplete :
    ¬ ∀ (mode : SignalMode) (m : Meeting checksumPrims (PrefixMap IpNetwork)),
      m.Honest sampleNames samplePrinters mode → m.Completes samplePrinters mode := by
  intro hclaim
  obtain ⟨a, -, hreceives, -⟩ := hclaim .tcp (sampleMeeting .tcp) (honest_sampleMeeting .tcp)
  exact tcp_push_discarded (honest_sampleMeeting .tcp) a hreceives

end Meeting

end NekoLink.Ctl
