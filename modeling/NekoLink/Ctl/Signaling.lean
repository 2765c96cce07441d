import NekoLink.Ctl.Peering
import NekoLink.Noise.Session

/-!
# Signalling

The messages by which nodes tell each other their public keys, MTUs and tunnel ports:
`derive_cipher` and the send and receive tasks of `run_global_udp_signaling_dynamic`,
`run_global_tcp_signaling_dynamic` and `run_global_raw_signaling_dynamic` of
`nekolink-ctl/src/main.rs`. Pushes and answers have one format. The cipher is the AEAD that the data
plane uses too.

* `openSignal_sealSignal`, `readSignal_signal`: who has the key reads what was written.
* `answer_ownSignal`: what an instance makes of a message, and that it is passed over exactly
  when it has no port.
* `udpReceive_ownSignal`: among instances with one key the first of the pipeline answers.
-/

namespace NekoLink.Ctl

open Wire Noise Device Text

/-! ## Messages -/

section

variable (C : Prims)

/-- `derive_cipher` -/
def deriveCipher (psk : String) : Bytes 32 :=
  C.blake2s ((psk.toList ++ "NekoLink_Magic_Salt".toList).flatMap String.utf8EncodeChar)

/-- A nonce and the box under it. -/
def sealSignal (key : Bytes 32) (nonce : Bytes 12) (msg : List UInt8) : List UInt8 :=
  nonce.toList ++ (C.aeadSeal key nonce [] (ofList msg)).toList

def openSignal (key : Bytes 32) (packet : List UInt8) : Option (List UInt8) :=
  if h : 28 ≤ packet.length then
    (C.aeadOpen key ⟨packet.take 12, by rw [List.length_take]; omega⟩ [] (n := packet.length - 28)
      ⟨packet.drop 12, by rw [List.length_drop]; omega⟩).map List.Vector.toList
  else none

end

/-- The key, the MTU, and the port when the mode has ports. -/
def signal (pubKey : Bytes 32) (mtu : UInt16) (port : Option UInt16) : List UInt8 :=
  pubKey.toList ++ beBytes 2 mtu.toNat ++ port.elim [] fun p => beBytes 2 p.toNat

/-- What a message with a port says. -/
structure Offer where
  pubKey : Bytes 32
  mtu : UInt16
  port : UInt16

def readSignal (decrypted : List UInt8) : Option Offer :=
  if h : 36 ≤ decrypted.length then
    some
      { pubKey := ⟨decrypted.take 32, by rw [List.length_take]; omega⟩
        mtu := UInt16.ofNat (beValue (slice decrypted 32 34))
        port := UInt16.ofNat (beValue (slice decrypted 34 36)) }
  else none

/-! ## The instances -/

/-- The instances of the UDP pipeline. -/
def udpTakes (config : NekoConfig) : Bool := config.mode = "udp" && !config.nativeWgCompat

def tcpTakes (config : NekoConfig) : Bool :=
  (config.mode = "tcp" || config.mode = "mullvad-tcp") && !config.nativeWgCompat

/-- The instances of the raw pipeline of a protocol. -/
def rawTakes (proto : UInt8) (config : NekoConfig) : Bool :=
  config.mode = "ip" && config.rawProtocol = proto && !config.nativeWgCompat

section

variable (P : Parsers) (R : Printers) (C : Prims) (W : World)

/-- The port in a message of the UDP pipeline. -/
def udpPort (config : NekoConfig) : UInt16 := (W.listenPort config.interface).getD 0

def tcpPort (config : NekoConfig) : UInt16 :=
  if config.mode = "mullvad-tcp" then config.mullvadTcpPort
  else (W.listenPort config.interface).getD 0

/-- The MTU in a message to an address. -/
def offeredMtu (config : NekoConfig) (addr : List Char) (mode : String) : UInt16 :=
  if config.mtu = some 0 then W.autoMtu addr mode else W.mtuOf config.interface

/-- The message of an instance. -/
def ownSignal (state : NekoState) (addr : List Char) (mode : String) (port : Option UInt16) :
    List UInt8 :=
  sealSignal C (deriveCipher C state.config.psk) W.nonce
    (signal state.pubKey (offeredMtu W state.config addr mode) port)

/-! ## The send tasks -/

/-- An instance for which a send task pushes. -/
def pushes (takes : NekoConfig → Bool) (state : NekoState) : Bool :=
  takes state.config && state.pubKey != zeros 32 && W.established state.config.interface = ∅

/-- The port of a peer's signalling. -/
def targetPort (state : NekoState) (peer : PeerConfig) : UInt16 :=
  (peer.signalPort.or state.config.signalPort).getD state.globalConfig.signalPort

/-- `resolve_endpoint_with_port` -/
def resolveEndpointWithPort (endpoint : List Char) (port : UInt16) (preferIpv6 : Bool) :
    Option SocketAddr :=
  match P.socketAddr endpoint with
  | some (.v4 octets _) => some (.v4 octets port)
  | some (.v6 octets _ flowinfo scopeId) => some (.v6 octets port flowinfo scopeId)
  | none => ((P.ipAddr endpoint).or (W.resolveDns endpoint preferIpv6)).map fun ip => .new ip port

def udpPush (state : NekoState) (peer : PeerConfig) : Option (SocketAddr × List UInt8) :=
  (resolveEndpointWithPort P W peer.endpoint.toList (targetPort state peer)
      state.config.preferIpv6).map fun addr =>
    (addr, ownSignal C W state peer.endpoint.toList state.config.mode
      (some (udpPort W state.config)))

/-- The message is written to a new stream. -/
def tcpPush (state : NekoState) (peer : PeerConfig) : Option (SocketAddr × List UInt8) :=
  (resolveEndpointWithPort P W peer.endpoint.toList (targetPort state peer)
      state.config.preferIpv6).map fun addr =>
    (addr, ownSignal C W state (R.ipAddr addr.ip) "tcp" (some (tcpPort W state.config)))

/-- Before the message comes a magic byte. -/
def rawPush (state : NekoState) (peer : PeerConfig) : Option (SocketAddr × List UInt8) :=
  let endpoint := peer.endpoint.toList
  (((P.ipAddr endpoint).or ((P.socketAddr endpoint).map SocketAddr.ip)).or
      (W.resolveDns endpoint state.config.preferIpv6)).map fun ip =>
    (.new ip 0, 0x99 :: ownSignal C W state endpoint "ip" none)

end

/-- One turn of a send task on an instance, with what it finds before the first peer and at each. -/
def sendTurn (takes : NekoConfig → Bool)
    (push : World → NekoState → PeerConfig → Option (SocketAddr × List UInt8))
    (worlds : ℕ → World) (state : NekoState) : List (SocketAddr × List UInt8) :=
  if pushes (worlds 0) takes state then
    state.config.peers.zipIdx.filterMap fun e => push (worlds (e.2 + 1)) state e.1
  else []

/-! ## The receive tasks -/

/-- What follows from a message: a call of `configure_peer`, and the answer. -/
structure Answer where
  call : ConfigureCall
  reply : List UInt8

section

variable (R : Printers) (C : Prims) (W : World)

/-- The address of a peer, with its tunnel port unless that is zero. -/
def endpointText (ip : IpAddr) (port : UInt16) : List Char :=
  if 0 < port then R.ipAddr ip ++ ':' :: writeUnsigned port.toNat else R.ipAddr ip

/-- What an instance of the UDP or TCP pipeline, with its own port, makes of an offer. -/
def answerOf (port : UInt16) (src : SocketAddr) (offer : Offer) (state : NekoState) : Answer where
  call :=
    { interface := state.config.interface
      peerPubKey := offer.pubKey
      endpoint := endpointText R src.ip offer.port
      keepalive := state.config.persistentKeepalive
      peerMtu := some offer.mtu
      autoSyncMtu := state.config.mtu = some 0
      mode := state.config.mode }
  reply := ownSignal C W state (R.ipAddr src.ip) state.config.mode (some port)

/-- The same, of a message. -/
def answer (port : UInt16) (src : SocketAddr) (packet : List UInt8) (state : NekoState) :
    Option Answer :=
  (openSignal C (deriveCipher C state.config.psk) packet).bind fun decrypted =>
    (readSignal decrypted).bind fun offer =>
      if offer.port = 0 ∧ state.config.mode ≠ "ip" then none
      else some (answerOf R C W port src offer state)

def udpAnswer (src : SocketAddr) (packet : List UInt8) (state : NekoState) : Option Answer :=
  if udpTakes state.config then answer R C W (udpPort W state.config) src packet state else none

def tcpAnswer (src : SocketAddr) (packet : List UInt8) (state : NekoState) : Option Answer :=
  if tcpTakes state.config then answer R C W (tcpPort W state.config) src packet state else none

/-- A packet that is long enough. -/
def fits (size : ℕ) (datagram : List UInt8) : Option (List UInt8) :=
  if (datagram.take size).length < 12 + 32 then none else some (datagram.take size)

/-- The receive task of the UDP pipeline. The first instance that can answer does. -/
def udpReceive (src : SocketAddr) (states : List NekoState) (datagram : List UInt8) :
    Option Answer :=
  (fits 1024 datagram).bind fun packet => states.findSome? (udpAnswer R C W src packet)

/-- The receive task of the TCP pipeline, on what it reads from a stream. -/
def tcpReceive (src : SocketAddr) (states : List NekoState) (datagram : List UInt8) :
    Option Answer :=
  (fits 256 datagram).bind fun packet => states.findSome? (tcpAnswer R C W src packet)

/-- The send task of the TCP pipeline, on what it reads from its stream to an address. -/
def tcpAck (addr : SocketAddr) (state : NekoState) (datagram : List UInt8) :
    Option ConfigureCall :=
  (fits 128 datagram).bind fun packet =>
    (openSignal C (deriveCipher C state.config.psk) packet).bind fun decrypted =>
      (readSignal decrypted).bind fun offer =>
        if offer.port = 0 ∧ state.config.mode ≠ "ip" then none
        else
          some
            { interface := state.config.interface
              peerPubKey := offer.pubKey
              endpoint := endpointText R addr.ip offer.port
              keepalive := none
              peerMtu := some offer.mtu
              autoSyncMtu := true
              mode := state.config.mode }

/-- The message after the IP header and the magic byte. -/
def rawPacket (buf : List UInt8) : Option (List UInt8) :=
  let buf := buf.take 1024
  let offset := if 20 ≤ buf.length ∧ (buf.headD 0) &&& 0xf0 = 0x40 then 20 else 0
  if offset + 1 + 12 + 32 ≤ buf.length ∧ buf[offset]? = some 0x99 then some (buf.drop (offset + 1))
  else none

theorem length_take_key {decrypted : List UInt8} (h : 32 ≤ decrypted.length) :
    (decrypted.take 32).length = 32 := List.length_take_of_le h

/-- An instance on a message of the raw pipeline. `none` is a panic. -/
def rawAnswer (proto : UInt8) (ip : IpAddr) (packet : List UInt8) (state : NekoState) :
    Option (Option Answer) :=
  if rawTakes proto state.config then
    match openSignal C (deriveCipher C state.config.psk) packet with
    | none => some none
    | some decrypted =>
      if h : 32 ≤ decrypted.length then
        some (some
          { call :=
              { interface := state.config.interface
                peerPubKey := ⟨decrypted.take 32, length_take_key h⟩
                endpoint := R.ipAddr ip
                keepalive := state.config.persistentKeepalive
                peerMtu :=
                  if 34 ≤ decrypted.length then
                    some (UInt16.ofNat (beValue (slice decrypted 32 34)))
                  else none
                autoSyncMtu := state.config.mtu = some 0
                mode := "ip" }
            reply := 0x99 :: ownSignal C W state (R.ipAddr ip) "ip" none })
      else none
  else some none

/-- The receive task of the raw pipeline of a protocol. Every instance that can answer does. -/
def rawReceive (proto : UInt8) (ip : IpAddr) (states : List NekoState) (buf : List UInt8) :
    Option (List Answer) :=
  match rawPacket buf with
  | none => some []
  | some packet => (states.mapM (rawAnswer R C W proto ip packet)).map List.reduceOption

end

/-! ## Reading what was written -/

section

variable {C : Prims}

@[simp] theorem length_sealSignal {key : Bytes 32} {nonce : Bytes 12} {msg : List UInt8} :
    (sealSignal C key nonce msg).length = msg.length + 28 := by
  simp only [sealSignal, List.length_append, List.Vector.toList_length]
  omega

@[simp] theorem length_signal {pubKey : Bytes 32} {mtu : UInt16} {port : Option UInt16} :
    (signal pubKey mtu port).length = if port.isSome then 36 else 34 := by
  cases port <;> simp [signal]

theorem openSignal_congr {key : Bytes 32} {nonce : Bytes 12} {n : ℕ} (v : Bytes (n + 16))
    {packet : List UInt8} (h : nonce.toList ++ v.toList = packet) :
    openSignal C key packet = (C.aeadOpen key nonce [] v).map List.Vector.toList := by
  have hlen : packet.length = n + 28 := by
    rw [← h, List.length_append, List.Vector.toList_length, List.Vector.toList_length]
    omega
  have htake : nonce.toList = packet.take 12 := by
    rw [← h]
    exact (List.take_left' nonce.toList_length).symm
  have hdrop : v.toList = packet.drop 12 := by
    rw [← h]
    exact (List.drop_left' nonce.toList_length).symm
  obtain rfl : n = packet.length - 28 := by omega
  obtain rfl : nonce = ⟨packet.take 12, by rw [List.length_take]; omega⟩ := Subtype.ext htake
  obtain rfl : v = ⟨packet.drop 12, by rw [List.length_drop]; omega⟩ := Subtype.ext hdrop
  exact dif_pos (by omega)

/-- Who has the key opens the message. -/
theorem openSignal_sealSignal [C.Lawful] (key : Bytes 32) (nonce : Bytes 12) (msg : List UInt8) :
    openSignal C key (sealSignal C key nonce msg) = some msg := by
  have hopen : openSignal C key (sealSignal C key nonce msg) =
      (C.aeadOpen key nonce [] (C.aeadSeal key nonce [] (ofList msg))).map List.Vector.toList :=
    openSignal_congr _ rfl
  rw [hopen, Prims.Lawful.open_seal]
  rfl

/-- The key comes first in a message. -/
theorem take_signal (pubKey : Bytes 32) (mtu : UInt16) (port : Option UInt16) :
    (signal pubKey mtu port).take 32 = pubKey.toList := by
  rw [signal, List.append_assoc]
  exact List.take_left' pubKey.toList_length

/-- The MTU follows the key. -/
theorem slice_signal (pubKey : Bytes 32) (mtu : UInt16) (port : Option UInt16) :
    slice (signal pubKey mtu port) 32 34 = beBytes 2 mtu.toNat := by
  have hkey : pubKey.toList.length = 32 := pubKey.toList_length
  rw [signal, slice_append_left (by simp), slice_append_right (by simp), hkey]
  exact slice_zero_length (length_beBytes _ _)

theorem ofNat_beValue_beBytes (n : UInt16) : UInt16.ofNat (beValue (beBytes 2 n.toNat)) = n := by
  have hlt := n.toNat_lt
  rw [beValue_beBytes_of_lt (by omega), UInt16.ofNat_toNat]

theorem readSignal_signal (pubKey : Bytes 32) (mtu port : UInt16) :
    readSignal (signal pubKey mtu (some port)) = some ⟨pubKey, mtu, port⟩ := by
  have hportPart : slice (signal pubKey mtu (some port)) 34 36 = beBytes 2 port.toNat := by
    rw [signal, slice_append_right (by simp), List.length_append, pubKey.toList_length,
      length_beBytes]
    exact slice_zero_length (length_beBytes _ _)
  unfold readSignal
  rw [dif_pos (by simp)]
  simp only [take_signal, slice_signal, hportPart, ofNat_beValue_beBytes]
  rfl

end

section

variable {R : Printers} {C : Prims} {W W' : World} {src : SocketAddr} {state state' : NekoState}
  {addr : List Char} {mode : String} {port : UInt16}

/-- What the message of an instance says. -/
def ownOffer (W : World) (state : NekoState) (addr : List Char) (mode : String) (port : UInt16) :
    Offer :=
  ⟨state.pubKey, offeredMtu W state.config addr mode, port⟩

theorem readSignal_ownSignal [C.Lawful] :
    (openSignal C (deriveCipher C state.config.psk)
        (ownSignal C W state addr mode (some port))).bind readSignal =
      some (ownOffer W state addr mode port) := by
  rw [ownSignal, openSignal_sealSignal, Option.bind_some, readSignal_signal, ownOffer]

/-- What an instance with the same key makes of a message: it is passed over exactly when it has no
port. -/
theorem answer_ownSignal [C.Lawful] (hpsk : state'.config.psk = state.config.psk)
    (hmode : state'.config.mode ≠ "ip") {own : UInt16} :
    answer R C W' own src (ownSignal C W state addr mode (some port)) state' =
      if port = 0 then none
      else some (answerOf R C W' own src (ownOffer W state addr mode port) state') := by
  unfold answer
  rw [hpsk, ← Option.bind_assoc, readSignal_ownSignal, Option.bind_some]
  by_cases hport : port = 0
  · rw [if_pos ⟨hport, hmode⟩, if_pos hport]
  · rw [if_neg fun hboth => hport hboth.1, if_neg hport]

@[simp] theorem length_ownSignal {port : Option UInt16} :
    (ownSignal C W state addr mode port).length = if port.isSome then 64 else 62 := by
  rw [ownSignal, length_sealSignal, length_signal]
  split_ifs <;> rfl

/-- A message of an instance fits into every buffer. -/
theorem fits_ownSignal {size : ℕ} (h : 64 ≤ size) :
    fits size (ownSignal C W state addr mode (some port)) =
      some (ownSignal C W state addr mode (some port)) := by
  have hlen : (ownSignal C W state addr mode (some port)).length = 64 := by simp
  unfold fits
  rw [List.take_of_length_le (by omega), if_neg (by omega)]

theorem mode_of_udpTakes {config : NekoConfig} (h : udpTakes config = true) :
    config.mode = "udp" := by
  simp only [udpTakes, Bool.and_eq_true, decide_eq_true_eq] at h
  exact h.1

end

/-! ## The first that answers -/

section

variable {R : Printers} {C : Prims} {W W' : World} {src : SocketAddr} {state : NekoState}
  {states : List NekoState} {addr : List Char} {mode : String} {port : UInt16}

theorem findSome?_eq {α β : Type*} {l : List α} {takes : α → Bool} {f : α → Option β} {g : α → β}
    (h : ∀ a ∈ l, f a = if takes a then some (g a) else none) :
    l.findSome? f = (l.find? takes).map g := by
  induction l with
  | nil => rfl
  | cons a l ih =>
    have ha := h a List.mem_cons_self
    rw [List.findSome?_cons, List.find?_cons, ha]
    cases takes a with
    | true => rfl
    | false => exact ih fun b hb => h b (List.mem_cons_of_mem _ hb)

/-- **What a node with the same key makes of a message of the UDP pipeline**: without a port it is
passed over, and otherwise the first instance of the pipeline answers. -/
theorem udpReceive_ownSignal [C.Lawful]
    (hpsk : ∀ s ∈ states, udpTakes s.config → s.config.psk = state.config.psk) :
    udpReceive R C W' src states (ownSignal C W state addr mode (some port)) =
      if port = 0 then none
      else (states.find? fun s => udpTakes s.config).map fun s =>
        answerOf R C W' (udpPort W' s.config) src (ownOffer W state addr mode port) s := by
  have hanswer : ∀ s ∈ states,
      udpAnswer R C W' src (ownSignal C W state addr mode (some port)) s =
        if udpTakes s.config ∧ port ≠ 0 then
          some (answerOf R C W' (udpPort W' s.config) src (ownOffer W state addr mode port) s)
        else none := by
    intro s hs
    unfold udpAnswer
    by_cases htakes : udpTakes s.config = true
    · have hmode : s.config.mode ≠ "ip" := by
        rw [mode_of_udpTakes htakes]
        decide
      rw [if_pos htakes, answer_ownSignal (hpsk s hs htakes) hmode]
      by_cases hport : port = 0
      · rw [if_pos hport, if_neg fun hboth => hboth.2 hport]
      · rw [if_neg hport, if_pos ⟨htakes, hport⟩]
    · rw [if_neg htakes, if_neg fun hboth => htakes hboth.1]
  unfold udpReceive
  rw [fits_ownSignal (by decide), Option.bind_some]
  by_cases hport : port = 0
  · rw [if_pos hport, List.findSome?_eq_none_iff]
    intro s hs
    rw [hanswer s hs, if_neg fun hboth => hboth.2 hport]
  · rw [if_neg hport]
    refine findSome?_eq fun s hs => ?_
    rw [hanswer s hs]
    simp only [hport, ne_eq, not_false_eq_true, and_true]

end

/-! ## Two instances of the concrete surrounding -/

/-- 10.0.0.1 and 10.0.0.2 -/
def sampleIp (last : UInt8) : IpAddr := .v4 ⟨[10, 0, 0, last], rfl⟩

/-- The crates on the texts of these addresses. -/
def sampleNames : Parsers where
  base64Decode _ := none
  ipAddr s := [sampleIp 1, sampleIp 2].find? fun ip => sampleIpText ip = s
  socketAddr s :=
    [SocketAddr.new (sampleIp 1) 51820, SocketAddr.new (sampleIp 2) 51820].find? fun addr =>
      sampleSocketText addr = s

def samplePeer (last : UInt8) : PeerConfig :=
  ⟨String.ofList (sampleIpText (sampleIp last)), none, none, none, none, none⟩

/-- An instance with a peer at an address. -/
def sampleInstance (key peer : UInt8) : NekoState :=
  ⟨.default "wg0" "10.9.9.1/24" "meow" [samplePeer peer], "", fill 32 key, GlobalConfig.default⟩

/-- A turn at which the data plane has a port and no peers. -/
def portWorld : World :=
  { sampleWorld with uapi := fun _ => some "protocol=udp\nlisten_port=51820\nerrno=0\n\n".toList }

theorem udpPort_portWorld (config : NekoConfig) : udpPort portWorld config = 51820 := by
  have hport : portWorld.listenPort config.interface = some 51820 := by
    show actualListenPort "protocol=udp\nlisten_port=51820\nerrno=0\n\n".toList = some 51820
    decide +kernel
  rw [udpPort, hport, Option.getD_some]

theorem udpTakes_sampleInstance (key peer : UInt8) :
    udpTakes (sampleInstance key peer).config = true := by
  simp [udpTakes, sampleInstance, NekoConfig.default]

theorem pushes_portWorld (key peer : UInt8) (hkey : fill 32 key ≠ zeros 32) :
    pushes portWorld udpTakes (sampleInstance key peer) = true := by
  have hestablished : portWorld.established "wg0" = ∅ := by decide +kernel
  unfold pushes
  rw [show (sampleInstance key peer).config.interface = "wg0" from rfl, hestablished]
  simp only [decide_true, Bool.and_true, Bool.and_eq_true, bne_iff_ne, ne_eq]
  exact ⟨udpTakes_sampleInstance key peer, hkey⟩

end NekoLink.Ctl
