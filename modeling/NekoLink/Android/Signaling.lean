import NekoLink.Ctl.Signaling

/-!
# The client on Android

`perform_handshake_internal` of `nekolink-android/src/lib.rs` sends one message to the UDP pipeline
of a server and reads the answer. The two crates have their own code for the same format.

* `performHandshakeInternal_eq_ok`: when a call succeeds.
* `udpReceive_clientSignal`: what a server makes of a message of a client.
* `readResponse_answerOf`: what the client makes of an answer.
* `exchanged_iff`: the two understand each other exactly when the client names a port.
* `handshake_refused`: the client does not.
-/

namespace NekoLink.Android

open Wire Noise Device Ctl Text

/-- Two fallible steps, one after the other. -/
theorem bind_eq_ok {ε α β : Type} {x : Except ε α} {f : α → Except ε β} {b : β} :
    (x >>= f) = .ok b ↔ ∃ a, x = .ok a ∧ f a = .ok b := by
  cases x with
  | error e => exact iff_of_false nofun (by rintro ⟨a, ha, -⟩; cases ha)
  | ok a =>
    constructor
    · exact fun h => ⟨a, rfl, h⟩
    · rintro ⟨a', ha, h⟩
      cases ha
      exact h

/-- What is given back as JSON when the exchange succeeds. -/
structure HandshakeResult where
  peerPubKey : List Char
  endpoint : List Char
  mtu : UInt16

section

variable (J : Codec) (C : Prims)

/-- The same as in the daemon. -/
def decodeBase64Safe (s : List Char) : Option (List UInt8) := decodeBase64 J s

/-- The server address with a port. -/
def signalingTarget (serverAddr : List Char) : List Char :=
  if ':' ∈ serverAddr then serverAddr else serverAddr ++ ":12580".toList

/-- A message of a client. -/
def clientSignal (psk : String) (nonce : Bytes 12) (pubKey : Bytes 32) (mtu port : UInt16) :
    List UInt8 :=
  sealSignal C (deriveCipher C psk) nonce (signal pubKey mtu (some port))

/-- What the client sends. -/
def handshakeRequest (nonce : Bytes 12) (psk : String) (myPubKey : List Char) :
    Except String (List UInt8) :=
  match decodeBase64Safe J myPubKey with
  | none => .error "Base64 decode failed"
  | some myPubBytes =>
    if h : myPubBytes.length = 32 then
      -- placeholders for the MTU and the port
      .ok (clientSignal C psk nonce ⟨myPubBytes, h⟩ 0 0)
    else .error "Invalid public key length"

/-- What the client makes of the answer. -/
def readResponse (psk : String) (target : List Char) (response : List UInt8) :
    Except String HandshakeResult :=
  let packet := response.take 2048
  if packet.length < 12 + 32 then .error "Response too short"
  else
    match openSignal C (deriveCipher C psk) packet with
    | none => .error "Decryption failed"
    | some decrypted =>
      match readSignal decrypted with
      | none => .error "Decrypted payload too short"
      | some offer =>
        .ok
          { peerPubKey := J.base64Encode offer.pubKey.toList
            endpoint := target.takeWhile (· ≠ ':') ++ ':' :: writeUnsigned offer.port.toNat
            mtu := offer.mtu }

/-- What a call of the client finds outside, with the errors of the system. -/
structure Net where
  /-- `UdpSocket::bind` -/
  bind : SocketAddr → Except String Unit
  /-- The addresses of a `host:port`, by `ToSocketAddrs` -/
  resolve : List Char → Except String (List SocketAddr)
  /-- `send_to` of the socket bound to the first address, to the second -/
  sendTo : SocketAddr → SocketAddr → List UInt8 → Except String Unit
  /-- `recv_from` within five seconds -/
  recvFrom : Except String (List UInt8)

/-- `0.0.0.0:0` -/
def unspecified : SocketAddr := .v4 (zeros 4) 0

/-- `send_to` takes the first address of its target. -/
def sendToFirst (N : Net) : List SocketAddr → List UInt8 → Except String Unit
  | [], _ => .error "no addresses to send data to"
  | addr :: _, pkt => N.sendTo unspecified addr pkt

/-- `perform_handshake_internal` -/
def performHandshakeInternal (N : Net) (nonce : Bytes 12) (serverAddr : List Char) (psk : String)
    (myPubKey : List Char) : Except String HandshakeResult := do
  N.bind unspecified
  let target := signalingTarget serverAddr
  let pkt ← handshakeRequest J C nonce psk myPubKey
  let addrs ← N.resolve target
  sendToFirst N addrs pkt
  let response ← N.recvFrom
  readResponse J C psk target response

variable {J C} {N : Net} {nonce : Bytes 12} {serverAddr myPubKey : List Char} {psk : String}
  {result : HandshakeResult}

/-- A call succeeds when the message is sent to the first address of the target and the answer can
be read. -/
theorem performHandshakeInternal_eq_ok :
    performHandshakeInternal J C N nonce serverAddr psk myPubKey = .ok result ↔
      N.bind unspecified = .ok () ∧ ∃ pkt addr addrs response,
        handshakeRequest J C nonce psk myPubKey = .ok pkt ∧
        N.resolve (signalingTarget serverAddr) = .ok (addr :: addrs) ∧
        N.sendTo unspecified addr pkt = .ok () ∧ N.recvFrom = .ok response ∧
        readResponse J C psk (signalingTarget serverAddr) response = .ok result := by
  unfold performHandshakeInternal
  simp only [bind_eq_ok]
  constructor
  · rintro ⟨⟨⟩, hbind, pkt, hrequest, addrs, hresolve, ⟨⟩, hsend, response, hrecv, hread⟩
    cases addrs with
    | nil => cases hsend
    | cons addr addrs =>
      exact ⟨hbind, pkt, addr, addrs, response, hrequest, hresolve, hsend, hrecv, hread⟩
  · rintro ⟨hbind, pkt, addr, addrs, response, hrequest, hresolve, hsend, hrecv, hread⟩
    exact ⟨(), hbind, pkt, hrequest, addr :: addrs, hresolve, (), hsend, response, hrecv, hread⟩

end

/-! ## The server -/

section

variable {J : Codec} {R : Printers} {C : Prims} {W : World} {src : SocketAddr} {psk : String}
  {nonce : Bytes 12} {pubKey : Bytes 32} {mtu port : UInt16} {state : NekoState}
  {states : List NekoState}

@[simp] theorem length_clientSignal : (clientSignal C psk nonce pubKey mtu port).length = 64 := by
  rw [clientSignal, length_sealSignal, length_signal]
  rfl

/-- An instance with the same key: a message without a port is passed over. -/
theorem answer_clientSignal [C.Lawful] (hpsk : state.config.psk = psk)
    (hmode : state.config.mode ≠ "ip") {own : UInt16} :
    answer R C W own src (clientSignal C psk nonce pubKey mtu port) state =
      if port = 0 then none else some (answerOf R C W own src ⟨pubKey, mtu, port⟩ state) := by
  unfold answer
  rw [hpsk, clientSignal, openSignal_sealSignal, Option.bind_some, readSignal_signal,
    Option.bind_some]
  by_cases hport : port = 0
  · rw [if_pos ⟨hport, hmode⟩, if_pos hport]
  · rw [if_neg fun hboth => hport hboth.1, if_neg hport]

/-- An instance of the UDP pipeline with the client's key. -/
def serves (psk : String) (state : NekoState) : Bool :=
  udpTakes state.config && state.config.psk = psk

/-- The instances of the pipeline with other keys do not open the message. -/
def Sealed (C : Prims) (psk : String) (states : List NekoState) (packet : List UInt8) : Prop :=
  ∀ s ∈ states, udpTakes s.config = true → s.config.psk ≠ psk →
    openSignal C (deriveCipher C s.config.psk) packet = none

/-- **What a server makes of a message of a client**: without a port it is passed over, and
otherwise the first instance with the key answers. -/
theorem udpReceive_clientSignal [C.Lawful]
    (hsealed : Sealed C psk states (clientSignal C psk nonce pubKey mtu port)) :
    udpReceive R C W src states (clientSignal C psk nonce pubKey mtu port) =
      if port = 0 then none
      else (states.find? (serves psk)).map fun s =>
        answerOf R C W (udpPort W s.config) src ⟨pubKey, mtu, port⟩ s := by
  have hanswer : ∀ s ∈ states,
      udpAnswer R C W src (clientSignal C psk nonce pubKey mtu port) s =
        if (serves psk s && port != 0) = true then
          some (answerOf R C W (udpPort W s.config) src ⟨pubKey, mtu, port⟩ s)
        else none := by
    intro s hs
    unfold udpAnswer
    by_cases htakes : udpTakes s.config = true
    · rw [if_pos htakes]
      by_cases hpsk : s.config.psk = psk
      · have hmode : s.config.mode ≠ "ip" := by
          rw [mode_of_udpTakes htakes]
          decide
        rw [answer_clientSignal hpsk hmode]
        by_cases hport : port = 0
        · rw [if_pos hport, if_neg (by simp [hport])]
        · rw [if_neg hport, if_pos (by simp [serves, htakes, hpsk, hport])]
      · rw [answer, hsealed s hs htakes hpsk, Option.bind_none,
          if_neg (by simp [serves, hpsk])]
    · rw [if_neg htakes, if_neg (by simp [serves, htakes])]
  have hfits : fits 1024 (clientSignal C psk nonce pubKey mtu port) =
      some (clientSignal C psk nonce pubKey mtu port) := by
    have hlen : (clientSignal C psk nonce pubKey mtu port).length = 64 := length_clientSignal
    rw [fits, List.take_of_length_le (by omega), if_neg (by omega)]
  unfold udpReceive
  rw [hfits, Option.bind_some, findSome?_eq hanswer]
  by_cases hport : port = 0
  · rw [if_pos hport, List.find?_eq_none.mpr fun s _ => by simp [hport], Option.map_none]
  · have hserves : (fun s => serves psk s && port != 0) = serves psk := by
      funext s
      rw [bne_iff_ne.mpr hport, Bool.and_true]
    rw [if_neg hport, hserves]

/-- What the client makes of a message with its key. -/
theorem readResponse_sealSignal [C.Lawful] (target : List Char) :
    readResponse J C psk target
        (sealSignal C (deriveCipher C psk) nonce (signal pubKey mtu (some port))) =
      .ok
        { peerPubKey := J.base64Encode pubKey.toList
          endpoint := target.takeWhile (· ≠ ':') ++ ':' :: writeUnsigned port.toNat
          mtu } := by
  have hlen : (sealSignal C (deriveCipher C psk) nonce (signal pubKey mtu (some port))).length =
      64 := length_clientSignal
  rw [readResponse, List.take_of_length_le (by omega), if_neg (by omega), openSignal_sealSignal]
  dsimp only
  rw [readSignal_signal]

/-- **What the client makes of an answer.** -/
theorem readResponse_answerOf [C.Lawful] (hpsk : state.config.psk = psk) (target : List Char)
    (offer : Offer) :
    readResponse J C psk target (answerOf R C W port src offer state).reply =
      .ok
        { peerPubKey := J.base64Encode state.pubKey.toList
          endpoint := target.takeWhile (· ≠ ':') ++ ':' :: writeUnsigned port.toNat
          mtu := offeredMtu W state.config (R.ipAddr src.ip) state.config.mode } := by
  rw [answerOf, ← hpsk]
  exact readResponse_sealSignal target

end

/-! ## The exchange -/

section

variable (J : Codec) (R : Printers) (C : Prims) (W : World) (src : SocketAddr) (psk : String)
  (serverAddr : List Char)

/-- The host of an address `host` or `host:port`. -/
def hostOf (serverAddr : List Char) : List Char := serverAddr.takeWhile (· ≠ ':')

/-- The server takes the client's message, an instance configures the client's key and answers, and
the client reads from the answer what the instance is, at the host that it has contacted. -/
def Exchanged (states : List NekoState) (state : NekoState) (pubKey : Bytes 32)
    (packet : List UInt8) : Prop :=
  ∃ a, udpReceive R C W src states packet = some a ∧ a.call.interface = state.config.interface ∧
    a.call.peerPubKey = pubKey ∧ readResponse J C psk (signalingTarget serverAddr) a.reply = .ok
      { peerPubKey := J.base64Encode state.pubKey.toList
        endpoint := hostOf serverAddr ++ ':' :: writeUnsigned (udpPort W state.config).toNat
        mtu := offeredMtu W state.config (R.ipAddr src.ip) state.config.mode }

variable {J R C W src psk serverAddr} {nonce : Bytes 12} {pubKey : Bytes 32} {mtu port : UInt16}
  {state : NekoState} {states : List NekoState} {packet : List UInt8}

theorem takeWhile_signalingTarget (serverAddr : List Char) :
    (signalingTarget serverAddr).takeWhile (· ≠ ':') = hostOf serverAddr := by
  rw [signalingTarget]
  split_ifs with hport
  · rfl
  · have hall : ∀ c ∈ serverAddr, decide (c ≠ ':') = true :=
      fun c hc => decide_eq_true fun heq => hport (heq ▸ hc)
    rw [List.takeWhile_append_of_pos hall, hostOf, List.takeWhile_eq_self_iff.mpr hall]
    exact List.append_nil _

/-- **The two crates understand each other** exactly when the client names a port. -/
theorem exchanged_iff [C.Lawful] (hserves : states.find? (serves psk) = some state)
    (hsealed : Sealed C psk states (clientSignal C psk nonce pubKey mtu port)) :
    Exchanged J R C W src psk serverAddr states state pubKey
      (clientSignal C psk nonce pubKey mtu port) ↔ port ≠ 0 := by
  rw [Exchanged, udpReceive_clientSignal hsealed, hserves, Option.map_some]
  by_cases hport : port = 0
  · rw [if_pos hport]
    exact iff_of_false (fun ⟨a, ha, _⟩ => by cases ha) (not_not.mpr hport)
  · rw [if_neg hport]
    have hpsk : state.config.psk = psk := by
      have hfound := List.find?_some hserves
      rw [serves, Bool.and_eq_true, decide_eq_true_eq] at hfound
      exact hfound.2
    refine iff_of_true ⟨_, rfl, rfl, rfl, ?_⟩ hport
    rw [readResponse_answerOf hpsk, takeWhile_signalingTarget]

theorem handshakeRequest_of_decode {myPubKey : List Char}
    (h : decodeBase64Safe J myPubKey = some pubKey.toList) :
    handshakeRequest J C nonce psk myPubKey = .ok (clientSignal C psk nonce pubKey 0 0) := by
  rw [handshakeRequest, h]
  exact dif_pos pubKey.toList_length

/-- The client sends a message without an MTU and without a port. -/
theorem handshakeRequest_eq_ok {myPubKey : List Char}
    (h : handshakeRequest J C nonce psk myPubKey = .ok packet) :
    ∃ pubKey : Bytes 32, decodeBase64Safe J myPubKey = some pubKey.toList ∧
      packet = clientSignal C psk nonce pubKey 0 0 := by
  rw [handshakeRequest] at h
  split at h
  · cases h
  · next myPubBytes hdecode =>
    split_ifs at h with hlen
    cases h
    exact ⟨⟨myPubBytes, hlen⟩, hdecode, rfl⟩

/-- **The handshake of a client is refused** by every server, for every key and every address: the
server takes it as the message of a node whose data plane does not run. -/
theorem handshake_refused [C.Lawful] {myPubKey : List Char}
    (hrequest : handshakeRequest J C nonce psk myPubKey = .ok packet)
    (hsealed : Sealed C psk states packet) :
    ¬Exchanged J R C W src psk serverAddr states state pubKey packet := by
  obtain ⟨key, -, rfl⟩ := handshakeRequest_eq_ok hrequest
  rintro ⟨a, ha, -⟩
  rw [udpReceive_clientSignal hsealed, if_pos rfl] at ha
  cases ha

end

/-! ## A client and a server with a port -/

/-- A key of thirty-two ones, as text. -/
def sampleKey : List Char := "AQEBAQEBAQEBAQEBAQEBAQEBAQEBAQEBAQEBAQEBAQE=".toList

/-- Base64 of this key alone. -/
def sampleCodec : Codec where
  base64Decode s := if s = sampleKey then some (List.replicate 32 1) else none
  ipAddr _ := none
  socketAddr _ := none
  base64Encode b := if b = List.replicate 32 1 then sampleKey else []
  globalConfig _ := none
  nekoConfig _ := none

theorem decode_sampleKey :
    decodeBase64Safe sampleCodec sampleKey = some (fill 32 1).toList := by
  decide +kernel

/-- The address of the client, as the server sees it. -/
def sampleSrc : SocketAddr := .new (sampleIp 1) 40000

theorem handshake_refused_sample :
    ∃ packet, handshakeRequest sampleCodec checksumPrims (zeros 12) "meow" sampleKey =
        .ok packet ∧
      ¬Exchanged sampleCodec samplePrinters checksumPrims portWorld sampleSrc "meow"
        "10.0.0.2".toList [sampleInstance 8 1] (sampleInstance 8 1) (fill 32 1) packet := by
  have hrequest : handshakeRequest sampleCodec checksumPrims (zeros 12) "meow"
      sampleKey = .ok (clientSignal checksumPrims "meow" (zeros 12) (fill 32 1) 0 0) :=
    handshakeRequest_of_decode decode_sampleKey
  refine ⟨_, hrequest, handshake_refused hrequest fun s hs _ hpsk => ?_⟩
  rw [List.mem_singleton.mp hs] at hpsk
  exact absurd rfl hpsk

/-- **A running server does not answer** the client. -/
theorem handshake_unanswered :
    ¬ ∀ (psk : String) (pubKey : Bytes 32) (nonce : Bytes 12) (myPubKey serverAddr : List Char)
      (W : World) (src : SocketAddr) (state : NekoState) (port : UInt16) (packet : List UInt8),
      decodeBase64Safe sampleCodec myPubKey = some pubKey.toList →
      udpTakes state.config = true → state.config.psk = psk →
      udpPort W state.config = port → port ≠ 0 →
      handshakeRequest sampleCodec checksumPrims nonce psk myPubKey = .ok packet →
      Exchanged sampleCodec samplePrinters checksumPrims W src psk serverAddr [state] state pubKey
        packet := by
  intro hclaim
  obtain ⟨a, ha, -⟩ := hclaim "meow" (fill 32 1) (zeros 12) sampleKey
    "10.0.0.2".toList portWorld sampleSrc (sampleInstance 8 1) 51820 _ decode_sampleKey
    (udpTakes_sampleInstance 8 1) rfl (udpPort_portWorld _) (by decide)
    (handshakeRequest_of_decode decode_sampleKey)
  rw [udpReceive_clientSignal fun s hs _ hpsk => by
    rw [List.mem_singleton.mp hs] at hpsk
    exact absurd rfl hpsk, if_pos rfl] at ha
  cases ha

end NekoLink.Android
