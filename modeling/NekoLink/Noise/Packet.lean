import NekoLink.Noise.Prims

/-!
# The four messages

The datagrams of the protocol and `Tunn::parse_incoming_packet`. A message type has a `bytes`, the
fields in the order the formatting functions write them; the two handshake messages are followed
by their two MACs.

* `parseIncomingPacket_handshakeInit`, `parseIncomingPacket_handshakeResponse`,
  `parseIncomingPacket_cookieReply` and `parseIncomingPacket_data`: what was written is parsed back.
-/

namespace NekoLink.Noise

open Wire

/-! ## Constants -/

def handshakeInitType : ℕ := 1
def handshakeRespType : ℕ := 2
def cookieReplyType : ℕ := 3
def dataType : ℕ := 4

def handshakeInitSz : ℕ := 148
def handshakeRespSz : ℕ := 92
def cookieReplySz : ℕ := 64
def dataOverheadSz : ℕ := 32

/-! ## Messages -/

@[ext]
structure HandshakeInit where
  senderIdx : UInt32
  unencryptedEphemeral : Bytes 32
  encryptedStatic : Bytes 48
  encryptedTimestamp : Bytes 28

@[ext]
structure HandshakeResponse where
  senderIdx : UInt32
  receiverIdx : UInt32
  unencryptedEphemeral : Bytes 32
  encryptedNothing : Bytes 16

@[ext]
structure PacketCookieReply where
  receiverIdx : UInt32
  nonce : Bytes 24
  encryptedCookie : Bytes 32

/-- A data packet; its box is never shorter than the tag. -/
@[ext]
structure PacketData where
  receiverIdx : UInt32
  counter : ℕ
  encryptedEncapsulatedPacket : List UInt8
  tag_le : 16 ≤ encryptedEncapsulatedPacket.length

/-- A packet from the network. -/
inductive Packet
  | handshakeInit (p : HandshakeInit)
  | handshakeResponse (p : HandshakeResponse)
  | packetCookieReply (p : PacketCookieReply)
  | packetData (p : PacketData)

/-- The message up to its MACs. -/
def HandshakeInit.bytes (p : HandshakeInit) : List UInt8 :=
  leBytes 4 handshakeInitType ++ (leBytes 4 p.senderIdx.toNat ++ (p.unencryptedEphemeral.toList ++
    (p.encryptedStatic.toList ++ p.encryptedTimestamp.toList)))

/-- The message up to its MACs. -/
def HandshakeResponse.bytes (p : HandshakeResponse) : List UInt8 :=
  leBytes 4 handshakeRespType ++ (leBytes 4 p.senderIdx.toNat ++ (leBytes 4 p.receiverIdx.toNat ++
    (p.unencryptedEphemeral.toList ++ p.encryptedNothing.toList)))

def PacketCookieReply.bytes (p : PacketCookieReply) : List UInt8 :=
  leBytes 4 cookieReplyType ++ (leBytes 4 p.receiverIdx.toNat ++ (p.nonce.toList ++
    p.encryptedCookie.toList))

def PacketData.bytes (p : PacketData) : List UInt8 :=
  leBytes 4 dataType ++ (leBytes 4 p.receiverIdx.toNat ++ (leBytes 8 p.counter ++
    p.encryptedEncapsulatedPacket))

@[simp] theorem HandshakeInit.length_bytes (p : HandshakeInit) : p.bytes.length = 116 := by
  simp [bytes]

@[simp] theorem HandshakeResponse.length_bytes (p : HandshakeResponse) : p.bytes.length = 60 := by
  simp [bytes]

@[simp] theorem PacketCookieReply.length_bytes (p : PacketCookieReply) : p.bytes.length = 64 := by
  simp [bytes]

@[simp] theorem PacketData.length_bytes (p : PacketData) :
    p.bytes.length = 16 + p.encryptedEncapsulatedPacket.length := by
  simp only [bytes, List.length_append, length_leBytes]
  omega

/-! ## Fields -/

/-- The little-endian `u32` at an offset. -/
def u32At (src : List UInt8) (i : ℕ) : UInt32 := UInt32.ofNat (leValue (slice src i (i + 4)))

/-- The `n` bytes at an offset. -/
def fieldAt (src : List UInt8) (i n : ℕ) (h : i + n ≤ src.length) : Bytes n :=
  ⟨slice src i (i + n), by rw [length_slice h]; omega⟩

theorem u32At_eq {src : List UInt8} {i : ℕ} {x : UInt32}
    (h : slice src i (i + 4) = leBytes 4 x.toNat) : u32At src i = x := by
  have hx : x.toNat < 256 ^ 4 := x.toNat_lt
  rw [u32At, h, leValue_leBytes_of_lt hx, UInt32.ofNat_toNat]

theorem fieldAt_eq {src : List UInt8} {i n : ℕ} {v : Bytes n} (h : i + n ≤ src.length)
    (hv : slice src i (i + n) = v.toList) : fieldAt src i n h = v :=
  Subtype.ext hv

/-! ## Parsing -/

/-- Dispatch on the type and the length of a datagram. -/
def parseIncomingPacket (src : List UInt8) : Except WireGuardError Packet :=
  if src.length < 4 then .error .invalidPacket
  else
    -- Checks the type, as well as the reserved zero fields
    let packetType := (u32At src 0).toNat
    if h : packetType = handshakeInitType ∧ src.length = handshakeInitSz then
      have hl : src.length = 148 := h.2
      .ok (.handshakeInit
        { senderIdx := u32At src 4
          unencryptedEphemeral := fieldAt src 8 32 (by omega)
          encryptedStatic := fieldAt src 40 48 (by omega)
          encryptedTimestamp := fieldAt src 88 28 (by omega) })
    else if h : packetType = handshakeRespType ∧ src.length = handshakeRespSz then
      have hl : src.length = 92 := h.2
      .ok (.handshakeResponse
        { senderIdx := u32At src 4
          receiverIdx := u32At src 8
          unencryptedEphemeral := fieldAt src 12 32 (by omega)
          encryptedNothing := fieldAt src 44 16 (by omega) })
    else if h : packetType = cookieReplyType ∧ src.length = cookieReplySz then
      have hl : src.length = 64 := h.2
      .ok (.packetCookieReply
        { receiverIdx := u32At src 4
          nonce := fieldAt src 8 24 (by omega)
          encryptedCookie := fieldAt src 32 32 (by omega) })
    else if h : packetType = dataType ∧ dataOverheadSz ≤ src.length then
      have hl : 32 ≤ src.length := h.2
      .ok (.packetData
        { receiverIdx := u32At src 4
          counter := leValue (slice src 8 16)
          encryptedEncapsulatedPacket := src.drop 16
          tag_le := by rw [List.length_drop]; omega })
    else .error .invalidPacket

theorem u32At_zero_type {n : ℕ} {rest : List UInt8} (h : n < 256 ^ 4) :
    (u32At (leBytes 4 n ++ rest) 0).toNat = n := by
  rw [u32At, slice_append_zero (by simp), leValue_leBytes_of_lt h, UInt32.toNat_ofNat_of_lt' h]

theorem not_type {n a b : ℕ} {q : Prop} (h : n = a) (hne : a ≠ b) : ¬ (n = b ∧ q) :=
  fun h' => hne (h.symm.trans h'.1)

/-- An initiation is parsed back, whatever its MACs. -/
theorem parseIncomingPacket_handshakeInit (p : HandshakeInit) (macs : Bytes 32) :
    parseIncomingPacket (p.bytes ++ macs.toList) = .ok (.handshakeInit p) := by
  have htype : (u32At (p.bytes ++ macs.toList) 0).toNat = handshakeInitType := by
    rw [HandshakeInit.bytes, List.append_assoc, u32At_zero_type (by decide)]
  have hlen : (p.bytes ++ macs.toList).length = handshakeInitSz := by simp [handshakeInitSz]
  rw [parseIncomingPacket, if_neg (by rw [hlen]; decide), dif_pos ⟨htype, hlen⟩]
  refine congrArg (fun q => Except.ok (Packet.handshakeInit q)) (HandshakeInit.ext ?_ ?_ ?_ ?_)
  · apply u32At_eq
    simp (disch := simp) [HandshakeInit.bytes, slice_append_right, slice_append_zero]
  · refine fieldAt_eq (by rw [hlen]; decide) ?_
    simp (disch := simp) [HandshakeInit.bytes, slice_append_right, slice_append_zero]
  · refine fieldAt_eq (by rw [hlen]; decide) ?_
    simp (disch := simp) [HandshakeInit.bytes, slice_append_right, slice_append_zero]
  · refine fieldAt_eq (by rw [hlen]; decide) ?_
    simp (disch := simp) [HandshakeInit.bytes, slice_append_right, slice_append_zero]

/-- A response is parsed back, whatever its MACs. -/
theorem parseIncomingPacket_handshakeResponse (p : HandshakeResponse) (macs : Bytes 32) :
    parseIncomingPacket (p.bytes ++ macs.toList) = .ok (.handshakeResponse p) := by
  have htype : (u32At (p.bytes ++ macs.toList) 0).toNat = handshakeRespType := by
    rw [HandshakeResponse.bytes, List.append_assoc, u32At_zero_type (by decide)]
  have hlen : (p.bytes ++ macs.toList).length = handshakeRespSz := by simp [handshakeRespSz]
  rw [parseIncomingPacket, if_neg (by rw [hlen]; decide), dif_neg (not_type htype (by decide)),
    dif_pos ⟨htype, hlen⟩]
  refine congrArg (fun q => Except.ok (Packet.handshakeResponse q))
    (HandshakeResponse.ext ?_ ?_ ?_ ?_)
  · apply u32At_eq
    simp (disch := simp) [HandshakeResponse.bytes, slice_append_right, slice_append_zero]
  · apply u32At_eq
    simp (disch := simp) [HandshakeResponse.bytes, slice_append_right, slice_append_zero]
  · refine fieldAt_eq (by rw [hlen]; decide) ?_
    simp (disch := simp) [HandshakeResponse.bytes, slice_append_right, slice_append_zero]
  · refine fieldAt_eq (by rw [hlen]; decide) ?_
    simp (disch := simp) [HandshakeResponse.bytes, slice_append_right, slice_append_zero]

/-- A cookie reply is parsed back. -/
theorem parseIncomingPacket_cookieReply (p : PacketCookieReply) :
    parseIncomingPacket p.bytes = .ok (.packetCookieReply p) := by
  have htype : (u32At p.bytes 0).toNat = cookieReplyType := by
    rw [PacketCookieReply.bytes, u32At_zero_type (by decide)]
  have hlen : p.bytes.length = cookieReplySz := by simp [cookieReplySz]
  rw [parseIncomingPacket, if_neg (by rw [hlen]; decide), dif_neg (not_type htype (by decide)),
    dif_neg (not_type htype (by decide)), dif_pos ⟨htype, hlen⟩]
  refine congrArg (fun q => Except.ok (Packet.packetCookieReply q)) (PacketCookieReply.ext ?_ ?_ ?_)
  · apply u32At_eq
    simp (disch := simp) [PacketCookieReply.bytes, slice_append_right, slice_append_zero]
  · refine fieldAt_eq (by rw [hlen]; decide) ?_
    simp (disch := simp) [PacketCookieReply.bytes, slice_append_right, slice_append_zero]
  · refine fieldAt_eq (by rw [hlen]; decide) ?_
    simp (disch := simp) [PacketCookieReply.bytes, slice_append_right, slice_zero_length]

/-- A data packet is parsed back as long as its counter is a `u64`. -/
theorem parseIncomingPacket_data (p : PacketData) (hc : p.counter < 2 ^ 64) :
    parseIncomingPacket p.bytes = .ok (.packetData p) := by
  have htype : (u32At p.bytes 0).toNat = dataType := by
    rw [PacketData.bytes, u32At_zero_type (by decide)]
  have hlen : dataOverheadSz ≤ p.bytes.length := by
    have := p.tag_le
    simp only [PacketData.length_bytes, dataOverheadSz]
    omega
  have h4 : ¬ p.bytes.length < 4 := by simp only [dataOverheadSz] at hlen; omega
  rw [parseIncomingPacket, if_neg h4, dif_neg (not_type htype (by decide)),
    dif_neg (not_type htype (by decide)), dif_neg (not_type htype (by decide)),
    dif_pos ⟨htype, hlen⟩]
  refine congrArg (fun q => Except.ok (Packet.packetData q)) (PacketData.ext ?_ ?_ ?_)
  · apply u32At_eq
    simp (disch := simp) [PacketData.bytes, slice_append_right, slice_append_zero]
  · have hslice : slice p.bytes 8 16 = leBytes 8 p.counter := by
      simp (disch := simp) [PacketData.bytes, slice_append_right, slice_append_zero]
    simp only [hslice]
    exact leValue_leBytes_of_lt hc
  · simp [PacketData.bytes, ← List.append_assoc]

/-- A parsed data packet's box is what follows its sixteen bytes of header. -/
theorem box_of_parseIncomingPacket {src : List UInt8} {p : PacketData}
    (h : parseIncomingPacket src = .ok (.packetData p)) :
    p.encryptedEncapsulatedPacket = src.drop 16 := by
  rw [parseIncomingPacket] at h
  dsimp only at h
  split_ifs at h <;> cases h
  rfl

end NekoLink.Noise
