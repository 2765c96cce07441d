import NekoLink.Device.EventLoop
import NekoLink.Device.RecvBatches
import NekoLink.Noise.Channel

/-!
# Packets of every length

What the handler of `register_iface_handler` does with an IP packet that it has read into the first
`mtu` bytes of its buffer. The packet is encapsulated into the thread's other buffer, and behind its
length it has to fit the framing buffer of a TCP receiver. All four sizes are within three bytes of
each other.

* `sends_encapsulate_iff`: which packets a tunnel sends.
* `sends_mtu_iff`: for which MTU it sends every packet.
* `large_mtu_panics`: a packet that the MTU allows and the buffer does not.
-/

namespace NekoLink.Device

open Wire Noise

/-! ## What a receiver takes -/

/-- The framing of a receiver holds the frame of a datagram: a read takes it into the empty buffer,
and the datagram comes out, not too long for the handler. -/
def Framed (datagram : List UInt8) : Prop :=
  datagram.length ≤ maxUdpSize ∧
    ∃ t, TcpFraming.new.round (frame headerLen datagram, 1) = some (t, [datagram])

/-- What the buffer of a UDP or raw IP socket keeps of a datagram is all of it. The total length in
the IPv4 header of a raw datagram is a `u16`. -/
def Kept (ipProtocol : Option UInt8) (datagram : List UInt8) : Prop :=
  ∀ addr header, IsHeader ipProtocol addr header → (header ++ datagram).length < 2 ^ 16 →
    payload ipProtocol addr ((header ++ datagram).take maxUdpSize) = some datagram

/-- A datagram arrives in the buffers of the receiving device. -/
structure Carried (mode : TransportMode) (datagram : List UInt8) : Prop where
  /-- The length written before it is its own. -/
  lenBytes : mode = .tcp → beValue (beBytes headerLen datagram.length) = datagram.length
  framed : mode = .tcp → Framed datagram
  kept : mode ≠ .tcp → ∀ ipProtocol, Kept ipProtocol datagram
  /-- The box fits the buffer that it is opened in. -/
  opened : ∀ p, parseIncomingPacket datagram = .ok (.packetData p) →
    p.encryptedEncapsulatedPacket.length ≤ maxUdpSize

/-- The bytes that a transport puts before a datagram in the receiver's buffer. -/
def frameOverhead : TransportMode → ℕ
  | .tcp => headerLen
  | .udp | .rawIp => 0

section Carried

variable {datagram : List UInt8} {mode : TransportMode}

theorem framed_iff (h : datagram.length ≤ maxUdpSize) :
    Framed datagram ↔ datagram.length + headerLen ≤ maxUdpSize := by
  have hlen : (frame headerLen datagram).length = headerLen + datagram.length := length_frame _ _
  constructor
  · rintro ⟨-, t, hround⟩
    by_contra hlong
    have hread : TcpFraming.new.readInto (frame headerLen datagram) = none := by
      refine dif_neg fun hfit => hlong ?_
      have hfit' : 0 + (frame headerLen datagram).length ≤ maxUdpSize := hfit
      omega
    rw [TcpFraming.round, hread] at hround
    cases hround
  · intro hfit
    have hfit' : TcpFraming.new.unprocessedI + (frame headerLen datagram).length ≤
        maxDatagramSize := by
      have hfree : 0 + (headerLen + datagram.length) ≤ maxUdpSize := by omega
      rwa [hlen]
    obtain ⟨t, hround, -⟩ := TcpFraming.round_eq hfit' 1
    refine ⟨h, t, hround.trans ?_⟩
    have hshort : datagram.length < 256 ^ headerLen := lt_of_le_of_lt h (by decide)
    have hnext := nextFrame_frame hshort []
    rw [List.append_nil] at hnext
    rw [TcpFraming.buffered_new, List.nil_append, takeFrames, hnext]
    rfl

theorem kept (ipProtocol : Option UInt8) (datagram : List UInt8) : Kept ipProtocol datagram := by
  intro addr header hheader hlen
  have hfits : (header ++ datagram).length ≤ maxUdpSize := Nat.le_of_lt_succ hlen
  rw [List.take_of_length_le hfits, payload_append hheader]

/-- **A datagram from the thread's buffer arrives** when it has room behind its length. -/
theorem carried_iff (h : datagram.length ≤ maxUdpSize) :
    Carried mode datagram ↔ datagram.length + frameOverhead mode ≤ maxUdpSize := by
  constructor
  · intro hcarried
    cases mode with
    | tcp => exact (framed_iff h).mp (hcarried.framed rfl)
    | udp | rawIp => exact h
  · intro hfit
    refine ⟨fun _ => beValue_beBytes_of_lt (lt_of_le_of_lt h (by decide)), ?_,
      fun _ ipProtocol => kept ipProtocol datagram, fun p hp => ?_⟩
    · rintro rfl
      exact (framed_iff h).mpr hfit
    · rw [box_of_parseIncomingPacket hp, List.length_drop]
      exact (Nat.sub_le _ _).trans h

theorem carried_of_le (h : datagram.length + headerLen ≤ maxUdpSize) : Carried mode datagram := by
  refine (carried_iff (le_trans (Nat.le_add_right _ _) h)).mpr (le_trans ?_ h)
  cases mode <;> simp [frameOverhead]

end Carried

/-! ## What a tunnel sends -/

variable {C : Prims}

/-- The handler goes on after a call of the tunnel, and what is sent arrives. -/
def Sends (mode : TransportMode) (result : Option (Tunn C × TunnResult)) : Prop :=
  ∃ t r, result = some (t, r) ∧
    (r = .done ∨ (∃ e, r = .err e) ∨ ∃ datagram, r = .writeToNetwork datagram ∧
      Carried mode datagram)

variable {mode : TransportMode} {t : Tunn C} {env : Env} {src : List UInt8}

theorem sends_of_quiet {r : TunnResult} (h : Tunn.Quiet r) : Sends mode (some (t, r)) := by
  refine ⟨t, r, rfl, ?_⟩
  rcases h with h | h | ⟨reply, h⟩
  · exact Or.inl h
  · exact Or.inr (Or.inl h)
  · refine Or.inr (Or.inr ⟨_, h, carried_of_le ?_⟩)
    rw [PacketCookieReply.length_bytes]
    decide

/-- Without a session a handshake is started, if at all. -/
theorem sends_initiation (hs : t.sessions.get t.current = none) :
    Sends mode (t.encapsulate env src maxUdpSize) := by
  rw [Tunn.encapsulate, hs]
  dsimp only
  obtain ⟨-, hquiet⟩ | ⟨cookies, macs, -, hr⟩ :=
    Tunn.formatHandshakeInitiation_cases (t.queuePacket src) env maxUdpSize false
  · exact sends_of_quiet hquiet
  · refine ⟨_, _, rfl, Or.inr (Or.inr ⟨_, hr, carried_of_le ?_⟩)⟩
    rw [List.length_append, HandshakeInit.length_bytes, List.Vector.toList_length]
    decide

theorem length_dataPacket (s : Session) (counter : ℕ) (src : List UInt8) :
    (s.dataPacket C counter src).bytes.length = src.length + dataOverheadSz := by
  rw [PacketData.length_bytes, Session.dataPacket, List.Vector.toList_length, dataOverheadSz]
  omega

/-- With a session, the packet has to fit behind all that is put before it. -/
theorem sends_session_iff {s : Session} (hs : t.sessions.get t.current = some s) :
    Sends mode (t.encapsulate env src maxUdpSize) ↔
      src.length + dataOverheadSz + frameOverhead mode ≤ maxUdpSize := by
  by_cases hd : src.length + dataOverheadSz ≤ maxUdpSize
  · obtain ⟨t', hencapsulate, -⟩ := Tunn.encapsulate_session env hs hd
    have hlen := length_dataPacket (C := C) s s.sendingKeyCounter src
    have hiff : Carried mode _ ↔ _ := carried_iff (hlen.trans_le hd)
    rw [hlen] at hiff
    rw [hencapsulate, ← hiff]
    constructor
    · rintro ⟨_, _, heq, hdone | ⟨e, herr⟩ | ⟨datagram, hdatagram, hcarried⟩⟩
      · cases heq
        cases hdone
      · cases heq
        cases herr
      · cases heq
        cases hdatagram
        exact hcarried
    · exact fun hcarried => ⟨_, _, rfl, Or.inr (Or.inr ⟨_, rfl, hcarried⟩)⟩
  · -- the destination buffer is too small, and the thread panics
    refine iff_of_false ?_ fun hfit => hd (le_trans (Nat.le_add_right _ _) hfit)
    rintro ⟨_, _, heq, -⟩
    rw [Tunn.encapsulate, hs] at heq
    dsimp only at heq
    rw [Session.formatPacketData, if_pos (Nat.lt_of_not_le hd)] at heq
    cases heq

/-- The length has room, unless there is no session to encapsulate under. -/
def HasRoom (mode : TransportMode) (t : Tunn C) (n : ℕ) : Prop :=
  t.sessions.get t.current = none ∨ n + dataOverheadSz + frameOverhead mode ≤ maxUdpSize

/-- **Which packets a tunnel sends.** -/
theorem sends_encapsulate_iff :
    Sends mode (t.encapsulate env src maxUdpSize) ↔ HasRoom mode t src.length := by
  rcases hs : t.sessions.get t.current with _ | s
  · exact iff_of_true (sends_initiation hs) (Or.inl hs)
  · rw [sends_session_iff hs, HasRoom, hs]
    exact ⟨Or.inr, fun h => h.resolve_left (Option.some_ne_none s)⟩

/-- A packet that has waited for the session is encapsulated no differently. -/
theorem sends_queued_iff {rest : List (List UInt8)} (hq : t.packetQueue = src :: rest) :
    Sends mode (t.sendQueuedPacket env maxUdpSize) ↔ HasRoom mode t src.length := by
  have hencapsulate : Sends mode
      (({ t with packetQueue := rest } : Tunn C).encapsulate env src maxUdpSize) ↔
        HasRoom mode t src.length := sends_encapsulate_iff
  rw [← hencapsulate, Tunn.sendQueuedPacket, hq]
  dsimp only
  rcases ({ t with packetQueue := rest } : Tunn C).encapsulate env src maxUdpSize with _ | ⟨t', r⟩
  · exact Iff.rfl
  · cases r with
    | err e =>
      exact iff_of_true ⟨_, _, rfl, Or.inl rfl⟩ ⟨_, _, rfl, Or.inr (Or.inl ⟨e, rfl⟩)⟩
    | done | writeToNetwork | writeToTunnelV4 | writeToTunnelV6 =>
      constructor
      all_goals
        rintro ⟨_, _, h, h'⟩
        cases h
        exact ⟨_, _, rfl, h'⟩

/-! ## The MTU -/

/-- An IPv4 packet of some length, as far as the handler looks at it. -/
def ipPacketOf (n : ℕ) : List UInt8 := 0x45 :: List.replicate (n - 1) 0

theorem length_ipPacketOf {n : ℕ} (h : 0 < n) : (ipPacketOf n).length = n := by
  rw [ipPacketOf, List.length_cons, List.length_replicate, Nat.sub_add_cancel h]

theorem isSome_dstAddress_ipPacketOf {n : ℕ} (h : 20 ≤ n) : (dstAddress (ipPacketOf n)).isSome := by
  have hlen : (ipPacketOf n).length = n := length_ipPacketOf (by omega)
  have hversion : (ipPacketOf n).headD 0 >>> 4 = 4 := by
    rw [ipPacketOf, List.headD_cons]
    decide
  rw [dstAddress, dif_pos ⟨hversion, hlen.ge.trans' h⟩]
  rfl

/-- **For which MTU every packet is sent**: one that leaves room for the data packet and the frame
around it, as long as there is a session. For a single packet, and for one that has waited in the
queue, it is the packet's own length that counts. -/
theorem sends_mtu_iff (mode : TransportMode) (t : Tunn C) (env : Env) :
    (∀ mtu, (∀ src, (dstAddress src).isSome → src.length ≤ mtu →
        Sends mode (t.encapsulate env src maxUdpSize)) ↔ HasRoom mode t mtu) ∧
      (∀ src, Sends mode (t.encapsulate env src maxUdpSize) ↔ HasRoom mode t src.length) ∧
      ∀ src rest, t.packetQueue = src :: rest →
        (Sends mode (t.sendQueuedPacket env maxUdpSize) ↔ HasRoom mode t src.length) := by
  refine ⟨fun mtu => ⟨fun hall => ?_, fun hroom src _ hlen => ?_⟩,
    fun src => sends_encapsulate_iff, fun src rest hq => sends_queued_iff hq⟩
  · rcases lt_or_ge mtu 20 with hshort | hlong
    · refine Or.inr ?_
      have hoverhead : frameOverhead mode ≤ 2 := by cases mode <;> decide
      simp only [dataOverheadSz, maxUdpSize]
      omega
    · have hlen := length_ipPacketOf (show 0 < mtu by omega)
      have hsends := hall (ipPacketOf mtu) (isSome_dstAddress_ipPacketOf hlong) hlen.le
      rwa [sends_encapsulate_iff, hlen] at hsends
  · refine sends_encapsulate_iff.mpr (hroom.imp id fun hfit => ?_)
    omega

/-- With a session and the MTU 65535, a packet of 65504 bytes panics the thread. In TCP mode one of
65502 bytes is sent, and the receiver's buffer has no room for its frame. -/
theorem large_mtu_panics :
    (dstAddress (ipPacketOf 65504)).isSome ∧ (ipPacketOf 65504).length ≤ 65535 ∧
      Tunn.sampleSender.encapsulate (Tunn.sampleEnv 0 2) (ipPacketOf 65504) maxUdpSize = none ∧
      (dstAddress (ipPacketOf 65502)).isSome ∧ (ipPacketOf 65502).length ≤ 65535 ∧
      ∃ t datagram, Tunn.sampleSender.encapsulate (Tunn.sampleEnv 0 2) (ipPacketOf 65502)
        maxUdpSize = some (t, .writeToNetwork datagram) ∧ ¬ Framed datagram := by
  have hlen := length_ipPacketOf (show 0 < 65504 by omega)
  have hlen' := length_ipPacketOf (show 0 < 65502 by omega)
  have hs : Tunn.sampleSender.sessions.get Tunn.sampleSender.current =
      some (Tunn.sampleSession 0x100 0x200 3 4) := rfl
  refine ⟨isSome_dstAddress_ipPacketOf (by omega), by omega, ?_,
    isSome_dstAddress_ipPacketOf (by omega), by omega, ?_⟩
  · rw [Tunn.encapsulate, hs]
    dsimp only
    rw [Session.formatPacketData, if_pos (by rw [hlen]; decide)]
    rfl
  · obtain ⟨t', hencapsulate, -⟩ := Tunn.encapsulate_session (Tunn.sampleEnv 0 2) hs
      (show (ipPacketOf 65502).length + dataOverheadSz ≤ maxUdpSize by rw [hlen']; decide)
    refine ⟨t', _, hencapsulate, fun hframed => ?_⟩
    have hdatagram := length_dataPacket (C := checksumPrims) (Tunn.sampleSession 0x100 0x200 3 4)
      (Tunn.sampleSession 0x100 0x200 3 4).sendingKeyCounter (ipPacketOf 65502)
    rw [hlen'] at hdatagram
    rw [framed_iff (hdatagram.trans_le (by decide)), hdatagram] at hframed
    exact absurd hframed (by decide)

end NekoLink.Device
