import NekoLink.Device.TcpHandler
import NekoLink.Device.UdpHandler
import NekoLink.Foundations.Chunks

/-!
# What the UDP handler reads in batches

The Linux branch of `register_udp_handler` of `device/mod.rs`, as far as it receives. One invocation
builds the headers for `recvmmsg` once and reads batch after batch into them. The kernel takes
`msg_controllen` as the space for a control message and leaves there the space that it used, and it
may coalesce datagrams of one size into a message, with their size in a control message. The `iter`
of the loop is a `usize`; a subtraction below zero wraps around, as in the release build.

* `handed_fill_iff`: when one message is split into the datagrams that were sent.
* `handed_eq_sent_iff`: when the datagrams of an invocation are those that were sent.
* `second_batch_merged`: in a second batch they are not.
-/

namespace NekoLink.Device

open Wire Noise Chunks

def maxPacketCount : ℕ := 64

def cmsgLen : ℕ := 64

def solUdp : ℕ := 17

def udpGro : ℕ := 104

/-! ## The kernel -/

/-- A raw socket delivers the IPv4 header before a datagram; any other socket delivers none. -/
def IsHeader (ipProtocol : Option UInt8) (addr : SocketAddr) (header : List UInt8) : Prop :=
  if ipProtocol.isSome && addr.isIpv4 then
    20 ≤ header.length ∧ (header.headD 0 &&& 0x0f).toNat * 4 = header.length
  else header = []

theorem isHeader_nil {addr : SocketAddr} : IsHeader none addr [] := rfl

/-- A message that the socket delivers: a datagram, or some that the kernel has coalesced. -/
structure Message (ipProtocol : Option UInt8) where
  addr : SocketAddr
  header : List UInt8
  datagrams : List (List UInt8)
  /-- The size of the datagrams, when the kernel has coalesced them; it does so only when
  `enable_udp_gro` is set -/
  gsoSize : Option UInt16
  isHeader : IsHeader ipProtocol addr header
  single : gsoSize = none → ∃ datagram, datagrams = [datagram]
  coalesced : ∀ size ∈ gsoSize, ipProtocol = none ∧ Coalesced size.toNat datagrams
  fits : (header ++ datagrams.flatten).length ≤ maxUdpSize

/-- What `recvmmsg` delivers in one call. -/
structure Batch (ipProtocol : Option UInt8) where
  messages : List (Message ipProtocol)
  length_le : messages.length ≤ maxPacketCount

/-- The space that a control message with an `int` takes depends on the target. -/
structure Kernel where
  cmsgSpace : ℕ
  cmsgSpace_pos : 0 < cmsgSpace
  cmsgSpace_le : cmsgSpace ≤ cmsgLen

structure Cmsg where
  cmsgLevel : ℕ
  cmsgType : ℕ
  data : List UInt8

/-- An `mmsghdr` with the buffers that it points to. -/
structure RecvHdr where
  rawAddr : Option SocketAddr
  batchBuf : List UInt8
  cmsgBuf : List Cmsg
  msgControllen : ℕ
  msgLen : ℕ

/-- The buffers that the handlers of a thread share. -/
structure ThreadData where
  batchBufs : Fin maxPacketCount → List UInt8
  sendBatchBufs : Fin maxPacketCount → List UInt8
  cmsgBufs : Fin maxPacketCount → List Cmsg

/-- The headers of an invocation. -/
def ThreadData.hdrs (t : ThreadData) : List RecvHdr :=
  List.ofFn fun i =>
    { rawAddr := none
      batchBuf := t.batchBufs i
      cmsgBuf := t.cmsgBufs i
      msgControllen := cmsgLen
      msgLen := 0 }

section Kernel

variable {ipProtocol : Option UInt8} (K : Kernel)

def Message.bytes (m : Message ipProtocol) : List UInt8 := m.header ++ m.datagrams.flatten

/-- The kernel writes a message to a header. -/
def RecvHdr.fill (hdr : RecvHdr) (m : Message ipProtocol) : RecvHdr :=
  let data := m.bytes.take maxUdpSize
  let hdr :=
    { hdr with
      rawAddr := some m.addr
      batchBuf := data ++ hdr.batchBuf.drop data.length
      msgLen := data.length }
  match m.gsoSize with
  | some size =>
    if K.cmsgSpace ≤ hdr.msgControllen then
      { hdr with cmsgBuf := [⟨solUdp, udpGro, leBytes 4 size.toNat⟩], msgControllen := K.cmsgSpace }
    else { hdr with msgControllen := 0 }
  | none => { hdr with msgControllen := 0 }

/-- The headers after a call; only as many are written as messages come. -/
def recvmmsg : List RecvHdr → List (Message ipProtocol) → List RecvHdr
  | hdr :: hdrs, m :: messages => hdr.fill K m :: recvmmsg hdrs messages
  | hdrs, _ => hdrs

end Kernel

/-! ## The handler -/

/-- The size of the segments, from the control message; zero when there is none. -/
def RecvHdr.groSegmentSize (hdr : RecvHdr) : ℕ :=
  if 0 < hdr.msgControllen then
    match hdr.cmsgBuf.find? fun cmsg => cmsg.cmsgLevel = solUdp ∧ cmsg.cmsgType = udpGro with
    | some cmsg => leValue (cmsg.data.take 2)
    | none => 0
  else 0

/-- What a header holds; without a segment size it is one segment. -/
def RecvHdr.received (hdr : RecvHdr) : Received where
  addr := hdr.rawAddr
  groSegmentSize := if hdr.groSegmentSize = 0 then hdr.msgLen else hdr.groSegmentSize
  srcBuf := hdr.batchBuf.take hdr.msgLen

/-- What the handler does from `verify_packet` on, and at the end of a batch. What a datagram draws
and reads has the type `D`. -/
structure BatchHandler (S D : Type*) where
  datagram : D → SocketAddr → List UInt8 → S → Option S
  flush : S → S

namespace BatchHandler

variable {S D : Type*} {ipProtocol : Option UInt8} (H : BatchHandler S D)

/-- `while current_offset < pkt_len` -/
def segments (ipProtocol : Option UInt8) (addr : SocketAddr) :
    (ℕ → D) → List (List UInt8) → S → Option S
  | _, [], s => some s
  | draws, segment :: rest, s =>
    match payload ipProtocol addr segment with
    | none => segments ipProtocol addr (fun k => draws (k + 1)) rest s
    | some packet =>
      (H.datagram (draws 0) addr packet s).bind
        (segments ipProtocol addr (fun k => draws (k + 1)) rest)

/-- `for i in 0..count` -/
def slots (ipProtocol : Option UInt8) : (ℕ → ℕ → D) → List Received → S → Option S
  | _, [], s => some s
  | draws, r :: rest, s =>
    match r.addr with
    | none => slots ipProtocol (fun k => draws (k + 1)) rest s
    | some addr =>
      (H.segments ipProtocol addr (draws 0) (r.srcBuf.toChunks r.groSegmentSize) s).bind
        (slots ipProtocol (fun k => draws (k + 1)) rest)

/-- The loop over the batches, and the batches that it reads. -/
def loop (K : Kernel) {usizeBits : ℕ} :
    BitVec usizeBits → (ℕ → ℕ → ℕ → D) → List RecvHdr → List (Batch ipProtocol) → S →
      Option (S × List (Batch ipProtocol))
  | _, _, _, [], s => some (s, [])
  | iter, draws, hdrs, batch :: rest, s =>
    let hdrs := recvmmsg K hdrs batch.messages
    let count := batch.messages.length
    if count = 0 then some (s, [batch])
    else
      (H.slots ipProtocol (draws 0) ((hdrs.take count).map RecvHdr.received) s).bind fun s =>
        let s := H.flush s
        let iter := iter - BitVec.ofNat usizeBits count
        if iter = 0 ∨ count < maxPacketCount then some (s, [batch])
        else
          (loop K iter (fun k => draws (k + 1)) hdrs rest s).map fun (s, read) => (s, batch :: read)

/-- An invocation on a socket that has these batches. -/
def invoke (K : Kernel) (usizeBits : ℕ) (t : ThreadData) (draws : ℕ → ℕ → ℕ → D)
    (batches : List (Batch ipProtocol)) (s : S) : Option (S × List (Batch ipProtocol)) :=
  H.loop K (BitVec.ofNat usizeBits maxItr) draws t.hdrs batches s

/-- The handler with a log of what it gives to `verify_packet`. -/
def logged : BatchHandler (S × List (SocketAddr × List UInt8)) D where
  datagram draw addr packet q :=
    (H.datagram draw addr packet q.1).map fun s => (s, q.2 ++ [(addr, packet)])
  flush q := (H.flush q.1, q.2)

end BatchHandler

/-! ## One message -/

/-- The datagrams of a header, as `verify_packet` gets them. -/
def Received.handed (ipProtocol : Option UInt8) (r : Received) : List (SocketAddr × List UInt8) :=
  match r.addr with
  | none => []
  | some addr =>
    (r.srcBuf.toChunks r.groSegmentSize).filterMap fun segment =>
      (payload ipProtocol addr segment).map (addr, ·)

/-- The datagrams that were sent. -/
def Message.sent {ipProtocol : Option UInt8} (m : Message ipProtocol) :
    List (SocketAddr × List UInt8) :=
  m.datagrams.map (m.addr, ·)

/-- There is space for a control message, or none at all. -/
def RecvHdr.Fits (K : Kernel) (hdr : RecvHdr) : Prop :=
  hdr.msgControllen = 0 ∨ K.cmsgSpace ≤ hdr.msgControllen

section Message

variable {ipProtocol : Option UInt8} {K : Kernel} {addr : SocketAddr} {hdr : RecvHdr}

theorem payload_append {header : List UInt8} (h : IsHeader ipProtocol addr header)
    (datagram : List UInt8) : payload ipProtocol addr (header ++ datagram) = some datagram := by
  rw [IsHeader] at h
  rw [payload]
  split_ifs at h ⊢ with hraw hshort
  · rw [List.length_append] at hshort
    omega
  · obtain ⟨hle, hihl⟩ := h
    have hhead : (header ++ datagram).headD 0 = header.headD 0 := by
      rcases header with _ | ⟨b, header⟩
      · exact absurd hle (by decide)
      · rfl
    dsimp only
    rw [hhead, hihl, if_neg (by rw [List.length_append]; omega), List.drop_left]
  · rw [h, List.nil_append]

theorem Message.datagrams_ne_nil (m : Message ipProtocol) : m.datagrams ≠ [] := by
  rcases hsize : m.gsoSize with _ | size
  · obtain ⟨datagram, h⟩ := m.single hsize
    rw [h]
    exact List.cons_ne_nil _ _
  · intro h
    have hcoalesced := (m.coalesced size hsize).2
    rw [h] at hcoalesced
    cases hcoalesced

/-- The segment size is the one that the kernel attaches, when there is space for it. -/
theorem groSegmentSize_fill (m : Message ipProtocol) (hfits : hdr.Fits K) :
    (hdr.fill K m).groSegmentSize =
      match m.gsoSize with
      | some size => if 0 < hdr.msgControllen then size.toNat else 0
      | none => 0 := by
  rw [RecvHdr.fill, RecvHdr.groSegmentSize]
  rcases m.gsoSize with _ | size
  · rfl
  · rcases hfits with hzero | hspace
    · have hK := K.cmsgSpace_pos
      simp only [hzero, lt_irrefl, if_false, if_neg (show ¬ K.cmsgSpace ≤ 0 by omega)]
    · have hpos : 0 < hdr.msgControllen := K.cmsgSpace_pos.trans_le hspace
      have hu16 : leValue ((leBytes 4 size.toNat).take 2) = size.toNat := by
        have h : (leBytes 4 size.toNat).take 2 = leBytes 2 size.toNat := rfl
        rw [h, leValue_leBytes_of_lt size.toNat_lt]
      simp only [hspace, hpos, K.cmsgSpace_pos, if_true, List.find?_cons, and_self, decide_true,
        hu16]

/-- What the handler finds in a header. -/
theorem received_fill (m : Message ipProtocol) (hfits : hdr.Fits K) :
    (hdr.fill K m).received =
      { addr := some m.addr
        groSegmentSize :=
          match m.gsoSize with
          | some size => if 0 < hdr.msgControllen then size.toNat else m.bytes.length
          | none => m.bytes.length
        srcBuf := m.bytes } := by
  have htake : m.bytes.take maxUdpSize = m.bytes := List.take_of_length_le m.fits
  have hkept : (hdr.fill K m).rawAddr = some m.addr ∧ (hdr.fill K m).msgLen = m.bytes.length ∧
      (hdr.fill K m).batchBuf = m.bytes ++ hdr.batchBuf.drop m.bytes.length := by
    rw [RecvHdr.fill, htake]
    split
    · split_ifs <;> exact ⟨rfl, rfl, rfl⟩
    · exact ⟨rfl, rfl, rfl⟩
  obtain ⟨haddr, hlen, hbuf⟩ := hkept
  rw [RecvHdr.received, groSegmentSize_fill m hfits, haddr, hlen, hbuf, List.take_left]
  rcases hsize : m.gsoSize with _ | size
  · rfl
  · have hpos := (m.coalesced size hsize).2.pos
    by_cases hspace : 0 < hdr.msgControllen
    · simp only [hspace, if_true, if_neg (show ¬ size.toNat = 0 by omega)]
    · simp only [hspace, if_false, if_true]

/-- A message that is not split is one datagram, unless there is nothing in it. -/
theorem handed_whole (m : Message ipProtocol) :
    Received.handed ipProtocol ⟨some m.addr, m.bytes.length, m.bytes⟩ =
      if m.bytes = [] then [] else [(m.addr, m.datagrams.flatten)] := by
  rw [Received.handed]
  split_ifs with hempty
  · rw [hempty]
    rfl
  · dsimp only
    rw [toChunks_of_length_le hempty le_rfl, Message.bytes]
    rw [List.filterMap_cons, payload_append m.isHeader]
    rfl

/-- A message that is split. -/
theorem handed_split {datagrams : List (List UInt8)} {n : ℕ} (h : Coalesced n datagrams) :
    Received.handed none ⟨some addr, n, datagrams.flatten⟩ = datagrams.map (addr, ·) := by
  rw [Received.handed]
  dsimp only
  rw [toChunks_flatten h]
  rw [← List.filterMap_eq_map]
  rfl

/-- The datagrams of a message come out: there is something in it, and if they are several, the
kernel could say so. -/
def Message.Recovered (m : Message ipProtocol) (space : Prop) : Prop :=
  m.bytes ≠ [] ∧ (1 < m.datagrams.length → space)

theorem Message.one_le_length (m : Message ipProtocol) : 1 ≤ m.datagrams.length :=
  List.length_pos_of_ne_nil m.datagrams_ne_nil

@[simp] theorem Message.length_sent (m : Message ipProtocol) :
    m.sent.length = m.datagrams.length := List.length_map ..

/-- A message that is not split, against what was sent. -/
theorem handed_whole_iff (m : Message ipProtocol) :
    (Received.handed ipProtocol ⟨some m.addr, m.bytes.length, m.bytes⟩).length ≤ m.sent.length ∧
      (Received.handed ipProtocol ⟨some m.addr, m.bytes.length, m.bytes⟩ = m.sent ↔
        m.bytes ≠ [] ∧ m.datagrams.length = 1) := by
  have hone := m.one_le_length
  rw [handed_whole, m.length_sent]
  by_cases hempty : m.bytes = []
  · rw [if_pos hempty]
    refine ⟨Nat.zero_le _, iff_of_false (fun heq => ?_) fun h => h.1 hempty⟩
    rw [← m.length_sent, ← heq] at hone
    exact absurd hone (by decide)
  · rw [if_neg hempty]
    refine ⟨hone, fun heq => ⟨hempty, ?_⟩, fun h => ?_⟩
    · rw [← m.length_sent, ← heq, List.length_singleton]
    · obtain ⟨datagram, hdatagram⟩ := List.length_eq_one_iff.mp h.2
      rw [Message.sent, hdatagram, List.flatten_singleton, List.map_singleton]

/-- **When one message is split** into the datagrams that were sent; there are never more. -/
theorem handed_fill_iff (m : Message ipProtocol) (hfits : hdr.Fits K) :
    ((hdr.fill K m).received.handed ipProtocol).length ≤ m.sent.length ∧
      ((hdr.fill K m).received.handed ipProtocol = m.sent ↔
        m.Recovered (0 < hdr.msgControllen)) := by
  have hone := m.one_le_length
  rw [received_fill m hfits, Message.Recovered]
  rcases hsize : m.gsoSize with _ | size
  · obtain ⟨datagram, hsingle⟩ := m.single hsize
    have hlen : m.datagrams.length = 1 := by rw [hsingle, List.length_singleton]
    obtain ⟨hle, hiff⟩ := handed_whole_iff m
    refine ⟨hle, hiff.trans (and_congr_right fun _ => ?_)⟩
    simp only [hlen, lt_irrefl, false_imp_iff]
  · obtain ⟨rfl, hcoalesced⟩ := m.coalesced size hsize
    have hheader : m.header = [] := m.isHeader
    have hbytes : m.bytes = m.datagrams.flatten := by rw [Message.bytes, hheader, List.nil_append]
    dsimp only
    by_cases hspace : 0 < hdr.msgControllen
    · rw [if_pos hspace, hbytes, handed_split hcoalesced]
      exact ⟨le_of_eq rfl, iff_of_true rfl ⟨hcoalesced.flatten_ne_nil, fun _ => hspace⟩⟩
    · rw [if_neg hspace]
      obtain ⟨hle, hiff⟩ := handed_whole_iff m
      refine ⟨hle, hiff.trans (and_congr_right fun _ => ?_)⟩
      constructor
      · intro hlen hlt
        omega
      · intro h
        by_contra hne
        exact hspace (h (by omega))

end Message

/-! ## The headers after a call -/

section Headers

variable {ipProtocol : Option UInt8} {K : Kernel} {hdrs : List RecvHdr}
  {messages : List (Message ipProtocol)}

theorem recvmmsg_eq (h : messages.length ≤ hdrs.length) :
    recvmmsg K hdrs messages =
      (hdrs.zip messages).map (fun x => x.1.fill K x.2) ++ hdrs.drop messages.length := by
  induction messages generalizing hdrs with
  | nil => cases hdrs <;> rfl
  | cons m messages ih =>
    rcases hdrs with _ | ⟨hdr, hdrs⟩
    · exact absurd h (by simp)
    · rw [recvmmsg, ih (Nat.le_of_succ_le_succ h)]
      rfl

theorem length_recvmmsg (h : messages.length ≤ hdrs.length) :
    (recvmmsg K hdrs messages).length = hdrs.length := by
  rw [recvmmsg_eq h, List.length_append, List.length_map, List.length_zip, List.length_drop]
  omega

theorem take_recvmmsg (h : messages.length ≤ hdrs.length) :
    (recvmmsg K hdrs messages).take messages.length =
      (hdrs.zip messages).map fun x => x.1.fill K x.2 := by
  rw [recvmmsg_eq h, List.take_left']
  rw [List.length_map, List.length_zip, Nat.min_eq_right h]

theorem fits_fill (hdr : RecvHdr) (m : Message ipProtocol) : (hdr.fill K m).Fits K := by
  rw [RecvHdr.fill]
  split
  · split_ifs
    · exact Or.inr le_rfl
    · exact Or.inl rfl
  · exact Or.inl rfl

theorem fits_recvmmsg (hfits : ∀ hdr ∈ hdrs, hdr.Fits K) (h : messages.length ≤ hdrs.length) :
    ∀ hdr ∈ recvmmsg K hdrs messages, hdr.Fits K := by
  rw [recvmmsg_eq h]
  intro hdr hmem
  rcases List.mem_append.mp hmem with hmem | hmem
  · obtain ⟨x, -, rfl⟩ := List.mem_map.mp hmem
    exact fits_fill ..
  · exact hfits hdr (List.mem_of_mem_drop hmem)

/-- Space is left by a message that had a size attached. -/
theorem space_fill {hdr : RecvHdr} (hfits : hdr.Fits K) (m : Message ipProtocol) :
    0 < (hdr.fill K m).msgControllen ↔ 0 < hdr.msgControllen ∧ m.gsoSize.isSome := by
  rw [RecvHdr.fill]
  rcases m.gsoSize with _ | size
  · simp
  · have hK := K.cmsgSpace_pos
    rcases hfits with hzero | hspace
    · simp [hzero, show ¬ K.cmsgSpace = 0 by omega]
    · simp [hspace, hK, hK.trans_le hspace]

/-- The header of a slot has space for a control message. -/
def Space (hdrs : List RecvHdr) (i : ℕ) : Prop := ∃ hdr, hdrs[i]? = some hdr ∧ 0 < hdr.msgControllen

/-- The space in a slot after a full batch. -/
theorem space_recvmmsg (hfits : ∀ hdr ∈ hdrs, hdr.Fits K) (h : messages.length = hdrs.length)
    (i : ℕ) : Space (recvmmsg K hdrs messages) i ↔
      Space hdrs i ∧ ∃ m, messages[i]? = some m ∧ m.gsoSize.isSome := by
  have hall : recvmmsg K hdrs messages = (hdrs.zip messages).map fun x => x.1.fill K x.2 := by
    rw [recvmmsg_eq h.le, h, List.drop_length, List.append_nil]
  rw [Space, hall, List.getElem?_map]
  constructor
  · rintro ⟨hdr, hget, hspace⟩
    obtain ⟨⟨hdr, m⟩, hzip, rfl⟩ := Option.map_eq_some_iff.mp hget
    obtain ⟨hhdr, hm⟩ := List.getElem?_zip_eq_some.mp hzip
    obtain ⟨hbefore, hsize⟩ := (space_fill (hfits hdr (List.mem_of_getElem? hhdr)) m).mp hspace
    exact ⟨⟨hdr, hhdr, hbefore⟩, m, hm, hsize⟩
  · rintro ⟨⟨hdr, hhdr, hbefore⟩, m, hm, hsize⟩
    refine ⟨hdr.fill K m, ?_, ?_⟩
    · rw [List.getElem?_zip_eq_some (z := (hdr, m)) |>.mpr ⟨hhdr, hm⟩, Option.map_some]
    · exact (space_fill (hfits hdr (List.mem_of_getElem? hhdr)) m).mpr ⟨hbefore, hsize⟩

/-- The datagrams of one call. -/
def handedBatch (K : Kernel) (hdrs : List RecvHdr) (messages : List (Message ipProtocol)) :
    List (SocketAddr × List UInt8) :=
  (((recvmmsg K hdrs messages).take messages.length).map RecvHdr.received).flatMap
    (Received.handed ipProtocol)

theorem handedBatch_iff (hfits : ∀ hdr ∈ hdrs, hdr.Fits K) (h : messages.length ≤ hdrs.length) :
    (handedBatch K hdrs messages).length ≤ (messages.flatMap Message.sent).length ∧
      (handedBatch K hdrs messages = messages.flatMap Message.sent ↔
        ∀ i (m : Message ipProtocol), messages[i]? = some m → m.Recovered (Space hdrs i)) := by
  have hsnd : (hdrs.zip messages).map Prod.snd = messages := List.map_snd_zip h
  have hle : ∀ x ∈ hdrs.zip messages,
      ((x.1.fill K x.2).received.handed ipProtocol).length ≤ x.2.sent.length := fun x hx =>
    (handed_fill_iff x.2 (hfits _ (List.of_mem_zip hx).1)).1
  have hhanded : handedBatch K hdrs messages =
      (hdrs.zip messages).flatMap fun x => (x.1.fill K x.2).received.handed ipProtocol := by
    rw [handedBatch, take_recvmmsg h, List.map_map, List.flatMap_map]
    rfl
  have hsent : messages.flatMap Message.sent = (hdrs.zip messages).flatMap fun x => x.2.sent := by
    conv_lhs => rw [← hsnd, List.flatMap_map]
  rw [hhanded, hsent, flatMap_eq_flatMap_iff hle]
  refine ⟨length_flatMap_le hle, ?_⟩
  constructor
  · intro hall i m hm
    have hi : i < hdrs.length := (List.getElem?_eq_some_iff.mp hm).1.trans_le h
    have hzip : (hdrs.zip messages)[i]? = some (hdrs[i], m) :=
      List.getElem?_zip_eq_some.mpr ⟨List.getElem?_eq_getElem hi, hm⟩
    obtain ⟨hne, hspace⟩ := (handed_fill_iff m (hfits _ (List.getElem_mem hi))).2.mp
      (hall _ (List.mem_of_getElem? hzip))
    exact ⟨hne, fun hlt => ⟨_, List.getElem?_eq_getElem hi, hspace hlt⟩⟩
  · rintro hall ⟨hdr, m⟩ hx
    obtain ⟨i, hzip⟩ := List.mem_iff_getElem?.mp hx
    obtain ⟨hhdr, hm⟩ := List.getElem?_zip_eq_some.mp hzip
    obtain ⟨hne, hspace⟩ := hall i m hm
    refine (handed_fill_iff m (hfits _ (List.mem_of_getElem? hhdr))).2.mpr ⟨hne, fun hlt => ?_⟩
    obtain ⟨hdr', hhdr', hpos⟩ := hspace hlt
    rw [hhdr] at hhdr'
    cases hhdr'
    exact hpos

end Headers

/-! ## All batches -/

/-- The message in a slot of a batch. -/
def messageAt {ipProtocol : Option UInt8} (read : List (Batch ipProtocol)) (k i : ℕ) :
    Option (Message ipProtocol) :=
  read[k]?.bind fun batch => batch.messages[i]?

/-- The datagrams that were sent, in the order in which they are read. -/
def sent {ipProtocol : Option UInt8} (read : List (Batch ipProtocol)) :
    List (SocketAddr × List UInt8) :=
  read.flatMap fun batch => batch.messages.flatMap Message.sent

/-- Every message comes out as what was sent: there is something in it, and when it has several
datagrams, each message before it in its slot had a size attached. -/
def Recoverable {ipProtocol : Option UInt8} (read : List (Batch ipProtocol)) : Prop :=
  ∀ k i m, messageAt read k i = some m →
    m.Recovered (∀ k' < k, ∃ m', messageAt read k' i = some m' ∧ m'.gsoSize.isSome)

section Account

variable {ipProtocol : Option UInt8} {K : Kernel} {hdrs : List RecvHdr} {batch : Batch ipProtocol}
  {read : List (Batch ipProtocol)} {handed : List (SocketAddr × List UInt8)}

/-- The datagrams that come of the batches are no more than were sent, and are those that were sent
exactly when every message comes out as what was sent. -/
def Accounts (hdrs : List RecvHdr) (read : List (Batch ipProtocol))
    (handed : List (SocketAddr × List UInt8)) : Prop :=
  handed.length ≤ (sent read).length ∧ (handed = sent read ↔ ∀ k i m, messageAt read k i = some m →
    m.Recovered (Space hdrs i ∧ ∀ k' < k, ∃ m', messageAt read k' i = some m' ∧ m'.gsoSize.isSome))

theorem accounts_nil (hdrs : List RecvHdr) : Accounts hdrs ([] : List (Batch ipProtocol)) [] :=
  ⟨le_rfl, iff_of_true rfl nofun⟩

/-- One more batch, which is full when there are others after it. -/
theorem accounts_cons (hfits : ∀ hdr ∈ hdrs, hdr.Fits K) (hle : batch.messages.length ≤ hdrs.length)
    (hfull : read ≠ [] → batch.messages.length = hdrs.length)
    (h : Accounts (recvmmsg K hdrs batch.messages) read handed) :
    Accounts hdrs (batch :: read) (handedBatch K hdrs batch.messages ++ handed) := by
  obtain ⟨hfirst, hfirst_iff⟩ := handedBatch_iff hfits hle
  obtain ⟨hrest, hrest_iff⟩ := h
  have hsent : sent (batch :: read) = batch.messages.flatMap Message.sent ++ sent read := rfl
  rw [Accounts, hsent, append_eq_append_iff_of_length_le hfirst hrest, hfirst_iff, hrest_iff,
    List.length_append, List.length_append]
  refine ⟨Nat.add_le_add hfirst hrest, ?_⟩
  -- a later message has space when its slot had space and the first batch left some there
  have hlater : ∀ k i m, messageAt read k i = some m →
      ((Space (recvmmsg K hdrs batch.messages) i ∧
          ∀ k' < k, ∃ m', messageAt read k' i = some m' ∧ m'.gsoSize.isSome) ↔
        Space hdrs i ∧
          ∀ k' < k + 1, ∃ m', messageAt (batch :: read) k' i = some m' ∧ m'.gsoSize.isSome) := by
    intro k i m hm
    have hne : read ≠ [] := by
      rintro rfl
      cases hm
    rw [space_recvmmsg hfits (hfull hne), Nat.forall_lt_succ_left', and_assoc]
    exact Iff.rfl
  constructor
  · rintro ⟨hbatch, hread⟩ k i m hm
    rcases k with _ | k
    · obtain ⟨hne, hspace⟩ := hbatch i m hm
      exact ⟨hne, fun hlt => ⟨hspace hlt, nofun⟩⟩
    · obtain ⟨hne, hspace⟩ := hread k i m hm
      exact ⟨hne, fun hlt => (hlater k i m hm).mp (hspace hlt)⟩
  · intro hall
    constructor
    · intro i m hm
      obtain ⟨hne, hspace⟩ := hall 0 i m hm
      exact ⟨hne, fun hlt => (hspace hlt).1⟩
    · intro k i m hm
      obtain ⟨hne, hspace⟩ := hall (k + 1) i m hm
      exact ⟨hne, fun hlt => (hlater k i m hm).mpr (hspace hlt)⟩

end Account

namespace BatchHandler

variable {S D : Type*} {ipProtocol : Option UInt8} {H : BatchHandler S D} {K : Kernel}
  {usizeBits : ℕ} {s s' : S} {log log' : List (SocketAddr × List UInt8)}

theorem logged_segments {addr : SocketAddr} {draws : ℕ → D} {chunks : List (List UInt8)}
    (h : H.logged.segments ipProtocol addr draws chunks (s, log) = some (s', log')) :
    log' = log ++ chunks.filterMap fun segment =>
      (payload ipProtocol addr segment).map (addr, ·) := by
  induction chunks generalizing draws s log with
  | nil =>
    cases h
    rw [List.filterMap_nil, List.append_nil]
  | cons segment chunks ih =>
    rw [segments] at h
    rw [List.filterMap_cons]
    rcases hpayload : payload ipProtocol addr segment with _ | packet
    · rw [hpayload] at h
      exact ih h
    · rw [hpayload] at h
      obtain ⟨⟨s₁, log₁⟩, hfirst, hrest⟩ := Option.bind_eq_some_iff.mp h
      obtain ⟨s₂, -, heq⟩ := Option.map_eq_some_iff.mp hfirst
      cases heq
      rw [ih hrest, List.append_assoc]
      rfl

theorem logged_slots {draws : ℕ → ℕ → D} {received : List Received}
    (h : H.logged.slots ipProtocol draws received (s, log) = some (s', log')) :
    log' = log ++ received.flatMap (Received.handed ipProtocol) := by
  induction received generalizing draws s log with
  | nil =>
    cases h
    rw [List.flatMap_nil, List.append_nil]
  | cons r received ih =>
    rw [slots] at h
    rw [List.flatMap_cons, Received.handed]
    rcases haddr : r.addr with _ | addr
    · rw [haddr] at h
      exact ih h
    · rw [haddr] at h
      obtain ⟨⟨s₁, log₁⟩, hfirst, hrest⟩ := Option.bind_eq_some_iff.mp h
      rw [ih hrest, logged_segments hfirst, List.append_assoc]

/-- What is given to `verify_packet` from any headers on. -/
theorem logged_loop {iter : BitVec usizeBits} {draws : ℕ → ℕ → ℕ → D} {hdrs : List RecvHdr}
    {batches read : List (Batch ipProtocol)} (hfits : ∀ hdr ∈ hdrs, hdr.Fits K)
    (hlen : hdrs.length = maxPacketCount)
    (h : H.logged.loop K iter draws hdrs batches (s, log) = some ((s', log'), read)) :
    ∃ handed, log' = log ++ handed ∧ Accounts hdrs read handed := by
  induction batches generalizing iter draws hdrs s log read with
  | nil =>
    cases h
    exact ⟨[], (List.append_nil _).symm, accounts_nil hdrs⟩
  | cons batch rest ih =>
    have hle : batch.messages.length ≤ hdrs.length := batch.length_le.trans_eq hlen.symm
    have hone := accounts_cons hfits hle (absurd rfl)
      (accounts_nil (recvmmsg K hdrs batch.messages))
    rw [List.append_nil] at hone
    rw [loop] at h
    dsimp only at h
    split_ifs at h with hcount hlast
    · cases h
      have hempty : handedBatch K hdrs batch.messages = [] := by
        rw [handedBatch, hcount, List.take_zero]
        rfl
      rw [hempty] at hone
      exact ⟨[], (List.append_nil _).symm, hone⟩
    · obtain ⟨⟨s₁, log₁⟩, hslots, hrest⟩ := Option.bind_eq_some_iff.mp h
      cases hrest
      exact ⟨_, logged_slots hslots, hone⟩
    · obtain ⟨⟨s₁, log₁⟩, hslots, hrest⟩ := Option.bind_eq_some_iff.mp h
      obtain ⟨⟨⟨s₂, log₂⟩, read'⟩, hloop, heq⟩ := Option.map_eq_some_iff.mp hrest
      cases heq
      have hcount : batch.messages.length = hdrs.length := by
        have := batch.length_le
        omega
      obtain ⟨handed, hlog, haccounts⟩ := ih (fits_recvmmsg hfits hle)
        ((length_recvmmsg hle).trans hlen) hloop
      refine ⟨_, ?_, accounts_cons hfits hle (fun _ => hcount) haccounts⟩
      rw [hlog, logged_slots hslots, List.append_assoc]
      rfl

end BatchHandler

/-! ## An invocation -/

theorem ThreadData.length_hdrs (t : ThreadData) : t.hdrs.length = maxPacketCount :=
  List.length_ofFn

/-- The headers of an invocation are built with space for a control message. -/
theorem ThreadData.msgControllen_hdrs {t : ThreadData} {hdr : RecvHdr} (h : hdr ∈ t.hdrs) :
    hdr.msgControllen = cmsgLen := by
  obtain ⟨i, rfl⟩ := List.mem_ofFn.mp h
  rfl

theorem ThreadData.fits_hdrs (t : ThreadData) {K : Kernel} : ∀ hdr ∈ t.hdrs, hdr.Fits K :=
  fun _ hmem => Or.inr (K.cmsgSpace_le.trans_eq (msgControllen_hdrs hmem).symm)

theorem ThreadData.space_hdrs (t : ThreadData) {i : ℕ} (h : i < maxPacketCount) :
    Space t.hdrs i := by
  have hi : i < t.hdrs.length := by rwa [t.length_hdrs]
  refine ⟨t.hdrs[i], List.getElem?_eq_getElem hi, ?_⟩
  rw [msgControllen_hdrs (List.getElem_mem hi)]
  decide

/-- **The datagrams of an invocation are those that were sent** exactly when every message has
something in it, and those before a message of several datagrams in its slot had a size attached. -/
theorem handed_eq_sent_iff {S D : Type*} {ipProtocol : Option UInt8} (H : BatchHandler S D)
    (K : Kernel) (usizeBits : ℕ) (t : ThreadData) (draws : ℕ → ℕ → ℕ → D)
    (batches : List (Batch ipProtocol)) {s s' : S} {handed : List (SocketAddr × List UInt8)}
    {read : List (Batch ipProtocol)}
    (h : H.logged.invoke K usizeBits t draws batches (s, []) = some ((s', handed), read)) :
    handed = sent read ↔ Recoverable read := by
  obtain ⟨handed', hlog, -, hiff⟩ := BatchHandler.logged_loop t.fits_hdrs t.length_hdrs h
  rw [List.nil_append] at hlog
  rw [hlog, hiff]
  constructor
  · intro hall k i m hm
    obtain ⟨hne, hspace⟩ := hall k i m hm
    exact ⟨hne, fun hlt => (hspace hlt).2⟩
  · intro hall k i m hm
    obtain ⟨hne, hspace⟩ := hall k i m hm
    obtain ⟨batch, -, hget⟩ := Option.bind_eq_some_iff.mp hm
    have hi := (List.getElem?_eq_some_iff.mp hget).1.trans_le batch.length_le
    exact ⟨hne, fun hlt => ⟨t.space_hdrs hi, hspace hlt⟩⟩

/-! ## A coalesced message in the second batch -/

/-- A kernel of a 64-bit target. -/
def linux : Kernel := ⟨24, by decide, by decide⟩

def freshThread : ThreadData where
  batchBufs _ := []
  sendBatchBufs _ := []
  cmsgBufs _ := []

/-- A handler that does nothing. -/
def ignore : BatchHandler Unit Unit where
  datagram _ _ _ s := some s
  flush s := s

/-- A datagram that comes on its own. -/
def oneDatagram (b : UInt8) : Message none where
  addr := homeAddr
  header := []
  datagrams := [[b]]
  gsoSize := none
  isHeader := isHeader_nil
  single _ := ⟨[b], rfl⟩
  coalesced := nofun
  fits := by
    rw [List.nil_append, List.flatten_singleton]
    exact Nat.le_of_ble_eq_true rfl

/-- Two datagrams that the kernel has coalesced. -/
def twoDatagrams (b b' : UInt8) : Message none where
  addr := homeAddr
  header := []
  datagrams := [[b], [b']]
  gsoSize := some 1
  isHeader := isHeader_nil
  single := nofun
  coalesced := by
    rintro size hsize
    cases hsize
    exact ⟨rfl, .cons rfl (.last (List.cons_ne_nil _ _) le_rfl)⟩
  fits := Nat.le_of_ble_eq_true rfl

/-- A full batch of one message, and a batch with two datagrams in its first slot. -/
def thenCoalesced (m : Message none) : List (Batch none) :=
  [⟨List.replicate maxPacketCount m, List.length_replicate.le⟩, ⟨[twoDatagrams 1 2], by decide⟩]

/-- Two datagrams come out after a batch of coalesced messages. -/
theorem handed_eq_sent_iff_sample :
    ∃ handed read, ignore.logged.invoke linux 64 freshThread (fun _ _ _ => ())
        (thenCoalesced (twoDatagrams 3 4)) ((), []) = some (((), handed), read) ∧
      read.length = 2 ∧ Recoverable read := by
  have hrun : (ignore.logged.invoke linux 64 freshThread (fun _ _ _ => ())
      (thenCoalesced (twoDatagrams 3 4)) ((), [])).map (fun q =>
        (decide (q.1.2 = sent q.2), q.2.length)) = some (true, 2) := by
    decide +kernel
  obtain ⟨⟨⟨s, handed⟩, read⟩, hrun, heq⟩ := Option.map_eq_some_iff.mp hrun
  obtain ⟨hsent, hlen⟩ := Prod.mk.inj heq
  exact ⟨handed, read, hrun, hlen,
    (handed_eq_sent_iff ignore linux 64 freshThread _ _ hrun).mp (of_decide_eq_true hsent)⟩

/-- **In a second batch two datagrams are merged** into one: the messages of the first batch were
single datagrams, and left no space in the headers. -/
theorem second_batch_merged :
    ∃ handed read, ignore.logged.invoke linux 64 freshThread (fun _ _ _ => ())
        (thenCoalesced (oneDatagram 3)) ((), []) = some (((), handed), read) ∧
      handed.getLast? = some (homeAddr, [1, 2]) ∧ handed ≠ sent read := by
  have hrun : (ignore.logged.invoke linux 64 freshThread (fun _ _ _ => ())
      (thenCoalesced (oneDatagram 3)) ((), [])).map (fun q =>
        (q.1.2.getLast?, decide (q.1.2 = sent q.2))) = some (some (homeAddr, [1, 2]), false) := by
    decide +kernel
  obtain ⟨⟨⟨s, handed⟩, read⟩, hrun, heq⟩ := Option.map_eq_some_iff.mp hrun
  obtain ⟨hlast, hsent⟩ := Prod.mk.inj heq
  exact ⟨handed, read, hrun, hlast, of_decide_eq_false hsent⟩

end NekoLink.Device
