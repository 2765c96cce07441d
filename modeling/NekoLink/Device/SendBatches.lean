import NekoLink.Device.ConnectedSockets
import NekoLink.Device.RecvBatches
import NekoLink.Foundations.Batching

/-!
# What the UDP handler sends in batches

The rest of the Linux branch of `register_udp_handler`, which stores what it has to send and passes
it to `sendmmsg` by the batch, and the branch of the other systems, which calls `recv_from` and
`send_to` for every datagram. It is assumed that `sendmmsg` sends every message that it is given.

* `enqueue_buffer`: the arrays with `send_len` are a buffer that is sent when it is full.
* `batchedDatagram_eq`: a datagram does the same in both branches.
* `linuxUdp_eq_otherUdp`: and so does an invocation.
-/

namespace NekoLink.Device

open Wire Noise Routing Chunks Batching

/-! ## The arrays for `sendmmsg` -/

/-- An `mmsghdr` with the buffer, the length and the address that it points to. -/
structure SendHdr where
  sendBatchBuf : List UInt8
  iovLen : ℕ
  sendAddr : Option SocketAddr

/-- What an invocation has to send, and what it has sent and written to the interface. -/
structure Outbox where
  sendLen : ℕ
  sendHdrs : List SendHdr
  /-- The messages of each call of `sendmmsg` -/
  calls : List (List (List UInt8 × Option SocketAddr))
  /-- `send_len` each time that there is a packet to store -/
  stores : List ℕ
  iface : List (List UInt8)

def SendHdr.message (hdr : SendHdr) : List UInt8 × Option SocketAddr :=
  (hdr.sendBatchBuf.take hdr.iovLen, hdr.sendAddr)

/-- The arrays of an invocation. -/
def ThreadData.outbox (t : ThreadData) : Outbox where
  sendLen := 0
  sendHdrs := List.ofFn fun i => ⟨t.sendBatchBufs i, 0, none⟩
  calls := []
  stores := []
  iface := []

namespace Outbox

variable (out : Outbox)

def sendmmsg : Outbox :=
  { out with
    calls := out.calls ++ [(out.sendHdrs.take out.sendLen).map SendHdr.message]
    sendLen := 0 }

/-- Store a packet and its address; a packet that is longer than the buffer is a panic. -/
def store (addr : SocketAddr) (packet : List UInt8) : Option Outbox :=
  if out.sendLen < maxPacketCount then
    if packet.length ≤ maxUdpSize then
      some { out with
        sendHdrs := out.sendHdrs.modify out.sendLen fun hdr =>
          { sendBatchBuf := packet ++ hdr.sendBatchBuf.drop packet.length
            iovLen := packet.length
            sendAddr := some addr }
        sendLen := out.sendLen + 1 }
    else none
  else some out

/-- What all three copies of the code do with a packet; the batch is sent when it is full. -/
def enqueue (addr : SocketAddr) (packet : List UInt8) : Option Outbox :=
  ({ out with stores := out.stores ++ [out.sendLen] }.store addr packet).map fun (out : Outbox) =>
    if out.sendLen = maxPacketCount then out.sendmmsg else out

/-- Flush any remaining packets. -/
def flush : Outbox := if 0 < out.sendLen then out.sendmmsg else out

def write (packet : List UInt8) : Outbox := { out with iface := out.iface ++ [packet] }

end Outbox

variable {C : Prims} {T : Type → Type} [Table T IpNetwork IpAddr]

/-! ## The Linux branch -/

/-- A packet out of the tunnel goes to the interface when its source is allowed. -/
def writeToTunnel (d : Device C T) (i : PeerRef) (packet : List UInt8) (addr : IpAddr)
    (out : Outbox) : Outbox :=
  match d.lock i with
  | some p => if p.isAllowedIp addr then out.write packet else out
  | none => out

/-- Store queued packets, `n` of them at most. -/
def flushQueueBatched (i : PeerRef) (addr : SocketAddr) :
    ℕ → (ℕ → Env) → Device C T → Outbox → Option (Device C T × Outbox)
  | 0, _, d, out => some (d, out)
  | n + 1, envs, d, out =>
    (d.nextQueued i (envs 0)).bind fun (d, res) =>
      match res with
      | .writeToNetwork packet =>
        (out.enqueue addr packet).bind (flushQueueBatched i addr n (fun k => envs (k + 1)) d)
      | _ => some (d, out)

/-- One datagram, from `verify_packet` on. -/
def batchedDatagram (d : Device C T) (keyPair : KeyPair C) (limiter : RateLimiter) (envs : ℕ → Env)
    (addr : SocketAddr) (packet : List UInt8) (out : Outbox) : Option (Device C T × Outbox) :=
  match d.verify keyPair limiter (envs 0) addr.ip packet with
  | (d, .cookie cookie) => (out.enqueue addr cookie).map fun out => (d, out)
  | (d, .refused) | (d, .unknown) => some (d, out)
  | (d, .packet i packet) =>
    (d.step (.peer i (.handleVerifiedPacket (envs 1) packet maxUdpSize))).bind fun (d, res) =>
      match res with
      | .err _ => some (d, out)
      | res =>
        (d.step (.peer i (.setEndpoint addr.finalAddr))).bind fun (d, _) =>
          match res with
          | .writeToNetwork packet =>
            (out.enqueue addr packet).bind
              (flushQueueBatched i addr (d.rounds i) (fun k => envs (k + 2)) d)
          | .writeToTunnelV4 packet addr => some (d, d.writeToTunnel i packet (.v4 addr) out)
          | .writeToTunnelV6 packet addr => some (d, d.writeToTunnel i packet (.v6 addr) out)
          | .done | .err _ => some (d, out)

namespace Server

/-- What the handling of a datagram draws and reads, and the connected socket that it opens. -/
abbrev Draw := (ℕ → Env) × Option Opened

variable (s : Server C T)

/-- The datagram is handled without an error. -/
def handled (keyPair : KeyPair C) (limiter : RateLimiter) (draw : Draw) (addr : SocketAddr)
    (packet : List UInt8) : Bool :=
  match s.device.receiver keyPair limiter (draw.1 0) addr.ip packet with
  | none => false
  | some (i, packet) => s.device.handles i (draw.1 1) packet

/-- The sockets after a datagram: `set_endpoint` and `connect_endpoint`. -/
def connect (keyPair : KeyPair C) (limiter : RateLimiter) (draw : Draw) (addr : SocketAddr)
    (packet : List UInt8) : Option Network :=
  match s.device.receiver keyPair limiter (draw.1 0) addr.ip packet with
  | none => some s.net
  | some (i, packet) =>
    if s.device.handles i (draw.1 1) packet then s.moveEndpoint i addr.finalAddr draw.2
    else some s.net

/-- What the Linux branch does with the datagrams that it reads. -/
def linuxHandler : BatchHandler (Server C T × Outbox) Draw where
  datagram draw addr packet q :=
    match q.1.device.keyPair, q.1.device.rateLimiter with
    | some keyPair, some limiter =>
      (q.1.device.batchedDatagram keyPair limiter draw.1 addr packet q.2).bind fun (device, out) =>
        (q.1.connect keyPair limiter draw addr packet).map fun net =>
          ({ q.1 with device, net }, out)
    | _, _ => some q
  flush q := (q.1, q.2.flush)

/-- An invocation of the Linux branch, and the batches that it reads; without a private key it does
nothing. -/
def linuxUdp (K : Kernel) (usizeBits : ℕ) (t : ThreadData) (draws : ℕ → ℕ → ℕ → Draw)
    (batches : List (Batch s.ipProtocol)) :
    Option ((Server C T × Outbox) × List (Batch s.ipProtocol)) :=
  match s.device.keyPair, s.device.rateLimiter with
  | some _, some _ => linuxHandler.invoke K usizeBits t draws batches (s, t.outbox)
  | _, _ => some ((s, t.outbox), [])

/-! ## The other branch -/

/-- One datagram, with what is sent and whether it is handled without an error. -/
def plainDatagram (draw : Draw) (addr : SocketAddr) (packet : List UInt8) :
    Option (Server C T × List Sent × Bool) :=
  match s.device.keyPair, s.device.rateLimiter with
  | some keyPair, some limiter =>
    (s.device.handleDatagram keyPair limiter draw.1 addr packet).bind fun (device, sent) =>
      (s.connect keyPair limiter draw addr packet).map fun net =>
        ({ s with device, net }, sent, s.handled keyPair limiter draw addr packet)
  | _, _ => some (s, [], false)

/-- `while let Ok((packet_len, addr)) = udp.recv_from(src_buf)`, with what is sent in answer to each
address, and what is left to read. Only a datagram that is handled counts. -/
def recvFrom (ipProtocol : Option UInt8) :
    ℕ → List (Draw × SocketAddr × List UInt8) → Server C T →
      Option ((Server C T × List (SocketAddr × Sent)) × List (Draw × SocketAddr × List UInt8))
  | _, [], s => some ((s, []), [])
  | iter, (draw, addr, src) :: rest, s =>
    match payload ipProtocol addr src with
    | none => recvFrom ipProtocol iter rest s
    | some packet =>
      (s.plainDatagram draw addr packet).bind fun (s, sent, handled) =>
        let iter := if handled then iter - 1 else iter
        if handled ∧ iter = 0 then some ((s, sent.map (addr, ·)), rest)
        else
          (recvFrom ipProtocol iter rest s).map fun ((s, later), unread) =>
            ((s, sent.map (addr, ·) ++ later), unread)

/-- An invocation of the other branch. -/
def otherUdp (received : List (Draw × SocketAddr × List UInt8)) :
    Option ((Server C T × List (SocketAddr × Sent)) × List (Draw × SocketAddr × List UInt8)) :=
  match s.device.keyPair, s.device.rateLimiter with
  | some _, some _ => recvFrom s.ipProtocol maxItr received s
  | _, _ => some ((s, []), received)

end Server

/-! ## The arrays are a buffer -/

namespace Outbox

variable {out out' out'' : Outbox} {addr : SocketAddr} {packet : List UInt8}
  {wire wire' : List (List UInt8 × Option SocketAddr)} {written written' : List (List UInt8)}

theorem maxPacketCount_pos : 0 < maxPacketCount := by decide

/-- The messages that are stored, and those that are sent. -/
def buffer (out : Outbox) : Buffer (List UInt8 × Option SocketAddr) where
  pending := (out.sendHdrs.take out.sendLen).map SendHdr.message
  calls := out.calls

/-- There is room for one more message, and there was whenever one was stored. -/
structure Ready (out : Outbox) : Prop where
  length_sendHdrs : out.sendHdrs.length = maxPacketCount
  sendLen_lt : out.sendLen < maxPacketCount
  stores_lt : ∀ i ∈ out.stores, i < maxPacketCount

/-- What has been added to what is sent and to what is written. -/
structure Adds (out out' : Outbox) (wire : List (List UInt8 × Option SocketAddr))
    (written : List (List UInt8)) : Prop where
  ready : out'.Ready
  delivered : out'.buffer.delivered = out.buffer.delivered ++ wire
  iface : out'.iface = out.iface ++ written

theorem Ready.adds (h : out.Ready) : out.Adds out [] [] :=
  ⟨h, (List.append_nil _).symm, (List.append_nil _).symm⟩

theorem Adds.trans (h : out.Adds out' wire written) (h' : out'.Adds out'' wire' written') :
    out.Adds out'' (wire ++ wire') (written ++ written') where
  ready := h'.ready
  delivered := by rw [h'.delivered, h.delivered, List.append_assoc]
  iface := by rw [h'.iface, h.iface, List.append_assoc]

theorem ready_outbox (t : ThreadData) : t.outbox.Ready :=
  ⟨List.length_ofFn, maxPacketCount_pos, nofun⟩

theorem length_pending (h : out.Ready) : out.buffer.pending.length = out.sendLen := by
  rw [buffer, List.length_map, List.length_take, h.length_sendHdrs]
  exact Nat.min_eq_left h.sendLen_lt.le

/-- The arrays after a message has been stored. -/
theorem take_modify (addr : SocketAddr) (packet : List UInt8) (h : out.Ready) :
    ((out.sendHdrs.modify out.sendLen fun hdr =>
        { sendBatchBuf := packet ++ hdr.sendBatchBuf.drop packet.length
          iovLen := packet.length
          sendAddr := some addr }).take (out.sendLen + 1)).map SendHdr.message =
      out.buffer.pending ++ [(packet, some addr)] := by
  have hlt : out.sendLen < out.sendHdrs.length := h.sendLen_lt.trans_eq h.length_sendHdrs.symm
  have hlen : (out.sendHdrs.take out.sendLen).length = out.sendLen := by
    rw [List.length_take, Nat.min_eq_left hlt.le]
  rw [List.modify_eq_take_cons_drop hlt, ← List.singleton_append, ← List.append_assoc,
    List.take_left' (by rw [List.length_append, hlen, List.length_singleton]), List.map_append,
    buffer, List.map_singleton, SendHdr.message, List.take_left]

/-- **The arrays are a buffer** that is sent when it is full. -/
theorem enqueue_buffer (addr : SocketAddr) (h : out.Ready)
    (hlen : packet.length ≤ maxUdpSize) :
    ∃ out', out.enqueue addr packet = some out' ∧ out'.Ready ∧
      out'.buffer = out.buffer.push maxPacketCount (packet, some addr) ∧
      out'.iface = out.iface := by
  have hhdrs := take_modify addr packet h
  have hpending := length_pending h
  have hlt := h.sendLen_lt
  have hstores : ∀ i ∈ out.stores ++ [out.sendLen], i < maxPacketCount := by
    intro i hi
    rcases List.mem_append.mp hi with hi | hi
    · exact h.stores_lt i hi
    · rw [List.mem_singleton.mp hi]
      exact hlt
  rw [enqueue, store, if_pos hlt, if_pos hlen, Option.map_some]
  refine ⟨_, rfl, ?_⟩
  rw [Buffer.push]
  dsimp only
  rw [List.length_append, hpending, List.length_singleton]
  split_ifs with hfull
  · refine ⟨⟨?_, maxPacketCount_pos, hstores⟩, ?_, rfl⟩
    · rw [sendmmsg, List.length_modify, h.length_sendHdrs]
    · rw [Buffer.flush, if_neg (by simp), sendmmsg, buffer, List.take_zero, List.map_nil, hhdrs]
      rfl
  · refine ⟨⟨?_, by dsimp only; omega, hstores⟩, ?_, rfl⟩
    · rw [List.length_modify, h.length_sendHdrs]
    · rw [buffer, hhdrs]
      rfl

theorem flush_buffer (h : out.Ready) : out.flush.Ready ∧ out.flush.buffer = out.buffer.flush ∧
    out.flush.iface = out.iface := by
  have hpending := length_pending h
  rw [flush, Buffer.flush]
  by_cases hzero : 0 < out.sendLen
  · rw [if_pos hzero, if_neg (List.ne_nil_of_length_pos (by omega))]
    exact ⟨⟨h.length_sendHdrs, maxPacketCount_pos, h.stores_lt⟩, rfl, rfl⟩
  · rw [if_neg hzero, if_pos (List.eq_nil_of_length_eq_zero (by omega))]
    exact ⟨h, rfl, rfl⟩

theorem enqueue_adds (addr : SocketAddr) (h : out.Ready) (hlen : packet.length ≤ maxUdpSize) :
    ∃ out', out.enqueue addr packet = some out' ∧ out.Adds out' [(packet, some addr)] [] := by
  obtain ⟨out', henqueue, hready, hbuffer, hiface⟩ := enqueue_buffer addr h hlen
  refine ⟨out', henqueue, hready, ?_, by rw [hiface, List.append_nil]⟩
  rw [hbuffer, Buffer.delivered_push]

theorem flush_adds (h : out.Ready) : out.Adds out.flush [] [] := by
  obtain ⟨hready, hbuffer, hiface⟩ := flush_buffer h
  exact ⟨hready, by rw [hbuffer, Buffer.delivered_flush, List.append_nil],
    by rw [hiface, List.append_nil]⟩

theorem write_adds (packet : List UInt8) (h : out.Ready) :
    out.Adds (out.write packet) [] [packet] :=
  ⟨⟨h.length_sendHdrs, h.sendLen_lt, h.stores_lt⟩, (List.append_nil _).symm, rfl⟩

end Outbox

/-! ## What is sent -/

/-- The packet that goes to the network. -/
def Sent.toNetwork : Sent → Option (List UInt8)
  | .cookie packet | .reply packet | .queued packet => some packet
  | .tunnel _ => none

/-- The packet that goes to the interface. -/
def Sent.toIface : Sent → Option (List UInt8)
  | .tunnel packet => some packet
  | .cookie _ | .reply _ | .queued _ => none

/-- Every packet for the network fits a buffer. -/
def FitBuffers (sent : List Sent) : Prop :=
  ∀ packet ∈ sent.filterMap Sent.toNetwork, packet.length ≤ maxUdpSize

/-- The packets for the network, with where they go. -/
def sentTo (sent : List (SocketAddr × Sent)) : List (List UInt8 × Option SocketAddr) :=
  sent.filterMap fun x => x.2.toNetwork.map (·, some x.1)

def written (sent : List (SocketAddr × Sent)) : List (List UInt8) :=
  sent.filterMap fun x => x.2.toIface

theorem sentTo_append (sent sent' : List (SocketAddr × Sent)) :
    sentTo (sent ++ sent') = sentTo sent ++ sentTo sent' :=
  List.filterMap_append

theorem written_append (sent sent' : List (SocketAddr × Sent)) :
    written (sent ++ sent') = written sent ++ written sent' :=
  List.filterMap_append

namespace Outbox

/-- Store the packets of a datagram one after the other. -/
def post (addr : SocketAddr) : List Sent → Outbox → Option Outbox
  | [], out => some out
  | .cookie packet :: sent, out | .reply packet :: sent, out | .queued packet :: sent, out =>
    (out.enqueue addr packet).bind (post addr sent)
  | .tunnel packet :: sent, out => post addr sent (out.write packet)

variable {out : Outbox}

theorem post_adds (addr : SocketAddr) {sent : List Sent} (h : out.Ready) (hfit : FitBuffers sent) :
    ∃ out', post addr sent out = some out' ∧
      out.Adds out' (sentTo (sent.map (addr, ·))) (written (sent.map (addr, ·))) := by
  induction sent generalizing out with
  | nil => exact ⟨out, rfl, h.adds⟩
  | cons x sent ih =>
    cases x with
    | cookie packet | reply packet | queued packet =>
      obtain ⟨out₁, henqueue, hadds⟩ := enqueue_adds addr h (hfit packet (by
        rw [List.filterMap_cons]
        exact List.mem_cons_self))
      obtain ⟨out₂, hpost, hadds'⟩ := ih hadds.ready fun packet' hmem => hfit packet' (by
        rw [List.filterMap_cons]
        exact List.mem_cons_of_mem _ hmem)
      refine ⟨out₂, ?_, hadds.trans hadds'⟩
      rw [post, henqueue, Option.bind_some, hpost]
    | tunnel packet =>
      have hadds := write_adds packet h
      obtain ⟨out₂, hpost, hadds'⟩ := ih hadds.ready fun packet' hmem => hfit packet' (by
        rw [List.filterMap_cons]
        exact hmem)
      exact ⟨out₂, hpost, hadds.trans hadds'⟩

end Outbox

/-! ## One datagram -/

section Datagram

variable {d d' : Device C T} {keyPair : KeyPair C} {limiter : RateLimiter} {addr : SocketAddr}
  {i : PeerRef} {out : Outbox}

omit [Table T IpNetwork IpAddr] in
/-- A packet is stored, and then what is sent after it. -/
theorem bind_post_cons {packet : List UInt8} {first : Sent} (h : first.toNetwork = some packet)
    (rest : Option (Device C T × List Sent)) :
    (out.enqueue addr packet).bind (fun out =>
        rest.bind fun q => (Outbox.post addr q.2 out).map fun out => (q.1, out)) =
      (rest.map fun q => (q.1, first :: q.2)).bind fun q =>
        (Outbox.post addr q.2 out).map fun out => (q.1, out) := by
  rw [Option.bind_comm, Option.bind_map]
  refine Option.bind_congr fun q _ => ?_
  cases first with
  | cookie | reply | queued =>
    cases h
    rw [Function.comp_apply, Outbox.post, Option.map_bind]
    rfl
  | tunnel => cases h

/-- The queued packets are stored as they come. -/
theorem flushQueueBatched_eq (n : ℕ) (envs : ℕ → Env) (d : Device C T) (out : Outbox) :
    flushQueueBatched i addr n envs d out =
      (flushQueue i n envs d).bind fun q =>
        (Outbox.post addr q.2 out).map fun out => (q.1, out) := by
  induction n generalizing envs d out with
  | zero => rfl
  | succ n ih =>
    rw [flushQueueBatched, flushQueue, Option.bind_assoc]
    refine Option.bind_congr fun q _ => ?_
    obtain ⟨d₁, res⟩ := q
    cases res with
    | writeToNetwork packet =>
      have hpacket : (Sent.queued packet).toNetwork = some packet := rfl
      refine Eq.trans ?_ (bind_post_cons hpacket _)
      exact Option.bind_congr fun out₁ _ => ih _ d₁ out₁
    | done | err | writeToTunnelV4 | writeToTunnelV6 => rfl

theorem writeToTunnel_eq (d : Device C T) (packet : List UInt8)
    (ip : IpAddr) (out : Outbox) :
    Outbox.post addr (d.toTunnel i packet ip) out = some (d.writeToTunnel i packet ip out) := by
  rw [toTunnel, writeToTunnel]
  rcases d.lock i with _ | p
  · rfl
  · dsimp only
    split_ifs <;> rfl

/-- **A datagram does the same**, and what it sends is stored as it comes. -/
theorem batchedDatagram_eq (d : Device C T) (keyPair : KeyPair C) (limiter : RateLimiter)
    (envs : ℕ → Env) (addr : SocketAddr) (packet : List UInt8) (out : Outbox) :
    d.batchedDatagram keyPair limiter envs addr packet out =
      (d.handleDatagram keyPair limiter envs addr packet).bind fun q =>
        (Outbox.post addr q.2 out).map fun out => (q.1, out) := by
  rw [batchedDatagram, handleDatagram]
  rcases d.verify keyPair limiter (envs 0) addr.ip packet with ⟨d₁, verified⟩
  cases verified with
  | cookie cookie =>
    dsimp only
    rw [Option.bind_some, Outbox.post]
    rcases out.enqueue addr cookie with _ | out₁ <;> rfl
  | refused | unknown => rfl
  | packet i packet =>
    dsimp only
    rw [Option.bind_assoc]
    refine Option.bind_congr fun q _ => ?_
    obtain ⟨d₂, res⟩ := q
    cases res with
    | err e => rfl
    | done =>
      dsimp only
      rw [Option.bind_assoc]
      rfl
    | writeToTunnelV4 packet ip | writeToTunnelV6 packet ip =>
      dsimp only
      rw [Option.bind_assoc]
      refine Option.bind_congr fun q _ => ?_
      rw [Option.bind_some, writeToTunnel_eq]
      rfl
    | writeToNetwork packet =>
      dsimp only
      rw [Option.bind_assoc]
      refine Option.bind_congr fun q _ => ?_
      have hpacket : (Sent.reply packet).toNetwork = some packet := rfl
      refine Eq.trans ?_ (bind_post_cons hpacket _)
      exact Option.bind_congr fun out₁ _ => flushQueueBatched_eq ..

/-! ## Every packet fits a buffer -/

theorem fitBuffers_nil : FitBuffers [] := nofun

theorem fitBuffers_cons {x : Sent} {sent : List Sent} (h : FitBuffers sent)
    (hx : ∀ packet, x.toNetwork = some packet → packet.length ≤ maxUdpSize) :
    FitBuffers (x :: sent) := by
  intro packet hmem
  rw [List.filterMap_cons] at hmem
  rcases hnetwork : x.toNetwork with _ | packet'
  · rw [hnetwork] at hmem
    exact h packet hmem
  · rw [hnetwork] at hmem
    rcases List.mem_cons.mp hmem with rfl | hmem
    · exact hx packet hnetwork
    · exact h packet hmem

theorem fitBuffers_toTunnel (d : Device C T) (packet : List UInt8) (ip : IpAddr) :
    FitBuffers (d.toTunnel i packet ip) := by
  rw [toTunnel]
  split
  · split_ifs
    · exact fitBuffers_cons fitBuffers_nil nofun
    · exact fitBuffers_nil
  · exact fitBuffers_nil

omit [Table T IpNetwork IpAddr] in
theorem length_cookie {env : Env} {ip : IpAddr} {src cookie : List UInt8}
    (h : d.verify keyPair limiter env ip src = (d', .cookie cookie)) :
    cookie.length ≤ maxUdpSize := by
  rw [verify] at h
  split at h
  · next limiter' cookie' hverify =>
    obtain ⟨e, heq⟩ | ⟨reply, heq⟩ := RateLimiter.verifyPacket_eq_error hverify
    · cases heq
    · cases heq
      cases h
      rw [PacketCookieReply.length_bytes]
      exact Nat.le_of_ble_eq_true rfl
  · cases h
  · next limiter' packet hverify =>
    rcases hidentify : d.identify keyPair packet with _ | j
    · rw [hidentify] at h
      cases h
    · rw [hidentify] at h
      cases h

theorem length_reply {env : Env} {p : Packet} {packet : List UInt8}
    (h : d.step (.peer i (.handleVerifiedPacket env p maxUdpSize)) =
      some (d', .writeToNetwork packet)) : packet.length ≤ maxUdpSize := by
  obtain ⟨q, q', -, hcall, -⟩ := step_peer h
  obtain ⟨⟨tunnel, r⟩, htunnel, heq⟩ := Option.map_eq_some_iff.mp hcall
  cases heq
  exact Tunn.length_handleVerifiedPacket htunnel

theorem length_nextQueued {env : Env} {packet : List UInt8}
    (h : d.nextQueued i env = some (d', .writeToNetwork packet)) : packet.length ≤ maxUdpSize := by
  obtain ⟨q, q', -, hcall, -⟩ := step_peer h
  obtain ⟨⟨tunnel, r⟩, htunnel, heq⟩ := Option.map_eq_some_iff.mp hcall
  cases heq
  exact Tunn.length_sendQueuedPacket htunnel

theorem fitBuffers_flushQueue {n : ℕ} {envs : ℕ → Env} {sent : List Sent}
    (h : flushQueue i n envs d = some (d', sent)) : FitBuffers sent := by
  induction n generalizing envs d sent with
  | zero =>
    cases h
    exact fitBuffers_nil
  | succ n ih =>
    obtain ⟨⟨d₁, res⟩, hnext, hrest⟩ := Option.bind_eq_some_iff.mp h
    cases res with
    | writeToNetwork packet =>
      obtain ⟨⟨d₂, sent₂⟩, hflush, heq⟩ := Option.map_eq_some_iff.mp hrest
      cases heq
      refine fitBuffers_cons (ih hflush) ?_
      rintro packet' ⟨⟩
      exact length_nextQueued hnext
    | done | err | writeToTunnelV4 | writeToTunnelV6 =>
      cases hrest
      exact fitBuffers_nil

/-- Every packet that a datagram makes the handler send fits a buffer. -/
theorem fitBuffers_handleDatagram {envs : ℕ → Env} {src : List UInt8} {sent : List Sent}
    (h : d.handleDatagram keyPair limiter envs addr src = some (d', sent)) : FitBuffers sent := by
  rw [handleDatagram] at h
  rcases hverify : d.verify keyPair limiter (envs 0) addr.ip src with ⟨d₁, verified⟩
  rw [hverify] at h
  cases verified with
  | cookie cookie =>
    cases h
    refine fitBuffers_cons fitBuffers_nil ?_
    rintro packet ⟨⟩
    exact length_cookie hverify
  | refused | unknown =>
    cases h
    exact fitBuffers_nil
  | packet i packet =>
    obtain ⟨⟨d₂, res⟩, hhandle, h⟩ := Option.bind_eq_some_iff.mp h
    cases res with
    | err e =>
      cases h
      exact fitBuffers_nil
    | writeToNetwork reply =>
      obtain ⟨⟨d₃, r₃⟩, -, hrest⟩ := Option.bind_eq_some_iff.mp h
      obtain ⟨⟨d₄, queued⟩, hflush, heq⟩ := Option.map_eq_some_iff.mp hrest
      cases heq
      refine fitBuffers_cons (fitBuffers_flushQueue hflush) ?_
      rintro packet' ⟨⟩
      exact length_reply hhandle
    | done =>
      obtain ⟨⟨d₃, r₃⟩, -, hrest⟩ := Option.bind_eq_some_iff.mp h
      cases hrest
      exact fitBuffers_nil
    | writeToTunnelV4 | writeToTunnelV6 =>
      obtain ⟨⟨d₃, r₃⟩, -, hrest⟩ := Option.bind_eq_some_iff.mp h
      cases hrest
      exact fitBuffers_toTunnel _ _ _

end Datagram

/-! ## Both branches -/

/-- Computations that agree one after the other. -/
theorem rel_bind {α β γ δ : Type*} {R : α → β → Prop} {R' : γ → δ → Prop} {x : Option α}
    {y : Option β} {f : α → Option γ} {g : β → Option δ} (h : Option.Rel R x y)
    (hnext : ∀ a b, R a b → Option.Rel R' (f a) (g b)) :
    Option.Rel R' (x.bind f) (y.bind g) := by
  cases h with
  | none => exact .none
  | some hR => exact hnext _ _ hR

theorem rel_map {α β γ δ : Type*} {R : α → β → Prop} {R' : γ → δ → Prop} {x : Option α}
    {y : Option β} {f : α → γ} {g : β → δ} (h : Option.Rel R x y)
    (hmap : ∀ a b, R a b → R' (f a) (g b)) : Option.Rel R' (x.map f) (y.map g) := by
  cases h with
  | none => exact .none
  | some hR => exact .some (hmap _ _ hR)

namespace Server

/-- What both branches have done: the servers are the same, and what the one has sent and written
the other has added. -/
structure Agrees (out : Outbox) (r : Server C T × List (SocketAddr × Sent))
    (q : Server C T × Outbox) : Prop where
  server : q.1 = r.1
  adds : out.Adds q.2 (sentTo r.2) (written r.2)

/-- The datagrams of a batch, each with what its handling draws. -/
def slotArrivals {D : Type*} {ipProtocol : Option UInt8} :
    (ℕ → ℕ → D) → List (Message ipProtocol) → List (D × SocketAddr × List UInt8)
  | _, [] => []
  | draws, m :: rest => (draws 0 0, m.addr, m.bytes) :: slotArrivals (fun k => draws (k + 1)) rest

/-- The datagrams of all batches. -/
def arrivals {D : Type*} {ipProtocol : Option UInt8} :
    (ℕ → ℕ → ℕ → D) → List (Batch ipProtocol) → List (D × SocketAddr × List UInt8)
  | _, [] => []
  | draws, batch :: rest =>
    slotArrivals (draws 0) batch.messages ++ arrivals (fun k => draws (k + 1)) rest

/-- The other branch without its limit. -/
def recvAll (ipProtocol : Option UInt8) :
    List (Draw × SocketAddr × List UInt8) → Server C T →
      Option (Server C T × List (SocketAddr × Sent))
  | [], s => some (s, [])
  | (draw, addr, src) :: rest, s =>
    match payload ipProtocol addr src with
    | none => recvAll ipProtocol rest s
    | some packet =>
      (s.plainDatagram draw addr packet).bind fun q =>
        (recvAll ipProtocol rest q.1).map fun r => (r.1, q.2.1.map (addr, ·) ++ r.2)

variable {ipProtocol : Option UInt8} {s : Server C T}

/-- A segment does the same as the datagram in it. -/
theorem datagram_eq_plainDatagram {addr : SocketAddr} {segment packet : List UInt8} (draw : Draw)
    (h : payload s.ipProtocol addr segment = some packet) :
    (s.datagram draw.1 addr segment draw.2).map Prod.fst =
      (s.plainDatagram draw addr packet).map Prod.fst := by
  rw [datagram, handleSegment, segmentReceiver, plainDatagram, h]
  rcases s.device.keyPair with _ | keyPair
  · rfl
  · rcases s.device.rateLimiter with _ | limiter
    · rfl
    · dsimp only
      rw [Option.map_bind, Option.map_bind]
      refine Option.bind_congr fun q _ => ?_
      rw [Function.comp_apply, Function.comp_apply, connect]
      rcases s.device.receiver keyPair limiter (draw.1 0) addr.ip packet with _ | ⟨i, p⟩
      · rfl
      · dsimp only
        split_ifs
        · rw [Option.map_map, Option.map_map]
          rfl
        · rfl

/-- A loop that reads everything is not limited. -/
theorem recvFrom_eq_recvAll {iter : ℕ} {received : List (Draw × SocketAddr × List UInt8)}
    (h : ∀ r unread, recvFrom ipProtocol iter received s = some (r, unread) → unread = []) :
    recvFrom ipProtocol iter received s = (recvAll ipProtocol received s).map fun r => (r, []) := by
  induction received generalizing iter s with
  | nil => rfl
  | cons x received ih =>
    obtain ⟨draw, addr, src⟩ := x
    rw [recvFrom] at h ⊢
    rw [recvAll]
    rcases hpayload : payload ipProtocol addr src with _ | packet
    · rw [hpayload] at h
      exact ih h
    · rw [hpayload] at h
      dsimp only at h ⊢
      rw [Option.map_bind]
      refine Option.bind_congr fun q hq => ?_
      obtain ⟨s₁, sent, handled⟩ := q
      rw [hq] at h
      dsimp only [Option.bind_some] at h ⊢
      generalize (if handled = true then iter - 1 else iter) = iter' at h ⊢
      rw [Function.comp_apply]
      by_cases hlast : handled = true ∧ iter' = 0
      · rw [if_pos hlast] at h ⊢
        obtain rfl := h _ _ rfl
        rw [recvAll, Option.map_some, Option.map_some, List.append_nil]
      · rw [if_neg hlast] at h ⊢
        have hrest : ∀ r unread, recvFrom ipProtocol iter' received s₁ = some (r, unread) →
            unread = [] := by
          intro r unread hr
          exact h _ unread (by rw [hr, Option.map_some])
        rw [ih hrest, Option.map_map, Option.map_map]
        rfl

/-- An empty packet is refused by the limiter and changes nothing. -/
theorem plainDatagram_nil (s : Server C T) (draw : Draw) (addr : SocketAddr) :
    s.plainDatagram draw addr [] = some (s, [], false) := by
  rw [plainDatagram]
  rcases hkey : s.device.keyPair with _ | keyPair
  · rfl
  · rcases hlimiter : s.device.rateLimiter with _ | limiter
    · rfl
    · have hverify : s.device.verify keyPair limiter (draw.1 0) addr.ip [] =
          (s.device, .refused) := by
        have herr : limiter.verifyPacket C (some addr.ip) [] maxUdpSize (draw.1 0).cookie =
            (limiter, .error (.err .invalidPacket)) := RateLimiter.verifyPacket_error rfl
        rw [verify, herr]
        dsimp only
        rw [← hlimiter]
      have hreceiver : s.device.receiver keyPair limiter (draw.1 0) addr.ip [] = none := by
        rw [receiver, hverify]
      dsimp only
      rw [handleDatagram, hverify, connect, handled, hreceiver]
      rfl

/-- What the Linux branch does with one datagram. -/
theorem linuxHandler_datagram {draw : Draw} {addr : SocketAddr} {packet : List UInt8} {out : Outbox}
    (h : out.Ready) :
    Option.Rel (fun q q' => q'.1 = q.1 ∧
        out.Adds q'.2 (sentTo (q.2.1.map (addr, ·))) (written (q.2.1.map (addr, ·))))
      (s.plainDatagram draw addr packet)
      (linuxHandler.datagram draw addr packet (s, out)) := by
  rw [plainDatagram, linuxHandler]
  dsimp only
  rcases s.device.keyPair with _ | keyPair
  · exact .some ⟨rfl, h.adds⟩
  · rcases s.device.rateLimiter with _ | limiter
    · exact .some ⟨rfl, h.adds⟩
    · dsimp only
      rw [batchedDatagram_eq]
      rcases hhandle : s.device.handleDatagram keyPair limiter draw.1 addr packet with _ | ⟨d, sent⟩
      · exact .none
      · obtain ⟨out', hpost, hadds⟩ :=
          Outbox.post_adds addr h (fitBuffers_handleDatagram hhandle)
        rw [Option.bind_some, Option.bind_some, hpost, Option.map_some, Option.bind_some]
        rcases s.connect keyPair limiter draw addr packet with _ | net
        · exact .none
        · exact .some ⟨rfl, hadds⟩

/-- A message of one datagram comes out as one segment, or as none when there is nothing in it. -/
theorem linuxHandler_segments {draws : ℕ → Draw} (m : Message ipProtocol) {out : Outbox}
    (h : out.Ready) :
    Option.Rel (Agrees out) (recvAll ipProtocol [(draws 0, m.addr, m.bytes)] s)
      (linuxHandler.segments ipProtocol m.addr draws (m.bytes.toChunks m.bytes.length)
        (s, out)) := by
  have hpayload : payload ipProtocol m.addr m.bytes = some m.datagrams.flatten :=
    payload_append m.isHeader _
  rw [recvAll, hpayload]
  dsimp only
  by_cases hempty : m.bytes = []
  · have hflatten : m.datagrams.flatten = [] := (List.append_eq_nil_iff.mp hempty).2
    rw [hflatten, plainDatagram_nil, hempty]
    exact .some ⟨rfl, h.adds⟩
  · rw [toChunks_of_length_le hempty le_rfl, BatchHandler.segments, hpayload]
    dsimp only
    refine rel_bind (linuxHandler_datagram h) fun q q' hq => ?_
    rw [recvAll, BatchHandler.segments, Option.map_some, List.append_nil]
    exact .some ⟨hq.1, hq.2⟩

theorem recvAll_append (received later : List (Draw × SocketAddr × List UInt8)) (s : Server C T) :
    recvAll ipProtocol (received ++ later) s =
      (recvAll ipProtocol received s).bind fun r =>
        (recvAll ipProtocol later r.1).map fun r' => (r'.1, r.2 ++ r'.2) := by
  induction received generalizing s with
  | nil =>
    rw [List.nil_append, recvAll, Option.bind_some]
    exact Option.map_id'.symm ▸ rfl
  | cons x received ih =>
    obtain ⟨draw, addr, src⟩ := x
    rw [List.cons_append, recvAll, recvAll]
    rcases payload ipProtocol addr src with _ | packet
    · exact ih s
    · dsimp only
      rw [Option.bind_assoc]
      refine Option.bind_congr fun q _ => ?_
      rw [ih, Option.map_bind, Option.bind_map]
      refine Option.bind_congr fun r _ => ?_
      simp only [Function.comp_apply, Option.map_map, List.append_assoc]
      rfl

omit [Table T IpNetwork IpAddr] in
/-- What comes after something that agrees. -/
theorem Agrees.trans {out : Outbox} {r r' : Server C T × List (SocketAddr × Sent)}
    {q q' : Server C T × Outbox} (h : Agrees out r q) (h' : Agrees q.2 r' q') :
    Agrees out (r'.1, r.2 ++ r'.2) q' := by
  refine ⟨h'.server, ?_⟩
  rw [sentTo_append, written_append]
  exact h.adds.trans h'.adds

/-- What a slot holds when the kernel does not coalesce datagrams. -/
def wholeMessage (m : Message ipProtocol) : Received := ⟨some m.addr, m.bytes.length, m.bytes⟩

theorem received_recvmmsg {K : Kernel} {hdrs : List RecvHdr} {messages : List (Message ipProtocol)}
    (hfits : ∀ hdr ∈ hdrs, hdr.Fits K) (hle : messages.length ≤ hdrs.length)
    (hgro : ∀ m ∈ messages, m.gsoSize = none) :
    ((recvmmsg K hdrs messages).take messages.length).map RecvHdr.received =
      messages.map wholeMessage := by
  have hsnd : (hdrs.zip messages).map Prod.snd = messages := List.map_snd_zip hle
  rw [take_recvmmsg hle, List.map_map]
  conv_rhs => rw [← hsnd, List.map_map]
  refine List.map_congr_left fun x hx => ?_
  obtain ⟨hhdr, hm⟩ := List.of_mem_zip hx
  rw [Function.comp_apply, received_fill x.2 (hfits _ hhdr), hgro x.2 hm]
  rfl

/-- The datagrams of one batch. -/
theorem linuxHandler_slots {draws : ℕ → ℕ → Draw} {messages : List (Message ipProtocol)}
    {out : Outbox} (h : out.Ready) :
    Option.Rel (Agrees out) (recvAll ipProtocol (slotArrivals draws messages) s)
      (linuxHandler.slots ipProtocol draws (messages.map wholeMessage) (s, out)) := by
  induction messages generalizing draws s out with
  | nil => exact .some ⟨rfl, h.adds⟩
  | cons m messages ih =>
    rw [slotArrivals, ← List.singleton_append, recvAll_append, List.map_cons, BatchHandler.slots]
    refine rel_bind (linuxHandler_segments m h) fun r q hq => ?_
    obtain ⟨s', out'⟩ := q
    obtain rfl : s' = r.1 := hq.server
    rw [← Option.map_id' (x := linuxHandler.slots ..)]
    exact rel_map (ih hq.adds.ready) fun _ _ hq' => hq.trans hq'

/-- At the end of a batch everything has been sent. -/
structure Flushed (out : Outbox) (r : Server C T × List (SocketAddr × Sent))
    (q : Server C T × Outbox) : Prop extends Agrees out r q where
  sendLen : q.2.sendLen = 0

omit [Table T IpNetwork IpAddr] in
theorem Agrees.flushed {out : Outbox} {r : Server C T × List (SocketAddr × Sent)}
    {q : Server C T × Outbox} (h : Agrees out r q) : Flushed out r (q.1, q.2.flush) where
  server := h.server
  adds := by
    have hadds := h.adds.trans (Outbox.flush_adds h.adds.ready)
    rwa [List.append_nil, List.append_nil] at hadds
  sendLen := by
    rw [Outbox.flush]
    split_ifs with hpos
    · rfl
    · exact Nat.eq_zero_of_not_pos hpos

/-- **All batches**, when the loop reads them all. -/
theorem linuxHandler_loop {K : Kernel} {usizeBits : ℕ} {iter : BitVec usizeBits}
    {draws : ℕ → ℕ → ℕ → Draw} {hdrs : List RecvHdr} {batches : List (Batch ipProtocol)}
    {out : Outbox} (h : out.Ready) (hempty : out.sendLen = 0) (hfits : ∀ hdr ∈ hdrs, hdr.Fits K)
    (hlen : hdrs.length = maxPacketCount)
    (hgro : ∀ batch ∈ batches, ∀ m ∈ batch.messages, m.gsoSize = none)
    (hread : ∀ q read, linuxHandler.loop K iter draws hdrs batches (s, out) = some (q, read) →
      read = batches) :
    Option.Rel (fun r q => Flushed out r q.1) (recvAll ipProtocol (arrivals draws batches) s)
      (linuxHandler.loop K iter draws hdrs batches (s, out)) := by
  induction batches generalizing iter draws hdrs s out with
  | nil => exact .some ⟨⟨rfl, h.adds⟩, hempty⟩
  | cons batch rest ih =>
    have hle : batch.messages.length ≤ hdrs.length := batch.length_le.trans_eq hlen.symm
    have hbatch : ∀ m ∈ batch.messages, m.gsoSize = none := hgro batch List.mem_cons_self
    rw [BatchHandler.loop] at hread ⊢
    rw [received_recvmmsg hfits hle hbatch] at hread ⊢
    dsimp only at hread ⊢
    rw [arrivals, recvAll_append]
    by_cases hcount : batch.messages.length = 0
    · rw [if_pos hcount] at hread ⊢
      obtain rfl : rest = [] := (List.cons.inj (hread _ _ rfl)).2.symm
      rw [List.eq_nil_of_length_eq_zero hcount]
      exact .some ⟨⟨rfl, h.adds⟩, hempty⟩
    · rw [if_neg hcount] at hread ⊢
      have hslots : Option.Rel (Agrees out)
          (recvAll ipProtocol (slotArrivals (draws 0) batch.messages) s)
          (linuxHandler.slots ipProtocol (draws 0) (batch.messages.map wholeMessage) (s, out)) :=
        linuxHandler_slots h
      generalize recvAll ipProtocol (slotArrivals (draws 0) batch.messages) s = x at hslots ⊢
      generalize linuxHandler.slots ipProtocol (draws 0) (batch.messages.map wholeMessage) (s, out)
        = y at hslots hread ⊢
      cases hslots with
      | none => exact .none
      | @some r q hq =>
        obtain ⟨s', out'⟩ := q
        obtain rfl : s' = r.1 := hq.server
        have hflushed : Flushed out r (linuxHandler.flush (r.1, out')) := hq.flushed
        rw [Option.bind_some] at hread ⊢
        rw [Option.bind_some]
        generalize iter - BitVec.ofNat usizeBits batch.messages.length = iter' at hread ⊢
        by_cases hlast : iter' = 0 ∨ batch.messages.length < maxPacketCount
        · rw [if_pos hlast] at hread ⊢
          obtain rfl : rest = [] := (List.cons.inj (hread _ _ rfl)).2.symm
          rw [arrivals, recvAll, Option.map_some, List.append_nil]
          exact .some hflushed
        · rw [if_neg hlast] at hread ⊢
          have hrest : ∀ q read, linuxHandler.loop K iter' (fun k => draws (k + 1))
              (recvmmsg K hdrs batch.messages) rest (linuxHandler.flush (r.1, out')) =
                some (q, read) → read = rest := by
            intro q read hq'
            exact (List.cons.inj (hread q (batch :: read) (by rw [hq', Option.map_some]))).2
          refine rel_map (ih hflushed.adds.ready hflushed.sendLen (fits_recvmmsg hfits hle)
            ((length_recvmmsg hle).trans hlen) (fun b hb => hgro b (List.mem_cons_of_mem _ hb))
            hrest) fun r' q' hq' => ?_
          exact ⟨hflushed.toAgrees.trans hq'.toAgrees, hq'.sendLen⟩

/-! ## An invocation -/

/-- The server, what is sent with where it goes, and what is written to the interface. -/
def linuxOutcome (r : (Server C T × Outbox) × List (Batch ipProtocol)) :
    Server C T × List (List UInt8 × Option SocketAddr) × List (List UInt8) :=
  (r.1.1, r.1.2.calls.flatten, r.1.2.iface)

def otherOutcome
    (r : (Server C T × List (SocketAddr × Sent)) × List (Draw × SocketAddr × List UInt8)) :
    Server C T × List (List UInt8 × Option SocketAddr) × List (List UInt8) :=
  (r.1.1, sentTo r.1.2, written r.1.2)

omit [Table T IpNetwork IpAddr] in
theorem Flushed.outcome {t : ThreadData} {r : Server C T × List (SocketAddr × Sent)}
    {q : Server C T × Outbox} (h : Flushed t.outbox r q) :
    q.2.calls.flatten = sentTo r.2 ∧ q.2.iface = written r.2 := by
  have hpending : q.2.buffer.pending = [] := by
    rw [Outbox.buffer, h.sendLen]
    rfl
  have hdelivered := h.adds.delivered
  rw [Buffer.delivered, hpending, List.append_nil] at hdelivered
  exact ⟨hdelivered, h.adds.iface⟩

/-- **Both branches do the same** with datagrams that the kernel does not coalesce, when neither is
cut short by its limit; and there is always room for one more message. -/
theorem linuxUdp_eq_otherUdp (s : Server C T) (K : Kernel) (usizeBits : ℕ) (t : ThreadData)
    (draws : ℕ → ℕ → ℕ → Draw) (batches : List (Batch s.ipProtocol))
    (hgro : ∀ batch ∈ batches, ∀ m ∈ batch.messages, m.gsoSize = none)
    (hlinux : ∀ q read, linuxHandler.invoke K usizeBits t draws batches (s, t.outbox) =
      some (q, read) → read = batches)
    (hother : ∀ r unread, recvFrom s.ipProtocol maxItr (arrivals draws batches) s =
      some (r, unread) → unread = []) :
    (s.linuxUdp K usizeBits t draws batches).map linuxOutcome =
        (s.otherUdp (arrivals draws batches)).map otherOutcome ∧
      ∀ q read, s.linuxUdp K usizeBits t draws batches = some (q, read) →
        ∀ i ∈ q.2.stores, i < maxPacketCount := by
  have hnothing : linuxOutcome ((s, t.outbox), ([] : List (Batch s.ipProtocol))) =
      otherOutcome ((s, []), arrivals draws batches) := rfl
  rw [linuxUdp, otherUdp]
  rcases s.device.keyPair with _ | keyPair
  · refine ⟨congrArg some hnothing, ?_⟩
    rintro q read ⟨⟩ i ⟨⟩
  · rcases s.device.rateLimiter with _ | limiter
    · refine ⟨congrArg some hnothing, ?_⟩
      rintro q read ⟨⟩ i ⟨⟩
    · dsimp only
      have hloop := linuxHandler_loop (Outbox.ready_outbox t) rfl t.fits_hdrs t.length_hdrs hgro
        hlinux
      rw [recvFrom_eq_recvAll hother]
      rw [BatchHandler.invoke]
      generalize recvAll s.ipProtocol (arrivals draws batches) s = x at hloop ⊢
      generalize linuxHandler.loop K (BitVec.ofNat usizeBits maxItr) draws t.hdrs batches
        (s, t.outbox) = y at hloop ⊢
      cases hloop with
      | none =>
        refine ⟨rfl, ?_⟩
        rintro q read ⟨⟩
      | @some r q hq =>
        obtain ⟨hcalls, hiface⟩ := hq.outcome
        refine ⟨?_, ?_⟩
        · rw [Option.map_some, Option.map_some, Option.map_some, linuxOutcome, otherOutcome,
            hcalls, hiface, hq.server]
        · rintro q' read ⟨⟩
          exact hq.adds.ready.stores_lt

/-! ## A batch of initiations -/

/-- A single batch is read whatever is in it. -/
theorem read_singleton {S D : Type*} {H : BatchHandler S D} {K : Kernel} {usizeBits : ℕ}
    {t : ThreadData} {draws : ℕ → ℕ → ℕ → D} {batch : Batch ipProtocol} {x y : S}
    {read : List (Batch ipProtocol)}
    (h : H.invoke K usizeBits t draws [batch] x = some (y, read)) : read = [batch] := by
  rw [BatchHandler.invoke, BatchHandler.loop] at h
  dsimp only at h
  split_ifs at h
  · cases h
    rfl
  · obtain ⟨z, -, hz⟩ := Option.bind_eq_some_iff.mp h
    cases hz
    rfl
  · obtain ⟨z, -, hz⟩ := Option.bind_eq_some_iff.mp h
    cases hz
    rfl

/-- Fewer datagrams than the limit are all read. -/
theorem unread_eq_nil {iter : ℕ} {received unread : List (Draw × SocketAddr × List UInt8)}
    {r : Server C T × List (SocketAddr × Sent)} (hlt : received.length < iter)
    (h : recvFrom ipProtocol iter received s = some (r, unread)) : unread = [] := by
  induction received generalizing iter s r with
  | nil =>
    cases h
    rfl
  | cons x received ih =>
    obtain ⟨draw, addr, src⟩ := x
    rw [List.length_cons] at hlt
    rw [recvFrom] at h
    split at h
    · exact ih (by omega) h
    · obtain ⟨⟨s₁, sent, handled⟩, -, hrest⟩ := Option.bind_eq_some_iff.mp h
      have hpos : received.length < if handled = true then iter - 1 else iter := by
        split_ifs <;> omega
      dsimp only at hrest
      rw [if_neg (by omega)] at hrest
      obtain ⟨⟨r', unread'⟩, hloop, heq⟩ := Option.map_eq_some_iff.mp hrest
      cases heq
      exact ih hpos hloop

/-- A device with a key and a peer. -/
def keyedServer : Server checksumPrims (PrefixMap IpNetwork) :=
  { sampleServer with
    device :=
      match Machine.run Device.step sampleServer.device
        [sampleSetKey, sampleAdd 6 [sampleNet]] with
      | some (d, _) => d
      | none => sampleServer.device }

/-- It is under load. -/
def loadedServer : Server checksumPrims (PrefixMap IpNetwork) :=
  { keyedServer with
    device :=
      { keyedServer.device with
        rateLimiter := keyedServer.device.rateLimiter.map fun limiter =>
          { limiter with count := handshakeRateLimit } } }

theorem length_initiation : ([] ++ [remoteInitiation.2].flatten).length ≤ maxUdpSize := by
  decide +kernel

/-- The peer's initiation as often as a batch has room for it. -/
def initiationBatch : Batch loadedServer.ipProtocol where
  messages := List.replicate maxPacketCount
    { addr := homeAddr
      header := []
      datagrams := [remoteInitiation.2]
      gsoSize := none
      isHeader := isHeader_nil
      single := fun _ => ⟨_, rfl⟩
      coalesced := nofun
      fits := length_initiation }
  length_le := List.length_replicate.le

/-- What the handling of the initiation draws. -/
def initiationDraws : ℕ → ℕ → ℕ → Draw := fun _ _ _ => (fun _ => Tunn.sampleEnv 6 2, none)

/-- Each copy gets a cookie reply to where it came from, so that all slots are used and the buffer is
sent when it is full. -/
theorem linuxUdp_eq_otherUdp_sample :
    ∃ s replies,
      (loadedServer.linuxUdp linux 64 freshThread initiationDraws [initiationBatch]).map
        linuxOutcome = some (s, replies, []) ∧
      replies.map (fun m => (m.1.length, m.2)) =
        List.replicate maxPacketCount (cookieReplySz, some homeAddr) ∧
      ∀ q read, loadedServer.linuxUdp linux 64 freshThread initiationDraws [initiationBatch] =
        some (q, read) → ∀ i ∈ q.2.stores, i < maxPacketCount := by
  have hgro : ∀ batch ∈ [initiationBatch], ∀ m ∈ batch.messages, m.gsoSize = none := by
    intro batch hbatch m hm
    rw [List.mem_singleton.mp hbatch] at hm
    rw [List.eq_of_mem_replicate hm]
  obtain ⟨hboth, hstores⟩ := linuxUdp_eq_otherUdp loadedServer linux 64 freshThread initiationDraws
    [initiationBatch] hgro (fun _ _ h => read_singleton h)
    (fun _ _ h => unread_eq_nil (by decide +kernel) h)
  have hrun : (loadedServer.otherUdp (arrivals initiationDraws [initiationBatch])).map (fun r =>
      ((sentTo r.1.2).map fun m => (m.1.length, m.2), written r.1.2)) =
      some (List.replicate maxPacketCount (cookieReplySz, some homeAddr), []) := by
    decide +kernel
  obtain ⟨r, hother, heq⟩ := Option.map_eq_some_iff.mp hrun
  obtain ⟨hsent, hwritten⟩ := Prod.mk.inj heq
  refine ⟨r.1.1, sentTo r.1.2, ?_, hsent, hstores⟩
  rw [hboth, hother, Option.map_some, otherOutcome, hwritten]

end Server

end NekoLink.Device
