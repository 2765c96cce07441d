import NekoLink.Device.Receive
import NekoLink.Device.TcpFraming

/-!
# The stream handler

The handler that `register_tcp_stream_handler` of `device/mod.rs` registers for a TCP connection: one
read into the framing buffer, then the whole packets in it, and the compaction. What is sent is
listed; how it is written to the connection is the subject of `TcpSender`.

* `handlePackets_fuel`: the loop over the packets ends.
* `streamHandler_exit_iff`: it asks the event loop to exit exactly when its read fails or gives
  nothing.
-/

namespace NekoLink.Device

open Wire Noise Routing

/-- Number of packets to handle per handler call -/
def maxItr : ℕ := 100

/-- What the event loop should do after a handler returns -/
inductive Action
  | continue
  | yield
  | exit
  deriving DecidableEq

/-- What a socket has for a read. -/
inductive Incoming
  | data (bs : List UInt8) (h : bs ≠ [])
  | eof
  | wouldBlock
  | error

inductive ReadResult
  | ok (bs : List UInt8)
  | wouldBlock
  | error

/-- `sock.read(buf)`; a read into an empty buffer gives nothing. -/
def Incoming.read (free : ℕ) : Incoming → ReadResult
  | .data bs _ => .ok (bs.take free)
  | .eof => .ok []
  | .wouldBlock => .wouldBlock
  | .error => .error

variable {C : Prims} {T : Type → Type} [Table T IpNetwork IpAddr]

/-- One whole packet of the buffer, and whether it counts for the limit of a call. -/
def handlePacket (d : Device C T) (keyPair : KeyPair C) (limiter : RateLimiter) (envs : ℕ → Env)
    (endpoint : SocketAddr) (packet : List UInt8) : Option (Device C T × List Sent × Bool) :=
  match d.verify keyPair limiter (envs 0) endpoint.ip packet with
  | (d, .cookie cookie) => some (d, [.cookie cookie], false)
  | (d, .refused) => some (d, [], false)
  | (d, .unknown) => some (d, [], true)
  | (d, .packet i packet) =>
    (d.step (.peer i (.handleVerifiedPacket (envs 1) packet maxUdpSize))).bind fun (d, res) =>
      let sent :=
        match res with
        | .writeToNetwork resp => [.reply resp]
        | .writeToTunnelV4 packet addr => d.toTunnel i packet (.v4 addr)
        | .writeToTunnelV6 packet addr => d.toTunnel i packet (.v6 addr)
        | .done | .err _ => []
      (flushQueue i (d.rounds i) (fun k => envs (k + 2)) d).map fun (d, queued) =>
        (d, sent ++ queued, true)

/-- The whole packets of the buffer from an offset on, the offset after them and what they make
the handler send. -/
def handlePackets (framing : TcpFraming) (endpoint : SocketAddr) :
    ℕ → (ℕ → ℕ → Env) → ℕ → ℕ → Device C T → Option (Device C T × ℕ × List Sent)
  | 0, _, _, consumed, d => some (d, consumed, [])
  | fuel + 1, envs, processed, consumed, d =>
    (framing.peekPacket consumed).bind fun
      | none => some (d, consumed, [])
      | some (totalLen, packet) =>
        if maxUdpSize < packet.length then some (d, consumed, [])
        else
          match d.keyPair, d.rateLimiter with
          | some keyPair, some limiter =>
            (d.handlePacket keyPair limiter (envs 0) endpoint packet).bind
              fun (d, sent, counted) =>
                let processed := if counted then processed + 1 else processed
                if counted && maxItr ≤ processed then some (d, consumed + totalLen, sent)
                else
                  (handlePackets framing endpoint fuel (fun k => envs (k + 1)) processed
                    (consumed + totalLen) d).map fun (d, consumed, rest) =>
                      (d, consumed, sent ++ rest)
          | _, _ => some (d, consumed, [])

/-- What a call of the stream handler leaves, and whether it takes the connection out of the map. -/
structure StreamResult (C : Prims) (T : Type → Type) where
  device : Device C T
  framing : TcpFraming
  action : Action
  sent : List Sent
  closed : Bool

def streamHandler (d : Device C T) (envs : ℕ → ℕ → Env) (framing : TcpFraming)
    (endpoint : SocketAddr) (incoming : Incoming) : Option (StreamResult C T) :=
  framing.getFreeSpace.bind fun free =>
    match incoming.read free with
    | .ok [] => some ⟨d, framing, .exit, [], true⟩ -- Do NOT trigger exit
    | .ok bs =>
      (framing.readInto bs).bind fun framing =>
        let framing := framing.advance bs.length
        (handlePackets framing endpoint (framing.unprocessedI + 1) envs 0 0 d).bind
          fun (d, consumed, sent) =>
            (framing.compact consumed).map fun framing => ⟨d, framing, .continue, sent, false⟩
    | .wouldBlock => some ⟨d, framing, .continue, [], false⟩
    | .error => some ⟨d, framing, .exit, [], true⟩

/-! ## The loop over the packets ends -/

variable {d : Device C T} {framing : TcpFraming} {endpoint : SocketAddr} {envs : ℕ → ℕ → Env}

/-- A whole packet takes some of the buffer. -/
theorem TcpFraming.peekPacket_lt {t : TcpFraming} {offset totalLen : ℕ} {packet : List UInt8}
    (h : t.peekPacket offset = some (some (totalLen, packet))) :
    offset < offset + totalLen ∧ offset + totalLen ≤ t.unprocessedI := by
  rw [peekPacket] at h
  split_ifs at h
  · cases Option.some.inj h
  · obtain ⟨header, -, h⟩ := Option.bind_eq_some_iff.mp h
    dsimp only at h
    split_ifs at h with hle
    · cases Option.some.inj h
    · obtain ⟨payload, -, heq⟩ := Option.map_eq_some_iff.mp h
      cases heq
      rw [headerLen] at *
      omega

/-- **The loop ends**: with more fuel it would do the same. -/
theorem handlePackets_fuel {fuel fuel' processed consumed : ℕ}
    (h : framing.unprocessedI < consumed + fuel) (h' : framing.unprocessedI < consumed + fuel') :
    handlePackets framing endpoint fuel envs processed consumed d =
      handlePackets framing endpoint fuel' envs processed consumed d := by
  induction fuel generalizing fuel' envs processed consumed d with
  | zero =>
    -- nothing is left in the buffer
    rcases fuel' with _ | fuel'
    · rfl
    · rw [handlePackets, handlePackets, TcpFraming.peekPacket, if_pos (by omega), Option.bind_some]
  | succ fuel ih =>
    rcases fuel' with _ | fuel'
    · rw [handlePackets, handlePackets, TcpFraming.peekPacket, if_pos (by omega), Option.bind_some]
    · rw [handlePackets, handlePackets]
      refine Option.bind_congr fun peeked hpeek => ?_
      rcases peeked with _ | ⟨totalLen, packet⟩
      · rfl
      · have hlt := TcpFraming.peekPacket_lt hpeek
        dsimp only
        split_ifs
        · rfl
        · rcases d.keyPair with _ | keyPair
          · rfl
          · rcases d.rateLimiter with _ | limiter
            · rfl
            · refine Option.bind_congr fun q _ => ?_
              obtain ⟨d', sent, counted⟩ := q
              dsimp only
              rw [ih (show framing.unprocessedI < consumed + totalLen + fuel by omega)
                (show framing.unprocessedI < consumed + totalLen + fuel' by omega)]

/-! ## When it asks to exit -/

/-- The read fails, or gives nothing. -/
def Incoming.Ends (incoming : Incoming) (free : ℕ) : Prop :=
  incoming.read free = .ok [] ∨ incoming.read free = .error

/-- **The stream handler asks to exit** exactly when its read fails or gives nothing, and exactly
then it takes its connection out of the map. -/
theorem streamHandler_exit_iff {incoming : Incoming} {r : StreamResult C T}
    (h : streamHandler d envs framing endpoint incoming = some r) :
    (r.action = .exit ↔ incoming.Ends (maxDatagramSize - framing.unprocessedI)) ∧
      (r.action ≠ .exit → r.action = .continue ∧ r.closed = false) := by
  obtain ⟨free, hfree, h⟩ := Option.bind_eq_some_iff.mp h
  obtain rfl : maxDatagramSize - framing.unprocessedI = free := by
    rw [TcpFraming.getFreeSpace] at hfree
    split_ifs at hfree
    exact Option.some.inj hfree
  rw [Incoming.Ends]
  rcases hread : incoming.read (maxDatagramSize - framing.unprocessedI) with bs | _ | _
  · rw [hread] at h
    rcases bs with _ | ⟨b, bs⟩
    · cases h
      simp
    · obtain ⟨framing₁, -, h⟩ := Option.bind_eq_some_iff.mp h
      obtain ⟨q, -, h⟩ := Option.bind_eq_some_iff.mp h
      obtain ⟨framing₂, -, rfl⟩ := Option.map_eq_some_iff.mp h
      simp
  · rw [hread] at h
    cases h
    simp
  · rw [hread] at h
    cases h
    simp

/-- Data ends a connection only when the buffer is full. -/
theorem Incoming.ends_iff (incoming : Incoming) (free : ℕ) :
    incoming.Ends free ↔
      incoming = .eof ∨ incoming = .error ∨ ∃ bs h, incoming = .data bs h ∧ free = 0 := by
  cases incoming with
  | data bs h =>
    rw [Ends, read]
    rcases free with _ | free
    · simp [h]
    · rcases bs with _ | ⟨b, bs⟩
      · exact absurd rfl h
      · simp
  | eof | wouldBlock | error => simp [Ends, read]

end NekoLink.Device
