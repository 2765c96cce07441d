import NekoLink.Device.DeviceSteps
import NekoLink.Device.TcpHandler

/-!
# The frames that the stream handler takes

The loop of the stream handler over its buffer, seen as a loop over the whole frames in it. It hands
their packets over one after another, and stops behind the packet with which `MAX_ITR` have passed
the rate limiter; a packet that the limiter refuses does not count.

* `handlePackets_eq`: the loop hands over the first of the buffered packets.
* `taken_lt_iff`: when it leaves a packet behind.
* `streamHandler_data`: a call of the handler that reads something.
-/

namespace NekoLink.Device

open Wire Noise Routing

variable {C : Prims} {T : Type → Type} [Table T IpNetwork IpAddr]

/-- The packets that pass the limiter, of packets from an address that come one after another. -/
def passing (C : Prims) (addr : IpAddr) : RateLimiter → (ℕ → ℕ) → List (List UInt8) → ℕ
  | _, _, [] => 0
  | limiter, times, packet :: packets =>
    match limiter.verifyPacket C (some addr) packet maxUdpSize (times 0) with
    | (limiter, .ok _) => passing C addr limiter (fun k => times (k + 1)) packets + 1
    | (limiter, .error _) => passing C addr limiter (fun k => times (k + 1)) packets

/-- The packets that a call takes, when some have passed already. -/
def taken (C : Prims) (addr : IpAddr) : RateLimiter → (ℕ → ℕ) → ℕ → List (List UInt8) → ℕ
  | _, _, _, [] => 0
  | limiter, times, processed, packet :: packets =>
    match limiter.verifyPacket C (some addr) packet maxUdpSize (times 0) with
    | (limiter, .ok _) =>
      if maxItr ≤ processed + 1 then 1
      else taken C addr limiter (fun k => times (k + 1)) (processed + 1) packets + 1
    | (limiter, .error _) =>
      taken C addr limiter (fun k => times (k + 1)) processed packets + 1

/-- Packets handed over one after another, and what they make the handler send. -/
def handleAll (endpoint : SocketAddr) : (ℕ → ℕ → Env) → List (List UInt8) → Device C T →
    Option (Device C T × List Sent)
  | _, [], d => some (d, [])
  | envs, packet :: packets, d =>
    match d.keyPair, d.rateLimiter with
    | some keyPair, some limiter =>
      (d.handlePacket keyPair limiter (envs 0) endpoint packet).bind fun (d, sent, _) =>
        (handleAll endpoint (fun k => envs (k + 1)) packets d).map fun (d, rest) =>
          (d, sent ++ rest)
    | _, _ => none

variable {d d' : Device C T} {endpoint : SocketAddr} {limiter : RateLimiter} {keyPair : KeyPair C}
  {times : ℕ → ℕ} {packet : List UInt8} {packets : List (List UInt8)} {processed : ℕ}

/-! ## How many packets are taken -/

/-- One packet is always taken. -/
theorem taken_cons_pos (addr : IpAddr) :
    0 < taken C addr limiter times processed (packet :: packets) := by
  rw [taken]
  rcases limiter.verifyPacket C (some addr) packet maxUdpSize (times 0) with ⟨limiter', _ | _⟩
  · exact Nat.succ_pos _
  · dsimp only
    split_ifs
    · exact one_pos
    · exact Nat.succ_pos _

/-- **A packet is left behind** exactly when the limit is reached ahead of the last one. -/
theorem taken_lt_iff {addr : IpAddr} (hprocessed : processed < maxItr) :
    taken C addr limiter times processed packets < packets.length ↔
      maxItr ≤ processed + passing C addr limiter times packets.dropLast := by
  induction packets generalizing limiter times processed with
  | nil =>
    rw [taken, List.dropLast_nil, passing, List.length_nil]
    omega
  | cons packet packets ih =>
    rcases packets with _ | ⟨next, packets⟩
    · -- the last packet is always taken
      have hpos : 0 < taken C addr limiter times processed [packet] := taken_cons_pos addr
      rw [List.dropLast_singleton, passing, List.length_singleton]
      omega
    · rw [List.dropLast_cons_cons, taken, passing, List.length_cons]
      rcases limiter.verifyPacket C (some addr) packet maxUdpSize (times 0) with ⟨limiter', _ | _⟩
      · dsimp only
        rw [Nat.succ_lt_succ_iff]
        exact ih hprocessed
      · dsimp only
        by_cases hlimit : maxItr ≤ processed + 1
        · rw [if_pos hlimit, List.length_cons]
          omega
        · rw [if_neg hlimit, Nat.succ_lt_succ_iff, ih (not_le.mp hlimit)]
          omega

/-! ## One packet -/

theorem keyPair_step_peer {i : PeerRef} {call : PeerCall} {r : TunnResult}
    (h : d.step (.peer i call) = some (d', r)) :
    d'.keyPair = d.keyPair ∧ d'.rateLimiter = d.rateLimiter := by
  obtain ⟨p, p', -, -, rfl⟩ := step_peer h
  exact ⟨rfl, rfl⟩

theorem keyPair_flushQueue {i : PeerRef} {n : ℕ} {envs : ℕ → Env} {sent : List Sent}
    (h : flushQueue i n envs d = some (d', sent)) :
    d'.keyPair = d.keyPair ∧ d'.rateLimiter = d.rateLimiter := by
  induction n generalizing envs d sent with
  | zero =>
    cases h
    exact ⟨rfl, rfl⟩
  | succ n ih =>
    rw [flushQueue] at h
    obtain ⟨⟨d₁, res⟩, hstep, h⟩ := Option.bind_eq_some_iff.mp h
    obtain ⟨hkey, hlimiter⟩ := keyPair_step_peer hstep
    cases res with
    | writeToNetwork packet =>
      obtain ⟨⟨d₂, rest⟩, hrest, heq⟩ := Option.map_eq_some_iff.mp h
      cases heq
      obtain ⟨hkey', hlimiter'⟩ := ih hrest
      exact ⟨hkey'.trans hkey, hlimiter'.trans hlimiter⟩
    | done | err | writeToTunnelV4 | writeToTunnelV6 =>
      cases h
      exact ⟨hkey, hlimiter⟩

/-- What a packet leaves of the keys, and when it counts. -/
theorem handlePacket_spec {envs : ℕ → Env} {sent : List Sent} {counted : Bool}
    (h : d.handlePacket keyPair limiter envs endpoint packet = some (d', sent, counted)) :
    d'.keyPair = d.keyPair ∧ ∃ limiter' result,
      limiter.verifyPacket C (some endpoint.ip) packet maxUdpSize (envs 0).cookie =
        (limiter', result) ∧
      d'.rateLimiter = some limiter' ∧ (counted = true ↔ ∃ p, result = .ok p) := by
  rw [handlePacket, verify] at h
  rcases hverify : limiter.verifyPacket C (some endpoint.ip) packet maxUdpSize (envs 0).cookie with
    ⟨limiter', result | p⟩
  · rw [hverify] at h
    refine ⟨?_, limiter', .error result, rfl, ?_⟩
    all_goals
      cases result <;> cases h <;> simp
  · rw [hverify] at h
    dsimp only at h
    rcases hpeer : d.identify keyPair p with _ | i
    · rw [hpeer] at h
      cases h
      exact ⟨rfl, limiter', .ok p, rfl, rfl, by simp⟩
    · rw [hpeer] at h
      obtain ⟨⟨d₁, res⟩, hstep, h⟩ := Option.bind_eq_some_iff.mp h
      obtain ⟨⟨d₂, queued⟩, hflush, heq⟩ := Option.map_eq_some_iff.mp h
      cases heq
      obtain ⟨hkey, hlimiter⟩ := keyPair_step_peer hstep
      obtain ⟨hkey', hlimiter'⟩ := keyPair_flushQueue hflush
      exact ⟨hkey'.trans hkey, limiter', .ok p, rfl, hlimiter'.trans hlimiter, by simp⟩

/-! ## The loop -/

/-- The whole packets of the rest of a buffer. -/
structure Holds (framing : TcpFraming) (consumed : ℕ) (packets : List (List UInt8))
    (rest : List UInt8) : Prop where
  buffered_eq : framing.buffered.drop consumed = stream headerLen packets ++ rest
  short : ∀ p ∈ packets, p.length < 256 ^ headerLen
  rest_none : nextFrame headerLen rest = none

variable {framing : TcpFraming} {consumed : ℕ} {rest : List UInt8}

/-- The next packet is the first one. -/
theorem Holds.peekPacket_nil (h : Holds framing consumed [] rest) (hv : framing.Valid)
    (hconsumed : consumed ≤ framing.unprocessedI) : framing.peekPacket consumed = some none := by
  rw [TcpFraming.peekPacket_eq hv hconsumed, h.buffered_eq, stream_nil, List.nil_append,
    h.rest_none, Option.map_none]

theorem Holds.peekPacket_cons (h : Holds framing consumed (packet :: packets) rest)
    (hv : framing.Valid) (hconsumed : consumed ≤ framing.unprocessedI) :
    framing.peekPacket consumed = some (some (headerLen + packet.length, packet)) := by
  rw [TcpFraming.peekPacket_eq hv hconsumed, h.buffered_eq, stream_cons, List.append_assoc,
    nextFrame_frame (h.short _ List.mem_cons_self), Option.map_some]

/-- The others come behind it. -/
theorem Holds.tail (h : Holds framing consumed (packet :: packets) rest) :
    Holds framing (consumed + (headerLen + packet.length)) packets rest where
  buffered_eq := by
    rw [← List.drop_drop, h.buffered_eq, stream_cons, List.append_assoc,
      ← length_frame headerLen packet, List.drop_left]
  short p hp := h.short p (List.mem_cons_of_mem packet hp)
  rest_none := h.rest_none

theorem Holds.le (h : Holds framing consumed (packet :: packets) rest) (hv : framing.Valid) :
    consumed + (headerLen + packet.length) ≤ framing.unprocessedI := by
  have hlen := congrArg List.length h.buffered_eq
  rw [List.length_drop, TcpFraming.length_buffered hv, stream_cons, List.length_append,
    List.length_append, length_frame] at hlen
  have hheader : headerLen = 2 := rfl
  omega

/-- One packet handed over, and the others. -/
theorem handleAll_cons {envs : ℕ → ℕ → Env} {d₁ : Device C T} {sent : List Sent} {counted : Bool}
    (hkey : d.keyPair = some keyPair) (hlimiter : d.rateLimiter = some limiter)
    (hhandle : d.handlePacket keyPair limiter (envs 0) endpoint packet = some (d₁, sent, counted)) :
    handleAll endpoint envs (packet :: packets) d =
      (handleAll endpoint (fun k => envs (k + 1)) packets d₁).map fun r => (r.1, sent ++ r.2) := by
  simp only [handleAll, hkey, hlimiter, hhandle, Option.bind_some]

/-- **The loop hands over the first of the packets in the buffer**, as many as are taken. -/
theorem handlePackets_eq {fuel : ℕ} {envs : ℕ → ℕ → Env} (hv : framing.Valid)
    (hkey : d.keyPair.isSome) (hlimiter : d.rateLimiter = some limiter)
    (hholds : Holds framing consumed packets rest) (hconsumed : consumed ≤ framing.unprocessedI)
    (hfuel : framing.unprocessedI < consumed + fuel) :
    handlePackets framing endpoint fuel envs processed consumed d =
      let n := taken C endpoint.ip limiter (fun k => (envs k 0).cookie) processed packets
      (handleAll endpoint envs (packets.take n) d).map fun (d, sent) =>
        (d, consumed + (stream headerLen (packets.take n)).length, sent) := by
  induction packets generalizing d limiter fuel envs processed consumed with
  | nil =>
    obtain ⟨fuel, rfl⟩ : ∃ n, fuel = n + 1 := Nat.exists_eq_succ_of_ne_zero (by omega)
    rw [handlePackets, hholds.peekPacket_nil hv hconsumed]
    rfl
  | cons packet packets ih =>
    obtain ⟨fuel, rfl⟩ : ∃ n, fuel = n + 1 := Nat.exists_eq_succ_of_ne_zero (by omega)
    obtain ⟨keyPair, hkey⟩ := Option.isSome_iff_exists.mp hkey
    have hsize : ¬ maxUdpSize < packet.length := by
      have hshort := hholds.short _ List.mem_cons_self
      rw [maxUdpSize]
      simp only [headerLen] at hshort
      omega
    have hle := hholds.le hv
    have hheader : headerLen = 2 := rfl
    rw [handlePackets, hholds.peekPacket_cons hv hconsumed]
    simp only [Option.bind_some, if_neg hsize, hkey, hlimiter]
    rcases hhandle : d.handlePacket keyPair limiter (envs 0) endpoint packet with
      _ | ⟨d₁, sent, counted⟩
    · obtain ⟨n, hn⟩ : ∃ n, taken C endpoint.ip limiter (fun k => (envs k 0).cookie) processed
          (packet :: packets) = n + 1 := Nat.exists_eq_succ_of_ne_zero (taken_cons_pos _).ne'
      simp only [hn, List.take_succ_cons, handleAll, hkey, hlimiter, hhandle, Option.bind_none,
        Option.map_none]
    · obtain ⟨hkey₁, limiter₁, result, hverify, hlimiter₁, hcounted⟩ := handlePacket_spec hhandle
      have hsome₁ : d₁.keyPair.isSome := by rw [hkey₁, hkey, Option.isSome_some]
      rw [taken]
      simp only [hverify, Option.bind_some]
      rcases result with e | p
      · obtain rfl : counted = false := by simpa using hcounted
        simp only [Bool.false_and, Bool.false_eq_true, if_false]
        rw [ih hsome₁ hlimiter₁ hholds.tail (by omega) (by omega), List.take_succ_cons,
          handleAll_cons hkey hlimiter hhandle, Option.map_map, Option.map_map]
        simp only [Function.comp_def, stream_cons, List.length_append, length_frame, Nat.add_assoc]
      · obtain rfl : counted = true := by simpa using hcounted
        by_cases hlimit : maxItr ≤ processed + 1
        · simp only [Bool.true_and, if_true, decide_eq_true_eq, if_pos hlimit]
          rw [List.take_succ_cons, List.take_zero, handleAll_cons hkey hlimiter hhandle, handleAll]
          simp [stream]
        · simp only [Bool.true_and, if_true, decide_eq_true_eq, if_neg hlimit]
          rw [ih hsome₁ hlimiter₁ hholds.tail (by omega) (by omega), List.take_succ_cons,
            handleAll_cons hkey hlimiter hhandle, Option.map_map, Option.map_map]
          simp only [Function.comp_def, stream_cons, List.length_append, length_frame,
            Nat.add_assoc]

/-! ## A call -/

/-- The packets that the handler takes, of those buffered after its read. -/
def takes (C : Prims) (endpoint : SocketAddr) (limiter : RateLimiter) (envs : ℕ → ℕ → Env)
    (buffered : List UInt8) : ℕ :=
  taken C endpoint.ip limiter (fun k => (envs k 0).cookie) 0 (frames headerLen buffered).1

/-- **A call that reads something** hands over the first packets of what is then buffered, and the
others stay in the buffer. -/
theorem streamHandler_data (endpoint : SocketAddr) (envs : ℕ → ℕ → Env) {incoming : Incoming}
    {bs : List UInt8} (hv : framing.Valid) (hkey : d.keyPair.isSome)
    (hlimiter : d.rateLimiter = some limiter) (hne : bs ≠ [])
    (hfit : framing.unprocessedI + bs.length ≤ maxDatagramSize)
    (hread : incoming.read (maxDatagramSize - framing.unprocessedI) = .ok bs) :
    let whole := frames headerLen (framing.buffered ++ bs)
    let n := takes C endpoint limiter envs (framing.buffered ++ bs)
    ∃ framing', framing'.Valid ∧ framing'.buffered = stream headerLen (whole.1.drop n) ++ whole.2 ∧
      d.streamHandler envs framing endpoint incoming =
        (handleAll endpoint envs (whole.1.take n) d).map fun (d, sent) =>
          ⟨d, framing', .continue, sent, false⟩ := by
  intro whole n
  obtain ⟨framing₁, hinto, hv₁, hbuffered₁⟩ := TcpFraming.readInto_eq hfit
  obtain ⟨hsplit, hshort, hnone⟩ := stream_frames (w := headerLen) (by decide)
    (framing.buffered ++ bs)
  have hholds : Holds (framing₁.advance bs.length) 0 whole.1 whole.2 :=
    ⟨by rw [List.drop_zero, hbuffered₁]; exact hsplit, hshort, hnone⟩
  -- what the packets taken leave of the buffer
  have hbytes : (framing₁.advance bs.length).buffered = stream headerLen (whole.1.take n) ++
      (stream headerLen (whole.1.drop n) ++ whole.2) := by
    rw [hbuffered₁]
    exact stream_take_frames (by decide) _ n
  have hconsumed : 0 + (stream headerLen (whole.1.take n)).length ≤
      (framing₁.advance bs.length).unprocessedI := by
    rw [← TcpFraming.length_buffered hv₁, hbytes, List.length_append, Nat.zero_add]
    exact Nat.le_add_right _ _
  obtain ⟨framing', hcompact, hv', hbuffered'⟩ := TcpFraming.compact_eq hv₁ hconsumed
  refine ⟨framing', hv', by rw [hbuffered', hbytes, Nat.zero_add, List.drop_left], ?_⟩
  have hfree : framing.getFreeSpace = some (maxDatagramSize - framing.unprocessedI) := if_pos hv
  have hloop : handlePackets (framing₁.advance bs.length) endpoint
      ((framing₁.advance bs.length).unprocessedI + 1) envs 0 0 d =
        (handleAll endpoint envs (whole.1.take n) d).map fun (d, sent) =>
          (d, 0 + (stream headerLen (whole.1.take n)).length, sent) :=
    handlePackets_eq hv₁ hkey hlimiter hholds (Nat.zero_le _) (by omega)
  obtain ⟨b, bs, rfl⟩ := List.exists_cons_of_ne_nil hne
  simp only [streamHandler, hfree, Option.bind_some, hread, hinto, hloop]
  rcases handleAll endpoint envs (whole.1.take n) d with _ | ⟨d', sent⟩
  · rfl
  · simp only [Option.map_some, Option.bind_some, hcompact]

end NekoLink.Device
