import NekoLink.Foundations.Framing
import NekoLink.Foundations.Runs

/-!
# TCP framing

`TcpFraming` of `tcp_framing.rs`: a fixed buffer, filled by reads and emptied frame by frame. `none`
is a panic of a slice, a copy or a subtraction.

* `peekPackets_eq`: the frames taken are the ones in the buffered bytes.
* `round_eq`: one read, the frames taken after it and the compaction, on the buffered bytes.
* `framing_round_trip`: however a stream of packets is cut into reads and wherever the loops stop,
  the packets come out in order, and what is buffered is what has not come out yet.
-/

namespace NekoLink.Device

open Wire

def maxDatagramSize : ℕ := 65535

def headerLen : ℕ := 2

structure TcpFraming where
  buffer : Bytes maxDatagramSize
  unprocessedI : ℕ

namespace TcpFraming

def new : TcpFraming := ⟨zeros maxDatagramSize, 0⟩

variable (t : TcpFraming)

/-- The length of the free space in the buffer. -/
def getFreeSpace : Option ℕ :=
  if t.unprocessedI ≤ maxDatagramSize then some (maxDatagramSize - t.unprocessedI) else none

/-- The buffer with some bytes written from `i` on. -/
def overwrite (buffer : Bytes maxDatagramSize) (i : ℕ) (bs : List UInt8)
    (h : i + bs.length ≤ maxDatagramSize) : Bytes maxDatagramSize :=
  ⟨buffer.toList.take i ++ bs ++ buffer.toList.drop (i + bs.length), by simp; omega⟩

/-- A read from the socket into the free space; it is never longer than that. -/
def readInto (bs : List UInt8) : Option TcpFraming :=
  if h : t.unprocessedI + bs.length ≤ maxDatagramSize then
    some { t with buffer := overwrite t.buffer t.unprocessedI bs h }
  else none

/-- Notify that `len` bytes have been read into the buffer. -/
def advance (len : ℕ) : TcpFraming := { t with unprocessedI := t.unprocessedI + len }

/-- `buffer[i..j]` -/
def range (i j : ℕ) : Option (List UInt8) :=
  if i ≤ j ∧ j ≤ maxDatagramSize then some (slice t.buffer.toList i j) else none

/-- Try to parse the next packet from the buffer at `offset`: its length with the header, and the
payload. -/
def peekPacket (offset : ℕ) : Option (Option (ℕ × List UInt8)) :=
  if t.unprocessedI < offset + headerLen then some none
  else
    (t.range offset (offset + headerLen)).bind fun header =>
      let totalPacketLen := headerLen + beValue header
      if t.unprocessedI < offset + totalPacketLen then some none
      else (t.range (offset + headerLen) (offset + totalPacketLen)).map fun payload =>
        some (totalPacketLen, payload)

/-- `buffer.copy_within(i..j, 0)` -/
def copyWithin (buffer : Bytes maxDatagramSize) (i j : ℕ) : Option (Bytes maxDatagramSize) :=
  if h : i ≤ j ∧ j ≤ maxDatagramSize then
    some ⟨slice buffer.toList i j ++ buffer.toList.drop (j - i), by
      rw [List.length_append, length_slice (by simpa using h.2)]
      simp
      omega⟩
  else none

/-- Shift unprocessed data to the beginning of the buffer. -/
def compact (bytesConsumed : ℕ) : Option TcpFraming :=
  if 0 < bytesConsumed then
    (if bytesConsumed < t.unprocessedI then copyWithin t.buffer bytesConsumed t.unprocessedI
      else some t.buffer).bind fun buffer =>
        if bytesConsumed ≤ t.unprocessedI then
          some ⟨buffer, t.unprocessedI - bytesConsumed⟩
        else none
  else some t

/-- Packets from the buffer at the running offset, `n` of them at most; and the offset after. -/
def peekPackets : ℕ → ℕ → Option (List (List UInt8) × ℕ)
  | 0, offset => some ([], offset)
  | n + 1, offset =>
    (t.peekPacket offset).bind fun
      | none => some ([], offset)
      | some (totalLen, packet) =>
        (peekPackets n (offset + totalLen)).map fun r => (packet :: r.1, r.2)

/-- One event: a read, packets until there is none or `n` have been taken, and the compaction. -/
def round (t : TcpFraming) : List UInt8 × ℕ → Option (TcpFraming × List (List UInt8))
  | (bs, n) => do
    let t ← t.readInto bs
    let t := t.advance bs.length
    let (packets, bytesConsumed) ← t.peekPackets n 0
    let t ← t.compact bytesConsumed
    return (t, packets)

/-- The bytes read and not processed. -/
def buffered : List UInt8 := t.buffer.toList.take t.unprocessedI

/-- The fill level is inside the buffer. -/
def Valid : Prop := t.unprocessedI ≤ maxDatagramSize

variable {t} {t' : TcpFraming} {bs : List UInt8} {n offset : ℕ}

theorem length_buffered (hv : t.Valid) : t.buffered.length = t.unprocessedI := by
  rw [buffered, List.length_take, List.Vector.toList_length]
  exact Nat.min_eq_left hv

theorem valid_new : new.Valid := Nat.zero_le _

theorem buffered_new : new.buffered = [] := rfl

/-- A range of the buffer below the fill level is one of the buffered bytes. -/
theorem range_eq (hv : t.Valid) {i j : ℕ} (hij : i ≤ j) (hj : j ≤ t.unprocessedI) :
    t.range i j = some (slice t.buffered i j) := by
  have hmax : j ≤ maxDatagramSize := hj.trans hv
  rw [range, if_pos ⟨hij, hmax⟩, buffered, slice, slice, List.drop_take, List.take_take]
  congr 2
  omega

/-- A packet peeked at is the next frame of the buffered bytes. -/
theorem peekPacket_eq (hv : t.Valid) (ho : offset ≤ t.unprocessedI) :
    t.peekPacket offset = some ((nextFrame headerLen (t.buffered.drop offset)).map fun r =>
      (headerLen + r.1.length, r.1)) := by
  have hlen : (t.buffered.drop offset).length = t.unprocessedI - offset := by
    rw [List.length_drop, length_buffered hv]
  rw [peekPacket, nextFrame, hlen]
  by_cases hheader : t.unprocessedI < offset + headerLen
  · rw [if_pos hheader, if_pos (by omega)]
    rfl
  · rw [if_neg hheader, if_neg (by omega), range_eq hv (by omega) (by omega), Option.bind_some]
    have htake : slice t.buffered offset (offset + headerLen) =
        (t.buffered.drop offset).take headerLen := by
      rw [slice, Nat.add_sub_cancel_left]
    rw [htake]
    dsimp only
    set n := beValue ((t.buffered.drop offset).take headerLen) with hn
    by_cases hpayload : t.unprocessedI < offset + (headerLen + n)
    · rw [if_pos hpayload, if_pos (by omega)]
      rfl
    · rw [if_neg hpayload, if_neg (by omega), range_eq hv (by omega) (by omega)]
      have hslice : slice t.buffered (offset + headerLen) (offset + (headerLen + n)) =
          slice (t.buffered.drop offset) headerLen (headerLen + n) := by
        rw [slice, slice, List.drop_drop]
        congr 1
        omega
      have hlength : (slice (t.buffered.drop offset) headerLen (headerLen + n)).length = n := by
        rw [length_slice (by omega), Nat.add_sub_cancel_left]
      rw [hslice, Option.map_some, Option.map_some, hlength]

/-- **The frames taken** are the ones in the buffered bytes, and the offset stays below the fill
level. -/
theorem peekPackets_eq (hv : t.Valid) (n : ℕ) (ho : offset ≤ t.unprocessedI) :
    ∃ offset', t.peekPackets n offset =
        some ((takeFrames headerLen n (t.buffered.drop offset)).1, offset') ∧
      offset' ≤ t.unprocessedI ∧
      t.buffered.drop offset' = (takeFrames headerLen n (t.buffered.drop offset)).2 := by
  induction n generalizing offset with
  | zero => exact ⟨offset, rfl, ho, rfl⟩
  | succ n ih =>
    rw [peekPackets, takeFrames, peekPacket_eq hv ho]
    rcases hnext : nextFrame headerLen (t.buffered.drop offset) with _ | ⟨p, rest⟩
    · exact ⟨offset, rfl, ho, rfl⟩
    · obtain ⟨hdrop, -⟩ := eq_of_nextFrame hnext
      have hlen := congrArg List.length hdrop
      rw [List.length_drop, length_buffered hv, List.length_append, length_frame] at hlen
      have hrest : t.buffered.drop (offset + (headerLen + p.length)) = rest := by
        rw [← List.drop_drop, hdrop, ← length_frame headerLen p, List.drop_left]
      obtain ⟨offset', hpeek, hle, hdrop'⟩ :=
        @ih (offset + (headerLen + p.length)) (by omega)
      rw [hrest] at hpeek hdrop'
      refine ⟨offset', ?_, hle, hdrop'⟩
      simp only [Option.map_some, Option.bind_some, hpeek]

theorem copyWithin_eq {buffer : Bytes maxDatagramSize} {i j : ℕ} (hij : i ≤ j)
    (hj : j ≤ maxDatagramSize) : ∃ buffer', copyWithin buffer i j = some buffer' ∧
      buffer'.toList = slice buffer.toList i j ++ buffer.toList.drop (j - i) :=
  ⟨_, dif_pos ⟨hij, hj⟩, rfl⟩

/-- Compaction drops the bytes consumed. -/
theorem compact_eq (hv : t.Valid) {bytesConsumed : ℕ} (h : bytesConsumed ≤ t.unprocessedI) :
    ∃ t', t.compact bytesConsumed = some t' ∧ t'.Valid ∧
      t'.buffered = t.buffered.drop bytesConsumed := by
  have hmax : t.unprocessedI ≤ maxDatagramSize := hv
  rw [compact]
  by_cases hpos : 0 < bytesConsumed
  · rw [if_pos hpos]
    have hvalid : t.unprocessedI - bytesConsumed ≤ maxDatagramSize := (Nat.sub_le _ _).trans hmax
    by_cases hlt : bytesConsumed < t.unprocessedI
    · obtain ⟨buffer', hcopy, hbuffer'⟩ := copyWithin_eq h hmax
      rw [if_pos hlt, hcopy, Option.bind_some, if_pos h]
      refine ⟨_, rfl, hvalid, ?_⟩
      have hlen : (slice t.buffer.toList bytesConsumed t.unprocessedI).length =
          t.unprocessedI - bytesConsumed := length_slice (by simpa using hmax)
      rw [buffered, buffered, hbuffer', List.drop_take]
      exact List.take_left' hlen
    · -- everything has been consumed
      rw [if_neg hlt, Option.bind_some, if_pos h]
      refine ⟨_, rfl, hvalid, ?_⟩
      rw [buffered, Nat.sub_eq_zero_of_le (by omega), List.take_zero, List.drop_eq_nil_of_le]
      rw [length_buffered hv]
      omega
  · obtain rfl : bytesConsumed = 0 := by omega
    exact ⟨t, if_neg hpos, hv, rfl⟩

/-- A read puts its bytes behind the buffered ones. -/
theorem readInto_eq (hfit : t.unprocessedI + bs.length ≤ maxDatagramSize) :
    ∃ t', t.readInto bs = some t' ∧ (t'.advance bs.length).Valid ∧
      (t'.advance bs.length).buffered = t.buffered ++ bs := by
  refine ⟨_, dif_pos hfit, hfit, ?_⟩
  have hlen : (t.buffer.toList.take t.unprocessedI ++ bs).length = t.unprocessedI + bs.length := by
    rw [List.length_append, List.length_take, List.Vector.toList_length]
    omega
  exact List.take_left' hlen

/-- **One event** on the buffered bytes. -/
theorem round_eq (hfit : t.unprocessedI + bs.length ≤ maxDatagramSize) (n : ℕ) :
    ∃ t', t.round (bs, n) = some (t', (takeFrames headerLen n (t.buffered ++ bs)).1) ∧ t'.Valid ∧
      t'.buffered = (takeFrames headerLen n (t.buffered ++ bs)).2 := by
  obtain ⟨t₁, hread, hv₁, hbuffered₁⟩ := readInto_eq hfit
  obtain ⟨consumed, hpeek, hle, hdrop⟩ := peekPackets_eq hv₁ n (Nat.zero_le _)
  obtain ⟨t₂, hcompact, hv₂, hbuffered₂⟩ := compact_eq hv₁ hle
  rw [List.drop_zero, hbuffered₁] at hpeek hdrop
  rw [hbuffered₁] at hbuffered₂
  refine ⟨t₂, ?_, hv₂, hbuffered₂.trans hdrop⟩
  simp only [round, hread, hpeek, hcompact, Option.bind_eq_bind, Option.bind_some, Option.pure_def]

/-! ## Runs -/

/-- What an event does to the buffered bytes. -/
def roundBuffered (buffered : List UInt8) :
    List UInt8 × ℕ → Option (List UInt8 × List (List UInt8))
  | (bs, n) =>
    some ((takeFrames headerLen n (buffered ++ bs)).2, (takeFrames headerLen n (buffered ++ bs)).1)

/-- Every read is of some bytes and fits the free space offered, given what is buffered. -/
def Fits (buffered : List UInt8) : List (List UInt8 × ℕ) → Prop
  | [] => True
  | (bs, n) :: rounds => bs ≠ [] ∧ buffered.length + bs.length ≤ maxDatagramSize ∧
      Fits (takeFrames headerLen n (buffered ++ bs)).2 rounds

/-- The bytes of some reads. -/
def bytesRead (rounds : List (List UInt8 × ℕ)) : List UInt8 := (rounds.map Prod.fst).flatten

/-- **The buffer refines the buffered bytes**: when the reads fit, a run does not panic, and does
what the buffered bytes do. -/
theorem run_eq (hv : t.Valid) {rounds : List (List UInt8 × ℕ)} (hfits : Fits t.buffered rounds) :
    ∃ t' out, Machine.run round t rounds = some (t', out) ∧ t'.Valid ∧
      Machine.run roundBuffered t.buffered rounds = some (t'.buffered, out) := by
  induction rounds generalizing t with
  | nil => exact ⟨t, [], rfl, hv, rfl⟩
  | cons round rounds ih =>
    obtain ⟨bs, n⟩ := round
    obtain ⟨-, hfit, hrest⟩ := hfits
    rw [length_buffered hv] at hfit
    obtain ⟨t₁, hround, hv₁, hbuffered₁⟩ := round_eq hfit n
    rw [← hbuffered₁] at hrest
    obtain ⟨t', out, hrun, hv', hrun'⟩ := ih hv₁ hrest
    refine ⟨t', _, by rw [Machine.run_cons_of_step hround, hrun, Option.map_some], hv', ?_⟩
    rw [Machine.run_cons_of_step rfl, ← hbuffered₁, hrun', Option.map_some]

/-- A run splits the bytes into the frames taken and the rest. -/
theorem run_roundBuffered {buffered buffered' : List UInt8} {rounds : List (List UInt8 × ℕ)}
    {out : List (List (List UInt8))}
    (h : Machine.run roundBuffered buffered rounds = some (buffered', out)) :
    buffered ++ bytesRead rounds = stream headerLen out.flatten ++ buffered' ∧
      ∀ p ∈ out.flatten, p.length < 256 ^ headerLen := by
  induction rounds generalizing buffered out with
  | nil =>
    cases h
    exact ⟨by simp [bytesRead], by simp⟩
  | cons round rounds ih =>
    obtain ⟨bs, n⟩ := round
    obtain ⟨_, _, out', hstep, hrun, rfl⟩ := Machine.run_cons_eq_some.mp h
    cases hstep
    obtain ⟨hsplit, hall⟩ := ih hrun
    obtain ⟨hframes, hshort, -⟩ := takeFrames_spec headerLen n (buffered ++ bs)
    constructor
    · rw [List.flatten_cons, stream_append, List.append_assoc, ← hsplit, ← List.append_assoc,
        ← hframes, List.append_assoc]
      rfl
    · intro p hp
      rw [List.flatten_cons, List.mem_append] at hp
      rcases hp with hp | hp
      · exact hshort p hp
      · exact hall p hp

/-- When no whole frame of a stream of packets is buffered, there is free space for a read. -/
theorem unprocessedI_lt (hv : t.Valid) {packets : List (List UInt8)}
    (hlen : ∀ p ∈ packets, p.length ≤ maxDatagramSize - headerLen)
    (hpre : t.buffered <+: stream headerLen packets) (hnone : nextFrame headerLen t.buffered = none) :
    t.unprocessedI < maxDatagramSize := by
  rw [← length_buffered hv]
  rcases packets with _ | ⟨p, packets⟩
  · rw [List.prefix_nil.mp hpre]
    decide
  · have hp := hlen p (List.mem_cons_self ..)
    rw [stream_cons] at hpre
    -- otherwise the first frame would be whole
    by_contra hfull
    have hframe : (frame headerLen p).length ≤ t.buffered.length := by
      rw [length_frame]
      simp only [maxDatagramSize, headerLen] at hp hfull ⊢
      omega
    obtain ⟨rest, hrest⟩ := List.prefix_of_prefix_length_le (List.prefix_append _ _) hpre hframe
    rw [← hrest, nextFrame_frame (lt_of_le_of_lt hp (by decide))] at hnone
    cases hnone

/-- **Framing round trip.** However a stream of packets is cut into reads that fit, and wherever the
loops stop, nothing panics, the packets taken are the first ones in order, and the bytes buffered are
the part of what was read that has not come out. Once a loop has run out of whole frames there is
room for the next read, and once everything has been read, all packets are out. -/
theorem framing_round_trip {packets : List (List UInt8)} {rounds : List (List UInt8 × ℕ)}
    (hlen : ∀ p ∈ packets, p.length ≤ maxDatagramSize - headerLen) (hfits : Fits [] rounds)
    (hread : bytesRead rounds <+: stream headerLen packets) :
    ∃ t out, Machine.run round new rounds = some (t, out) ∧
      bytesRead rounds = stream headerLen out.flatten ++ t.buffered ∧
      t.buffered.length = t.unprocessedI ∧ t.unprocessedI ≤ maxDatagramSize ∧
      (∃ rest, packets = out.flatten ++ rest ∧ t.buffered <+: stream headerLen rest) ∧
      (∀ bs, t.unprocessedI + bs.length ≤ maxDatagramSize → ∃ t₁, t.readInto bs = some t₁ ∧
        (t₁.advance bs.length).unprocessedI ≤ maxDatagramSize ∧ ∀ n, ∃ taken bytesConsumed t₂,
          (t₁.advance bs.length).peekPackets n 0 = some (taken, bytesConsumed) ∧
          bytesConsumed ≤ (t₁.advance bs.length).unprocessedI ∧
          (t₁.advance bs.length).compact bytesConsumed = some t₂) ∧
      (t.peekPacket 0 = some none → t.unprocessedI < maxDatagramSize ∧
        (bytesRead rounds = stream headerLen packets → out.flatten = packets ∧ t.buffered = [])) := by
  obtain ⟨t, out, hrun, hv, hrun'⟩ := run_eq valid_new hfits
  obtain ⟨hsplit, hall⟩ := run_roundBuffered hrun'
  rw [buffered_new, List.nil_append] at hsplit
  have hshort : ∀ p ∈ packets, p.length < 256 ^ headerLen :=
    fun p hp => lt_of_le_of_lt (hlen p hp) (by decide)
  rw [hsplit] at hread
  obtain ⟨rest, hpackets, hrest⟩ := prefix_of_stream (by decide) hall hshort hread
  refine ⟨t, out, hrun, hsplit, length_buffered hv, hv, ⟨rest, hpackets, hrest⟩, fun bs hfit => ?_,
    fun hnone => ?_⟩
  · obtain ⟨t₁, hinto, hv₁, -⟩ := readInto_eq hfit
    refine ⟨t₁, hinto, hv₁, fun n => ?_⟩
    obtain ⟨consumed, hpeek, hle, -⟩ := peekPackets_eq hv₁ n (Nat.zero_le _)
    obtain ⟨t₂, hcompact, -, -⟩ := compact_eq hv₁ hle
    exact ⟨_, consumed, t₂, hpeek, hle, hcompact⟩
  · have hframe : nextFrame headerLen t.buffered = none := by
      rw [peekPacket_eq hv (Nat.zero_le _), List.drop_zero] at hnone
      exact Option.map_eq_none_iff.mp (Option.some.inj hnone)
    have hmem : ∀ p ∈ rest, p ∈ packets := fun p hp => by
      rw [hpackets]
      exact List.mem_append_right _ hp
    refine ⟨unprocessedI_lt hv (fun p hp => hlen p (hmem p hp)) hrest hframe, fun hend => ?_⟩
    -- the buffer is the rest of the stream, which has no whole frame
    rw [hsplit, hpackets, stream_append, List.append_cancel_left_eq] at hend
    rw [hend] at hframe
    obtain rfl := eq_nil_of_nextFrame (fun p hp => hshort p (hmem p hp)) hframe
    exact ⟨by rw [hpackets, List.append_nil], hend⟩

/-- Two packets, cut inside the first header and inside the second payload; the first loop is stopped
before its first frame. -/
theorem framing_round_trip_sample :
    ∃ t out, Machine.run round new [([0], 100), ([2, 7, 8, 0], 0), ([1, 9], 100)] = some (t, out) ∧
      out.flatten = [[7, 8], [9]] ∧ t.buffered = [] := by
  have hfits : Fits [] [([0], 100), ([2, 7, 8, 0], 0), ([1, 9], 100)] :=
    ⟨by decide, by decide, by decide, by decide, by decide, by decide, trivial⟩
  have hlen : ∀ p ∈ ([[7, 8], [9]] : List (List UInt8)),
      p.length ≤ maxDatagramSize - headerLen := by decide
  obtain ⟨t, out, hrun, -, -, hv, -, -, hend⟩ := framing_round_trip hlen hfits (by decide)
  obtain ⟨t', out', hrun', -, hbuffered⟩ := run_eq valid_new hfits
  cases hrun.symm.trans hrun'
  have hempty : t.buffered = [] := (Prod.mk.inj (Option.some.inj hbuffered)).1.symm
  have hpeek : t.peekPacket 0 = some none := by
    rw [peekPacket_eq hv (Nat.zero_le _), hempty]
    rfl
  exact ⟨t, out, hrun, (hend hpeek).2 (by decide)⟩

end TcpFraming

end NekoLink.Device
