import NekoLink.Device.EventLoop

/-!
# The packets that reach the interface

`validate_decapsulated_packet` checks the size of the header on the decrypted length, and then cuts
the packet at the length that the header itself gives.

* `validateDecapsulatedPacket_v4`, `validateDecapsulatedPacket_v6`: what is given to the interface.
* `deliversWellFormed_iff`: it is a well-formed packet exactly when an IPv4 header does not give a
  length below its own.
-/

namespace NekoLink.Noise.Tunn

open Wire Device

variable {C : Prims} {t t' : Tunn C} {payload p : List UInt8}

/-- The first bytes of `payload`: they have the complete header, as many bytes as the header says
and the source address of the header, and the destination can be parsed. -/
structure WellFormed (payload p : List UInt8) (header length : ℕ) (source addr : List UInt8) :
    Prop where
  initial : p <+: payload
  header_le : header ≤ p.length
  length_eq : p.length = length
  source_eq : addr = source
  destination : (dstAddress p).isSome = true

/-- Only well-formed packets are given to the interface; any other payload is an invalid packet, and
leaves the tunnel as it was. -/
structure DeliversWellFormed (t : Tunn C) (payload : List UInt8) : Prop where
  v4 : ∀ t' p addr, t.validateDecapsulatedPacket payload = (t', .writeToTunnelV4 p addr) →
    WellFormed payload p ipv4MinHeaderSize (beValue (slice p 2 4)) (slice p 12 16) addr.toList
  v6 : ∀ t' p addr, t.validateDecapsulatedPacket payload = (t', .writeToTunnelV6 p addr) →
    WellFormed payload p ipv6MinHeaderSize (beValue (slice p 4 6) + ipv6MinHeaderSize)
      (slice p 8 24) addr.toList
  other : ∀ t' r, payload ≠ [] → t.validateDecapsulatedPacket payload = (t', r) →
    (∀ p addr, r ≠ .writeToTunnelV4 p addr) → (∀ p addr, r ≠ .writeToTunnelV6 p addr) →
    r = .err .invalidPacket ∧ t'.rxBytes = t.rxBytes ∧
      t'.timers.timers .timeLastDataPacketReceived = t.timers.timers .timeLastDataPacketReceived

/-- An IPv4 header that gives a length below its own. -/
def ShortLength (payload : List UInt8) : Prop :=
  payload.headD 0 >>> 4 = 4 ∧ ipv4MinHeaderSize ≤ payload.length ∧
    beValue (slice payload 2 4) < ipv4MinHeaderSize

/-! ## What is given to the interface -/

theorem headD_take {n : ℕ} (hn : 0 < n) (l : List UInt8) : (l.take n).headD 0 = l.headD 0 := by
  obtain ⟨m, rfl⟩ := Nat.exists_eq_add_of_lt hn
  cases l with
  | nil => rfl
  | cons b l => simp

theorem computedLenAndSource_v4 {n : ℕ} {addr : Bytes 4}
    (h : computedLenAndSource payload = some (n, .v4 addr)) :
    payload.headD 0 >>> 4 = 4 ∧ ipv4MinHeaderSize ≤ payload.length ∧
      n = beValue (slice payload 2 4) ∧ addr.toList = slice payload 12 16 := by
  rw [computedLenAndSource] at h
  split_ifs at h with h4 h6
  · cases h
    exact ⟨h4.1, h4.2, rfl, rfl⟩
  · cases h

theorem computedLenAndSource_v6 {n : ℕ} {addr : Bytes 16}
    (h : computedLenAndSource payload = some (n, .v6 addr)) :
    payload.headD 0 >>> 4 = 6 ∧ ipv6MinHeaderSize ≤ payload.length ∧
      n = beValue (slice payload 4 6) + ipv6MinHeaderSize ∧ addr.toList = slice payload 8 24 := by
  rw [computedLenAndSource] at h
  split_ifs at h with h4 h6
  · cases h
  · cases h
    exact ⟨h6.1, h6.2, rfl, rfl⟩

/-- A payload that is not empty is invalid and changes nothing, or it is cut at its length. -/
theorem validateDecapsulatedPacket_cases (t : Tunn C) (hpayload : payload ≠ []) :
    t.validateDecapsulatedPacket payload = (t, .err .invalidPacket) ∨
      ∃ t' n, n ≤ payload.length ∧
        ((∃ addr, computedLenAndSource payload = some (n, .v4 addr) ∧
          t.validateDecapsulatedPacket payload =
            (t', .writeToTunnelV4 (payload.take n) addr)) ∨
        ∃ addr, computedLenAndSource payload = some (n, .v6 addr) ∧
          t.validateDecapsulatedPacket payload =
            (t', .writeToTunnelV6 (payload.take n) addr)) := by
  rw [validateDecapsulatedPacket, if_neg hpayload]
  rcases hcomputed : computedLenAndSource payload with _ | ⟨n, addr | addr⟩
  · exact .inl rfl
  · dsimp only
    split_ifs with hlong
    · exact .inl rfl
    · exact .inr ⟨_, n, not_lt.mp hlong, .inl ⟨addr, rfl, rfl⟩⟩
  · dsimp only
    split_ifs with hlong
    · exact .inl rfl
    · exact .inr ⟨_, n, not_lt.mp hlong, .inr ⟨addr, rfl, rfl⟩⟩

theorem validateDecapsulatedPacket_v4 {addr : Bytes 4}
    (h : t.validateDecapsulatedPacket payload = (t', .writeToTunnelV4 p addr)) :
    payload.headD 0 >>> 4 = 4 ∧ ipv4MinHeaderSize ≤ payload.length ∧
      beValue (slice payload 2 4) ≤ payload.length ∧
      p = payload.take (beValue (slice payload 2 4)) ∧ addr.toList = slice payload 12 16 := by
  have hpayload : payload ≠ [] := by
    rintro rfl
    cases h
  obtain hinvalid | ⟨t'', n, hn, ⟨addr', hcomputed, heq⟩ | ⟨addr', hcomputed, heq⟩⟩ :=
    validateDecapsulatedPacket_cases t hpayload
  · cases hinvalid.symm.trans h
  · obtain ⟨hversion, hlength, rfl, hsource⟩ := computedLenAndSource_v4 hcomputed
    cases heq.symm.trans h
    exact ⟨hversion, hlength, hn, rfl, hsource⟩
  · cases heq.symm.trans h

theorem validateDecapsulatedPacket_v6 {addr : Bytes 16}
    (h : t.validateDecapsulatedPacket payload = (t', .writeToTunnelV6 p addr)) :
    payload.headD 0 >>> 4 = 6 ∧
      beValue (slice payload 4 6) + ipv6MinHeaderSize ≤ payload.length ∧
      p = payload.take (beValue (slice payload 4 6) + ipv6MinHeaderSize) ∧
      addr.toList = slice payload 8 24 := by
  have hpayload : payload ≠ [] := by
    rintro rfl
    cases h
  obtain hinvalid | ⟨t'', n, hn, ⟨addr', hcomputed, heq⟩ | ⟨addr', hcomputed, heq⟩⟩ :=
    validateDecapsulatedPacket_cases t hpayload
  · cases hinvalid.symm.trans h
  · cases heq.symm.trans h
  · obtain ⟨hversion, -, rfl, hsource⟩ := computedLenAndSource_v6 hcomputed
    cases heq.symm.trans h
    exact ⟨hversion, hn, rfl, hsource⟩

/-- A length below the header's own is below the length of the payload, too. -/
theorem validateDecapsulatedPacket_short (t : Tunn C) (hversion : payload.headD 0 >>> 4 = 4)
    (hlength : ipv4MinHeaderSize ≤ payload.length)
    (hshort : beValue (slice payload 2 4) < ipv4MinHeaderSize) :
    ∃ t' addr, t.validateDecapsulatedPacket payload =
      (t', .writeToTunnelV4 (payload.take (beValue (slice payload 2 4))) addr) := by
  have hpayload : payload ≠ [] := by
    rintro rfl
    exact absurd hlength (by decide)
  have hlong : ¬ payload.length < beValue (slice payload 2 4) := by omega
  rw [validateDecapsulatedPacket, if_neg hpayload, computedLenAndSource, dif_pos ⟨hversion, hlength⟩]
  dsimp only
  rw [if_neg hlong]
  exact ⟨_, _, rfl⟩

theorem dstAddress_v4 (hversion : p.headD 0 >>> 4 = 4) (hlength : ipv4MinHeaderSize ≤ p.length) :
    (dstAddress p).isSome = true := by
  rw [dstAddress, dif_pos ⟨hversion, hlength⟩]
  rfl

theorem dstAddress_v6 (hversion : p.headD 0 >>> 4 = 6) (hlength : ipv6MinHeaderSize ≤ p.length) :
    (dstAddress p).isSome = true := by
  have hv4 : ¬ (p.headD 0 >>> 4 = 4 ∧ ipv4MinHeaderSize ≤ p.length) := by
    rw [hversion]
    exact fun h => absurd h.1 (by decide)
  rw [dstAddress, dif_neg hv4, dif_pos ⟨hversion, hlength⟩]
  rfl

/-- **A cut that keeps the header keeps all that the header says.** -/
theorem wellFormed_take {n header i j i' j' : ℕ} (hn : n ≤ payload.length) (hheader : header ≤ n)
    (hj : j ≤ header) (hj' : j' ≤ header) {f : ℕ → ℕ} (hlength : n = f (beValue (slice payload i j)))
    (hdestination : (dstAddress (payload.take n)).isSome = true) :
    WellFormed payload (payload.take n) header (f (beValue (slice (payload.take n) i j)))
      (slice (payload.take n) i' j') (slice payload i' j') where
  initial := List.take_prefix _ _
  header_le := by
    rw [List.length_take]
    omega
  length_eq := by
    rw [List.length_take, slice_take (hj.trans hheader), ← hlength]
    omega
  source_eq := (slice_take (hj'.trans hheader)).symm
  destination := hdestination

/-- **Only well-formed packets reach the interface, exactly when an IPv4 header does not give a
length below its own.** -/
theorem deliversWellFormed_iff (t : Tunn C) (payload : List UInt8) :
    t.DeliversWellFormed payload ↔ ¬ ShortLength payload := by
  constructor
  · rintro hdelivers ⟨hversion, hlength, hshort⟩
    obtain ⟨t', addr, heq⟩ := validateDecapsulatedPacket_short t hversion hlength hshort
    have hheader := (hdelivers.v4 t' _ addr heq).header_le
    rw [List.length_take] at hheader
    omega
  · intro hshort
    constructor
    · intro t' p addr h
      obtain ⟨hversion, hlength, hn, rfl, hsource⟩ := validateDecapsulatedPacket_v4 h
      have hheader : ipv4MinHeaderSize ≤ beValue (slice payload 2 4) :=
        not_lt.mp fun hlt => hshort ⟨hversion, hlength, hlt⟩
      rw [hsource]
      refine wellFormed_take hn hheader (by decide) (by decide) (f := id) rfl (dstAddress_v4 ?_ ?_)
      · rwa [headD_take (lt_of_lt_of_le (by decide) hheader)]
      · rw [List.length_take]
        omega
    · intro t' p addr h
      obtain ⟨hversion, hn, rfl, hsource⟩ := validateDecapsulatedPacket_v6 h
      rw [hsource]
      refine wellFormed_take hn (Nat.le_add_left _ _) (by decide) (by decide)
        (f := (· + ipv6MinHeaderSize)) rfl (dstAddress_v6 ?_ ?_)
      · rwa [headD_take (Nat.add_pos_right _ (by decide))]
      · rw [List.length_take]
        omega
    · intro t' r hpayload h hv4 hv6
      obtain hinvalid | ⟨t'', n, -, ⟨addr, -, heq⟩ | ⟨addr, -, heq⟩⟩ :=
        validateDecapsulatedPacket_cases t hpayload
      · cases hinvalid.symm.trans h
        exact ⟨rfl, rfl, rfl⟩
      · cases heq.symm.trans h
        exact absurd rfl (hv4 _ _)
      · cases heq.symm.trans h
        exact absurd rfl (hv6 _ _)

/-- An IPv4 header with a total length of zero. -/
def zeroLength : List UInt8 := 0x45 :: List.replicate 19 0

/-- The interface is given no byte at all. -/
theorem zeroLength_not_wellFormed : ¬ (sampleTunn 1 2 1).DeliversWellFormed zeroLength := by
  intro hdelivers
  have hversion : zeroLength.headD 0 >>> 4 = 4 := by decide
  obtain ⟨t', addr, heq⟩ :=
    validateDecapsulatedPacket_short (sampleTunn 1 2 1) hversion (by decide) (by decide)
  exact absurd (hdelivers.v4 t' _ addr heq).header_le (by decide)

end NekoLink.Noise.Tunn
