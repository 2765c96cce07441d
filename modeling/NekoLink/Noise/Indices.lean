import NekoLink.Noise.TunnSteps

/-!
# The indices a tunnel gives out

A tunnel made for a 24-bit peer index gives out local indices whose upper 24 bits are that index:
only the low byte of the next index is incremented.

* `Indexed.effect`: every effect keeps it so, in the handshake and in the sessions, and a
  handshake message that is sent names such an index.
* `Indexed.step`, `indexed_new`: the same for every call, and for a new tunnel.
-/

namespace NekoLink.Noise

open Wire

/-- A packet laid out as a data packet is no handshake message. -/
theorem PacketData.handshakeSender_eq_none {p : PacketData} {packet : Packet}
    (h : parseIncomingPacket p.bytes = .ok packet) : packet.handshakeSender = none := by
  have htype : (u32At p.bytes 0).toNat = dataType := by
    rw [PacketData.bytes, u32At_zero_type (by decide)]
  rw [parseIncomingPacket] at h
  split_ifs at h
  · rw [dif_neg (not_type htype (by decide)), dif_neg (not_type htype (by decide)),
      dif_neg (not_type htype (by decide))] at h
    split_ifs at h
    cases h
    rfl

namespace Tunn

variable {C : Prims} {index : UInt32}

/-- The index is the upper 24 bits of the local index. -/
def IsUpper (index localIndex : UInt32) : Prop := localIndex >>> 8 = index

theorem isUpper_iff {localIndex : UInt32} :
    IsUpper index localIndex ↔ localIndex.toNat / 256 = index.toNat := by
  have hshift : (localIndex >>> 8).toNat = localIndex.toNat / 256 := by
    rw [UInt32.toNat_shiftRight]
    exact Nat.shiftRight_eq_div_pow _ 8
  rw [IsUpper, ← UInt32.toNat_inj, hshift]

theorem isUpper_shiftLeft (h : index.toNat < 2 ^ 24) : IsUpper index (index <<< 8) := by
  have hshift : (index <<< 8).toNat = index.toNat * 256 := by
    rw [UInt32.toNat_shiftLeft]
    change index.toNat <<< 8 % 2 ^ 32 = index.toNat * 256
    rw [Nat.shiftLeft_eq]
    omega
  rw [isUpper_iff, hshift]
  omega

theorem IsUpper.incIndex {localIndex : UInt32} (h : IsUpper index localIndex) :
    IsUpper index (Handshake.incIndex localIndex) := by
  rw [isUpper_iff, Handshake.incIndex_div, ← isUpper_iff]
  exact h

/-- Every index given out has the same upper 24 bits. -/
structure Indexed (index : UInt32) (c : Core C) : Prop where
  nextIndex : IsUpper index c.handshake.nextIndex
  previous : ∀ s, c.handshake.previous = .initSent s → IsUpper index s.localIndex
  state : ∀ s, c.handshake.state = .initSent s → IsUpper index s.localIndex
  sessions : ∀ i s, c.sessions.get i = some s → IsUpper index s.receivingIndex

/-- A handshake message put on the network names such an index as its sender. -/
def Names (index : UInt32) (r : TunnResult) : Prop :=
  ∀ datagram packet senderIdx, r = .writeToNetwork datagram →
    parseIncomingPacket datagram = .ok packet → packet.handshakeSender = some senderIdx →
    IsUpper index senderIdx

section Names

theorem names_of_parse {datagram : List UInt8} {packet : Packet}
    (hparse : parseIncomingPacket datagram = .ok packet)
    (h : ∀ senderIdx, packet.handshakeSender = some senderIdx → IsUpper index senderIdx) :
    Names index (.writeToNetwork datagram) := by
  intro _ _ senderIdx heq hparse' hsender
  cases heq
  obtain rfl := Except.ok.inj (hparse.symm.trans hparse')
  exact h senderIdx hsender

theorem names_dataPacket (s : Session) (counter : ℕ) (src : List UInt8) :
    Names index (.writeToNetwork (s.dataPacket C counter src).bytes) := by
  intro _ _ _ heq hparse hsender
  cases heq
  rw [PacketData.handshakeSender_eq_none hparse] at hsender
  cases hsender

theorem names_of_quiet {r : TunnResult} (hr : Quiet r) : Names index r := by
  obtain rfl | ⟨e, rfl⟩ | ⟨reply, rfl⟩ := hr
  · intro _ _ _ heq
    cases heq
  · intro _ _ _ heq
    cases heq
  · exact names_of_parse (parseIncomingPacket_cookieReply reply) fun _ hsender => by cases hsender

theorem names_delivered (packet : List UInt8) : Names index (delivered packet) := by
  intro datagram _ _ heq
  rw [delivered] at heq
  split_ifs at heq
  split at heq
  · cases heq
  · split_ifs at heq
    split at heq <;> cases heq

end Names

variable {c c' : Core C} {e : Option Event} {r : TunnResult}

/-- A stored session keeps the ring as it should be when its own index is. -/
theorem Indexed.store (h : Indexed index c) {s : Session} (hs : IsUpper index s.receivingIndex)
    (i : ℕ) (s' : Session) (hget : (c.sessions.store s).get i = some s') :
    IsUpper index s'.receivingIndex := by
  obtain rfl | hget := SessionRing.get_store_cases hget
  · exact hs
  · exact h.sessions i s' hget

/-- **What one effect keeps.** -/
theorem Indexed.effect (h : Indexed index c) (heffect : Effect c e c' r) :
    Indexed index c' ∧ Names index r := by
  cases heffect with
  | idle cookies r hr => exact ⟨⟨h.nextIndex, h.previous, h.state, h.sessions⟩, names_of_quiet hr⟩
  | initiate ephemeralPrivate stampNow now cookies macs =>
    refine ⟨⟨h.nextIndex.incIndex, h.state, ?_, h.sessions⟩, ?_⟩
    · intro s hs
      cases hs
      exact h.nextIndex.incIndex
    · refine names_of_parse (parseIncomingPacket_handshakeInit _ macs) fun senderIdx hsender => ?_
      cases hsender
      exact h.nextIndex.incIndex
  | send s src hs =>
    have hs' : IsUpper index (s.bumped C).receivingIndex := h.sessions _ s hs
    exact ⟨⟨h.nextIndex, h.previous, h.state, h.store hs'⟩, names_dataPacket s _ src⟩
  | respond packet timestamp chainingKey hash ephemeralPrivate cookies macs established haccepts =>
    refine ⟨⟨h.nextIndex.incIndex, h.state, ?_, h.store h.nextIndex.incIndex⟩, ?_⟩
    · intro s hs
      cases hs
    · refine names_of_parse (parseIncomingPacket_handshakeResponse _ macs)
        fun senderIdx hsender => ?_
      cases hsender
      exact h.nextIndex.incIndex
  | stuck packet timestamp chainingKey hash haccepts =>
    refine ⟨⟨h.nextIndex, h.state, ?_, h.sessions⟩, names_of_quiet (quiet_err _)⟩
    intro s hs
    cases hs
  | establish packet s isPrevious temp2 temp3 rtt established current hawait hopen hcurrent =>
    obtain ⟨-, hslot⟩ := Handshake.awaiting_eq_some hawait
    have hs : IsUpper index s.localIndex := by
      split_ifs at hslot
      · exact h.previous s hslot
      · exact h.state s hslot
    refine ⟨⟨h.nextIndex, ?_, ?_, h.store hs⟩, names_dataPacket _ 0 []⟩
    · intro s' hs'
      dsimp only at hs'
      split_ifs at hs'
      exact h.previous s' hs'
    · intro s' hs'
      dsimp only at hs'
      split_ifs at hs'
      exact h.state s' hs'
  | receive p dstLen s s' ret current hs hreceive hcurrent =>
    have hsame := (Session.receivePacketData_ok hreceive).2
    have hs' : IsUpper index s'.receivingIndex := by
      rw [hsame.receivingIndex]
      exact h.sessions _ _ hs
    exact ⟨⟨h.nextIndex, h.previous, h.state, h.store hs'⟩, names_delivered ret⟩
  | expireSessions now cookies hle =>
    exact ⟨⟨h.nextIndex, h.previous, h.state,
      fun i s hs => h.sessions i s (SessionRing.get_of_get_filter hs)⟩, names_of_quiet quiet_done⟩
  | giveUp =>
    refine ⟨⟨h.nextIndex, ?_, ?_, ?_⟩, names_of_quiet (quiet_err _)⟩
    · intro s hs
      cases hs
    · intro s hs
      cases hs
    · intro i s hs
      cases hs
  | rekey staticPrivate staticPublic params hparams =>
    refine ⟨⟨h.nextIndex, h.previous, h.state, ?_⟩, names_of_quiet quiet_done⟩
    intro i s hs
    cases hs

/-- **What one call keeps.** -/
theorem Indexed.step {t t' : Tunn C} {i : Env × Call} (h : Indexed index t.core)
    (hstep : t.step i = some (t', r)) : Indexed index t'.core ∧ Names index r := by
  obtain ⟨c, e, rfl | ⟨env, dstLen, -, hexpire⟩, -, heffect⟩ := step_effect hstep
  · exact h.effect heffect
  · exact (h.effect hexpire).1.effect heffect

theorem Indexed.handleVerifiedPacket {t t' : Tunn C} {env : Env} {packet : Packet} {dstLen : ℕ}
    (h : Indexed index t.core) (hhandle : t.handleVerifiedPacket env packet dstLen = some (t', r)) :
    Indexed index t'.core ∧ Names index r :=
  h.effect (effect_handleVerifiedPacket hhandle)

/-- A new tunnel for a 24-bit index. -/
theorem indexed_new (hindex : index.toNat < 2 ^ 24) (staticPrivate peerStaticPublic : Bytes 32)
    (presharedKey : Option (Bytes 32)) (persistentKeepalive : Option ℕ)
    (rateLimiter : Option RateLimiter) (stamper : TimeStamper) (env : Env) :
    Indexed index (Tunn.new C staticPrivate peerStaticPublic presharedKey persistentKeepalive index
      rateLimiter stamper env).core := by
  refine ⟨isUpper_shiftLeft hindex, ?_, ?_, ?_⟩
  · intro s hs
    cases hs
  · intro s hs
    cases hs
  · intro i s hs
    cases hs

end Tunn

end NekoLink.Noise
