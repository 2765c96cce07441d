import NekoLink.Noise.HandshakeSteps

/-!
# Agreement of the handshake

The four key schedules agree pairwise: `openInitiation_sealInitiation` and
`parseHandshakeAnon_sealInitiation` for the initiation, `openResponse_sealResponse` for the
response. `handshake_agreement` puts them together with the encoders, the parser and the two slots
of the initiator.
-/

namespace NekoLink.Noise

open Wire

variable {C : Prims}

/-- Two parties: each holds the other's static public key. -/
structure Paired (pI pR : NoiseParams C) : Prop where
  peer_initiator : pI.peerStaticPublic = pR.staticPublic
  peer_responder : pR.peerStaticPublic = pI.staticPublic

/-- Two sessions of one handshake: swapped keys and crossed indices. -/
structure Crossed (a b : Session) : Prop where
  sender_eq : a.sender = b.receiver
  receiver_eq : a.receiver = b.sender
  sendingIndex_eq : a.sendingIndex = b.receivingIndex
  receivingIndex_eq : a.receivingIndex = b.sendingIndex

instance (a b : Session) : Decidable (Crossed a b) :=
  decidable_of_iff (a.sender = b.receiver ∧ a.receiver = b.sender ∧
    a.sendingIndex = b.receivingIndex ∧ a.receivingIndex = b.sendingIndex)
    ⟨fun ⟨h₁, h₂, h₃, h₄⟩ => ⟨h₁, h₂, h₃, h₄⟩, fun ⟨h₁, h₂, h₃, h₄⟩ => ⟨h₁, h₂, h₃, h₄⟩⟩

variable {pI pR : NoiseParams C}

namespace Paired

theorem symm (h : Paired pI pR) : Paired pR pI := ⟨h.peer_responder, h.peer_initiator⟩

variable [C.Lawful]

theorem static_shared (h : Paired pI pR) : pI.staticShared = pR.staticShared := by
  rw [pI.static_shared_eq, pR.static_shared_eq, h.peer_initiator, h.peer_responder,
    ← pI.static_public_eq, ← pR.static_public_eq, Prims.Lawful.dh_comm]

/-- An ephemeral key of one side against the static key of the other. -/
theorem ephemeral_static (h : Paired pI pR) (ephemeralPrivate : Bytes 32) :
    C.diffieHellman pR.staticPrivate (C.publicKey ephemeralPrivate) =
      C.diffieHellman ephemeralPrivate pI.peerStaticPublic := by
  rw [h.peer_initiator, ← pR.static_public_eq, Prims.Lawful.dh_comm]

end Paired

/-- Parameters of the concrete instance, for a private key and the peer's, one byte repeated. -/
def sampleParams (own peer : UInt8) : NoiseParams checksumPrims :=
  NoiseParams.new (fill 32 own) (checksumPrims.publicKey (fill 32 own))
    (checksumPrims.publicKey (fill 32 peer)) none rfl

/-- A new handshake of the concrete instance. -/
def sampleHandshake (own peer : UInt8) (globalIdx : UInt32) : Handshake checksumPrims :=
  Handshake.new (sampleParams own peer) globalIdx ⟨10 ^ 18, 0⟩

/-! ## The schedules -/

section Schedules

variable [C.Lawful] {localIndex peerIndex : UInt32} {ephemeralPrivate : Bytes 32}
  {timestamp : Bytes 12}

/-- The responder recovers the timestamp, the chaining key and the hash of an initiation. -/
theorem openInitiation_sealInitiation (h : Paired pI pR) :
    openInitiation pR (sealInitiation pI localIndex ephemeralPrivate timestamp).1 =
      .ok (timestamp, (sealInitiation pI localIndex ephemeralPrivate timestamp).2) := by
  have hshared := h.static_shared
  have hephemeral := h.ephemeral_static ephemeralPrivate
  simp only [openInitiation, sealInitiation, hephemeral, ← h.peer_initiator, h.peer_responder,
    ← hshared, aeadChacha20Open_seal, ne_eq, not_true_eq_false, if_false]

/-- The responder's static key alone recovers who sent an initiation, and under which index. -/
theorem parseHandshakeAnon_sealInitiation (h : Paired pI pR) :
    parseHandshakeAnon C pR.staticPrivate pR.staticPublic
        (sealInitiation pI localIndex ephemeralPrivate timestamp).1 =
      .ok ⟨localIndex, pI.staticPublic⟩ := by
  have hephemeral := h.ephemeral_static ephemeralPrivate
  simp only [parseHandshakeAnon, sealInitiation, hephemeral, ← h.peer_initiator,
    aeadChacha20Open_seal]
  rfl

/-- The initiator recovers the two session keys of a response. -/
theorem openResponse_sealResponse (h : Paired pI pR) (hpsk : pI.presharedKey = pR.presharedKey)
    (s : HandshakeInitSentState) :
    openResponse pI s (sealResponse pR localIndex peerIndex ephemeralPrivate s.hash s.chainingKey
        (C.publicKey s.ephemeralPrivate)).1 =
      .ok (sealResponse pR localIndex peerIndex ephemeralPrivate s.hash s.chainingKey
        (C.publicKey s.ephemeralPrivate)).2 := by
  have hstatic := h.symm.ephemeral_static ephemeralPrivate
  have hephemeral : C.diffieHellman s.ephemeralPrivate (C.publicKey ephemeralPrivate) =
      C.diffieHellman ephemeralPrivate (C.publicKey s.ephemeralPrivate) :=
    Prims.Lawful.dh_comm _ _
  simp only [openResponse, sealResponse, hstatic, hephemeral, hpsk, aeadChacha20Open_seal]

end Schedules

/-! ## The messages -/

namespace Handshake

variable [C.Lawful] {I R : Handshake C} {ephemeralR : Bytes 32} {stampNow now : ℕ}

/-- A paired responder accepts an initiation with a newer timestamp. -/
theorem accepts_initiation (ephemeralI : Bytes 32) (now : ℕ) (hkeys : Paired I.params R.params)
    (hstamp : (Tai64N.parse (I.stamper.stamp stampNow)).after R.lastHandshakeTimestamp = true) :
    R.Accepts (I.initiation ephemeralI stampNow) (I.stamper.stamp stampNow)
      (I.sentState ephemeralI stampNow now).chainingKey
      (I.sentState ephemeralI stampNow now).hash :=
  ⟨openInitiation_sealInitiation hkeys, hstamp⟩

/-- The initiator takes the response to an initiation it still holds. -/
theorem receiveHandshakeResponse_response (hkeys : Paired I.params R.params)
    (hpsk : I.params.presharedKey = R.params.presharedKey) {s : HandshakeInitSentState}
    (hs : Distinguishes s I) (hin : I.state = .initSent s ∨ I.previous = .initSent s)
    {packet : HandshakeInit} (hidx : packet.senderIdx = s.localIndex)
    (heph : packet.unencryptedEphemeral = C.publicKey s.ephemeralPrivate) :
    ∃ I' sI, I.receiveHandshakeResponse (R.response packet ephemeralR s.chainingKey s.hash).1 now =
        (I', .ok sI) ∧
      Crossed sI (R.responderSession packet ephemeralR s.chainingKey s.hash) := by
  obtain ⟨isPrevious, hawait⟩ := hs.awaiting hin
  rw [← hidx] at hawait
  have hopen : openResponse I.params s (R.response packet ephemeralR s.chainingKey s.hash).1 =
      .ok (R.response packet ephemeralR s.chainingKey s.hash).2 := by
    rw [response, heph]
    exact openResponse_sealResponse hkeys hpsk s
  exact ⟨_, _, receiveHandshakeResponse_ok now hawait hopen, rfl, rfl, rfl, hidx.symm⟩

/-- **Agreement.** A responder takes the initiation of a paired initiator, and the initiator takes
the response in whatever state it has come to, as long as it still holds the initiation and its
keys: both obtain a session, and the two are crossed. Meanwhile the responder's static key tells who
initiated, and under which index. -/
theorem handshake_agreement (I R : Handshake C) (hkeys : Paired I.params R.params)
    (hpsk : I.params.presharedKey = R.params.presharedKey) (ephemeralI ephemeralR : Bytes 32)
    (stampNow now dstI dstR : ℕ) (hdstI : handshakeInitSz ≤ dstI) (hdstR : handshakeRespSz ≤ dstR)
    (hstamp : (Tai64N.parse (I.stamper.stamp stampNow)).after R.lastHandshakeTimestamp = true) :
    ∃ I₁ datagram p s,
      I.formatHandshakeInitiation ephemeralI stampNow now dstI = (I₁, .ok datagram) ∧
      I₁.state = .initSent s ∧
      parseIncomingPacket datagram = .ok (.handshakeInit p) ∧
      parseHandshakeAnon C R.params.staticPrivate R.params.staticPublic p =
        .ok ⟨s.localIndex, I.params.staticPublic⟩ ∧
      ∃ R₁ reply q sR,
        R.receiveHandshakeInitialization p ephemeralR dstR = some (R₁, .ok (reply, sR)) ∧
        parseIncomingPacket reply = .ok (.handshakeResponse q) ∧
        ∀ I₂ now₂, Machine.Reaches step (fun _ _ => True) I₁ I₂ → I₂.params = I₁.params →
          (I₂.state = .initSent s ∨ I₂.previous = .initSent s) →
          ∃ I₃ sI, I₂.receiveHandshakeResponse q now₂ = (I₃, .ok sI) ∧ Crossed sI sR := by
  obtain ⟨cookies, macs, hformat⟩ := formatHandshakeInitiation_ok I ephemeralI stampNow now hdstI
  have haccepts := accepts_initiation ephemeralI now hkeys hstamp
  obtain ⟨cookiesR, macsR, hreceive⟩ :=
    receiveHandshakeInitialization_ok ephemeralR haccepts hdstR
  refine ⟨_, _, _, I.sentState ephemeralI stampNow now, hformat, rfl,
    parseIncomingPacket_handshakeInit _ macs, parseHandshakeAnon_sealInitiation hkeys, _, _, _, _,
    hreceive, parseIncomingPacket_handshakeResponse _ macsR, ?_⟩
  intro I₂ now₂ hreach hparams hin
  -- whatever calls come in between, the slots tell this initiation from any newer one
  have hdist : Distinguishes (I.sentState ephemeralI stampNow now) I₂ := by
    refine hreach.invariant ⟨fun _ => rfl, fun _ s' hs' => Or.inl ?_⟩ ?_
    · cases hs'
      rfl
    · intro h c h' u hd _ hstep
      exact hd.effect (step_effect hstep)
  have hkeys₂ : Paired I₂.params R.params := by
    rw [hparams]
    exact hkeys
  have hpsk₂ : I₂.params.presharedKey = R.params.presharedKey := by
    rw [hparams]
    exact hpsk
  exact receiveHandshakeResponse_response hkeys₂ hpsk₂ hdist hin rfl rfl

/-- The initiation and the response between two new handshakes of the concrete instance. -/
theorem handshake_agreement_sample :
    ∃ I₁ datagram p R₁ reply q sR I₃ sI,
      (sampleHandshake 1 2 0x100).formatHandshakeInitiation (fill 32 5) 10 20 148 =
        (I₁, .ok datagram) ∧
      parseIncomingPacket datagram = .ok (.handshakeInit p) ∧
      (sampleHandshake 2 1 0x200).receiveHandshakeInitialization p (fill 32 7) 92 =
        some (R₁, .ok (reply, sR)) ∧
      parseIncomingPacket reply = .ok (.handshakeResponse q) ∧
      I₁.receiveHandshakeResponse q 30 = (I₃, .ok sI) ∧ Crossed sI sR := by
  obtain ⟨I₁, datagram, p, s, hformat, hstate, hparse, -, R₁, reply, q, sR, hreceive, hparse',
    hall⟩ :=
    handshake_agreement (sampleHandshake 1 2 0x100) (sampleHandshake 2 1 0x200) ⟨rfl, rfl⟩ rfl
      (fill 32 5) (fill 32 7) 10 20 148 92 (by decide) (by decide) (by decide)
  obtain ⟨I₃, sI, hresp, hcrossed⟩ := hall I₁ 30 .refl rfl (Or.inl hstate)
  exact ⟨I₁, datagram, p, R₁, reply, q, sR, I₃, sI, hformat, hparse, hreceive, hparse', hresp,
    hcrossed⟩

end Handshake

end NekoLink.Noise
