import NekoLink.Noise.CookieReplies
import NekoLink.Noise.FailedInitiations
import NekoLink.Noise.PacketQueue
import NekoLink.Noise.Survival

/-!
# From the first packet to the last

A tunnel without a session is given packets. The first one makes it send an initiation, and all of
them wait in its queue; the response brings a session, and the calls that its owner then repeats
send the packets under it.

* `verifyPacket_calm`: a limiter that is not under load lets a handshake message pass.
* `start_encapsulate`, `answer_decapsulate` and `establish_decapsulate`: the three messages.
* `run_flush`: the packets leave the queue in their order.
* `cold_start_delivers`: **every packet given to the one tunnel comes out of the other**, once, in
  whatever order the network brings the datagrams and however often.
-/

namespace NekoLink.Noise

open Wire Replay

variable {C : Prims}

/-! ## The messages and their MACs -/

/-- The limiter on a message whose first MAC is under its own key, as long as the limit has not been
reached: the address does not matter. -/
theorem RateLimiter.verifyPacket_calm {r : RateLimiter} {p : Packet} {idx : UInt32}
    {mac1 : Bytes 16} (hsender : p.handshakeSender = some idx)
    (hmac1 : mac1 = b2sKeyedMac16 C r.mac1Key.toList p.body) (hcalm : r.count < r.limit)
    (mac2 : Bytes 16) (srcAddr : Option IpAddr) (dstLen now : ℕ) :
    r.verifyPacket C srcAddr (p.message mac1 mac2) dstLen now = (r.isUnderLoad.1, .ok p) := by
  have hmac := mac1Of_message p mac1 mac2
  rw [mac1Of] at hmac
  simp only [verifyPacket, parseIncomingPacket_message hsender, hsender, take_message, hmac,
    isUnderLoad, decide_eq_true_eq]
  rw [if_neg (by rw [hmac1, not_not]), if_neg (not_le.mpr hcalm)]

/-- The first MAC of what is sent to a peer. -/
def NoiseParams.mac1 (params : NoiseParams C) (p : Packet) : Bytes 16 :=
  b2sKeyedMac16 C params.sendingMac1Key.toList p.body

/-- It is the one that a limiter of the peer expects. -/
theorem NoiseParams.mac1_eq {params : NoiseParams C} {publicKey : Bytes 32} {r : RateLimiter}
    (hpeer : params.peerStaticPublic = publicKey) (hr : r.BuiltFrom C publicKey) (p : Packet) :
    params.mac1 p = b2sKeyedMac16 C r.mac1Key.toList p.body := by
  rw [mac1, params.sending_mac1_key_eq, hpeer, hr.mac1Key]

namespace Handshake

variable {h : Handshake C} {dstLen : ℕ}

/-- The packet of the initiation that is formatted next. -/
abbrev initiationPacket (h : Handshake C) (ephemeralPrivate : Bytes 32) (stampNow : ℕ) : Packet :=
  .handshakeInit (h.initiation ephemeralPrivate stampNow)

theorem formatHandshakeInitiation_message (h : Handshake C) (ephemeralPrivate : Bytes 32)
    (stampNow now : ℕ) (hd : handshakeInitSz ≤ dstLen) :
    ∃ h' mac2, h.formatHandshakeInitiation ephemeralPrivate stampNow now dstLen =
        (h', .ok ((h.initiationPacket ephemeralPrivate stampNow).message
          (h.params.mac1 (h.initiationPacket ephemeralPrivate stampNow)) mac2)) ∧
      h'.params = h.params ∧ h'.state = .initSent (h.sentState ephemeralPrivate stampNow now) ∧
      h'.previous = h.state ∧ h'.nextIndex = incIndex h.nextIndex := by
  rw [formatHandshakeInitiation, if_neg (by omega)]
  exact ⟨_, _, rfl, rfl, rfl, rfl, rfl⟩

/-- The packet of the response to an initiation. -/
abbrev responsePacket (h : Handshake C) (packet : HandshakeInit)
    (ephemeralPrivate chainingKey hash : Bytes 32) : Packet :=
  .handshakeResponse (h.response packet ephemeralPrivate chainingKey hash).1

theorem receiveHandshakeInitialization_message {packet : HandshakeInit} {timestamp : Bytes 12}
    {chainingKey hash : Bytes 32} (ephemeralPrivate : Bytes 32)
    (ha : h.Accepts packet timestamp chainingKey hash) (hd : handshakeRespSz ≤ dstLen) :
    ∃ h' mac2, h.receiveHandshakeInitialization packet ephemeralPrivate dstLen =
      some (h', .ok ((h.responsePacket packet ephemeralPrivate chainingKey hash).message
          (h.params.mac1 (h.responsePacket packet ephemeralPrivate chainingKey hash)) mac2,
        h.responderSession packet ephemeralPrivate chainingKey hash)) := by
  rw [receiveHandshakeInitialization_of_accepts ha, formatHandshakeResponse, if_neg (by omega)]
  exact ⟨_, _, rfl⟩

end Handshake

namespace Tunn

variable {t A B : Tunn C} {s sI sR : Session} {env : Env} {dstLen : ℕ}

/-! ## The initiator waits -/

/-- The initiation is out, and the packets wait for the response. -/
structure Waiting (A : Tunn C) (s : HandshakeInitSentState) (packets : List (List UInt8))
    (t : Tunn C) : Prop where
  params : t.handshake.params = A.handshake.params
  rateLimiter : t.rateLimiter = A.rateLimiter
  state : t.handshake.state = .initSent s
  distinguishes : Handshake.Distinguishes s t.handshake
  session : t.session = none
  packetQueue : t.packetQueue = packets

theorem rateLimiter_queuePacket (t : Tunn C) (packet : List UInt8) :
    (t.queuePacket packet).rateLimiter = t.rateLimiter := by
  rw [queuePacket]
  split_ifs <;> rfl

theorem rateLimiter_restarted (t : Tunn C) (env : Env) :
    (t.restarted env).rateLimiter = t.rateLimiter := by
  rw [restarted]
  split_ifs <;> rfl

theorem rateLimiter_initiated (t : Tunn C) (handshake : Handshake C) :
    (t.initiated handshake).rateLimiter = t.rateLimiter := by
  rw [initiated]
  split_ifs <;> rfl

/-- **The first packet** makes the tunnel send an initiation. -/
theorem start_encapsulate (env : Env) (src : List UInt8) (hnone : A.session = none)
    (hidle : A.handshake.isInProgress = false) (hqueue : A.packetQueue = [])
    (hd : handshakeInitSz ≤ dstLen) :
    ∃ A₁ mac2, A.encapsulate env src dstLen =
        some (A₁, .writeToNetwork
          ((A.handshake.initiationPacket env.ephemeralPrivate env.stamp).message
            (A.handshake.params.mac1
              (A.handshake.initiationPacket env.ephemeralPrivate env.stamp)) mac2)) ∧
      Waiting A (A.handshake.sentState env.ephemeralPrivate env.stamp env.sent) [src] A₁ := by
  obtain ⟨handshake, mac2, hmessage, hparams, hstate, hprevious, hnext⟩ :=
    A.handshake.formatHandshakeInitiation_message env.ephemeralPrivate env.stamp env.sent hd
  have hhandshake := handshake_queuePacket A src
  obtain ⟨hskip, -⟩ | ⟨-, ⟨hsmall, -⟩ | ⟨handshake', packet, -, hformat, hcall⟩⟩ :=
    (A.queuePacket src).formatHandshakeInitiation_spec env dstLen false
  · rw [hhandshake, hidle] at hskip
    cases hskip
  · omega
  · rw [hhandshake, hmessage] at hformat
    cases hformat
    refine ⟨((A.queuePacket src).restarted env).initiated handshake, mac2, ?_, ?_⟩
    · rw [encapsulate, show A.sessions.get A.current = none from hnone]
      exact congrArg some hcall
    · have hcore := core_initiated ((A.queuePacket src).restarted env) handshake
      rw [core_restarted, core_queuePacket] at hcore
      -- no initiation was out before, so the other slot holds none
      have hidle' : ∀ s', handshake.previous ≠ .initSent s' := by
        intro s' hs'
        rw [Handshake.isInProgress, ← hprevious, hs'] at hidle
        cases hidle
      refine ⟨?_, ?_, ?_, ?_, ?_, ?_⟩
      · rw [handshake_initiated, hparams]
      · rw [rateLimiter_initiated, rateLimiter_restarted, rateLimiter_queuePacket]
      · rw [handshake_initiated, hstate]
      · rw [handshake_initiated]
        exact ⟨fun _ => hnext, fun hold => absurd hold (hidle' _)⟩
      · exact (congrArg (fun c : Core C => c.sessions.get c.current) hcore).trans hnone
      · rw [packetQueue_initiated, packetQueue_restarted, packetQueue_queuePacket, hqueue]
        rfl

/-- **Further packets** are queued. -/
theorem run_waiting {s : HandshakeInitSentState} {packets : List (List UInt8)}
    (sends : List Sending) (h : Waiting A s packets t)
    (hroom : packets.length + sends.length ≤ maxQueueDepth) :
    ∃ t', Machine.run step t (sends.map Sending.call) =
        some (t', List.replicate sends.length .done) ∧
      Waiting A s (packets ++ sends.map (·.packet)) t' := by
  induction sends generalizing t packets with
  | nil =>
    refine ⟨t, rfl, ?_⟩
    rw [List.map_nil, List.append_nil]
    exact h
  | cons x xs ih =>
    rw [List.length_cons] at hroom
    have hprogress : t.handshake.isInProgress = true := by
      rw [Handshake.isInProgress, h.state]
    have hstep : step t x.call = some (t.queuePacket x.packet, .done) :=
      encapsulate_of_isInProgress x.env x.packet h.session hprogress
    have hqueue : (t.queuePacket x.packet).packetQueue = packets ++ [x.packet] := by
      rw [packetQueue_queuePacket, h.packetQueue]
      exact if_pos (by omega)
    have hcore := core_queuePacket t x.packet
    have hnext : Waiting A s (packets ++ [x.packet]) (t.queuePacket x.packet) := by
      refine ⟨?_, ?_, ?_, ?_, ?_, hqueue⟩
      · rw [handshake_queuePacket, h.params]
      · rw [rateLimiter_queuePacket, h.rateLimiter]
      · rw [handshake_queuePacket, h.state]
      · rw [handshake_queuePacket]
        exact h.distinguishes
      · exact (congrArg (fun c : Core C => c.sessions.get c.current) hcore).trans h.session
    obtain ⟨t', hrun, hwaiting⟩ := ih hnext (by
      rw [List.length_append, List.length_singleton]
      omega)
    refine ⟨t', ?_, ?_⟩
    · rw [List.map_cons, Machine.run_cons_of_step hstep, hrun]
      rfl
    · rw [List.append_assoc] at hwaiting
      exact hwaiting

/-! ## The handshake -/

/-- **The initiation is answered**, under a session that is kept. -/
theorem answer_decapsulate {packet : HandshakeInit} {timestamp : Bytes 12}
    {chainingKey hash : Bytes 32} {mac1 : Bytes 16} (env : Env) (srcAddr : Option IpAddr)
    (haccepts : B.handshake.Accepts packet timestamp chainingKey hash)
    (hmac1 : mac1 = b2sKeyedMac16 C B.rateLimiter.mac1Key.toList (Packet.handshakeInit packet).body)
    (hcalm : B.rateLimiter.count < B.rateLimiter.limit) (mac2 : Bytes 16)
    (hd : handshakeRespSz ≤ dstLen) :
    ∃ B₁ mac2', B.decapsulate env srcAddr ((Packet.handshakeInit packet).message mac1 mac2) dstLen =
        some (B₁, .writeToNetwork
          ((B.handshake.responsePacket packet env.ephemeralPrivate chainingKey hash).message
            (B.handshake.params.mac1
              (B.handshake.responsePacket packet env.ephemeralPrivate chainingKey hash)) mac2')) ∧
      B₁.sessions = B.sessions.store
        (B.handshake.responderSession packet env.ephemeralPrivate chainingKey hash) := by
  obtain ⟨h', mac2', hmessage⟩ := Handshake.receiveHandshakeInitialization_message
    env.ephemeralPrivate haccepts hd
  rw [decapsulate_of_verifyPacket
    (RateLimiter.verifyPacket_calm rfl hmac1 hcalm mac2 srcAddr cookieReplySz env.cookie),
    handleVerifiedPacket, handleHandshakeInit, hmessage]
  exact ⟨_, mac2', rfl, rfl⟩

/-- A tunnel whose current slot is empty, or the same, takes the session of an index. -/
theorem session_setCurrentSession {idx : ℕ} (hs : t.sessions.get idx = some s)
    (hfree : t.session = none ∨ slot t.current = slot idx) :
    (t.setCurrentSession idx).session = some s := by
  rw [setCurrentSession]
  split_ifs with heq hcond
  · rw [session, heq, hs]
  · exact hs
  · obtain hnone | hslot := hfree
    · exact absurd (Or.inl (Option.isNone_iff_eq_none.mpr hnone)) hcond
    · rw [session, SessionRing.get, hslot]
      exact hs

/-- A tunnel without a current session takes the one that a response gives. -/
theorem handleHandshakeResponse_ok {p : HandshakeResponse} {h' : Handshake C} (env : Env)
    (hreceive : t.handshake.receiveHandshakeResponse p env.rtt = (h', .ok s))
    (hnone : t.session = none) (hd : dataOverheadSz ≤ dstLen) :
    ∃ t', t.handleHandshakeResponse env p dstLen =
        some (t', .writeToNetwork (s.dataPacket C s.sendingKeyCounter []).bytes) ∧
      t'.session = some (s.bumped C) ∧ t'.packetQueue = t.packetQueue := by
  have hself : (t.sessions.store (s.bumped C)).get s.localIndex = some (s.bumped C) :=
    SessionRing.get_store_of_eq rfl
  rw [handleHandshakeResponse, hreceive]
  dsimp only
  rw [Session.formatPacketData_spec (by rw [List.length_nil]; omega), Option.map_some]
  refine ⟨_, rfl, session_setCurrentSession hself ?_, packetQueue_setCurrentSession _ _⟩
  by_cases hslot : slot t.current = slot s.localIndex
  · exact Or.inr hslot
  · exact Or.inl ((SessionRing.get_store_of_ne (s := s.bumped C) hslot).trans hnone)

/-- **The response is taken**: the two ends of the session are crossed, and the keepalive under it
uses up its first counter. -/
theorem establish_decapsulate [C.Lawful] {s : HandshakeInitSentState} {packet : HandshakeInit}
    {packets : List (List UInt8)} {mac1 : Bytes 16} (env : Env) (srcAddr : Option IpAddr)
    (ephemeralR : Bytes 32) (hwaiting : Waiting A s packets t)
    (hkeys : Paired A.handshake.params B.handshake.params)
    (hpsk : A.handshake.params.presharedKey = B.handshake.params.presharedKey)
    (hidx : packet.senderIdx = s.localIndex)
    (heph : packet.unencryptedEphemeral = C.publicKey s.ephemeralPrivate)
    (hmac1 : mac1 = b2sKeyedMac16 C A.rateLimiter.mac1Key.toList
      (B.handshake.responsePacket packet ephemeralR s.chainingKey s.hash).body)
    (hcalm : A.rateLimiter.count < A.rateLimiter.limit) (mac2 : Bytes 16)
    (hd : dataOverheadSz ≤ dstLen) :
    ∃ A₂ sI, t.decapsulate env srcAddr
        ((B.handshake.responsePacket packet ephemeralR s.chainingKey s.hash).message mac1 mac2)
        dstLen = some (A₂, .writeToNetwork (sI.dataPacket C 0 []).bytes) ∧
      Crossed sI (B.handshake.responderSession packet ephemeralR s.chainingKey s.hash) ∧
      sI.sendingKeyCounter = 0 ∧ A₂.session = some (sI.bumped C) ∧ A₂.packetQueue = packets := by
  have hlimiter := hwaiting.rateLimiter
  have hkeys' : Paired t.handshake.params B.handshake.params := by
    rw [hwaiting.params]
    exact hkeys
  obtain ⟨h', sI, hreceive, hcrossed⟩ : ∃ h' sI, t.handshake.receiveHandshakeResponse
        (B.handshake.response packet ephemeralR s.chainingKey s.hash).1 env.rtt = (h', .ok sI) ∧
      Crossed sI (B.handshake.responderSession packet ephemeralR s.chainingKey s.hash) :=
    Handshake.receiveHandshakeResponse_response hkeys' (by rw [hwaiting.params, hpsk])
      hwaiting.distinguishes (Or.inl hwaiting.state) hidx heph
  have hcounter : sI.sendingKeyCounter = 0 := by
    obtain ⟨e, herr⟩ | ⟨_, _, _, _, _, -, -, hok⟩ :=
      Handshake.receiveHandshakeResponse_cases t.handshake
        (B.handshake.response packet ephemeralR s.chainingKey s.hash).1 env.rtt
    · cases hreceive.symm.trans herr
    · cases hreceive.symm.trans hok
      rfl
  obtain ⟨A₂, hcall, hsession, hqueue⟩ := handleHandshakeResponse_ok
    (t := { t with rateLimiter := t.rateLimiter.isUnderLoad.1 }) env hreceive hwaiting.session hd
  refine ⟨A₂, sI, ?_, hcrossed, hcounter, hsession, hqueue.trans hwaiting.packetQueue⟩
  rw [decapsulate_of_verifyPacket (RateLimiter.verifyPacket_calm rfl (by rw [hlimiter, hmac1])
    (by rw [hlimiter]; exact hcalm) mac2 srcAddr cookieReplySz env.cookie), handleVerifiedPacket,
    hcall, hcounter]

/-! ## The queue is sent -/

/-- The datagrams of some packets from a counter on. -/
def datagramsFrom (C : Prims) (s : Session) (n : ℕ) (packets : List (List UInt8)) :
    List (List UInt8) :=
  packets.mapIdx fun i packet => (s.dataPacket C (n + i) packet).bytes

theorem datagramsFrom_cons (s : Session) (n : ℕ) (packet : List UInt8)
    (packets : List (List UInt8)) : datagramsFrom C s n (packet :: packets) =
      (s.dataPacket C n packet).bytes :: datagramsFrom C s (n + 1) packets := by
  rw [datagramsFrom, List.mapIdx_cons, Nat.add_zero, datagramsFrom]
  simp only [Nat.add_assoc, Nat.add_comm 1]

theorem length_dataPacket (s : Session) (n : ℕ) (packet : List UInt8) :
    (s.dataPacket C n packet).bytes.length = packet.length + dataOverheadSz := by
  rw [PacketData.length_bytes, Session.dataPacket]
  simp only [List.Vector.toList_length, dataOverheadSz]
  omega

theorem getD_datagramsFrom {packets : List (List UInt8)} {n i : ℕ} (hi : i < packets.length) :
    (datagramsFrom C s n packets).getD i [] = (s.dataPacket C (n + i) packets[i]).bytes := by
  simp [datagramsFrom, List.getD_eq_getElem?_getD, hi]

/-- The call that its owner repeats. -/
def Call.again (srcAddr : Option IpAddr) (dstLen : ℕ) : Call := .decapsulate srcAddr [] dstLen

/-- Under a session the first packet of the queue is sent. -/
theorem sendQueuedPacket_session {packet : List UInt8} {rest : List (List UInt8)} (env : Env)
    (hs : t.session = some s) (hqueue : t.packetQueue = packet :: rest)
    (hd : packet.length + dataOverheadSz ≤ dstLen) :
    ∃ t', t.sendQueuedPacket env dstLen =
        some (t', .writeToNetwork (s.dataPacket C s.sendingKeyCounter packet).bytes) ∧
      t'.session = some (s.bumped C) ∧ t'.packetQueue = rest := by
  obtain ⟨t', hencap, hcore⟩ :=
    encapsulate_session (t := { t with packetQueue := rest }) env hs hd
  refine ⟨t', ?_, ?_, ?_⟩
  · rw [sendQueuedPacket, hqueue]
    dsimp only
    rw [hencap]
    rfl
  · refine (congrArg (fun c : Core C => c.sessions.get c.current) hcore).trans ?_
    exact SessionRing.get_store_of_eq (SessionRing.slot_localIndex hs).symm
  · obtain ⟨_, -, hkept, -⟩ | ⟨hnone, -⟩ := packetQueue_encapsulate hencap
    · exact hkept
    · cases hs.symm.trans hnone

/-- **The packets leave in their order**, under consecutive counters. -/
theorem run_flush {packets : List (List UInt8)} {calls : List (Env × Option IpAddr × ℕ)}
    (hroom : List.Forall₂ (fun packet c => packet.length + dataOverheadSz ≤ c.2.2) packets calls)
    (hs : t.session = some s) (hqueue : t.packetQueue = packets)
    (hcount : s.sendingKeyCounter + packets.length ≤ 2 ^ C.usizeBits) :
    ∃ t', Machine.run step t (calls.map fun c => (c.1, .again c.2.1 c.2.2)) =
        some (t', (datagramsFrom C s s.sendingKeyCounter packets).map .writeToNetwork) ∧
      t'.packetQueue = [] := by
  induction hroom generalizing t s with
  | nil => exact ⟨t, rfl, hqueue⟩
  | @cons packet c packets calls hd _ ih =>
    obtain ⟨t₁, hsend, hs₁, hqueue₁⟩ := sendQueuedPacket_session c.1 hs hqueue hd
    have hstep : step t (c.1, .again c.2.1 c.2.2) =
        some (t₁, .writeToNetwork (s.dataPacket C s.sendingKeyCounter packet).bytes) := by
      change t.decapsulate c.1 c.2.1 [] c.2.2 = _
      rw [decapsulate, if_pos rfl]
      exact hsend
    rw [List.map_cons, Machine.run_cons_of_step hstep, datagramsFrom_cons, List.map_cons]
    rw [List.length_cons] at hcount
    rcases packets with _ | ⟨packet', packets⟩
    · obtain ⟨t', hrun, hempty⟩ := ih hs₁ hqueue₁ (by
        rw [List.length_nil, Nat.add_zero]
        exact (Nat.mod_lt _ (Nat.two_pow_pos _)).le)
      refine ⟨t', ?_, hempty⟩
      rw [hrun]
      rfl
    · -- more packets follow, so the counter has not wrapped around
      have hbumped : (s.bumped C).sendingKeyCounter = s.sendingKeyCounter + 1 := by
        rw [List.length_cons] at hcount
        exact Nat.mod_eq_of_lt (by omega)
      obtain ⟨t', hrun, hempty⟩ := ih hs₁ hqueue₁ (by rw [hbumped]; omega)
      refine ⟨t', ?_, hempty⟩
      rw [hrun, hbumped]
      rfl

/-! ## The datagrams arrive -/

/-- The arrival of the datagram with an index. -/
structure Landing where
  env : Env
  srcAddr : Option IpAddr
  index : ℕ
  dstLen : ℕ

def Landing.call (datagrams : List (List UInt8)) (l : Landing) : Env × Call :=
  (l.env, .decapsulate l.srcAddr (datagrams.getD l.index []) l.dstLen)

/-- It is the datagram of one of the packets, and there is room for it. -/
def Landing.Fits (packets : List (List UInt8)) (l : Landing) : Prop :=
  ∃ packet, packets[l.index]? = some packet ∧ packet.length + dataOverheadSz ≤ l.dstLen

/-- What is reported of the datagrams that arrive: of each its own report when it comes for the
first time, and an error whenever it comes again. -/
def ReportedOnce (reports : List TunnResult) : Finset ℕ → List ℕ → List TunnResult → Prop
  | _, [], [] => True
  | seen, i :: is, r :: rs =>
    (if i ∈ seen then ∃ e, r = .err e else reports[i]? = some r) ∧
      ReportedOnce reports (insert i seen) is rs
  | _, _, _ => False

/-- **The datagrams of a session that nothing has been received on**, fewer than the window is wide:
each is reported once, in whatever order they arrive. -/
theorem run_landings [C.Lawful] {packets : List (List UInt8)} {landings : List Landing}
    {seen : Finset ℕ} {v : ReceivingKeyCounterValidator} (hcrossed : Crossed sI sR)
    (hlen : packets.length ≤ nBits)
    (hfits : ∀ l ∈ landings, l.Fits packets)
    (hreceiving : Receiving B sR v t) (hv : v.Represents seen)
    (hseen : ∀ c ∈ seen, c < packets.length) :
    ∃ t' rs, Machine.run step t (landings.map (Landing.call (datagramsFrom C sI 0 packets))) =
        some (t', rs) ∧
      ReportedOnce (packets.map delivered) seen (landings.map (·.index)) rs := by
  induction landings generalizing t v seen with
  | nil => exact ⟨t, [], rfl, trivial⟩
  | cons l ls ih =>
    obtain ⟨packet, hpacket, hd⟩ := hfits l List.mem_cons_self
    have hrest := fun x hx => hfits x (List.mem_cons_of_mem l hx)
    obtain ⟨hindex, rfl⟩ := List.getElem?_eq_some_iff.mp hpacket
    have hroom : (sI.dataPacket C l.index packets[l.index]).bytes.length ≤ l.dstLen := by
      rw [length_dataPacket]
      exact hd
    have hcall : step t (l.call (datagramsFrom C sI 0 packets)) =
        t.decapsulate l.env l.srcAddr (sI.dataPacket C l.index packets[l.index]).bytes
          l.dstLen := by
      change t.decapsulate l.env l.srcAddr _ l.dstLen = _
      rw [getD_datagramsFrom hindex, Nat.zero_add]
    have hget : t.sessions.get sI.sendingIndex.toNat =
        some { sR with receivingKeyCounter := v } := by
      rw [hcrossed.sendingIndex_eq]
      exact hreceiving.get_self
    obtain ⟨haccept, hrefuse⟩ := decapsulate_dataPacket l.env l.srcAddr hget
      hcrossed.sender_eq hcrossed.sendingIndex_eq hv
      (by rw [show nBits = 1024 from rfl] at hlen ⊢; omega) hroom
    rw [List.map_cons, List.map_cons]
    by_cases hmem : l.index ∈ seen
    · obtain ⟨e, -, hdecapsulate⟩ := hrefuse fun ha => ha.1 hmem
      obtain ⟨t', rs, hrun, hreported⟩ := ih hrest hreceiving hv hseen
      refine ⟨t', .err e :: rs, ?_, ?_, ?_⟩
      · rw [Machine.run_cons_of_step (hcall.trans hdecapsulate), hrun]
        rfl
      · rw [if_pos hmem]
        exact ⟨e, rfl⟩
      · rw [Finset.insert_eq_of_mem hmem]
        exact hreported
    · -- nothing is too old, since the window is as wide as all the counters
      have hnew : accepts nBits seen l.index :=
        ⟨hmem, (next_le hseen).trans (by omega)⟩
      obtain ⟨t₁, w, hdecapsulate, hhandshake, hsessions, hw⟩ := haccept hnew
      obtain ⟨t', rs, hrun, hreported⟩ := ih hrest (hreceiving.store hhandshake hsessions) hw
        (by
          intro c hc
          obtain rfl | hc := Finset.mem_insert.mp hc
          · exact hindex
          · exact hseen c hc)
      refine ⟨t', delivered packets[l.index] :: rs, ?_, ?_, hreported⟩
      · rw [Machine.run_cons_of_step (hcall.trans hdecapsulate), hrun]
        rfl
      · rw [if_neg hmem, List.getElem?_map, hpacket, Option.map_some]

/-! ## From the first packet to the last -/

/-- A sender without a session and a receiver that knows it, their limiters not under load; the
packets fit the queue. -/
structure ColdStart (A B : Tunn C) (first : Sending) (rest : List Sending) : Prop where
  keys : Paired A.handshake.params B.handshake.params
  presharedKey : A.handshake.params.presharedKey = B.handshake.params.presharedKey
  session : A.session = none
  idle : A.handshake.isInProgress = false
  packetQueue : A.packetQueue = []
  limiter_sender : A.rateLimiter.BuiltFrom C A.handshake.params.staticPublic
  limiter_receiver : B.rateLimiter.BuiltFrom C B.handshake.params.staticPublic
  calm_sender : A.rateLimiter.count < A.rateLimiter.limit
  calm_receiver : B.rateLimiter.count < B.rateLimiter.limit
  newer : (Tai64N.parse (A.handshake.stamper.stamp first.env.stamp)).after
    B.handshake.lastHandshakeTimestamp = true
  room : handshakeInitSz ≤ first.dstLen
  isIpPacket : ∀ x ∈ first :: rest, IsIpPacket x.packet x.source
  length_le : (first :: rest).length ≤ maxQueueDepth
  usize : (first :: rest).length < 2 ^ C.usizeBits

/-- What is reported of the keepalive and of the packets. -/
def reports (sends : List Sending) : List TunnResult :=
  .done :: sends.map fun x => toTunnel x.packet x.source

theorem map_delivered {sends : List Sending} (h : ∀ x ∈ sends, IsIpPacket x.packet x.source) :
    ([] :: sends.map (·.packet)).map delivered = reports sends := by
  rw [List.map_cons, List.map_map, reports]
  refine congrArg₂ List.cons (if_pos rfl) (List.map_congr_left fun x hx => ?_)
  exact delivered_ipPacket (h x hx)

/-- **From the first packet to the last.** A tunnel without a session is given packets; the first
makes it send an initiation, and it says nothing of the others. The initiation, the response and the
keepalive are exchanged, and the calls that the owner repeats send all that has waited. Whatever
subset of these datagrams then reaches the other side, in whatever order and however often: of each
it reports the packet that was given, whole and with its source, when it comes for the first time,
and an error when it comes again. -/
theorem cold_start_delivers [C.Lawful] {first : Sending} {rest : List Sending}
    (h : ColdStart A B first rest) :
    ∃ A₁ initiation, Machine.run step A ((first :: rest).map Sending.call) =
        some (A₁, .writeToNetwork initiation :: List.replicate rest.length .done) ∧
      ∀ envR srcR dstR, handshakeRespSz ≤ dstR →
      ∃ B₁ response, B.decapsulate envR srcR initiation dstR =
          some (B₁, .writeToNetwork response) ∧
        ∀ envI srcI dstI, dataOverheadSz ≤ dstI →
        ∃ A₂ keepalive, A₁.decapsulate envI srcI response dstI =
            some (A₂, .writeToNetwork keepalive) ∧
          ∀ calls : List (Env × Option IpAddr × ℕ),
            List.Forall₂ (fun x c => x.packet.length + dataOverheadSz ≤ c.2.2)
              (first :: rest) calls →
          ∃ A₃ datagrams,
            Machine.run step A₂ (calls.map fun c => (c.1, .again c.2.1 c.2.2)) =
              some (A₃, datagrams.map .writeToNetwork) ∧
            A₃.packetQueue = [] ∧
            ∀ landings : List Landing,
              (∀ l ∈ landings, l.Fits ([] :: (first :: rest).map (·.packet))) →
            ∃ B₂ rs, Machine.run step B₁ (landings.map (Landing.call (keepalive :: datagrams))) =
                some (B₂, rs) ∧
              ReportedOnce (reports (first :: rest)) ∅ (landings.map (·.index)) rs := by
  have hlen := h.length_le
  have husize := h.usize
  rw [List.length_cons] at hlen husize
  -- the packets wait behind the first one
  obtain ⟨A₀, mac2, hstart, hwaiting₀⟩ :=
    start_encapsulate first.env first.packet h.session h.idle h.packetQueue h.room
  obtain ⟨A₁, hrun, hwaiting⟩ := run_waiting rest hwaiting₀
    (by rw [List.length_singleton]; omega)
  have hstep : step A first.call = _ := hstart
  refine ⟨A₁, _, by rw [List.map_cons, Machine.run_cons_of_step hstep, hrun]; rfl, ?_⟩
  -- the initiation is answered
  intro envR srcR dstR hdR
  have haccepts := Handshake.accepts_initiation first.env.ephemeralPrivate first.env.sent h.keys
    h.newer
  obtain ⟨B₁, mac2', hanswer, hsessions⟩ := answer_decapsulate envR srcR haccepts
    (NoiseParams.mac1_eq h.keys.peer_initiator h.limiter_receiver _) h.calm_receiver mac2 hdR
  refine ⟨B₁, _, hanswer, ?_⟩
  -- the response is taken
  intro envI srcI dstI hdI
  have hidx : (A.handshake.initiation first.env.ephemeralPrivate first.env.stamp).senderIdx =
      (A.handshake.sentState first.env.ephemeralPrivate first.env.stamp
        first.env.sent).localIndex := rfl
  obtain ⟨A₂, sI, hestablish, hcrossed, hcounter, hsession, hqueue⟩ := establish_decapsulate
    envI srcI envR.ephemeralPrivate hwaiting h.keys h.presharedKey hidx rfl
    (NoiseParams.mac1_eq h.keys.peer_responder h.limiter_sender _) h.calm_sender mac2' hdI
  refine ⟨A₂, _, hestablish, ?_⟩
  -- the queue is sent, and the keepalive goes before it
  intro calls hroom
  have hqueue' : A₂.packetQueue = (first :: rest).map (·.packet) := hqueue
  have hone : (sI.bumped C).sendingKeyCounter = 1 := by
    change (sI.sendingKeyCounter + 1) % 2 ^ C.usizeBits = 1
    rw [hcounter]
    exact Nat.mod_eq_of_lt (by omega)
  obtain ⟨A₃, hflush, hempty⟩ := run_flush
    (List.forall₂_map_left_iff.mpr hroom) hsession hqueue'
    (by rw [hone, List.length_map, List.length_cons]; omega)
  have hdatagrams : (sI.dataPacket C 0 []).bytes ::
      datagramsFrom C (sI.bumped C) 1 ((first :: rest).map (·.packet)) =
        datagramsFrom C sI 0 ([] :: (first :: rest).map (·.packet)) := by
    rw [datagramsFrom_cons]
    rfl
  refine ⟨A₃, datagramsFrom C (sI.bumped C) 1 ((first :: rest).map (·.packet)), ?_, hempty, ?_⟩
  · rw [hflush, hone]
  -- and whatever arrives is reported once
  intro landings hfits
  rw [hdatagrams]
  have hget : ∀ sR, B₁.sessions = B.sessions.store sR → B₁.sessions.get sR.localIndex = some sR :=
    fun sR heq => heq ▸ SessionRing.get_store_of_eq rfl
  obtain ⟨B₂, rs, hland, hreported⟩ := run_landings hcrossed
    (by rw [List.length_cons, List.length_map, List.length_cons, show nBits = 1024 from rfl]
        unfold maxQueueDepth at hlen
        omega)
    hfits (Receiving.refl (hget _ hsessions)) ReceivingKeyCounterValidator.represents_default
    (fun c hc => absurd hc (Finset.notMem_empty c))
  rw [map_delivered h.isIpPacket] at hreported
  exact ⟨B₂, rs, hland, hreported⟩

/-! ## Two packets -/

/-- A packet for a new tunnel of the concrete instance. -/
def sampleSending : Sending :=
  ⟨sampleEnv 5 1, samplePacket, .v4 ⟨[10, 0, 0, 1], length_sampleSource⟩, 148⟩

theorem coldStart_sample :
    ColdStart (sampleTunn 1 2 1) (sampleTunn 2 1 2) sampleSending [sampleSending] where
  keys := ⟨rfl, rfl⟩
  presharedKey := rfl
  session := rfl
  idle := rfl
  packetQueue := rfl
  limiter_sender := ⟨rfl, rfl⟩
  limiter_receiver := ⟨rfl, rfl⟩
  calm_sender := by decide
  calm_receiver := by decide
  newer := by decide
  room := by decide
  isIpPacket := by
    intro x hx
    simp only [List.mem_cons, List.not_mem_nil, or_false, or_self] at hx
    subst hx
    exact ⟨by decide, by decide, by decide, by decide⟩
  length_le := by decide
  usize := by decide

/-- Two packets are sent over the concrete pair, the keepalive is lost, the second one arrives
before the first one, and twice. -/
theorem cold_start_delivers_sample :
    ∃ (initiation response : List UInt8) (B₁ B₂ : Tunn checksumPrims)
        (datagrams : List (List UInt8)) (rs : List TunnResult),
      (sampleTunn 2 1 2).decapsulate (sampleEnv 7 2) none initiation 148 =
        some (B₁, .writeToNetwork response) ∧
      Machine.run step B₁ ([⟨sampleEnv 7 3, none, 2, 148⟩, ⟨sampleEnv 7 3, none, 1, 148⟩,
        ⟨sampleEnv 7 3, none, 2, 148⟩].map (Landing.call datagrams)) = some (B₂, rs) ∧
      ReportedOnce [.done, toTunnel samplePacket (.v4 ⟨[10, 0, 0, 1], rfl⟩),
        toTunnel samplePacket (.v4 ⟨[10, 0, 0, 1], rfl⟩)] ∅ [2, 1, 2] rs := by
  obtain ⟨A₁, initiation, -, hanswer⟩ := cold_start_delivers coldStart_sample
  obtain ⟨B₁, response, hB₁, hestablish⟩ := hanswer (sampleEnv 7 2) none 148 (by decide)
  obtain ⟨A₂, keepalive, -, hflush⟩ := hestablish (sampleEnv 5 2) none 148 (by decide)
  obtain ⟨A₃, datagrams, -, -, hland⟩ := hflush
    [(sampleEnv 5 2, none, 148), (sampleEnv 5 2, none, 148)]
    (.cons (by decide) (.cons (by decide) .nil))
  obtain ⟨B₂, rs, hrun, hreported⟩ := hland [⟨sampleEnv 7 3, none, 2, 148⟩,
    ⟨sampleEnv 7 3, none, 1, 148⟩, ⟨sampleEnv 7 3, none, 2, 148⟩] (by
      intro l hl
      simp only [List.mem_cons, List.not_mem_nil, or_false] at hl
      obtain rfl | rfl | rfl := hl <;> exact ⟨samplePacket, rfl, by decide⟩)
  exact ⟨initiation, response, B₁, B₂, keepalive :: datagrams, rs, hB₁, hrun, hreported⟩

end Tunn

end NekoLink.Noise
