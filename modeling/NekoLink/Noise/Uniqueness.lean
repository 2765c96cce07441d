import NekoLink.Noise.Rejection

/-!
# No handshake message is accepted twice

A run is logged with the initiations that the tunnel sends, the initiations that it accepts and the
responses that give it a session.

* `take_move`: what an input does to the two slots of the handshake and to the last timestamp, with
  the event that it logs.
* `stamped_slotted`: the timestamps accepted are in order and none is newer than the last one, and
  the slots hold initiations that were sent and are not answered.
* `handshakes_once`: in every run no initiation and no response is accepted twice.
-/

namespace NekoLink.Noise

open Wire

variable {C : Prims}

/-! ## Timestamps -/

namespace Tai64N

variable {a b c : Tai64N}

theorem after_iff : a.after b = true ↔ b.secs < a.secs ∨ a.secs = b.secs ∧ b.nano < a.nano := by
  simp only [after, Bool.or_eq_true, Bool.and_eq_true, decide_eq_true_eq, beq_iff_eq, gt_iff_lt]

theorem after_trans (h : a.after b = true) (h' : b.after c = true) : a.after c = true := by
  rw [after_iff] at h h' ⊢
  omega

theorem after_irrefl (a : Tai64N) : ¬ a.after a = true := by
  rw [after_iff]
  omega

end Tai64N

/-- A box of the AEAD has one content, whatever key it opens under. -/
def Prims.OnePlaintext (C : Prims) : Prop :=
  ∀ {n : ℕ} (key key' : Bytes 32) (nonce : Bytes 12) (aad aad' : List UInt8) (box : Bytes (n + 16))
    (p p' : Bytes n), C.aeadOpen key nonce aad box = some p →
    C.aeadOpen key' nonce aad' box = some p' → p = p'

theorem onePlaintext_checksumPrims : checksumPrims.OnePlaintext := by
  intro n key key' nonce aad aad' box p p' h h'
  have hopen : ∀ {key : Bytes 32} {aad : List UInt8} {p : Bytes n},
      checksumOpen key nonce aad box = some p → p.toList = box.toList.take n := by
    intro key aad p h
    rw [checksumOpen] at h
    split_ifs at h
    cases h
    rfl
  exact List.Vector.toList_injective ((hopen h).trans (hopen h').symm)

/-- The timestamp of an initiation is the content of its second box. -/
theorem openInitiation_timestamp {params : NoiseParams C} {packet : HandshakeInit}
    {timestamp : Bytes 12} {chainingKey hash : Bytes 32}
    (h : openInitiation params packet = .ok (timestamp, chainingKey, hash)) :
    ∃ key aad, C.aeadOpen key (counterNonce 0) aad packet.encryptedTimestamp = some timestamp := by
  rw [openInitiation] at h
  dsimp only at h
  split at h
  · cases h
  · split_ifs at h
    split at h
    · cases h
    · next timestamp' hopen =>
      cases h
      rw [aeadChacha20Open] at hopen
      split at hopen
      · next hsome =>
        cases hopen
        exact ⟨_, _, hsome⟩
      · cases hopen

/-- With one content for a box, an initiation opens to one timestamp under all private keys. -/
theorem openInitiation_unique (hplain : C.OnePlaintext) {params params' : NoiseParams C}
    {packet : HandshakeInit} {timestamp timestamp' : Bytes 12}
    {chainingKey chainingKey' hash hash' : Bytes 32}
    (h : openInitiation params packet = .ok (timestamp, chainingKey, hash))
    (h' : openInitiation params' packet = .ok (timestamp', chainingKey', hash')) :
    timestamp = timestamp' := by
  obtain ⟨key, aad, hopen⟩ := openInitiation_timestamp h
  obtain ⟨key', aad', hopen'⟩ := openInitiation_timestamp h'
  exact hplain key key' _ aad aad' _ _ _ hopen hopen'

namespace Tunn

variable {t t' : Tunn C} {env : Env} {dstLen : ℕ} {r : TunnResult}

/-! ## The log of a run -/

/-- What a call means for the handshakes. -/
inductive HandshakeEvent
  /-- An initiation is sent, and its state is kept. -/
  | sent (s : HandshakeInitSentState)
  /-- `receive_handshake_initialization` succeeds, with this response. -/
  | accepted (initiation : HandshakeInit) (timestamp : Bytes 12) (response : HandshakeResponse)
  /-- `receive_handshake_response` succeeds, for this initiation. -/
  | obtained (s : HandshakeInitSentState) (response : HandshakeResponse)

/-- The calls of a tunnel's owner, and the one with a packet that the owner has verified. -/
inductive Input
  | call (call : Call)
  | packet (packet : Packet) (dstLen : ℕ)

/-- One input and its result. -/
def take (t : Tunn C) : Env × Input → Option (Tunn C × TunnResult)
  | (env, .call call) => t.step (env, call)
  | (env, .packet packet dstLen) => t.handleVerifiedPacket env packet dstLen

/-- The handshake message that is accepted with a verified packet. -/
def acceptedEvent (t : Tunn C) (env : Env) (dstLen : ℕ) : Packet → Option HandshakeEvent
  | .handshakeInit p =>
    match openInitiation t.handshake.params p,
      t.handshake.receiveHandshakeInitialization p env.ephemeralPrivate dstLen with
    | .ok (timestamp, chainingKey, hash), some (_, .ok _) =>
      some (.accepted p timestamp
        (t.handshake.response p env.ephemeralPrivate chainingKey hash).1)
    | _, _ => none
  | .handshakeResponse p =>
    match t.handshake.awaiting p.receiverIdx, t.handshake.receiveHandshakeResponse p env.rtt with
    | some (s, _), (_, .ok _) => some (.obtained s p)
    | _, _ => none
  | .packetCookieReply _ | .packetData _ => none

/-- The handshake message that is accepted with an input. -/
def receivedEvent (t : Tunn C) : Env × Input → Option HandshakeEvent
  | (env, .call (.decapsulate srcAddr datagram dstLen)) =>
    match t.rateLimiter.verifyPacket C srcAddr datagram cookieReplySz env.cookie with
    | (_, .ok packet) => t.acceptedEvent env dstLen packet
    | _ => none
  | (env, .packet packet dstLen) => t.acceptedEvent env dstLen packet
  | _ => none

/-- The initiation sent between two states: the index has moved on. -/
def sentEvent (h h' : Handshake C) : Option HandshakeEvent :=
  match h'.state with
  | .initSent s => if h'.nextIndex = h.nextIndex then none else some (.sent s)
  | _ => none

def handshakeEvent (t : Tunn C) (i : Env × Input) : Option HandshakeEvent :=
  (t.receivedEvent i).or ((t.take i).bind fun (t', _) => sentEvent t.handshake t'.handshake)

/-! ## What a call does to the slots -/

/-- The slots of the handshake and its last timestamp, before and after. -/
inductive Move (h : Handshake C) : Option HandshakeEvent → Handshake C → Prop
  | keep {h' : Handshake C} (hstate : h'.state = h.state) (hprevious : h'.previous = h.previous)
      (hstamp : h'.lastHandshakeTimestamp = h.lastHandshakeTimestamp) : Move h none h'
  | sent {h' : Handshake C} {s : HandshakeInitSentState} (hstate : h'.state = .initSent s)
      (hprevious : h'.previous = h.state)
      (hstamp : h'.lastHandshakeTimestamp = h.lastHandshakeTimestamp) :
      Move h (some (.sent s)) h'
  /-- Without room for the response the initiation is taken, but the call fails. -/
  | accepted {h' : Handshake C} {p : HandshakeInit} {timestamp : Bytes 12}
      {chainingKey hash : Bytes 32} {e : Option HandshakeEvent}
      (haccepts : h.Accepts p timestamp chainingKey hash)
      (hstate : ∀ s, h'.state ≠ .initSent s) (hprevious : h'.previous = h.state)
      (hstamp : h'.lastHandshakeTimestamp = Tai64N.parse timestamp)
      (he : (∃ response, e = some (.accepted p timestamp response)) ∨ e = none) : Move h e h'
  | obtained {h' : Handshake C} {s : HandshakeInitSentState} {p : HandshakeResponse}
      {isPrevious : Bool} (hawait : h.awaiting p.receiverIdx = some (s, isPrevious))
      (hstate : h'.state = if isPrevious then h.state else .none)
      (hprevious : h'.previous = if isPrevious then .none else h.previous)
      (hstamp : h'.lastHandshakeTimestamp = h.lastHandshakeTimestamp) :
      Move h (some (.obtained s p)) h'
  | expired {h' : Handshake C} (hstate : h'.state = .expired) (hprevious : h'.previous = .expired)
      (hstamp : h'.lastHandshakeTimestamp = h.lastHandshakeTimestamp) : Move h none h'

theorem sentEvent_of_nextIndex {h h' : Handshake C} (hnext : h'.nextIndex = h.nextIndex) :
    sentEvent h h' = none := by
  rw [sentEvent]
  split
  · rw [if_pos hnext]
  · rfl

theorem sentEvent_of_state {h h' : Handshake C} (hstate : ∀ s, h'.state ≠ .initSent s) :
    sentEvent h h' = none := by
  rw [sentEvent]
  split
  · next s hs => exact absurd hs (hstate s)
  · rfl

/-- Nothing of it has changed. -/
theorem Move.of_same {h h' : Handshake C} (hnext : h'.nextIndex = h.nextIndex)
    (hstate : h'.state = h.state) (hprevious : h'.previous = h.previous)
    (hstamp : h'.lastHandshakeTimestamp = h.lastHandshakeTimestamp) :
    Move h (sentEvent h h') h' := by
  rw [sentEvent_of_nextIndex hnext]
  exact .keep hstate hprevious hstamp

/-- An effect that accepts no handshake message. -/
theorem Effect.move {c c' : Core C} {e : Option Event} (heffect : Effect c e c' r)
    (he : ∀ s, e ≠ some (.answered s) ∧ e ≠ some (.obtained s)) :
    Move c.handshake (sentEvent c.handshake c'.handshake) c'.handshake := by
  cases heffect with
  | idle | send | receive | expireSessions | rekey => exact .of_same rfl rfl rfl rfl
  | initiate ephemeralPrivate stampNow now cookies macs =>
    have hsent : sentEvent c.handshake { c.handshake with
        nextIndex := Handshake.incIndex c.handshake.nextIndex
        previous := c.handshake.state
        state := .initSent (c.handshake.sentState ephemeralPrivate stampNow now)
        cookies } = some (.sent (c.handshake.sentState ephemeralPrivate stampNow now)) :=
      if_neg (Handshake.incIndex_ne _)
    exact hsent ▸ .sent rfl rfl rfl
  | respond => exact absurd rfl (he _).1
  | stuck packet timestamp chainingKey hash haccepts =>
    exact .accepted haccepts (fun s hs => by cases hs) rfl rfl
      (Or.inr (sentEvent_of_state fun s hs => by cases hs))
  | establish => exact absurd rfl (he _).2
  | giveUp => exact .expired rfl rfl rfl

/-- Cookies do not matter. -/
theorem Move.of_cookies {h h' : Handshake C} {cookies : Cookies} {e : Option HandshakeEvent}
    (hmove : Move { h with cookies } e h') : Move h e h' := by
  cases hmove with
  | keep hstate hprevious hstamp => exact .keep hstate hprevious hstamp
  | sent hstate hprevious hstamp => exact .sent hstate hprevious hstamp
  | accepted haccepts hstate hprevious hstamp he =>
    exact .accepted haccepts hstate hprevious hstamp he
  | obtained hawait hstate hprevious hstamp => exact .obtained hawait hstate hprevious hstamp
  | expired hstate hprevious hstamp => exact .expired hstate hprevious hstamp

theorem acceptedEvent_of_error {p : HandshakeInit} {h' : Handshake C} {e : WireGuardError}
    (hreceive : t.handshake.receiveHandshakeInitialization p env.ephemeralPrivate dstLen =
      some (h', .error e)) : t.acceptedEvent env dstLen (.handshakeInit p) = none := by
  rw [acceptedEvent, hreceive]
  split
  · next heq => cases heq
  · rfl

theorem move_handleHandshakeInit {p : HandshakeInit}
    (h : t.handleHandshakeInit env p dstLen = some (t', r)) :
    Move t.handshake ((t.acceptedEvent env dstLen (.handshakeInit p)).or
      (sentEvent t.handshake t'.handshake)) t'.handshake := by
  rw [handleHandshakeInit] at h
  obtain ⟨e, heq⟩ | ⟨timestamp, chainingKey, hash, ha, ⟨-, heq⟩ | ⟨cookies, macs, -, heq⟩⟩ :=
    t.handshake.receiveHandshakeInitialization_cases p env.ephemeralPrivate dstLen
  · rw [acceptedEvent_of_error heq]
    rw [heq] at h
    cases h
    exact .of_same rfl rfl rfl rfl
  · rw [acceptedEvent_of_error heq, Option.none_or]
    rw [heq] at h
    cases h
    exact .accepted ha (fun s hs => by cases hs) rfl rfl
      (Or.inr (sentEvent_of_state fun s hs => by cases hs))
  · rw [acceptedEvent, heq, ha.1]
    rw [heq] at h
    cases h
    exact .accepted ha (fun s hs => by cases hs) rfl rfl (Or.inl ⟨_, rfl⟩)

theorem move_handleHandshakeResponse {p : HandshakeResponse}
    (h : t.handleHandshakeResponse env p dstLen = some (t', r)) :
    Move t.handshake ((t.acceptedEvent env dstLen (.handshakeResponse p)).or
      (sentEvent t.handshake t'.handshake)) t'.handshake := by
  rw [handleHandshakeResponse] at h
  rw [acceptedEvent]
  obtain ⟨e, heq⟩ | ⟨s, isPrevious, temp2, temp3, rtt, hawait, -, heq⟩ :=
    Handshake.receiveHandshakeResponse_cases t.handshake p env.rtt
  · rw [heq] at h
    cases h
    rw [heq]
    have hnone : (match t.handshake.awaiting p.receiverIdx,
        ((t.handshake, .error e) : Handshake C × Except WireGuardError Session) with
      | some (s, _), (_, .ok _) => some (HandshakeEvent.obtained s p)
      | _, _ => none) = none := by
      split
      · next hpair => cases hpair
      · rfl
    rw [hnone]
    exact .of_same rfl rfl rfl rfl
  · rw [heq] at h
    obtain ⟨⟨session, keepalive⟩, -, hsome⟩ := Option.map_eq_some_iff.mp h
    have hhandshake : t'.handshake = { t.handshake with
        lastRtt := rtt
        previous := if isPrevious then .none else t.handshake.previous
        state := if isPrevious then t.handshake.state else .none } := by
      cases hsome
      exact congrArg Core.handshake (core_setCurrentSession _ _)
    rw [heq, hawait, hhandshake]
    exact .obtained hawait rfl rfl rfl

theorem move_handleVerifiedPacket {packet : Packet}
    (h : t.handleVerifiedPacket env packet dstLen = some (t', r)) :
    Move t.handshake ((t.acceptedEvent env dstLen packet).or
      (sentEvent t.handshake t'.handshake)) t'.handshake := by
  cases packet with
  | handshakeInit p => exact move_handleHandshakeInit h
  | handshakeResponse p => exact move_handleHandshakeResponse h
  | packetCookieReply p =>
    exact (effect_handleVerifiedPacket h).move fun s => ⟨by rintro ⟨⟩, by rintro ⟨⟩⟩
  | packetData p =>
    refine (effect_handleVerifiedPacket h).move fun s => ?_
    rw [packetEvent]
    split
    · exact ⟨by rintro ⟨⟩, by rintro ⟨⟩⟩
    · split
      · exact ⟨by rintro ⟨⟩, by rintro ⟨⟩⟩
      · exact ⟨by rintro ⟨⟩, by rintro ⟨⟩⟩

theorem move_decapsulate {srcAddr : Option IpAddr} {datagram : List UInt8}
    (h : t.decapsulate env srcAddr datagram dstLen = some (t', r)) :
    Move t.handshake ((t.receivedEvent (env, .call (.decapsulate srcAddr datagram dstLen))).or
      (sentEvent t.handshake t'.handshake)) t'.handshake := by
  rw [decapsulate] at h
  rw [receivedEvent]
  by_cases hempty : datagram = []
  · rw [if_pos hempty] at h
    rw [hempty, RateLimiter.verifyPacket_error (e := .invalidPacket) rfl]
    exact (effect_sendQueuedPacket h).move fun s => ⟨by rintro ⟨⟩, by rintro ⟨⟩⟩
  · rw [if_neg hempty] at h
    rcases hverify : t.rateLimiter.verifyPacket C srcAddr datagram cookieReplySz env.cookie with
      ⟨rateLimiter, result | packet⟩
    · rw [hverify] at h
      have hhandshake : t'.handshake = t.handshake := by
        cases result with
        | err e =>
          cases h
          rfl
        | writeToNetwork cookie =>
          dsimp only at h
          split_ifs at h
          cases h
          rfl
        | done | writeToTunnelV4 | writeToTunnelV6 => cases h
      rw [hhandshake]
      exact .of_same rfl rfl rfl rfl
    · rw [hverify] at h
      have hmove := move_handleVerifiedPacket (t := { t with rateLimiter }) h
      exact hmove

/-- **What an input does**: one move, with the event that it logs. -/
theorem take_move {i : Env × Input} (h : t.take i = some (t', r)) :
    Move t.handshake (t.handshakeEvent i) t'.handshake := by
  rw [handshakeEvent, h, Option.bind_some]
  obtain ⟨env, call | ⟨packet, dstLen⟩⟩ := i
  · cases call with
    | encapsulate src dstLen =>
      exact (effect_encapsulate h).move fun s => ⟨by rintro ⟨⟩, by rintro ⟨⟩⟩
    | decapsulate srcAddr datagram dstLen => exact move_decapsulate h
    | updateTimers dstLen =>
      obtain ⟨t₁, e, hexpire, he, heffect⟩ := effect_updateTimers h
      have hnone : ∀ s, e ≠ some (.answered s) ∧ e ≠ some (.obtained s) := by
        intro s
        rcases he with rfl | rfl
        · exact ⟨by rintro ⟨⟩, by rintro ⟨⟩⟩
        · exact ⟨by rintro ⟨⟩, by rintro ⟨⟩⟩
      have hmove := heffect.move hnone
      obtain ⟨cookies, hhandshake⟩ :
          ∃ cookies, t₁.handshake = { t.handshake with cookies } := by
        generalize hc : t₁.core = c₁ at hexpire
        cases hexpire
        exact ⟨_, congrArg Core.handshake hc⟩
      have hsame : t₁.core.handshake = { t.handshake with cookies } := hhandshake
      rw [hsame] at hmove
      exact hmove.of_cookies
    | formatHandshakeInitiation dstLen force =>
      have heffect := effect_formatHandshakeInitiation t env dstLen force
      rw [Option.some.inj h] at heffect
      exact heffect.move fun s => ⟨by rintro ⟨⟩, by rintro ⟨⟩⟩
    | setStaticPrivate staticPrivate staticPublic rateLimiter =>
      obtain ⟨t₁, hrekey, heq⟩ := Option.map_eq_some_iff.mp h
      obtain ⟨handshake, hset, rfl⟩ := Option.map_eq_some_iff.mp hrekey
      obtain ⟨params, hparams, rfl⟩ := Option.map_eq_some_iff.mp hset
      cases heq
      exact .of_same rfl rfl rfl rfl
  · exact move_handleVerifiedPacket h

/-! ## What a run keeps -/

/-- The initiations sent. -/
def sentStates (log : List HandshakeEvent) : List HandshakeInitSentState :=
  log.filterMap fun
    | .sent s => some s
    | _ => none

/-- The initiations accepted, with their timestamps. -/
def acceptedInitiations (log : List HandshakeEvent) : List (HandshakeInit × Bytes 12) :=
  log.filterMap fun
    | .accepted p timestamp _ => some (p, timestamp)
    | _ => none

/-- The responses accepted, with the initiations that they answer. -/
def obtainedResponses (log : List HandshakeEvent) :
    List (HandshakeInitSentState × HandshakeResponse) :=
  log.filterMap fun
    | .obtained s response => some (s, response)
    | _ => none

@[simp] theorem sentStates_append (log log' : List HandshakeEvent) :
    sentStates (log ++ log') = sentStates log ++ sentStates log' := List.filterMap_append

@[simp] theorem acceptedInitiations_append (log log' : List HandshakeEvent) :
    acceptedInitiations (log ++ log') = acceptedInitiations log ++ acceptedInitiations log' :=
  List.filterMap_append

@[simp] theorem obtainedResponses_append (log log' : List HandshakeEvent) :
    obtainedResponses (log ++ log') = obtainedResponses log ++ obtainedResponses log' :=
  List.filterMap_append

variable {log : List HandshakeEvent} {h h' : Handshake C} {e : Option HandshakeEvent}

/-- The initiations of a log have opened, each to a newer timestamp than those before, and none is
newer than the last timestamp. -/
structure Stamped (log : List HandshakeEvent) (h : Handshake C) : Prop where
  opened : ∀ a ∈ acceptedInitiations log, ∃ (params : NoiseParams C) (chainingKey hash : Bytes 32),
    openInitiation params a.1 = .ok (a.2, chainingKey, hash)
  sorted : (acceptedInitiations log).Pairwise fun a b =>
    (Tai64N.parse b.2).after (Tai64N.parse a.2) = true
  newest : ∀ a ∈ acceptedInitiations log,
    h.lastHandshakeTimestamp = Tai64N.parse a.2 ∨
      h.lastHandshakeTimestamp.after (Tai64N.parse a.2) = true

theorem Stamped.of_eq {log' : List HandshakeEvent} (hstamped : Stamped log h)
    (hlog : acceptedInitiations log' = acceptedInitiations log)
    (hstamp : h'.lastHandshakeTimestamp = h.lastHandshakeTimestamp) : Stamped log' h' where
  opened := by rw [hlog]; exact hstamped.opened
  sorted := by rw [hlog]; exact hstamped.sorted
  newest := by rw [hlog, hstamp]; exact hstamped.newest

/-- A newer timestamp than the last one is newer than all. -/
theorem Stamped.after_of_after (hstamped : Stamped log h) {stamp : Tai64N}
    (hafter : stamp.after h.lastHandshakeTimestamp = true) :
    ∀ a ∈ acceptedInitiations log, stamp.after (Tai64N.parse a.2) = true := by
  intro a ha
  rcases hstamped.newest a ha with heq | hnewer
  · rwa [← heq]
  · exact Tai64N.after_trans hafter hnewer

theorem Stamped.move (hstamped : Stamped log h) (hmove : Move h e h') :
    Stamped (log ++ e.toList) h' := by
  cases hmove with
  | keep _ _ hstamp | expired _ _ hstamp => exact hstamped.of_eq (by simp) hstamp
  | sent _ _ hstamp | obtained _ _ _ hstamp =>
    exact hstamped.of_eq (by simp [acceptedInitiations]) hstamp
  | @accepted _ p timestamp chainingKey hash _ haccepts _ _ hstamp he =>
    have hafter := hstamped.after_of_after haccepts.2
    rcases he with ⟨response, rfl⟩ | rfl
    · have hlog : acceptedInitiations (log ++ (some (HandshakeEvent.accepted p timestamp
          response)).toList) = acceptedInitiations log ++ [(p, timestamp)] := by
        simp [acceptedInitiations]
      refine ⟨?_, ?_, ?_⟩
      · rw [hlog]
        intro a ha
        rcases List.mem_append.mp ha with ha | ha
        · exact hstamped.opened a ha
        · obtain rfl := List.mem_singleton.mp ha
          exact ⟨h.params, chainingKey, hash, haccepts.1⟩
      · rw [hlog, List.pairwise_append]
        refine ⟨hstamped.sorted, List.pairwise_singleton _ _, fun a ha b hb => ?_⟩
        obtain rfl := List.mem_singleton.mp hb
        exact hafter a ha
      · rw [hlog, hstamp]
        intro a ha
        rcases List.mem_append.mp ha with ha | ha
        · exact Or.inr (hafter a ha)
        · obtain rfl := List.mem_singleton.mp ha
          exact Or.inl rfl
    · rw [Option.toList_none, List.append_nil]
      refine ⟨hstamped.opened, hstamped.sorted, fun a ha => Or.inr ?_⟩
      rw [hstamp]
      exact hafter a ha

/-- What waits for a response in a slot was sent and is not answered, it is in one slot only, and
what is answered was sent and is answered once. -/
structure Slotted (log : List HandshakeEvent) (h : Handshake C) : Prop where
  waiting : ∀ s, h.state = .initSent s ∨ h.previous = .initSent s →
    s ∈ sentStates log ∧ s ∉ (obtainedResponses log).map Prod.fst
  distinct : ∀ s, h.state = .initSent s → h.previous ≠ .initSent s
  answered : ∀ s ∈ (obtainedResponses log).map Prod.fst, s ∈ sentStates log
  once : ((obtainedResponses log).map Prod.fst).Nodup

/-- The slots hold fewer initiations, and nothing is logged. -/
theorem Slotted.of_slots (hslotted : Slotted log h)
    (hstate : ∀ s, h'.state = .initSent s → h.state = .initSent s)
    (hprevious : ∀ s, h'.previous = .initSent s → h.previous = .initSent s) :
    Slotted log h' where
  waiting s hs := hslotted.waiting s (hs.imp (hstate s) (hprevious s))
  distinct s hs hs' := hslotted.distinct s (hstate s hs) (hprevious s hs')
  answered := hslotted.answered
  once := hslotted.once

/-- Nothing is sent or answered, and the state moves to the previous slot. -/
theorem Slotted.shift (hslotted : Slotted log h) {log' : List HandshakeEvent}
    (hsent : sentStates log' = sentStates log)
    (hobtained : obtainedResponses log' = obtainedResponses log)
    (hstate : ∀ s, h'.state ≠ .initSent s) (hprevious : h'.previous = h.state) :
    Slotted log' h' where
  waiting s hs := by
    rw [hsent, hobtained]
    rcases hs with hs | hs
    · exact absurd hs (hstate s)
    · exact hslotted.waiting s (Or.inl (hprevious ▸ hs))
  distinct s hs := absurd hs (hstate s)
  answered := by rw [hsent, hobtained]; exact hslotted.answered
  once := by rw [hobtained]; exact hslotted.once

/-- An initiation is sent that was not sent before. -/
theorem Slotted.sent (hslotted : Slotted log h) {s : HandshakeInitSentState}
    (hstate : h'.state = .initSent s) (hprevious : h'.previous = h.state)
    (hfresh : s ∉ sentStates log) : Slotted (log ++ [.sent s]) h' := by
  have hsent : sentStates (log ++ [.sent s]) = sentStates log ++ [s] := by simp [sentStates]
  have hobtained : obtainedResponses (log ++ [.sent s]) = obtainedResponses log := by
    simp [obtainedResponses]
  refine ⟨fun s' hs' => ?_, fun s' hs' hs'' => ?_, fun s' hs' => ?_, ?_⟩
  · rw [hsent, hobtained]
    rcases hs' with hs' | hs'
    · obtain rfl : s = s' := HandshakeState.initSent.inj (hstate.symm.trans hs')
      exact ⟨List.mem_append_right _ (List.mem_singleton_self s),
        fun hmem => hfresh (hslotted.answered s hmem)⟩
    · obtain ⟨hmem, hnot⟩ := hslotted.waiting s' (Or.inl (hprevious ▸ hs'))
      exact ⟨List.mem_append_left _ hmem, hnot⟩
  · obtain rfl : s = s' := HandshakeState.initSent.inj (hstate.symm.trans hs')
    exact hfresh (hslotted.waiting s (Or.inl (hprevious ▸ hs''))).1
  · rw [hobtained] at hs'
    rw [hsent]
    exact List.mem_append_left _ (hslotted.answered s' hs')
  · rw [hobtained]
    exact hslotted.once

/-- A response is accepted: its initiation leaves its slot, and was in no other. -/
theorem Slotted.obtained (hslotted : Slotted log h) {s : HandshakeInitSentState}
    {p : HandshakeResponse} {isPrevious : Bool}
    (hawait : h.awaiting p.receiverIdx = some (s, isPrevious))
    (hstate : h'.state = if isPrevious then h.state else .none)
    (hprevious : h'.previous = if isPrevious then .none else h.previous) :
    Slotted (log ++ [.obtained s p]) h' := by
  have hsent : sentStates (log ++ [.obtained s p]) = sentStates log := by simp [sentStates]
  have hobtained : (obtainedResponses (log ++ [.obtained s p])).map Prod.fst =
      (obtainedResponses log).map Prod.fst ++ [s] := by simp [obtainedResponses]
  obtain ⟨-, hslot⟩ := Handshake.awaiting_eq_some hawait
  have hin : h.state = .initSent s ∨ h.previous = .initSent s := by
    cases isPrevious
    · exact Or.inl hslot
    · exact Or.inr hslot
  obtain ⟨hmem, hnot⟩ := hslotted.waiting s hin
  -- what is left in the slots was there, and is another initiation
  have hleft : ∀ s', h'.state = .initSent s' ∨ h'.previous = .initSent s' →
      (h.state = .initSent s' ∨ h.previous = .initSent s') ∧ s' ≠ s := by
    intro s' hs'
    rw [hstate, hprevious] at hs'
    cases isPrevious
    · rcases hs' with hs' | hs'
      · cases hs'
      · refine ⟨Or.inr hs', ?_⟩
        rintro rfl
        exact hslotted.distinct s' hslot hs'
    · rcases hs' with hs' | hs'
      · refine ⟨Or.inl hs', ?_⟩
        rintro rfl
        exact hslotted.distinct s' hs' hslot
      · cases hs'
  refine ⟨fun s' hs' => ?_, fun s' hs' hs'' => ?_, fun s' hs' => ?_, ?_⟩
  · obtain ⟨hold, hne⟩ := hleft s' hs'
    obtain ⟨hmem', hnot'⟩ := hslotted.waiting s' hold
    rw [hsent, hobtained]
    refine ⟨hmem', fun hs' => ?_⟩
    rcases List.mem_append.mp hs' with hs' | hs'
    · exact hnot' hs'
    · exact hne (List.mem_singleton.mp hs')
  · -- one of the two slots is empty
    rw [hstate] at hs'
    rw [hprevious] at hs''
    cases isPrevious
    · cases hs'
    · cases hs''
  · rw [hobtained] at hs'
    rw [hsent]
    rcases List.mem_append.mp hs' with hs' | hs'
    · exact hslotted.answered s' hs'
    · rwa [List.mem_singleton.mp hs']
  · rw [hobtained, List.nodup_append]
    refine ⟨hslotted.once, List.nodup_singleton s, fun s₁ hs₁ s₂ hs₂ heq => hnot ?_⟩
    rwa [← List.mem_singleton.mp hs₂, ← heq]

theorem Slotted.move (hslotted : Slotted log h) (hmove : Move h e h')
    (hfresh : (sentStates (log ++ e.toList)).Nodup) : Slotted (log ++ e.toList) h' := by
  cases hmove with
  | keep hstate hprevious =>
    rw [Option.toList_none, List.append_nil]
    exact hslotted.of_slots (fun s hs => hstate ▸ hs) fun s hs => hprevious ▸ hs
  | @sent _ s hstate hprevious =>
    refine hslotted.sent hstate hprevious fun hmem => ?_
    have hsent : sentStates (log ++ (some (HandshakeEvent.sent s)).toList) =
        sentStates log ++ [s] := by simp [sentStates]
    rw [hsent, List.nodup_append] at hfresh
    exact hfresh.2.2 s hmem s (List.mem_singleton_self s) rfl
  | accepted _ hstate hprevious _ he =>
    refine hslotted.shift ?_ ?_ hstate hprevious
    · rcases he with ⟨response, rfl⟩ | rfl <;> simp [sentStates]
    · rcases he with ⟨response, rfl⟩ | rfl <;> simp [obtainedResponses]
  | obtained hawait hstate hprevious => exact hslotted.obtained hawait hstate hprevious
  | expired hstate hprevious =>
    rw [Option.toList_none, List.append_nil]
    refine hslotted.of_slots (fun s hs => ?_) fun s hs => ?_
    · rw [hstate] at hs
      cases hs
    · rw [hprevious] at hs
      cases hs

/-- **What a run keeps**, when no initiation is sent twice. -/
theorem stamped_slotted {t₀ : Tunn C} (hstate : ∀ s, t₀.handshake.state ≠ .initSent s)
    (hprevious : ∀ s, t₀.handshake.previous ≠ .initSent s)
    (hrun : Machine.Reaches (Machine.logged take handshakeEvent) (fun _ _ => True) (t₀, [])
      (t, log)) (hfresh : (sentStates log).Nodup) :
    Stamped log t.handshake ∧ Slotted log t.handshake := by
  have hinv : Stamped log t.handshake ∧ ((sentStates log).Nodup → Slotted log t.handshake) := by
    refine hrun.invariant (I := fun q : Tunn C × List HandshakeEvent =>
      Stamped q.2 q.1.handshake ∧ ((sentStates q.2).Nodup → Slotted q.2 q.1.handshake)) ?_ ?_
    · refine ⟨⟨by simp [acceptedInitiations], .nil, by simp [acceptedInitiations]⟩, fun _ => ?_⟩
      refine ⟨?_, fun s hs => absurd hs (hstate s), by simp [obtainedResponses], List.nodup_nil⟩
      rintro s (hs | hs)
      · exact absurd hs (hstate s)
      · exact absurd hs (hprevious s)
    · rintro ⟨t₁, log₁⟩ i ⟨t₂, log₂⟩ r ⟨hstamped, hslotted⟩ - hstep
      obtain ⟨htake, rfl⟩ := Machine.logged_eq_some.mp hstep
      have hmove := take_move htake
      refine ⟨hstamped.move hmove, fun hnodup => ?_⟩
      have hbefore : (sentStates log₁).Nodup := by
        rw [sentStates_append] at hnodup
        exact (List.nodup_append.mp hnodup).1
      exact (hslotted hbefore).move hmove hnodup
  exact ⟨hinv.1, hinv.2 hfresh⟩

/-! ## Ideal cryptography -/

/-- In a run with ideal cryptography the initiations sent have different transcript hashes, since
their ephemeral keys are fresh, and a response opens for one transcript hash only, since its box
authenticates it. -/
structure IdealRun (log : List HandshakeEvent) : Prop where
  fresh : ((sentStates log).map HandshakeInitSentState.hash).Nodup
  bound : ∀ s s' response, (s, response) ∈ obtainedResponses log →
    (s', response) ∈ obtainedResponses log → s.hash = s'.hash

/-- The pair of messages that a session is derived from: an initiation, received or sent, and the
response to it. -/
def messages : HandshakeEvent → Option ((HandshakeInit ⊕ HandshakeInitSentState) × HandshakeResponse)
  | .sent _ => none
  | .accepted initiation _ response => some (.inl initiation, response)
  | .obtained s response => some (.inr s, response)

/-- An initiation that opens to an older timestamp is another initiation. -/
theorem Stamped.nodup (hplain : C.OnePlaintext) (hstamped : Stamped log h) :
    ((acceptedInitiations log).map Prod.fst).Nodup := by
  rw [List.Nodup, List.pairwise_map]
  refine hstamped.sorted.imp_of_mem fun {a b} ha hb hafter heq => ?_
  obtain ⟨params, chainingKey, hash, hopen⟩ := hstamped.opened a ha
  obtain ⟨params', chainingKey', hash', hopen'⟩ := hstamped.opened b hb
  rw [← heq] at hopen'
  have hsame := openInitiation_unique hplain hopen hopen'
  rw [hsame] at hafter
  exact Tai64N.after_irrefl _ hafter

/-- Responses to different initiations are different responses. -/
theorem Slotted.nodup (hslotted : Slotted log h) (hideal : IdealRun log) :
    ((obtainedResponses log).map Prod.snd).Nodup := by
  have hpairs := hslotted.once
  rw [List.Nodup, List.pairwise_map] at hpairs ⊢
  refine hpairs.imp_of_mem fun {a b} ha hb hne heq => hne ?_
  have hhash : a.1.hash = b.1.hash := by
    refine hideal.bound a.1 b.1 a.2 ha ?_
    rw [heq]
    exact hb
  exact List.inj_on_of_nodup_map hideal.fresh
    (hslotted.answered _ (List.mem_map_of_mem ha)) (hslotted.answered _ (List.mem_map_of_mem hb))
    hhash

/-- Then the pairs of messages differ as well. -/
theorem nodup_messages (haccepted : ((acceptedInitiations log).map Prod.fst).Nodup)
    (hobtained : ((obtainedResponses log).map Prod.snd).Nodup) :
    (log.filterMap messages).Nodup := by
  rw [List.Nodup, List.pairwise_map, acceptedInitiations, List.pairwise_filterMap] at haccepted
  rw [List.Nodup, List.pairwise_map, obtainedResponses, List.pairwise_filterMap] at hobtained
  rw [List.Nodup, List.pairwise_filterMap]
  refine (haccepted.and hobtained).imp fun {e e'} hdiffer x hx x' hx' heq => ?_
  cases e with
  | sent => cases hx
  | accepted p timestamp response =>
    cases e' with
    | sent => cases hx'
    | accepted p' timestamp' response' =>
      cases hx
      cases hx'
      cases heq
      exact hdiffer.1 _ rfl _ rfl rfl
    | obtained s' response' =>
      cases hx
      cases hx'
      cases heq
  | obtained s response =>
    cases e' with
    | sent => cases hx'
    | accepted p' timestamp' response' =>
      cases hx
      cases hx'
      cases heq
    | obtained s' response' =>
      cases hx
      cases hx'
      cases heq
      exact hdiffer.2 _ rfl _ rfl rfl

/-- **No handshake message is accepted twice**: in every run of a new tunnel the timestamps accepted
increase, an initiation is accepted once and a response is accepted once, so that no pair of
messages gives two sessions. -/
theorem handshakes_once (hplain : C.OnePlaintext) {staticPrivate peerStaticPublic : Bytes 32}
    {presharedKey : Option (Bytes 32)} {persistentKeepalive : Option ℕ} {index : UInt32}
    {rateLimiter : Option RateLimiter} {stamper : TimeStamper}
    (hrun : Machine.Reaches (Machine.logged take handshakeEvent) (fun _ _ => True)
      (Tunn.new C staticPrivate peerStaticPublic presharedKey persistentKeepalive index rateLimiter
        stamper env, []) (t, log)) (hideal : IdealRun log) :
    ((acceptedInitiations log).Pairwise fun a b =>
      (Tai64N.parse b.2).after (Tai64N.parse a.2) = true) ∧
    ((acceptedInitiations log).map Prod.fst).Nodup ∧
    ((obtainedResponses log).map Prod.snd).Nodup ∧
    (log.filterMap messages).Nodup := by
  obtain ⟨hstamped, hslotted⟩ := stamped_slotted (fun s hs => by cases hs) (fun s hs => by cases hs)
    hrun (List.Nodup.of_map _ hideal.fresh)
  have haccepted := hstamped.nodup hplain
  have hobtained := hslotted.nodup hideal
  exact ⟨hstamped.sorted, haccepted, hobtained, nodup_messages haccepted hobtained⟩

/-! ## A concrete run -/

/-- What a concrete tunnel puts on the network in a run. -/
def sentDatagrams (t : Tunn checksumPrims) (inputs : List (Env × Input)) : List (List UInt8) :=
  match Machine.run take t inputs with
  | some (_, results) => results.filterMap fun
    | .writeToNetwork packet => some packet
    | _ => none
  | none => []

/-- Two initiations are in flight. -/
def initiations : List (Env × Input) :=
  [(sampleEnv 5 1, .call (.formatHandshakeInitiation 148 false)),
    (sampleEnv 6 2, .call (.formatHandshakeInitiation 148 true))]

/-- A datagram is received. -/
def receive (ephemeral : UInt8) (now : ℕ) (datagram : List UInt8) : Env × Input :=
  (sampleEnv ephemeral now, .call (.decapsulate none datagram 148))

/-- The peer answers both, and sends an initiation of its own. -/
def answers : List (List UInt8) :=
  sentDatagrams (sampleTunn 2 1 2) <|
    ((sentDatagrams (sampleTunn 1 2 1) initiations).map (receive 7 3)) ++
      [(sampleEnv 9 5, .call (.formatHandshakeInitiation 148 true))]

/-- What the peer has sent arrives in another order and twice, with a new private key between. -/
def replays : List (Env × Input) :=
  initiations ++ (answers.take 2).reverse.map (receive 10 6) ++ answers.map (receive 10 6) ++
    [(sampleEnv 11 7, .call (.setStaticPrivate (fill 32 9) (checksumPrims.publicKey (fill 32 9))
      none))] ++ answers.map (receive 12 8)

/-- Two initiations are sent, two responses and an initiation are accepted, once each. -/
theorem handshakes_once_sample :
    ∃ (t : Tunn checksumPrims) (log : List HandshakeEvent),
      Machine.Reaches (Machine.logged take handshakeEvent) (fun _ _ => True) (sampleTunn 1 2 1, [])
        (t, log) ∧
      (sentStates log).length = 2 ∧
      ((acceptedInitiations log).Pairwise fun a b =>
        (Tai64N.parse b.2).after (Tai64N.parse a.2) = true) ∧
      ((acceptedInitiations log).map Prod.fst).Nodup ∧
      ((obtainedResponses log).map Prod.snd).Nodup ∧
      (log.filterMap messages).Nodup ∧ (log.filterMap messages).length = 3 := by
  have hrun : (Machine.run (Machine.logged take handshakeEvent) (sampleTunn 1 2 1, [])
      replays).map (fun q => ((sentStates q.1.2).length, (q.1.2.filterMap messages).length,
        decide ((sentStates q.1.2).map HandshakeInitSentState.hash).Nodup,
        decide ((obtainedResponses q.1.2).map fun a => a.2.senderIdx).Nodup)) =
      some (2, 3, true, true) := by decide +kernel
  obtain ⟨⟨⟨t, log⟩, results⟩, hrun, heq⟩ := Option.map_eq_some_iff.mp hrun
  simp only [Prod.mk.injEq, decide_eq_true_eq] at heq
  obtain ⟨hsent, hmessages, hfresh, hdiffer⟩ := heq
  have hreaches := Machine.reaches_of_run hrun
  -- the responses have different sender indices
  have hideal : IdealRun log := by
    refine ⟨hfresh, fun s s' response hs hs' => ?_⟩
    have hsame := List.inj_on_of_nodup_map hdiffer hs hs' rfl
    rw [(Prod.mk.inj hsame).1]
  obtain ⟨hstamps, hinitiations, hresponses, hpairs⟩ :=
    handshakes_once onePlaintext_checksumPrims hreaches hideal
  exact ⟨t, log, hreaches, hsent, hstamps, hinitiations, hresponses, hpairs, hmessages⟩

end Tunn

end NekoLink.Noise
