import NekoLink.Noise.TunnSteps

/-!
# Confirmed sessions

A session is confirmed once a response gave it or a packet was decrypted under it. Data is sent
under the session in the current index's slot, and that session is confirmed in every run in which
no initiation is answered while the next local index falls on that slot.

* `CurrentConfirmed.effect`: what one effect keeps.
* `CurrentConfirmed.reaches`: what a run keeps.
* `sent_confirmed`: every data packet sent is under a confirmed session.
* `unconfirmed_after_lost_responses`: eight initiations whose responses are lost are enough for the
  ninth session index to fall on the slot of the initial index.
-/

namespace NekoLink.Noise

open Wire

variable {C : Prims}

namespace Tunn

variable {c c' : Core C} {e : Option Event} {log log' : List Event} {t t' : Tunn C}
  {r : TunnResult} {s s' : Session} {i : Env × Call}

/-! ## Confirmed sessions -/

/-- A response gave the session, or a packet was decrypted under it. -/
def Confirmed (log : List Event) (s : Session) : Prop :=
  ∃ s', s.Same s' ∧ (.obtained s' ∈ log ∨ ∃ counter, .decrypted s' counter ∈ log)

theorem Confirmed.mono (h : Confirmed log s) (hsub : log ⊆ log') : Confirmed log' s := by
  obtain ⟨s', hsame, hobtained | ⟨counter, hdecrypted⟩⟩ := h
  · exact ⟨s', hsame, Or.inl (hsub hobtained)⟩
  · exact ⟨s', hsame, Or.inr ⟨counter, hsub hdecrypted⟩⟩

theorem Confirmed.same (h : Confirmed log s) (hsame : s'.Same s) : Confirmed log s' := by
  obtain ⟨s'', hsame', hlog⟩ := h
  exact ⟨s'', hsame.trans hsame', hlog⟩

/-- The session in the current slot is the current one, and is confirmed. -/
def CurrentConfirmed (log : List Event) (c : Core C) : Prop :=
  ∀ s, c.sessions.get c.current = some s → s.localIndex = c.current ∧ Confirmed log s

/-- Fewer sessions. -/
theorem CurrentConfirmed.of_get (h : CurrentConfirmed log c) (hsub : log ⊆ log')
    (hget : ∀ s, c'.sessions.get c'.current = some s → c.sessions.get c.current = some s)
    (hcurrent : c'.current = c.current) : CurrentConfirmed log' c' := by
  intro s hs
  obtain ⟨hindex, hconfirmed⟩ := h s (hget s hs)
  exact ⟨hindex.trans hcurrent.symm, hconfirmed.mono hsub⟩

/-- A session under the index used is stored: it is the current one, or the current slot is left
alone. -/
theorem CurrentConfirmed.store {newIdx current : ℕ} (h : CurrentConfirmed log c)
    (hsub : log ⊆ log') (hconfirmed : Confirmed log' s) (hindex : s.localIndex = newIdx)
    (hswitched : Switched c.current newIdx current)
    (hsessions : c'.sessions = c.sessions.store s) (hcurrent : c'.current = current) :
    CurrentConfirmed log' c' := by
  intro s' hs'
  rw [hsessions, hcurrent] at hs'
  rcases hswitched with rfl | ⟨rfl, hslot⟩
  · rw [← hindex, SessionRing.get_store_self] at hs'
    cases hs'
    exact ⟨hindex.trans hcurrent.symm, hconfirmed⟩
  · rw [SessionRing.get_store_of_ne (by rw [hindex]; exact hslot.symm)] at hs'
    obtain ⟨hindex', hconfirmed'⟩ := h s' hs'
    exact ⟨hindex'.trans hcurrent.symm, hconfirmed'.mono hsub⟩

/-- **What an effect keeps**, unless it answers an initiation under the current slot. -/
theorem CurrentConfirmed.effect (h : CurrentConfirmed log c) (heffect : Effect c e c' r)
    (hsub : log ⊆ log')
    (hobtained : ∀ s, e = some (.obtained s) → .obtained s ∈ log')
    (hdecrypted : ∀ s counter, e = some (.decrypted s counter) → .decrypted s counter ∈ log')
    (hspares : ∀ s, e = some (.answered s) → slot s.localIndex ≠ slot c.current) :
    CurrentConfirmed log' c' := by
  cases heffect with
  | idle | initiate | stuck => exact h.of_get hsub (fun _ hs => hs) rfl
  | send s src hs =>
    intro s' hs'
    obtain ⟨hindex, hconfirmed⟩ := h s hs
    have hself := SessionRing.get_store_of_eq (r := c.sessions) (s := s.bumped C)
      (SessionRing.slot_localIndex hs).symm
    obtain rfl : s.bumped C = s' := Option.some.inj (hself.symm.trans hs')
    exact ⟨hindex, (hconfirmed.same s.same_bumped).mono hsub⟩
  | respond =>
    refine h.of_get hsub (fun s hs => ?_) rfl
    rwa [SessionRing.get_store_of_ne (hspares _ rfl).symm] at hs
  | establish packet s isPrevious temp2 temp3 rtt established current _ _ hswitched =>
    exact h.store hsub ⟨_, Session.same_bumped _, Or.inl (hobtained _ rfl)⟩ rfl hswitched rfl rfl
  | receive p dstLen s s' ret current hs hreceive hswitched =>
    obtain ⟨hidx, hsame⟩ := Session.receivePacketData_ok hreceive
    have hindex : s'.localIndex = p.receiverIdx.toNat := by
      rw [hsame.localIndex, hidx]
      rfl
    exact h.store hsub ⟨s, hsame, Or.inr ⟨_, hdecrypted _ _ rfl⟩⟩ hindex hswitched rfl rfl
  | expireSessions => exact h.of_get hsub (fun _ hs => SessionRing.get_of_get_filter hs) rfl
  | giveUp | rekey => exact fun s hs => by cases hs

/-! ## Runs -/

/-- The call accepts an initiation and answers it. -/
def Answers (t : Tunn C) (i : Env × Call) : Prop :=
  ∃ srcAddr datagram dstLen p timestamp chainingKey hash,
    i.2 = .decapsulate srcAddr datagram dstLen ∧
    (t.rateLimiter.verifyPacket C srcAddr datagram cookieReplySz i.1.cookie).2 =
      .ok (.handshakeInit p) ∧
    t.handshake.Accepts p timestamp chainingKey hash ∧ handshakeRespSz ≤ dstLen

/-- No initiation is answered while the next local index falls on the slot of an index. -/
def Spares (idx : ℕ) (t : Tunn C) (i : Env × Call) : Prop :=
  t.Answers i → slot (Handshake.incIndex t.handshake.nextIndex).toNat ≠ slot idx

/-- An event of an initiation answered comes from an answer, under the next local index. -/
theorem answers_of_event (h : t.event i = some (.answered s)) :
    t.Answers i ∧ s.localIndex = (Handshake.incIndex t.handshake.nextIndex).toNat := by
  obtain ⟨env, call⟩ := i
  cases call with
  | encapsulate | updateTimers | formatHandshakeInitiation => cases h
  | setStaticPrivate => cases h
  | decapsulate srcAddr datagram dstLen =>
    rw [event] at h
    rcases hverify : t.rateLimiter.verifyPacket C srcAddr datagram cookieReplySz env.cookie with
      ⟨rateLimiter, result | packet⟩
    · rw [hverify] at h
      cases h
    · rw [hverify] at h
      cases packet with
      | packetCookieReply => cases h
      | handshakeResponse p =>
        simp only [packetEvent] at h
        split at h <;> cases h
      | packetData p =>
        simp only [packetEvent] at h
        split at h
        · cases h
        · split at h <;> cases h
      | handshakeInit p =>
        simp only [packetEvent] at h
        obtain ⟨e, heq⟩ | ⟨timestamp, chainingKey, hash, ha, ⟨-, heq⟩ | ⟨cookies, macs, hd, heq⟩⟩ :=
          t.handshake.receiveHandshakeInitialization_cases p env.ephemeralPrivate dstLen
        · rw [heq] at h
          cases h
        · rw [heq] at h
          cases h
        · rw [heq] at h
          cases h
          exact ⟨⟨srcAddr, datagram, dstLen, p, timestamp, chainingKey, hash, rfl,
            by rw [hverify], ha, hd⟩, rfl⟩

/-- **What a call keeps.** -/
theorem CurrentConfirmed.step (h : CurrentConfirmed log t.core) (hspares : Spares t.current t i)
    (hstep : t.step i = some (t', r)) :
    CurrentConfirmed (log ++ (t.event i).toList) t'.core := by
  obtain ⟨c, e, hc, he, heffect⟩ := step_effect hstep
  obtain ⟨hcurrent, hsessions⟩ := expiry_spec hc
  have hbefore : CurrentConfirmed log c :=
    h.of_get (List.Subset.refl _)
      (fun s hs => hsessions _ s (by rwa [hcurrent] at hs)) hcurrent
  have hlog : ∀ ev, e = some ev → ev ≠ .gaveUp → t.event i = some ev := by
    rintro ev rfl hne
    rcases he with he | ⟨-, he⟩
    · exact he.symm
    · cases he
      exact absurd rfl hne
  refine hbefore.effect heffect (List.subset_append_left _ _) (fun s hs => ?_)
    (fun s counter hs => ?_) (fun s hs => ?_)
  · simp [hlog _ hs (by rintro ⟨⟩)]
  · simp [hlog _ hs (by rintro ⟨⟩)]
  · obtain ⟨hanswers, hindex⟩ := answers_of_event (hlog _ hs (by rintro ⟨⟩))
    rw [hindex, hcurrent]
    exact hspares hanswers

/-- **What a run keeps.** -/
theorem CurrentConfirmed.reaches {t₀ : Tunn C} (h₀ : CurrentConfirmed [] t₀.core)
    (h : Machine.Reaches (Machine.logged Tunn.step event) (fun q i => Spares q.1.current q.1 i)
      (t₀, []) (t, log)) : CurrentConfirmed log t.core := by
  refine h.invariant (I := fun q => CurrentConfirmed q.2 q.1.core) h₀ ?_
  rintro ⟨t₁, log₁⟩ i ⟨t₂, log₂⟩ r h₁ hspares hstep
  obtain ⟨hstep, rfl⟩ := Machine.logged_eq_some.mp hstep
  exact h₁.step hspares hstep

/-- A data packet sent is under the session in the current slot, or it is the keepalive that answers
a response. -/
theorem Effect.data {datagram : List UInt8} {q : PacketData}
    (heffect : Effect c e c' (.writeToNetwork datagram))
    (hdata : parseIncomingPacket datagram = .ok (.packetData q)) :
    (∃ s src, c.sessions.get c.current = some s ∧
      datagram = (s.dataPacket C s.sendingKeyCounter src).bytes) ∨
    ∃ s, e = some (.obtained s) ∧ datagram = (s.dataPacket C s.sendingKeyCounter []).bytes := by
  generalize hr : TunnResult.writeToNetwork datagram = r at heffect
  cases heffect with
  | idle cookies r hquiet =>
    subst hr
    rcases hquiet with hdone | ⟨e, herr⟩ | ⟨reply, hreply⟩
    · cases hdone
    · cases herr
    · cases hreply
      rw [parseIncomingPacket_cookieReply] at hdata
      cases hdata
  | initiate =>
    cases hr
    rw [parseIncomingPacket_handshakeInit] at hdata
    cases hdata
  | send s src hs =>
    cases hr
    exact Or.inl ⟨s, src, hs, rfl⟩
  | respond =>
    cases hr
    rw [parseIncomingPacket_handshakeResponse] at hdata
    cases hdata
  | establish packet s isPrevious temp2 temp3 =>
    cases hr
    exact Or.inr ⟨_, rfl, rfl⟩
  | receive p dstLen s s' ret =>
    rw [delivered] at hr
    split at hr
    · cases hr
    · split at hr
      · cases hr
      · split at hr
        · cases hr
        · split at hr <;> cases hr
  | stuck | expireSessions | giveUp | rekey => cases hr

variable {staticPrivate peerStaticPublic : Bytes 32} {presharedKey : Option (Bytes 32)}
  {persistentKeepalive : Option ℕ} {index : UInt32} {rateLimiter : Option RateLimiter}
  {stamper : TimeStamper} {env : Env}

/-- **Data is sent only under a confirmed session**, in every run from a new tunnel in which no
initiation is answered while the next local index falls on the current slot. The session is the one
whose local index is the current one; the only other data packet is the keepalive that answers a
response, under the session it gives. -/
theorem sent_confirmed {datagram : List UInt8} {q : PacketData}
    (hreach : Machine.Reaches (Machine.logged step event) (fun q i => Spares q.1.current q.1 i)
      (Tunn.new C staticPrivate peerStaticPublic presharedKey persistentKeepalive index rateLimiter
        stamper env, []) (t, log))
    (hstep : t.step i = some (t', .writeToNetwork datagram))
    (hdata : parseIncomingPacket datagram = .ok (.packetData q)) :
    (∃ s src, t.sessions.get t.current = some s ∧
      datagram = (s.dataPacket C s.sendingKeyCounter src).bytes ∧
      s.localIndex = t.current ∧ Confirmed log s) ∨
    ∃ s, t.event i = some (.obtained s) ∧
      datagram = (s.dataPacket C s.sendingKeyCounter []).bytes := by
  have hconfirmed : CurrentConfirmed log t.core :=
    CurrentConfirmed.reaches (fun s hs => by cases hs) hreach
  obtain ⟨c, e, hc, he, heffect⟩ := step_effect hstep
  rcases heffect.data hdata with ⟨s, src, hs, hsent⟩ | ⟨s, hs, hsent⟩
  · obtain ⟨hcurrent, hsessions⟩ := expiry_spec hc
    rw [hcurrent] at hs
    have hs' := hsessions _ _ hs
    obtain ⟨hindex, hconf⟩ := hconfirmed s hs'
    exact Or.inl ⟨s, src, hs', hsent, hindex, hconf⟩
  · refine Or.inr ⟨s, ?_, hsent⟩
    rcases he with rfl | ⟨-, rfl⟩
    · exact hs
    · cases hs

/-! ## Concrete runs -/

/-- The datagrams of some results. -/
def datagrams (rs : List TunnResult) : List (List UInt8) :=
  rs.filterMap fun r =>
    match r with
    | .writeToNetwork datagram => some datagram
    | _ => none

/-- Initiations sent one after another, `n` of them. -/
def retries (n : ℕ) : List (Env × Call) :=
  (List.range n).map fun k =>
    (sampleEnv (UInt8.ofNat k) (fromSecs (5 * (k + 1))), .formatHandshakeInitiation 148 true)

/-- The arrival of some datagrams. -/
def arrivals (ds : List (List UInt8)) : List (Env × Call) :=
  ds.map fun d => (sampleEnv 77 (fromSecs 50), .decapsulate none d 148)

/-- A responder to which eight initiations of its peer have come, and the log of this; the
responses are lost. -/
def lostResponses : Option ((Tunn checksumPrims × List Event) × List TunnResult) :=
  (Machine.run step (sampleTunn 1 2 1) (retries 8)).bind fun q =>
    Machine.run (Machine.logged step event) (sampleTunn 2 1 2, []) (arrivals (datagrams q.2))

/-- The event is of an initiation answered. -/
def Event.isAnswered : Event → Bool
  | .answered _ => true
  | _ => false

/-- The responder then sends data under a session that is not the current one, and that nothing
has confirmed. -/
theorem unconfirmed_after_lost_responses :
    ∃ t log rs s t', lostResponses = some ((t, log), rs) ∧
      t.encapsulate (sampleEnv 0 (fromSecs 51)) [0x45] 148 =
        some (t', .writeToNetwork (s.dataPacket checksumPrims s.sendingKeyCounter [0x45]).bytes) ∧
      t.sessions.get t.current = some s ∧ s.localIndex ≠ t.current ∧ ¬ Confirmed log s := by
  have hruns : lostResponses.map (fun q => (q.1.1.current,
      (q.1.1.sessions.get q.1.1.current).map Session.localIndex, q.1.2.all Event.isAnswered)) =
        some (0, some 0x208, true) := by decide +kernel
  obtain ⟨⟨⟨t, log⟩, rs⟩, hrun, heq⟩ := Option.map_eq_some_iff.mp hruns
  obtain ⟨hcurrent, hindex, hlog⟩ : t.current = 0 ∧
      (t.sessions.get t.current).map Session.localIndex = some 0x208 ∧
      log.all Event.isAnswered = true := by simpa only [Prod.mk.injEq] using heq
  obtain ⟨s, hs, hlocal⟩ := Option.map_eq_some_iff.mp hindex
  have hroom : [(0x45 : UInt8)].length + dataOverheadSz ≤ 148 := by decide
  obtain ⟨t', hencap, -⟩ := encapsulate_session (sampleEnv 0 (fromSecs 51)) hs hroom
  refine ⟨t, log, rs, s, t', hrun, hencap, hs, by rw [hlocal, hcurrent]; decide, ?_⟩
  have hall := List.all_eq_true.mp hlog
  rintro ⟨s', -, hmem | ⟨counter, hmem⟩⟩
  · exact absurd (hall _ hmem) Bool.false_ne_true
  · exact absurd (hall _ hmem) Bool.false_ne_true

/-- An initiator's initiation, and the response to it. -/
def exchange : Option (Tunn checksumPrims × List UInt8) := do
  let (t, r) ← step (sampleTunn 1 2 1) (sampleEnv 5 1, .formatHandshakeInitiation 148 false)
  let (_, rs) ← Machine.run step (sampleTunn 2 1 2) (arrivals (datagrams [r]))
  return (t, (datagrams rs).headD [])

/-- Once the response has arrived, the initiator sends data under a confirmed session. -/
theorem sent_confirmed_sample :
    ∃ (t t' : Tunn checksumPrims) (log : List Event) (datagram : List UInt8),
      step t (sampleEnv 6 3, .encapsulate [0x45] 148) = some (t', .writeToNetwork datagram) ∧
      ∃ s, t.sessions.get t.current = some s ∧
        datagram = (s.dataPacket checksumPrims s.sendingKeyCounter [0x45]).bytes ∧
        s.localIndex = 0x101 ∧ Confirmed log s := by
  have hruns : (exchange.bind fun q =>
      (q.1.step (sampleEnv 6 2, .decapsulate none q.2 148)).map fun w =>
        (decide (slot (Handshake.incIndex q.1.handshake.nextIndex).toNat = slot q.1.current),
          (w.1.sessions.get w.1.current).map fun s => (s.localIndex, s.sendingKeyCounter))) =
      some (false, some (0x101, 1)) := by decide +kernel
  obtain ⟨⟨t₁, reply⟩, hexchange, hrest⟩ := Option.bind_eq_some_iff.mp hruns
  obtain ⟨⟨t₂, r₂⟩, hstep₂, heq⟩ := Option.map_eq_some_iff.mp hrest
  simp only [exchange, Option.bind_eq_bind, Option.bind_eq_some_iff, Option.pure_def,
    Option.some.injEq, Prod.mk.injEq, Prod.exists] at hexchange
  obtain ⟨t₁, r₁, hstep₁, _, rs, -, rfl, rfl⟩ := hexchange
  obtain ⟨hslot, hsession⟩ := Prod.mk.inj heq
  obtain ⟨s, hs, hfields⟩ := Option.map_eq_some_iff.mp hsession
  obtain ⟨hlocal, hcounter⟩ := Prod.mk.inj hfields
  have hroom : [(0x45 : UInt8)].length + dataOverheadSz ≤ 148 := by decide
  obtain ⟨t₃, hencap, -⟩ := encapsulate_session (sampleEnv 6 3) hs hroom
  have hinitiate : Spares (sampleTunn 1 2 1).current (sampleTunn 1 2 1)
      (sampleEnv 5 1, .formatHandshakeInitiation 148 false) := by
    rintro ⟨_, _, _, _, _, _, _, h, -⟩
    cases h
  have hresponse : Spares t₁.current t₁
      (sampleEnv 6 2, .decapsulate none ((datagrams rs).headD []) 148) :=
    fun _ => of_decide_eq_false hslot
  have hdata := parseIncomingPacket_data (s.dataPacket checksumPrims s.sendingKeyCounter [0x45])
    (show s.sendingKeyCounter < 2 ^ 64 by omega)
  have hreach₁ : Machine.Reaches (Machine.logged step event)
      (fun q i => Spares q.1.current q.1 i) (sampleTunn 1 2 1, []) (t₁, _) :=
    Machine.Reaches.refl.tail hinitiate (Machine.logged_eq_some.mpr ⟨hstep₁, rfl⟩)
  have hreach₂ : Machine.Reaches (Machine.logged step event)
      (fun q i => Spares q.1.current q.1 i) (sampleTunn 1 2 1, []) (t₂, _) :=
    hreach₁.tail hresponse (Machine.logged_eq_some.mpr ⟨hstep₂, rfl⟩)
  have hsend : step t₂ (sampleEnv 6 3, .encapsulate [0x45] 148) = some (t₃, _) := hencap
  have hsent := sent_confirmed hreach₂ hsend hdata
  rcases hsent with ⟨s', src, hs', -, -, hconfirmed⟩ | ⟨s', hevent, -⟩
  · obtain rfl : s = s' := Option.some.inj (hs.symm.trans hs')
    exact ⟨t₂, t₃, _, _, hsend, s, hs, rfl, hlocal, hconfirmed⟩
  · cases hevent

end Tunn

end NekoLink.Noise
