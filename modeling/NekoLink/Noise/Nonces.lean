import NekoLink.Foundations.Numbering
import NekoLink.Noise.Uniqueness

/-!
# The nonces of a tunnel

A run keeps an account: the handshake messages accepted, the sessions that they give, and the key
and the counter that each data packet is sealed under.

* `sealing_of_write`: the account has every data packet that the tunnel writes.
* `Tally`: the sessions in the ring have different keys, and the counter of each is the number of
  packets sealed under its key, modulo `2 ^ usizeBits`.
* `nonces_unique_iff`: in every run no nonce is used twice exactly when no key seals more than
  `2 ^ usizeBits` packets.
-/

namespace NekoLink.Noise

open Wire Numbering

variable {C : Prims}

namespace Session

variable {s s' : Session}

/-- Marking a counter changes nothing but the validator. -/
theorem receivingCounterMark_eq {counter : ℕ} {mark : Except WireGuardError Unit}
    (h : s.receivingCounterMark counter = some (s', mark)) :
    s' = { s with receivingKeyCounter := s'.receivingKeyCounter } := by
  obtain ⟨⟨v, ret⟩, -, heq⟩ := Option.map_eq_some_iff.mp h
  rcases ret with e | ⟨⟩
  · cases heq
    rfl
  · cases heq
    rfl

/-- Receiving a packet leaves the sending counter. -/
theorem sendingKeyCounter_of_receivePacketData {p : PacketData} {dstLen : ℕ} {ret : List UInt8}
    (h : s.receivePacketData C p dstLen = some (s', .ok ret)) :
    s'.sendingKeyCounter = s.sendingKeyCounter := by
  obtain ⟨-, -, -, hmark⟩ := mark_of_receivePacketData h
  rw [receivingCounterMark_eq hmark]

end Session

namespace Tunn

variable {t t' : Tunn C} {env : Env} {dstLen : ℕ} {r : TunnResult} {i : Env × Input}

/-! ## The account of a run -/

/-- What an input means for the sessions. -/
def sessionEvent (t : Tunn C) : Env × Input → Option Event
  | (env, .call call) => t.event (env, call)
  | (env, .packet packet dstLen) => t.packetEvent env dstLen packet

/-- The session that a handshake completed by an input gives. -/
def established (t : Tunn C) (i : Env × Input) : Option Session :=
  match t.sessionEvent i with
  | some (.answered s) | some (.obtained s) => some s
  | _ => none

/-- The session that data packets are formatted with: a keepalive goes out under the session of the
response that it answers, and every other packet under the one in the current slot. -/
def formattingSession (t : Tunn C) (i : Env × Input) : Option Session :=
  match t.sessionEvent i with
  | some (.obtained s) => some s
  | _ => t.sessions.get t.current

/-- A datagram is a data packet. -/
def isData (packet : List UInt8) : Bool := (u32At packet 0).toNat == dataType

/-- The key and the counter of the data packet that an input sends. -/
def sealing (t : Tunn C) (i : Env × Input) : Option (Bytes 32 × ℕ) :=
  match t.take i with
  | some (_, .writeToNetwork packet) =>
    if isData packet then (t.formattingSession i).map fun s => (s.sender, s.sendingKeyCounter)
    else none
  | _ => none

/-- What one input adds to the account. -/
structure Entry where
  handshake : Option HandshakeEvent
  established : Option Session
  sealing : Option (Bytes 32 × ℕ)

def entry (t : Tunn C) (i : Env × Input) : Option Entry :=
  some ⟨t.handshakeEvent i, t.established i, t.sealing i⟩

/-- The sending keys of the sessions established. -/
def sessionKeys (log : List Entry) : List (Bytes 32) :=
  log.filterMap fun e => e.established.map Session.sender

/-- The key and the counter of every data packet. -/
def sealings (log : List Entry) : List (Bytes 32 × ℕ) := log.filterMap Entry.sealing

theorem sessionKeys_append (log : List Entry) (e : Entry) :
    sessionKeys (log ++ [e]) = sessionKeys log ++ (e.established.map Session.sender).toList := by
  rw [sessionKeys, List.filterMap_append]
  rcases h : e.established with _ | s
  · simp [sessionKeys, h]
  · simp [sessionKeys, h]

theorem sealings_append (log : List Entry) (e : Entry) :
    sealings (log ++ [e]) = sealings log ++ e.sealing.toList := by
  rw [sealings, List.filterMap_append]
  rcases h : e.sealing with _ | x
  · simp [sealings, h]
  · simp [sealings, h]

/-! ## What is a data packet -/

theorem isData_dataPacket (p : PacketData) : isData p.bytes = true := by
  rw [isData, PacketData.bytes, u32At_zero_type (by decide)]
  rfl

theorem isData_initiation (p : HandshakeInit) (macs : List UInt8) :
    isData (p.bytes ++ macs) = false := by
  rw [isData, HandshakeInit.bytes, List.append_assoc, u32At_zero_type (by decide)]
  rfl

theorem isData_response (p : HandshakeResponse) (macs : List UInt8) :
    isData (p.bytes ++ macs) = false := by
  rw [isData, HandshakeResponse.bytes, List.append_assoc, u32At_zero_type (by decide)]
  rfl

theorem isData_cookieReply (p : PacketCookieReply) : isData p.bytes = false := by
  rw [isData, PacketCookieReply.bytes, u32At_zero_type (by decide)]
  rfl

theorem isData_of_quiet {packet : List UInt8} (h : Quiet (.writeToNetwork packet)) :
    isData packet = false := by
  obtain h | ⟨e, h⟩ | ⟨reply, h⟩ := h
  · cases h
  · cases h
  · obtain rfl := TunnResult.writeToNetwork.inj h
    exact isData_cookieReply reply

/-! ## One input -/

/-- An input is one effect, once the old sessions are taken out. -/
theorem take_effect (h : t.take i = some (t', r)) :
    ∃ c e, c.current = t.current ∧
      (∀ idx s, c.sessions.get idx = some s → t.sessions.get idx = some s) ∧
      (e = t.sessionEvent i ∨ t.sessionEvent i = none ∧ e = some .gaveUp) ∧
      Effect c e t'.core r := by
  obtain ⟨env, call | ⟨packet, dstLen⟩⟩ := i
  · obtain ⟨c, e, hc, he, heffect⟩ := step_effect h
    obtain ⟨hcurrent, hsessions⟩ := expiry_spec hc
    exact ⟨c, e, hcurrent, hsessions, he, heffect⟩
  · exact ⟨t.core, _, rfl, fun idx s hs => hs, Or.inl rfl, effect_handleVerifiedPacket h⟩

theorem sealing_eq_none (h : t.take i = some (t', r))
    (hr : ∀ packet, r = .writeToNetwork packet → isData packet = false) : t.sealing i = none := by
  rw [sealing, h]
  cases r with
  | writeToNetwork packet => exact if_neg (by rw [hr packet rfl]; decide)
  | done | err | writeToTunnelV4 | writeToTunnelV6 => rfl

theorem sealing_eq_some {p : PacketData} {s : Session}
    (h : t.take i = some (t', .writeToNetwork p.bytes)) (hs : t.formattingSession i = some s) :
    t.sealing i = some (s.sender, s.sendingKeyCounter) := by
  rw [sealing, h]
  dsimp only
  rw [if_pos (isData_dataPacket p), hs, Option.map_some]

theorem formattingSession_of_none (h : t.sessionEvent i = none) :
    t.formattingSession i = t.sessions.get t.current := by
  rw [formattingSession, h]

theorem formattingSession_of_obtained {s : Session}
    (h : t.sessionEvent i = some (.obtained s)) : t.formattingSession i = some s := by
  rw [formattingSession, h]

/-- What an effect does to the ring, with the session established and the packet sealed. -/
inductive Accounted (C : Prims) (r : SessionRing) :
    Option Session → Option (Bytes 32 × ℕ) → SessionRing → Prop
  | keep : Accounted C r none none r
  /-- Sessions are taken out. -/
  | filter (p : Fin nSessions → Bool) : Accounted C r none none (r.filter p)
  | clear : Accounted C r none none .empty
  | send {idx : ℕ} {s : Session} (hs : r.get idx = some s) :
      Accounted C r none (some (s.sender, s.sendingKeyCounter)) (r.store (s.bumped C))
  | receive {idx : ℕ} {s s' : Session} (hs : r.get idx = some s) (hsame : s'.Same s)
      (hcounter : s'.sendingKeyCounter = s.sendingKeyCounter) : Accounted C r none none (r.store s')
  | respond {s : Session} (hzero : s.sendingKeyCounter = 0) :
      Accounted C r (some s) none (r.store s)
  | establish {s : Session} (hzero : s.sendingKeyCounter = 0) :
      Accounted C r (some s) (some (s.sender, 0)) (r.store (s.bumped C))

theorem established_of_event (he : t.sessionEvent i = none ∨ ∃ ev, t.sessionEvent i = some ev ∧
    ∀ s, ev ≠ .answered s ∧ ev ≠ .obtained s) : t.established i = none := by
  rw [established]
  obtain he | ⟨ev, he, hev⟩ := he
  · rw [he]
  · rw [he]
    split
    · next s hs => exact absurd (Option.some.inj hs) (hev s).1
    · next s hs => exact absurd (Option.some.inj hs) (hev s).2
    · rfl

/-- **What an input does to the ring**, once the old sessions are taken out. -/
theorem take_accounted (h : t.take i = some (t', r)) :
    ∃ r₁ : SessionRing, (∀ idx s, r₁.get idx = some s → t.sessions.get idx = some s) ∧
      Accounted C r₁ (t.established i) (t.sealing i) t'.sessions := by
  obtain ⟨c, e, hcurrent, hsub, he, heffect⟩ := take_effect h
  refine ⟨c.sessions, hsub, ?_⟩
  generalize hc' : t'.core = c' at heffect
  have hring : t'.sessions = c'.sessions := congrArg Core.sessions hc'
  rw [hring]
  cases heffect with
  | idle cookies r hr =>
    have hnone : t.sessionEvent i = none := he.elim Eq.symm And.left
    rw [established_of_event (Or.inl hnone), sealing_eq_none h (fun packet hpacket =>
      isData_of_quiet (hpacket ▸ hr))]
    exact .keep
  | initiate ephemeralPrivate stampNow now cookies macs =>
    have hnone : t.sessionEvent i = none := he.elim Eq.symm And.left
    rw [established_of_event (Or.inl hnone), sealing_eq_none h]
    · exact .keep
    · rintro packet hpacket
      cases hpacket
      exact isData_initiation _ _
  | send s src hs =>
    have hnone : t.sessionEvent i = none := he.elim Eq.symm And.left
    have hsession : t.formattingSession i = some s := by
      rw [formattingSession_of_none hnone, ← hcurrent]
      exact hsub _ s hs
    rw [established_of_event (Or.inl hnone), sealing_eq_some h hsession]
    exact .send hs
  | respond packet timestamp chainingKey hash ephemeralPrivate cookies macs established haccepts =>
    have hev := he.resolve_right fun hgave => by cases hgave.2
    rw [Tunn.established, ← hev, sealing_eq_none h]
    · exact .respond rfl
    · rintro packet hpacket
      cases hpacket
      exact isData_response _ _
  | stuck packet timestamp chainingKey hash haccepts =>
    have hnone : t.sessionEvent i = none := he.elim Eq.symm And.left
    rw [established_of_event (Or.inl hnone), sealing_eq_none h (by rintro packet ⟨⟩)]
    exact .keep
  | establish packet s isPrevious temp2 temp3 rtt established current hawait hopen hswitched =>
    have hev := he.resolve_right fun hgave => by cases hgave.2
    rw [Tunn.established, ← hev, sealing_eq_some h (formattingSession_of_obtained hev.symm)]
    exact .establish rfl
  | receive p dstLen s s' ret current hs hreceive hswitched =>
    have hev := he.resolve_right fun hgave => by cases hgave.2
    rw [established_of_event (Or.inr ⟨_, hev.symm, fun s => ⟨by rintro ⟨⟩, by rintro ⟨⟩⟩⟩),
      sealing_eq_none h fun packet hpacket =>
        absurd hpacket (delivered_ne_writeToNetwork ret packet)]
    exact .receive hs (Session.receivePacketData_ok hreceive).2
      (Session.sendingKeyCounter_of_receivePacketData hreceive)
  | expireSessions now cookies hle =>
    have hev := he.resolve_right fun hgave => by cases hgave.2
    rw [established_of_event (Or.inr ⟨_, hev.symm, fun s => ⟨by rintro ⟨⟩, by rintro ⟨⟩⟩⟩),
      sealing_eq_none h (by rintro packet ⟨⟩)]
    exact .filter _
  | giveUp =>
    have hestablished : t.established i = none := by
      refine established_of_event (he.symm.imp And.left fun hev => ⟨_, hev.symm, fun s => ?_⟩)
      exact ⟨by rintro ⟨⟩, by rintro ⟨⟩⟩
    rw [hestablished, sealing_eq_none h (by rintro packet ⟨⟩)]
    exact .clear
  | rekey staticPrivate staticPublic params hparams =>
    have hev := he.resolve_right fun hgave => by cases hgave.2
    rw [established_of_event (Or.inr ⟨_, hev.symm, fun s => ⟨by rintro ⟨⟩, by rintro ⟨⟩⟩⟩),
      sealing_eq_none h (by rintro packet ⟨⟩)]
    exact .clear

/-- **Every data packet is in the account** under the key and the counter that it is sealed with. -/
theorem sealing_of_write {packet : List UInt8}
    (h : t.take i = some (t', .writeToNetwork packet)) (hdata : isData packet = true) :
    ∃ (s : Session) (src : List UInt8), packet = (s.dataPacket C s.sendingKeyCounter src).bytes ∧
      t.sealing i = some (s.sender, s.sendingKeyCounter) := by
  obtain ⟨c, e, hcurrent, hsub, he, heffect⟩ := take_effect h
  generalize t'.core = c', hr : TunnResult.writeToNetwork packet = r at heffect
  cases heffect with
  | idle cookies r hquiet =>
    rw [isData_of_quiet (hr ▸ hquiet)] at hdata
    cases hdata
  | initiate =>
    rw [TunnResult.writeToNetwork.inj hr, isData_initiation] at hdata
    cases hdata
  | respond =>
    rw [TunnResult.writeToNetwork.inj hr, isData_response] at hdata
    cases hdata
  | send s src hs =>
    have hnone : t.sessionEvent i = none := he.elim Eq.symm And.left
    have hsession : t.formattingSession i = some s := by
      rw [formattingSession_of_none hnone, ← hcurrent]
      exact hsub _ s hs
    obtain rfl := TunnResult.writeToNetwork.inj hr
    exact ⟨s, src, rfl, sealing_eq_some h hsession⟩
  | establish packet s isPrevious temp2 temp3 =>
    have hev := he.resolve_right fun hgave => by cases hgave.2
    obtain rfl := TunnResult.writeToNetwork.inj hr
    exact ⟨_, [], rfl, sealing_eq_some h (formattingSession_of_obtained hev.symm)⟩
  | receive p dstLen s s' ret => exact absurd hr.symm (delivered_ne_writeToNetwork ret packet)
  | stuck | expireSessions | giveUp | rekey => cases hr

/-! ## The tally -/

/-- The sessions in the ring have keys of their own, and count the packets sealed under them. -/
structure Tally (C : Prims) (r : SessionRing) (keys : List (Bytes 32))
    (sealed : List (Bytes 32 × ℕ)) : Prop where
  known : ∀ idx s, r.get idx = some s → s.sender ∈ keys
  distinct : ∀ idx idx' s s', r.get idx = some s → r.get idx' = some s' →
    s.sender = s'.sender → slot idx = slot idx'
  counter : ∀ idx s, r.get idx = some s →
    s.sendingKeyCounter = (numbers sealed s.sender).length % 2 ^ C.usizeBits
  used : ∀ e ∈ sealed, e.1 ∈ keys
  numbered : Numbered (2 ^ C.usizeBits) sealed

namespace Tally

variable {ring ring' : SessionRing} {keys keys' : List (Bytes 32)}
  {sealed sealed' : List (Bytes 32 × ℕ)} {s s' : Session} {idx : ℕ}

theorem empty : Tally C .empty [] [] where
  known idx s hs := by cases hs
  distinct idx idx' s s' hs := by cases hs
  counter idx s hs := by cases hs
  used e he := by cases he
  numbered := .nil

/-- With fewer sessions in the ring. -/
theorem of_sub (h : Tally C ring keys sealed)
    (hsub : ∀ idx s, ring'.get idx = some s → ring.get idx = some s) :
    Tally C ring' keys sealed where
  known idx s hs := h.known idx s (hsub idx s hs)
  distinct idx idx' s s' hs hs' := h.distinct idx idx' s s' (hsub idx s hs) (hsub idx' s' hs')
  counter idx s hs := h.counter idx s (hsub idx s hs)
  used := h.used
  numbered := h.numbered

/-- A session is stored whose key no other slot has; only its key may have more packets. -/
theorem store (h : Tally C ring keys sealed) (hkeys : keys ⊆ keys') (hs : s.sender ∈ keys')
    (hcounter : s.sendingKeyCounter = (numbers sealed' s.sender).length % 2 ^ C.usizeBits)
    (hother : ∀ idx s', ring.get idx = some s' → slot idx ≠ slot s.localIndex →
      s'.sender ≠ s.sender)
    (hnumbers : ∀ key, key ≠ s.sender → numbers sealed' key = numbers sealed key)
    (hused : ∀ e ∈ sealed', e.1 ∈ keys') (hnumbered : Numbered (2 ^ C.usizeBits) sealed') :
    Tally C (ring.store s) keys' sealed' := by
  -- what is in a slot is the session stored, or it was there and has another key
  have hcases : ∀ idx s', (ring.store s).get idx = some s' →
      s' = s ∧ slot idx = slot s.localIndex ∨
        ring.get idx = some s' ∧ s'.sender ≠ s.sender := by
    intro idx s' hs'
    by_cases hslot : slot idx = slot s.localIndex
    · rw [SessionRing.get_store_of_eq hslot] at hs'
      exact Or.inl ⟨(Option.some.inj hs').symm, hslot⟩
    · rw [SessionRing.get_store_of_ne hslot] at hs'
      exact Or.inr ⟨hs', hother idx s' hs' hslot⟩
  refine ⟨fun idx s' hs' => ?_, fun idx idx' s' s'' hs' hs'' heq => ?_, fun idx s' hs' => ?_, hused,
    hnumbered⟩
  · obtain ⟨rfl, -⟩ | ⟨hold, -⟩ := hcases idx s' hs'
    · exact hs
    · exact hkeys (h.known idx s' hold)
  · obtain ⟨rfl, hslot⟩ | ⟨hold, hne⟩ := hcases idx s' hs'
    · obtain ⟨rfl, hslot'⟩ | ⟨-, hne'⟩ := hcases idx' s'' hs''
      · rw [hslot, hslot']
      · exact absurd heq.symm hne'
    · obtain ⟨rfl, -⟩ | ⟨hold', -⟩ := hcases idx' s'' hs''
      · exact absurd heq hne
      · exact h.distinct idx idx' s' s'' hold hold' heq
  · obtain ⟨rfl, -⟩ | ⟨hold, hne⟩ := hcases idx s' hs'
    · exact hcounter
    · rw [hnumbers _ hne]
      exact h.counter idx s' hold

/-- The other slots have other keys than a session in the ring. -/
theorem sender_ne (h : Tally C ring keys sealed) (hs : ring.get idx = some s)
    (hsame : s'.Same s) : ∀ idx' s'', ring.get idx' = some s'' → slot idx' ≠ slot s'.localIndex →
      s''.sender ≠ s'.sender := by
  intro idx' s'' hs'' hslot heq
  rw [hsame.localIndex, SessionRing.slot_localIndex hs] at hslot
  exact hslot (h.distinct idx' idx s'' s hs'' hs (heq.trans hsame.sender))

/-- A data packet is sealed under a session in the ring. -/
theorem send (h : Tally C ring keys sealed) (hs : ring.get idx = some s) :
    Tally C (ring.store (s.bumped C)) keys (sealed ++ [(s.sender, s.sendingKeyCounter)]) := by
  have hcounter := h.counter idx s hs
  have hkey : (s.bumped C).sender = s.sender := rfl
  refine h.store (fun key hkey => hkey) (h.known idx s hs) ?_
    (h.sender_ne hs (Session.same_bumped s)) (fun key hne => ?_) (fun e he => ?_) ?_
  · rw [hkey, numbers_append, numbers_singleton, if_pos rfl, List.length_append,
      List.length_singleton, Session.bumped, hcounter, Nat.mod_add_mod]
  · rw [numbers_append, numbers_singleton, if_neg (fun heq => hne heq.symm), List.append_nil]
  · rcases List.mem_append.mp he with he | he
    · exact h.used e he
    · obtain rfl := List.mem_singleton.mp he
      exact h.known idx s hs
  · rw [hcounter]
    exact h.numbered.append s.sender

/-- A data packet is received under a session in the ring. -/
theorem receive (h : Tally C ring keys sealed) (hs : ring.get idx = some s) (hsame : s'.Same s)
    (hcounter : s'.sendingKeyCounter = s.sendingKeyCounter) :
    Tally C (ring.store s') keys sealed := by
  refine h.store (fun key hkey => hkey) ?_ ?_ (h.sender_ne hs hsame) (fun key hne => rfl) h.used
    h.numbered
  · rw [hsame.sender]
    exact h.known idx s hs
  · rw [hcounter, hsame.sender]
    exact h.counter idx s hs

/-- A session is stored under a new key. -/
theorem establish (h : Tally C ring keys sealed) (hfresh : s.sender ∉ keys)
    (hzero : s.sendingKeyCounter = 0) : Tally C (ring.store s) (keys ++ [s.sender]) sealed := by
  refine h.store (fun key hkey => List.mem_append_left _ hkey)
    (List.mem_append_right _ (List.mem_singleton_self _)) ?_ (fun idx s' hs' _ heq => ?_)
    (fun key hne => rfl) (fun e he => List.mem_append_left _ (h.used e he)) h.numbered
  · have hnone : numbers sealed s.sender = [] :=
      numbers_eq_nil fun e he (heq : e.1 = s.sender) => hfresh (heq ▸ h.used e he)
    rw [hzero, hnone]
    rfl
  · exact hfresh (heq ▸ h.known idx s' hs')

/-- **What an input keeps**, when a session that it establishes has a new key. -/
theorem account {est : Option Session} {sealing : Option (Bytes 32 × ℕ)}
    (h : Tally C ring keys sealed) (haccount : Accounted C ring est sealing ring')
    (hfresh : ∀ s, est = some s → s.sender ∉ keys) :
    Tally C ring' (keys ++ (est.map Session.sender).toList) (sealed ++ sealing.toList) := by
  cases haccount with
  | keep => simpa using h
  | filter p => simpa using h.of_sub fun idx s hs => SessionRing.get_of_get_filter hs
  | clear => simpa using h.of_sub fun idx s hs => by cases hs
  | send hs => simpa using h.send hs
  | receive hs hsame hcounter => simpa using h.receive hs hsame hcounter
  | @respond s hzero => simpa using h.establish (hfresh s rfl) hzero
  | @establish s hzero =>
    -- the session is stored, and then a keepalive is sealed under it
    have hstored := h.establish (hfresh s rfl) hzero
    have hsealed := hstored.send SessionRing.get_store_self
    rw [hzero] at hsealed
    have hring : (ring.store s).store (s.bumped C) = ring.store (s.bumped C) := by
      ext1
      exact Function.update_idem _ _ _
    rwa [hring] at hsealed

end Tally

/-! ## Runs -/

variable {log : List Entry}

/-- **What a run keeps**, when every session established has a new key. -/
theorem tally_of_reaches {t₀ : Tunn C} (h0 : t₀.sessions = .empty)
    (hrun : Machine.Reaches (Machine.logged take entry) (fun _ _ => True) (t₀, []) (t, log))
    (hfresh : (sessionKeys log).Nodup) :
    Tally C t.sessions (sessionKeys log) (sealings log) := by
  refine hrun.invariant (I := fun q : Tunn C × List Entry =>
    (sessionKeys q.2).Nodup → Tally C q.1.sessions (sessionKeys q.2) (sealings q.2)) ?_ ?_ hfresh
  · intro _
    rw [h0]
    exact .empty
  · rintro ⟨t₁, log₁⟩ i ⟨t₂, log₂⟩ r htally - hstep hnodup
    obtain ⟨htake, hlog⟩ := Machine.logged_eq_some.mp hstep
    obtain ⟨ring, hsub, haccount⟩ := take_accounted htake
    have hlog₂ : log₂ = log₁ ++ [⟨t₁.handshakeEvent i, t₁.established i, t₁.sealing i⟩] := hlog
    subst hlog₂
    rw [sessionKeys_append] at hnodup
    rw [sessionKeys_append, sealings_append]
    have hbefore := htally (List.nodup_append.mp hnodup).1
    refine (hbefore.of_sub hsub).account haccount fun s hs hmem => ?_
    have hest : t₁.established i = some s := hs
    rw [hest] at hnodup
    exact (List.nodup_append.mp hnodup).2.2 s.sender hmem s.sender (List.mem_singleton_self _) rfl

/-! ## Different handshakes have different keys -/

theorem messages_of_packetEvent {packet : Packet} {ev : Event} {s : Session}
    (h : t.packetEvent env dstLen packet = some ev) (hev : ev = .answered s ∨ ev = .obtained s) :
    ∃ m, (t.acceptedEvent env dstLen packet).bind messages = some m := by
  cases packet with
  | handshakeInit p =>
    obtain ⟨e, heq⟩ | ⟨timestamp, chainingKey, hash, ha, ⟨-, heq⟩ | ⟨cookies, macs, -, heq⟩⟩ :=
      t.handshake.receiveHandshakeInitialization_cases p env.ephemeralPrivate dstLen
    · rw [packetEvent, heq] at h
      cases h
    · rw [packetEvent, heq] at h
      cases h
    · rw [acceptedEvent, heq, ha.1]
      exact ⟨_, rfl⟩
  | handshakeResponse p =>
    obtain ⟨e, herr⟩ | ⟨s', isPrevious, temp2, temp3, rtt, hawait, -, hok⟩ :=
      Handshake.receiveHandshakeResponse_cases t.handshake p env.rtt
    · rw [packetEvent, herr] at h
      cases h
    · rw [acceptedEvent, hok, hawait]
      exact ⟨_, rfl⟩
  | packetCookieReply p => cases h
  | packetData p =>
    simp only [packetEvent] at h
    split at h
    · cases h
    · split at h
      · cases h
        rcases hev with hev | hev <;> cases hev
      · cases h

/-- A session is established with a pair of messages. -/
theorem messages_of_established {s : Session} (h : t.established i = some s) :
    ∃ m, (t.handshakeEvent i).bind messages = some m := by
  have hevent : ∃ ev, t.sessionEvent i = some ev ∧ (ev = .answered s ∨ ev = .obtained s) := by
    rw [established] at h
    split at h
    · next s' hs' =>
      cases h
      exact ⟨_, hs', Or.inl rfl⟩
    · next s' hs' =>
      cases h
      exact ⟨_, hs', Or.inr rfl⟩
    · cases h
  obtain ⟨ev, hevent, hev⟩ := hevent
  have hreceived : ∃ m, (t.receivedEvent i).bind messages = some m := by
    obtain ⟨env, call | ⟨packet, dstLen⟩⟩ := i
    · cases call with
      | encapsulate | updateTimers | formatHandshakeInitiation => cases hevent
      | setStaticPrivate =>
        cases hevent
        rcases hev with hev | hev <;> cases hev
      | decapsulate srcAddr datagram dstLen =>
        rw [sessionEvent, event] at hevent
        rw [receivedEvent]
        generalize t.rateLimiter.verifyPacket C srcAddr datagram cookieReplySz env.cookie = verified
          at hevent ⊢
        obtain ⟨rateLimiter, result | packet⟩ := verified
        · cases hevent
        · exact messages_of_packetEvent hevent hev
    · exact messages_of_packetEvent hevent hev
  obtain ⟨m, hm⟩ := hreceived
  rw [handshakeEvent]
  rcases hr : t.receivedEvent i with _ | e
  · rw [hr] at hm
    cases hm
  · rw [hr] at hm
    exact ⟨m, hm⟩

/-- The pair of messages that a session comes from, and its sending key. -/
def Entry.derived (e : Entry) :
    Option (((HandshakeInit ⊕ HandshakeInitSentState) × HandshakeResponse) × Bytes 32) :=
  (e.handshake.bind messages).bind fun m => e.established.map fun s => (m, s.sender)

/-- In a run with ideal cryptography different handshakes have different keys. -/
structure IdealKeys (log : List Entry) : Prop where
  handshakes : IdealRun (log.filterMap Entry.handshake)
  keys : ∀ a ∈ log.filterMap Entry.derived, ∀ b ∈ log.filterMap Entry.derived,
    a.2 = b.2 → a.1 = b.1

/-- Every session in the account comes from a pair of messages. -/
theorem derived_of_reaches {t₀ : Tunn C}
    (hrun : Machine.Reaches (Machine.logged take entry) (fun _ _ => True) (t₀, []) (t, log)) :
    ∀ e ∈ log, ∀ s, e.established = some s → ∃ m, e.derived = some (m, s.sender) := by
  refine hrun.invariant (I := fun q : Tunn C × List Entry =>
    ∀ e ∈ q.2, ∀ s, e.established = some s → ∃ m, e.derived = some (m, s.sender)) ?_ ?_
  · intro e he
    cases he
  · rintro ⟨t₁, log₁⟩ i ⟨t₂, log₂⟩ r hall - hstep e he s hs
    obtain ⟨-, hlog⟩ := Machine.logged_eq_some.mp hstep
    have hlog₂ : log₂ = log₁ ++ [⟨t₁.handshakeEvent i, t₁.established i, t₁.sealing i⟩] := hlog
    subst hlog₂
    rcases List.mem_append.mp he with he | he
    · exact hall e he s hs
    · obtain rfl := List.mem_singleton.mp he
      obtain ⟨m, hm⟩ := messages_of_established hs
      have hest : t₁.established i = some s := hs
      refine ⟨m, ?_⟩
      rw [Entry.derived, hm, Option.bind_some, hest]
      rfl

/-- The keys are those of the handshakes. -/
theorem sessionKeys_eq (h : ∀ e ∈ log, ∀ s, e.established = some s →
    ∃ m, e.derived = some (m, s.sender)) :
    sessionKeys log = (log.filterMap Entry.derived).map Prod.snd := by
  rw [sessionKeys, List.map_filterMap]
  refine List.filterMap_congr fun e he => ?_
  rcases hest : e.established with _ | s
  · rw [Entry.derived, hest]
    cases e.handshake.bind messages <;> rfl
  · obtain ⟨m, hm⟩ := h e he s hest
    rw [hm]
    rfl

theorem nodup_derived (h : ((log.filterMap Entry.handshake).filterMap messages).Nodup) :
    ((log.filterMap Entry.derived).map Prod.fst).Nodup := by
  rw [List.filterMap_filterMap, List.Nodup, List.pairwise_filterMap] at h
  rw [List.Nodup, List.pairwise_map, List.pairwise_filterMap]
  refine h.imp fun {e e'} hdiffer a ha a' ha' heq => ?_
  rw [Entry.derived, Option.bind_eq_some_iff] at ha ha'
  obtain ⟨m, hm, hm'⟩ := ha
  obtain ⟨m₁, hm₁, hm₁'⟩ := ha'
  obtain ⟨s, -, rfl⟩ := Option.map_eq_some_iff.mp hm'
  obtain ⟨s₁, -, rfl⟩ := Option.map_eq_some_iff.mp hm₁'
  exact hdiffer m hm m₁ hm₁ heq

/-- **No session key is established twice**, since no handshake message is accepted twice. -/
theorem nodup_sessionKeys (hplain : C.OnePlaintext) {t₀ : Tunn C}
    (hstate : ∀ s, t₀.handshake.state ≠ .initSent s)
    (hprevious : ∀ s, t₀.handshake.previous ≠ .initSent s)
    (hrun : Machine.Reaches (Machine.logged take entry) (fun _ _ => True) (t₀, []) (t, log))
    (hideal : IdealKeys log) : (sessionKeys log).Nodup := by
  have hevent : ∀ (t : Tunn C) i, handshakeEvent t i = (entry t i).bind Entry.handshake :=
    fun _ _ => rfl
  have hhandshakes := hrun.filterMap_log hevent
  obtain ⟨hstamped, hslotted⟩ := stamped_slotted hstate hprevious hhandshakes
    (List.Nodup.of_map _ hideal.handshakes.fresh)
  have hmessages := nodup_messages (hstamped.nodup hplain) (hslotted.nodup hideal.handshakes)
  rw [sessionKeys_eq (derived_of_reaches hrun)]
  have hpairs := nodup_derived hmessages
  refine (List.Nodup.of_map _ hpairs).map_on fun a ha b hb heq => ?_
  exact Prod.ext (hideal.keys a ha b hb heq) heq

/-- **No nonce is used twice, exactly while no key seals more packets than its counter has
values**: the counter wraps around after `2 ^ usizeBits`. -/
theorem nonces_unique_iff (hplain : C.OnePlaintext) {staticPrivate peerStaticPublic : Bytes 32}
    {presharedKey : Option (Bytes 32)} {persistentKeepalive : Option ℕ} {index : UInt32}
    {rateLimiter : Option RateLimiter} {stamper : TimeStamper}
    (hrun : Machine.Reaches (Machine.logged take entry) (fun _ _ => True)
      (Tunn.new C staticPrivate peerStaticPublic presharedKey persistentKeepalive index rateLimiter
        stamper env, []) (t, log)) (hideal : IdealKeys log) :
    (sealings log).Nodup ↔ ∀ key, (numbers (sealings log) key).length ≤ 2 ^ C.usizeBits := by
  have hkeys := nodup_sessionKeys hplain (fun s hs => by cases hs) (fun s hs => by cases hs) hrun
    hideal
  exact (tally_of_reaches rfl hrun hkeys).numbered.nodup_iff (Nat.two_pow_pos _)

/-! ## A run that wraps around -/

/-- One more packet is sent under the session in the current slot. -/
theorem entry_encapsulate (env : Env) (log : List Entry) {s : Session} {src : List UInt8}
    (hs : t.sessions.get t.current = some s) (hd : src.length + dataOverheadSz ≤ dstLen) :
    ∃ t' r, Machine.logged take entry (t, log) (env, .call (.encapsulate src dstLen)) =
        some ((t', log ++ [⟨none, none, some (s.sender, s.sendingKeyCounter)⟩]), r) ∧
      t'.sessions.get t'.current = some (s.bumped C) := by
  obtain ⟨t', hencapsulate, hcore⟩ := encapsulate_session env hs hd
  have htake : t.take (env, .call (.encapsulate src dstLen)) =
      some (t', .writeToNetwork (s.dataPacket C s.sendingKeyCounter src).bytes) := hencapsulate
  have hhandshake : t'.handshake = t.handshake := congrArg Core.handshake hcore
  have hevent : t.handshakeEvent (env, .call (.encapsulate src dstLen)) = none := by
    rw [handshakeEvent, htake]
    exact sentEvent_of_nextIndex (congrArg Handshake.nextIndex hhandshake)
  refine ⟨t', _, Machine.logged_eq_some.mpr ⟨htake, ?_⟩, ?_⟩
  · rw [entry, hevent, sealing_eq_some htake ((formattingSession_of_none rfl).trans hs)]
    rfl
  · have hcurrent : t'.current = t.current := congrArg Core.current hcore
    have hsessions : t'.sessions = t.sessions.store (s.bumped C) := congrArg Core.sessions hcore
    rw [hcurrent, hsessions]
    exact SessionRing.get_store_of_eq (SessionRing.slot_localIndex hs).symm

/-- Any number of packets can be sent under a session, by a run of `encapsulate` alone. -/
theorem reaches_encapsulate (log : List Entry) (env : Env) {s : Session}
    (hs : t.sessions.get t.current = some s) (hd : dataOverheadSz ≤ dstLen) (n : ℕ) :
    ∃ t' s' log', Machine.Reaches (Machine.logged take entry) (fun _ _ => True) (t, log)
        (t', log ++ log') ∧
      t'.sessions.get t'.current = some s' ∧ s'.sender = s.sender ∧
      log'.filterMap Entry.handshake = [] ∧ log'.filterMap Entry.derived = [] ∧
      ∃ counters : List ℕ, counters.length = n ∧ sealings log' = counters.map (s.sender, ·) := by
  induction n with
  | zero => exact ⟨t, s, [], by simpa using .refl, hs, rfl, rfl, rfl, [], rfl, rfl⟩
  | succ n ih =>
    obtain ⟨t₁, s₁, log₁, hreaches, hs₁, hsender, hhandshake, hderived, counters, hlength,
      hsealings⟩ := ih
    have hd' : ([] : List UInt8).length + dataOverheadSz ≤ dstLen := by simpa using hd
    obtain ⟨t₂, r, hstep, hs₂⟩ := entry_encapsulate env (log ++ log₁) hs₁ hd'
    rw [List.append_assoc] at hstep
    refine ⟨t₂, _, _, hreaches.tail trivial hstep, hs₂, hsender, ?_, ?_,
      counters ++ [s₁.sendingKeyCounter], ?_, ?_⟩
    · rw [List.filterMap_append, hhandshake]
      rfl
    · rw [List.filterMap_append, hderived]
      rfl
    · rw [List.length_append, hlength, List.length_singleton]
    · rw [sealings_append, hsealings, Option.toList_some, List.map_append, hsender]
      rfl

/-- The concrete instance with a `usize` of 32 bits. -/
def narrowPrims : Prims := { checksumPrims with usizeBits := 32 }

def narrowTunn (own peer : UInt8) (index : UInt32) : Tunn narrowPrims :=
  Tunn.new narrowPrims (fill 32 own) (narrowPrims.publicKey (fill 32 peer)) none none index none
    ⟨10 ^ 18, 0⟩ (sampleEnv 0 0)

/-- An initiation of a narrow tunnel, and the answer of its peer to what it gets. -/
def startHandshake : Env × Input := (sampleEnv 5 1, .call (.formatHandshakeInitiation 148 false))

def answerOf (result : Option (Tunn narrowPrims × TunnResult)) : Env × Input :=
  match result with
  | some (_, .writeToNetwork initiation) =>
    match (narrowTunn 2 1 2).take
        (sampleEnv 7 2, .call (.decapsulate none initiation 148)) with
    | some (_, .writeToNetwork response) =>
      (sampleEnv 8 3, .call (.decapsulate none response 148))
    | _ => startHandshake
  | _ => startHandshake

/-- A handshake of a narrow tunnel. -/
def handshakeRun : List (Env × Input) :=
  [startHandshake, answerOf ((narrowTunn 1 2 1).take startHandshake)]

/-- The handshake gives a session, under which the keepalive is sealed. -/
theorem reaches_handshakeRun :
    ∃ t s log, Machine.Reaches (Machine.logged take entry) (fun _ _ => True)
        (narrowTunn 1 2 1, []) (t, log) ∧
      t.sessions.get t.current = some s ∧ (sealings log).length = 1 ∧ IdealKeys log := by
  have hrun : (Machine.run (Machine.logged take entry) (narrowTunn 1 2 1, []) handshakeRun).map
      (fun q => ((q.1.1.sessions.get q.1.1.current).isSome, (sealings q.1.2).length,
        decide ((sentStates (q.1.2.filterMap Entry.handshake)).map
          HandshakeInitSentState.hash).Nodup,
        (obtainedResponses (q.1.2.filterMap Entry.handshake)).length,
        (q.1.2.filterMap Entry.derived).length)) = some (true, 1, true, 1, 1) := by
    decide +kernel
  obtain ⟨⟨⟨t, log⟩, results⟩, hrun, heq⟩ := Option.map_eq_some_iff.mp hrun
  simp only [Prod.mk.injEq, decide_eq_true_eq] at heq
  obtain ⟨hsession, hsealings, hfresh, hobtained, hderived⟩ := heq
  obtain ⟨s, hs⟩ := Option.isSome_iff_exists.mp hsession
  refine ⟨t, s, log, Machine.reaches_of_run hrun, hs, hsealings, ⟨hfresh, ?_⟩, ?_⟩
  · intro s₁ s₂ response h₁ h₂
    obtain ⟨x, hx⟩ := List.length_eq_one_iff.mp hobtained
    rw [hx, List.mem_singleton] at h₁ h₂
    rw [(Prod.mk.inj (h₁.trans h₂.symm)).1]
  · intro a ha b hb _
    obtain ⟨x, hx⟩ := List.length_eq_one_iff.mp hderived
    rw [hx, List.mem_singleton] at ha hb
    rw [ha, hb]

theorem onePlaintext_narrowPrims : narrowPrims.OnePlaintext := onePlaintext_checksumPrims

/-- The run goes on under the session for any number of packets. -/
theorem reaches_packets (n : ℕ) :
    ∃ t log key, Machine.Reaches (Machine.logged take entry) (fun _ _ => True)
        (narrowTunn 1 2 1, []) (t, log) ∧ IdealKeys log ∧
      n ≤ (numbers (sealings log) key).length ∧ (sealings log).length = n + 1 := by
  obtain ⟨t, s, log, hreaches, hs, hlog, hideal⟩ := reaches_handshakeRun
  obtain ⟨t', s', log', hmore, -, -, hhandshake, hderived, counters, hlength, hsealings⟩ :=
    reaches_encapsulate log (sampleEnv 0 4) hs le_rfl n
  have happend : sealings (log ++ log') = sealings log ++ counters.map (s.sender, ·) := by
    rw [← hsealings]
    exact List.filterMap_append
  refine ⟨t', log ++ log', s.sender, hreaches.trans hmore, ⟨?_, ?_⟩, ?_, ?_⟩
  · rw [List.filterMap_append, hhandshake, List.append_nil]
    exact hideal.handshakes
  · rw [List.filterMap_append, hderived, List.append_nil]
    exact hideal.keys
  · rw [happend, numbers_append, numbers_map, List.length_append, hlength]
    exact Nat.le_add_left _ _
  · rw [happend, List.length_append, List.length_map, hlog, hlength, Nat.add_comm]

/-- A tunnel that sends a few packets uses no nonce twice. -/
theorem nonces_unique_sample :
    ∃ (t : Tunn narrowPrims) (log : List Entry),
      Machine.Reaches (Machine.logged take entry) (fun _ _ => True) (narrowTunn 1 2 1, [])
        (t, log) ∧ (sealings log).length = 3 ∧ (sealings log).Nodup := by
  obtain ⟨t, log, key, hreaches, hideal, -, hlength⟩ := reaches_packets 2
  have hlimit : 3 ≤ 2 ^ narrowPrims.usizeBits := by decide
  refine ⟨t, log, hreaches, hlength, ?_⟩
  exact (nonces_unique_iff onePlaintext_narrowPrims hreaches hideal).mpr fun key' =>
    length_numbers_le.trans (hlength.le.trans hlimit)

/-- With a `usize` of 32 bits the counter of a session wraps around, and a nonce is used again. -/
theorem nonce_reused :
    ∃ (t : Tunn narrowPrims) (log : List Entry),
      Machine.Reaches (Machine.logged take entry) (fun _ _ => True) (narrowTunn 1 2 1, [])
        (t, log) ∧ IdealKeys log ∧ ¬ (sealings log).Nodup := by
  obtain ⟨t, log, key, hreaches, hideal, hmany, -⟩ := reaches_packets (2 ^ 32 + 1)
  have hkeys := nodup_sessionKeys onePlaintext_narrowPrims (fun s hs => by cases hs)
    (fun s hs => by cases hs) hreaches hideal
  refine ⟨t, log, hreaches, hideal, fun hnodup => ?_⟩
  have hfew := ((tally_of_reaches rfl hreaches hkeys).numbered.nodup_iff
    (Nat.two_pow_pos _)).mp hnodup key
  exact absurd (hmany.trans hfew) (Nat.not_succ_le_self _)

end Tunn

end NekoLink.Noise
