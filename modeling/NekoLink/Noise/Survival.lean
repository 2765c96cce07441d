import NekoLink.Foundations.Link
import NekoLink.Noise.Agreement
import NekoLink.Noise.Channel
import NekoLink.Noise.Confirmation

/-!
# Sessions under lost handshakes

Two tunnels over a network that may drop, duplicate and reorder datagrams. A session on which the
receiver has decrypted a packet stays in its slot of the ring until the receiver stores another
session there, takes it out because it is too old, gives the connection up or changes its key; so
long every packet the sender encapsulates under the other end is decrypted.

* `Holds.reaches`: the session stays.
* `WindowsMatch.reaches`: its window is the one of the counters decrypted under it.
* `session_survives`: the packets are decrypted.
* `evicted_by_lost_responses`: eight retried initiations whose responses are lost are enough to
  take the session's slot.
-/

namespace NekoLink.Noise

open Wire Replay

variable {C : Prims}

/-- A packet that is decrypted adds its counter to the window. -/
theorem Session.receivePacketData_window {s s' : Session} {p : PacketData} {dstLen : ℕ}
    {ret : List UInt8} {seen : Finset ℕ} (hv : s.receivingKeyCounter.Represents seen)
    (h : s.receivePacketData C p dstLen = some (s', .ok ret)) :
    s'.receivingKeyCounter.Represents (insert p.counter seen) := by
  obtain ⟨-, -, -, hmark⟩ := mark_of_receivePacketData h
  -- marking panics on a counter near the end
  have hc : p.counter + nBits < 2 ^ 64 := by
    by_contra hc
    rw [receivingCounterMark, ReceivingKeyCounterValidator.markDidReceive,
      checkedAdd, if_neg hc] at hmark
    cases hmark
  obtain ⟨v, r, hmark', hok, -, hrep⟩ := receivingCounterMark_spec hv hc
  rw [hmark'] at hmark
  cases hmark
  rwa [receive_of_accepts (hok.mp rfl)] at hrep

namespace Tunn

variable {c c' : Core C} {e : Option Event} {log log' : List Event} {t t' : Tunn C}
  {r : TunnResult} {s s' s₀ : Session} {i : Env × Call}

/-! ## Windows -/

/-- What an event does to the counters decrypted in a slot. -/
def heardStep (k : Fin nSessions) (seen : Finset ℕ) : Event → Finset ℕ
  | .answered s => if slot s.localIndex = k then ∅ else seen
  | .obtained s => if slot s.localIndex = k then ∅ else seen
  | .decrypted s counter => if slot s.localIndex = k then insert counter seen else seen
  | _ => seen

/-- The counters decrypted in a slot since a session was last stored there. -/
def heard (k : Fin nSessions) (log : List Event) : Finset ℕ := log.foldl (heardStep k) ∅

theorem heard_append_singleton (k : Fin nSessions) (log : List Event) (ev : Event) :
    heard k (log ++ [ev]) = heardStep k (heard k log) ev := by
  rw [heard, List.foldl_append]
  rfl

/-- Every session's window is the one of the counters decrypted in its slot. -/
def WindowsMatch (log : List Event) (c : Core C) : Prop :=
  ∀ idx s, c.sessions.get idx = some s → s.receivingKeyCounter.Represents (heard (slot idx) log)

/-- A session that is stored: its window is right, and the other slots keep theirs. -/
theorem WindowsMatch.store (h : WindowsMatch log c)
    (hself : s.receivingKeyCounter.Represents (heard (slot s.localIndex) log'))
    (hother : ∀ k, slot s.localIndex ≠ k → heard k log' = heard k log)
    (hsessions : c'.sessions = c.sessions.store s) : WindowsMatch log' c' := by
  intro idx s' hs'
  rw [hsessions] at hs'
  by_cases hslot : slot idx = slot s.localIndex
  · rw [SessionRing.get_store_of_eq hslot] at hs'
    cases hs'
    rwa [hslot]
  · rw [SessionRing.get_store_of_ne hslot] at hs'
    rw [hother _ (Ne.symm hslot)]
    exact h idx s' hs'

/-- **What an effect keeps.** -/
theorem WindowsMatch.effect (h : WindowsMatch log c) (heffect : Effect c e c' r) :
    WindowsMatch (log ++ e.toList) c' := by
  cases heffect with
  | idle | initiate | stuck =>
    simp only [Option.toList_none, List.append_nil]
    exact h
  | send s src hs =>
    simp only [Option.toList_none, List.append_nil]
    refine h.store (s := s.bumped C) ?_ (fun _ _ => rfl) rfl
    have hrep := h _ s hs
    rwa [← SessionRing.slot_localIndex hs] at hrep
  | respond packet timestamp chainingKey hash ephemeralPrivate =>
    simp only [Option.toList_some]
    refine h.store ?_ (fun k hk => ?_) rfl
    · rw [heard_append_singleton, heardStep, if_pos rfl]
      exact ReceivingKeyCounterValidator.represents_default
    · rw [heard_append_singleton, heardStep, if_neg hk]
  | establish packet s isPrevious temp2 temp3 =>
    simp only [Option.toList_some]
    have hempty : heard (slot s.localIndex.toNat)
        (log ++ [.obtained (Session.new s.localIndex packet.senderIdx temp3 temp2)]) = ∅ :=
      (heard_append_singleton ..).trans (if_pos rfl)
    refine h.store ?_ (fun k hk => ?_) rfl
    · show ReceivingKeyCounterValidator.default.Represents (heard (slot s.localIndex.toNat) _)
      rw [hempty]
      exact ReceivingKeyCounterValidator.represents_default
    · exact (heard_append_singleton ..).trans (if_neg hk)
  | receive p dstLen s s' ret current hs hreceive =>
    obtain ⟨-, hsame⟩ := Session.receivePacketData_ok hreceive
    simp only [Option.toList_some]
    refine h.store (s := s') ?_ (fun k hk => ?_) rfl
    · rw [heard_append_singleton, heardStep, hsame.localIndex, if_pos rfl,
        SessionRing.slot_localIndex hs]
      exact Session.receivePacketData_window (h _ s hs) hreceive
    · rw [heard_append_singleton, heardStep, ← hsame.localIndex, if_neg hk]
  | expireSessions =>
    intro idx s hs
    rw [Option.toList_some, heard_append_singleton]
    exact h idx s (SessionRing.get_of_get_filter hs)
  | giveUp | rekey => exact fun idx s hs => by cases hs

theorem WindowsMatch.step (h : WindowsMatch log t.core) (hstep : t.step i = some (t', r)) :
    WindowsMatch (log ++ (t.event i).toList) t'.core := by
  obtain ⟨c, e, hc, he, heffect⟩ := step_effect hstep
  have hmatch : WindowsMatch log c := fun idx s hs => h idx s ((expiry_spec hc).2 idx s hs)
  rcases he with rfl | ⟨-, rfl⟩
  · exact hmatch.effect heffect
  · intro idx s hs
    rw [heffect.of_gaveUp.1] at hs
    cases hs

/-- **What a run keeps.** -/
theorem WindowsMatch.reaches {t₀ : Tunn C} {Q : Tunn C × List Event → Env × Call → Prop}
    (h₀ : WindowsMatch log t₀.core)
    (h : Machine.Reaches (Machine.logged Tunn.step event) Q (t₀, log) (t, log')) :
    WindowsMatch log' t.core := by
  refine h.invariant (I := fun q => WindowsMatch q.2 q.1.core) h₀ ?_
  rintro ⟨t₁, log₁⟩ i ⟨t₂, log₂⟩ r h₁ - hstep
  obtain ⟨hstep, rfl⟩ := Machine.logged_eq_some.mp hstep
  exact h₁.step hstep

/-! ## Slots -/

/-- The session is in its slot, whatever its counters. -/
def Holds (s₀ : Session) (c : Core C) : Prop :=
  ∃ s, c.sessions.get s₀.localIndex = some s ∧ s.Same s₀

/-- A session is stored in another slot, or it is the one held. -/
theorem Holds.store (h : Holds s₀ c) (hsame : slot s.localIndex = slot s₀.localIndex → s.Same s₀)
    (hsessions : c'.sessions = c.sessions.store s) : Holds s₀ c' := by
  obtain ⟨s₁, hs₁, hsame₁⟩ := h
  by_cases hslot : slot s.localIndex = slot s₀.localIndex
  · refine ⟨s, ?_, hsame hslot⟩
    rw [hsessions]
    exact SessionRing.get_store_of_eq hslot.symm
  · refine ⟨s₁, ?_, hsame₁⟩
    rw [hsessions, SessionRing.get_store_of_ne (Ne.symm hslot)]
    exact hs₁

/-- What is read from the slot is the session held. -/
theorem Holds.same_of_get {idx : ℕ} (h : Holds s₀ c) (hs : c.sessions.get idx = some s)
    (hslot : slot idx = slot s₀.localIndex) : s.Same s₀ := by
  obtain ⟨s₁, hs₁, hsame₁⟩ := h
  rw [SessionRing.get, ← hslot] at hs₁
  obtain rfl : s = s₁ := Option.some.inj (hs.symm.trans hs₁)
  exact hsame₁

/-- **What an effect keeps**, unless it is one that frees the slot. -/
theorem Holds.effect (h : Holds s₀ c) (heffect : Effect c e c' r)
    (hanswered : ∀ s, e = some (.answered s) → slot s.localIndex ≠ slot s₀.localIndex)
    (hobtained : ∀ s, e = some (.obtained s) → slot s.localIndex ≠ slot s₀.localIndex)
    (hexpired : ∀ now, e = some (.expired now) →
      now - c.sessionTimers (slot s₀.localIndex) ≤ rejectAfterTime)
    (hgaveUp : e ≠ some .gaveUp) (hrekeyed : e ≠ some .rekeyed) : Holds s₀ c' := by
  cases heffect with
  | idle | initiate | stuck => exact h
  | send s src hs =>
    exact h.store (s := s.bumped C) (fun hslot => s.same_bumped.trans
      (h.same_of_get hs ((SessionRing.slot_localIndex hs).symm.trans hslot))) rfl
  | respond => exact h.store (fun hslot => absurd hslot (hanswered _ rfl)) rfl
  | establish packet s isPrevious temp2 temp3 =>
    have hne := hobtained _ rfl
    exact h.store (s := (Session.new s.localIndex packet.senderIdx temp3 temp2).bumped C)
      (fun hslot => absurd hslot hne) rfl
  | receive p dstLen s s' ret current hs hreceive =>
    obtain ⟨-, hsame⟩ := Session.receivePacketData_ok hreceive
    refine h.store (fun hslot => hsame.trans (h.same_of_get hs ?_)) rfl
    rw [← SessionRing.slot_localIndex hs, ← hsame.localIndex, hslot]
  | expireSessions now =>
    obtain ⟨s, hs, hsame⟩ := h
    refine ⟨s, ?_, hsame⟩
    have hyoung := hexpired now rfl
    rw [SessionRing.get_filter, if_pos (by simpa using hyoung)]
    exact hs
  | giveUp => exact absurd rfl hgaveUp
  | rekey => exact absurd rfl hrekeyed

/-- The call leaves the slot of an index alone: it stores no session there, the session there is
not too old, and neither is the connection given up nor the key replaced. -/
structure Keeps (idx : ℕ) (t : Tunn C) (i : Env × Call) : Prop where
  answers : Spares idx t i
  obtains : ∀ s, t.event i = some (.obtained s) → slot s.localIndex ≠ slot idx
  young : ∀ env dstLen, i = (env, .updateTimers dstLen) →
    env.time - t.timers.timeStarted - t.timers.sessionTimers (slot idx) ≤ rejectAfterTime
  not_given_up : ∀ t', t.step i ≠ some (t', .err .connectionExpired)
  not_rekeyed : t.event i ≠ some .rekeyed

theorem Holds.step (h : Holds s₀ t.core) (hkeeps : Keeps s₀.localIndex t i)
    (hstep : t.step i = some (t', r)) : Holds s₀ t'.core := by
  obtain ⟨c, e, hc, he, heffect⟩ := step_effect hstep
  have hholds : Holds s₀ c := by
    rcases hc with rfl | ⟨env, dstLen, hi, hexpire⟩
    · exact h
    · refine h.effect hexpire ?_ ?_ ?_ ?_ ?_ <;> try rintro _ ⟨⟩
      · exact hkeeps.young env dstLen hi
      · rintro ⟨⟩
      · rintro ⟨⟩
  rcases he with rfl | ⟨-, rfl⟩
  · refine hholds.effect heffect (fun s hs => ?_) hkeeps.obtains ?_ ?_ hkeeps.not_rekeyed
    · obtain ⟨hanswers, hindex⟩ := answers_of_event hs
      rw [hindex]
      exact hkeeps.answers hanswers
    · exact fun now hev => (event_isOfCall hev).elim
    · exact fun hev => (event_isOfCall hev).elim
  · rw [heffect.of_gaveUp.2] at hstep
    exact absurd hstep (hkeeps.not_given_up t')

/-- **What a run keeps**, if no call of it frees the slot. -/
theorem Holds.reaches {t₀ : Tunn C} (h₀ : Holds s₀ t₀.core)
    (h : Machine.Reaches (Machine.logged Tunn.step event) (fun q i => Keeps s₀.localIndex q.1 i)
      (t₀, log) (t, log')) : Holds s₀ t.core := by
  refine h.invariant (I := fun q => Holds s₀ q.1.core) h₀ ?_
  rintro ⟨t₁, log₁⟩ i ⟨t₂, log₂⟩ r h₁ hkeeps hstep
  exact h₁.step hkeeps (Machine.logged_eq_some.mp hstep).1

/-! ## Two tunnels -/

/-- A tunnel on a network: datagrams come from the other side only, and an empty one is the
owner's own way to ask for the queue. -/
def party (C : Prims) :
    Machine.Party (Tunn C) (Env × Call) TunnResult (Env × Option IpAddr × ℕ) (List UInt8) where
  step := Tunn.step
  own
    | (_, .decapsulate _ datagram _) => datagram = []
    | _ => true
  deliver | (env, srcAddr, dstLen), datagram => (env, .decapsulate srcAddr datagram dstLen)
  messages r := datagrams [r]

/-- Just made. -/
def IsNew (t : Tunn C) : Prop :=
  ∃ staticPrivate peerStaticPublic presharedKey persistentKeepalive index rateLimiter stamper env,
    t = Tunn.new C staticPrivate peerStaticPublic presharedKey persistentKeepalive index rateLimiter
      stamper env

theorem IsNew.windowsMatch (h : IsNew t) : WindowsMatch [] t.core := by
  obtain ⟨_, _, _, _, _, _, _, _, rfl⟩ := h
  exact fun idx s hs => by cases hs

/-- The other end of a session is held in the slot of its sending index. -/
theorem Holds.get_crossed {sA : Session} (h : Holds s₀ t.core) (hcrossed : Crossed sA s₀) :
    ∃ s, t.sessions.get sA.sendingIndex.toNat = some s ∧ s.Same s₀ ∧ Crossed sA s := by
  obtain ⟨s, hs, hsame⟩ := h
  refine ⟨s, ?_, hsame, ?_⟩
  · rw [hcrossed.sendingIndex_eq]
    exact hs
  · exact ⟨hcrossed.sender_eq.trans hsame.receiver.symm,
      hcrossed.receiver_eq.trans hsame.sender.symm,
      hcrossed.sendingIndex_eq.trans hsame.receivingIndex.symm,
      hcrossed.receivingIndex_eq.trans hsame.sendingIndex.symm⟩

/-- A session on which a packet has just been decrypted is in its slot. -/
theorem holds_of_decrypted {n : ℕ} (hevent : t.event i = some (.decrypted s n))
    (hstep : t.step i = some (t', r)) : Holds s t'.core := by
  obtain ⟨c, e, -, he, heffect⟩ := step_effect hstep
  rw [hevent] at he
  rcases he with rfl | ⟨hnone, -⟩
  · generalize t'.core = c' at heffect
    cases heffect with
    | receive p dstLen s s' ret current hs hreceive =>
      obtain ⟨-, hsame⟩ := Session.receivePacketData_ok hreceive
      refine ⟨s', ?_, hsame⟩
      rw [← hsame.localIndex]
      exact SessionRing.get_store_self
  · cases hnone

/-- The datagram that a tunnel encapsulates under its current session. -/
theorem encapsulate_eq_dataPacket {src datagram : List UInt8} {env : Env} {dstLen : ℕ}
    (hs : t.sessions.get t.current = some s)
    (h : t.encapsulate env src dstLen = some (t', .writeToNetwork datagram)) :
    datagram = (s.dataPacket C s.sendingKeyCounter src).bytes := by
  rw [encapsulate, hs] at h
  obtain ⟨⟨s', datagram'⟩, hformat, heq⟩ := Option.map_eq_some_iff.mp h
  obtain ⟨-, rfl⟩ := Session.formatPacketData_eq_some hformat
  cases heq
  rfl

/-- A run of two tunnels on a network, with the log of the second one. -/
abbrev Runs (Q : Tunn C → Env × Call → Prop) :
    Machine.Link (Tunn C) (List UInt8) × List Event →
      Machine.Link (Tunn C) (List UInt8) × List Event → Prop :=
  Machine.Reaches (Machine.logged (party C).move ((party C).eventB event))
    (fun q i => (party C).guardB Q q.1 i)

variable {l₀ l₁ l₂ l₃ l₃' l₄ : Machine.Link (Tunn C) (List UInt8)}
  {log₁ log₂ log₃ log₄ : List Event}

/-- **A live session survives.** Two new tunnels run over the network, and at some point `b` decrypts
a packet on a session `sB`. From then on the session stays in its slot, until a call of `b` frees it.
A packet that `a` encapsulates under the other end is decrypted whenever it arrives, if its counter
is new to `b` and inside the window, and is refused for its counter otherwise. -/
theorem session_survives [C.Lawful] {m : Machine.Move (Env × Call) (Env × Option IpAddr × ℕ)}
    {n dstLen : ℕ} {r₁ : TunnResult} {sA sB : Session} {env : Env} {src d : List UInt8}
    (hb : IsNew l₀.b)
    (hreach : Runs (fun _ _ => True) (l₀, []) (l₁, log₁))
    (hdecrypted : (party C).eventB event l₁ (.b, m) = some (.decrypted sB n))
    (hmove : (party C).move l₁ (.b, m) = some (l₂, r₁))
    (hkeeps : Runs (Keeps sB.localIndex) (l₂, log₁ ++ [.decrypted sB n]) (l₃, log₃))
    (hsA : l₃.a.sessions.get l₃.a.current = some sA) (hcrossed : Crossed sA sB)
    (hsend : (party C).move l₃ (.a, .call (env, .encapsulate src dstLen)) =
      some (l₃', .writeToNetwork d))
    (hkeeps' : Runs (Keeps sB.localIndex) (l₃', log₃) (l₄, log₄)) :
    ∃ sB', l₄.b.sessions.get sA.sendingIndex.toNat = some sB' ∧ sB'.Same sB ∧
      sB'.receivingKeyCounter.Represents (heard (slot sB.localIndex) log₄) ∧
      ∀ (env' : Env) srcAddr dstLen', sA.sendingKeyCounter + nBits < 2 ^ 64 → d.length ≤ dstLen' →
        (accepts nBits (heard (slot sB.localIndex) log₄) sA.sendingKeyCounter →
          ∃ b', l₄.b.decapsulate env' srcAddr d dstLen' = some (b', delivered src)) ∧
        (¬ accepts nBits (heard (slot sB.localIndex) log₄) sA.sendingKeyCounter →
          ∃ e, (e = .invalidCounter ∨ e = .duplicateCounter) ∧
            l₄.b.decapsulate env' srcAddr d dstLen' = some (l₄.b, .err e)) := by
  -- the second tunnel's part of the run
  obtain ⟨i, hi, hstep⟩ := Machine.Party.move_b hmove
  have hevent : l₁.b.event i = some (.decrypted sB n) := by
    rw [Machine.Party.eventB, hi, Option.bind_some] at hdecrypted
    exact hdecrypted
  obtain ⟨i', hi', hsend', hsend_b⟩ := Machine.Party.move_a hsend
  have hrun₁ := Machine.Party.reaches_b hreach
  have hrun₃ := Machine.Party.reaches_b hkeeps
  have hrun₄ := Machine.Party.reaches_b hkeeps'
  dsimp only at hrun₁ hrun₃ hrun₄
  rw [hsend_b] at hrun₄
  -- the session stays in its slot
  have hholds : Holds sB l₄.b.core :=
    ((holds_of_decrypted hevent hstep).reaches hrun₃).reaches hrun₄
  -- and its window is the one of the counters decrypted there
  have hmatch₂ : WindowsMatch (log₁ ++ [.decrypted sB n]) l₂.b.core := by
    have h := (hb.windowsMatch.reaches hrun₁).step hstep
    rwa [hevent] at h
  have hmatch : WindowsMatch log₄ l₄.b.core := (hmatch₂.reaches hrun₃).reaches hrun₄
  obtain ⟨s, hs, hsame, hcrossed'⟩ := hholds.get_crossed hcrossed
  have hv := hmatch _ s hs
  rw [← SessionRing.slot_localIndex hs, hsame.localIndex] at hv
  refine ⟨s, hs, hsame, hv, fun env' srcAddr dstLen' hc hroom => ?_⟩
  cases hi'
  obtain rfl := encapsulate_eq_dataPacket hsA hsend'
  obtain ⟨haccept, hrefuse⟩ := decapsulate_dataPacket env' srcAddr hs hcrossed'.sender_eq
    hcrossed'.sendingIndex_eq hv hc hroom
  refine ⟨fun hacc => ?_, hrefuse⟩
  obtain ⟨b', w, hdecapsulate, -⟩ := haccept hacc
  exact ⟨b', hdecapsulate⟩

/-! ## Concrete runs -/

/-- A call of the concrete instance at some second. -/
def callAt (secs : ℕ) (c : Call) : Machine.Move (Env × Call) (Env × Option IpAddr × ℕ) :=
  .call (sampleEnv 5 (fromSecs secs), c)

/-- The delivery of the other side's `n`-th datagram at some second. -/
def deliverAt (secs n : ℕ) : Machine.Move (Env × Call) (Env × Option IpAddr × ℕ) :=
  .deliver (sampleEnv 7 (fromSecs secs), none, 148) n

/-- Two new tunnels of the concrete instance. -/
def newLink : Machine.Link (Tunn checksumPrims) (List UInt8) :=
  ⟨sampleTunn 1 2 1, sampleTunn 2 1 2, [], []⟩

/-- A handshake; the last move hands the keepalive that answers the response to the responder. -/
def handshakeMoves : List (Machine.Side × Machine.Move (Env × Call) (Env × Option IpAddr × ℕ)) :=
  [(.a, callAt 1 (.formatHandshakeInitiation 148 false)), (.b, deliverAt 1 0),
    (.a, deliverAt 1 0), (.b, deliverAt 1 1)]

/-- A packet is sent in the second after, the session comes of age, and from then on every initiation
of the timers arrives and every response is lost; then one more packet is sent and delivered. -/
def lossyMoves : List (Machine.Side × Machine.Move (Env × Call) (Env × Option IpAddr × ℕ)) :=
  [(.a, callAt 2 (.updateTimers 148)), (.a, callAt 2 (.encapsulate [0x45] 148))] ++
  (List.range 8).flatMap (fun k =>
    [(.a, callAt (125 + 5 * k) (.updateTimers 148)), (.b, deliverAt (125 + 5 * k) (3 + k))]) ++
  [(.a, callAt 161 (.encapsulate [0x45] 148)), (.b, deliverAt 161 11)]

/-- A run of the concrete pair. -/
def runLink (moves : List (Machine.Side × Machine.Move (Env × Call) (Env × Option IpAddr × ℕ))) :
    Option ((Machine.Link (Tunn checksumPrims) (List UInt8) × List Event) × List TunnResult) :=
  Machine.run (Machine.logged (party checksumPrims).move ((party checksumPrims).eventB event))
    (newLink, []) moves

/-- The session under which a packet is decrypted. -/
def Event.decryptedUnder : Event → Option Session
  | .decrypted s _ => some s
  | _ => none

theorem Event.decryptedUnder_eq_some {ev : Event} (h : ev.decryptedUnder = some s) :
    ∃ n, ev = .decrypted s n := by
  cases ev with
  | decrypted s n =>
    cases h
    exact ⟨n, rfl⟩
  | answered | obtained | expired | gaveUp | rekeyed => cases h

/-- The retry of an initiation is answered after the handshake, and a packet sent then still
arrives. -/
theorem session_survives_sample :
    ∃ (l : Machine.Link (Tunn checksumPrims) (List UInt8)) (d : List UInt8) (b' : Tunn checksumPrims),
      l.sentA.length = 4 ∧ l.sentA[3]? = some d ∧
      l.b.decapsulate (sampleEnv 7 (fromSecs 8)) none d 148 =
        some (b', .writeToTunnelV4 samplePacket ⟨[10, 0, 0, 1], rfl⟩) := by
  let P := party checksumPrims
  have hruns : ((runLink (handshakeMoves.take 3)).bind fun q₁ =>
      (P.eventB event q₁.1.1 (.b, deliverAt 1 1)).bind fun dec => dec.decryptedUnder.bind fun sB =>
      (P.move q₁.1.1 (.b, deliverAt 1 1)).bind fun q₂ =>
      (P.move q₂.1 (.a, callAt 6 (.formatHandshakeInitiation 148 true))).bind fun q₃ =>
      (P.eventB event q₃.1 (.b, deliverAt 6 2)).bind fun ev =>
      (P.move q₃.1 (.b, deliverAt 6 2)).bind fun q₄ =>
      (q₄.1.a.sessions.get q₄.1.a.current).bind fun sA =>
      (P.move q₄.1 (.a, callAt 7 (.encapsulate samplePacket 148))).bind fun q₅ =>
      (q₅.1.sentA[3]?).map fun d =>
        decide (slot (Handshake.incIndex q₃.1.b.handshake.nextIndex).toNat ≠ slot sB.localIndex ∧
          ev.isAnswered = true ∧ q₄.2 ≠ .err .connectionExpired ∧ Crossed sA sB ∧
          sA.sendingKeyCounter = 1 ∧ heard (slot sB.localIndex) (q₁.1.2 ++ [dec] ++ [ev]) = {0} ∧
          q₅.2 = .writeToNetwork d ∧ d.length = 52 ∧ q₅.1.sentA.length = 4)) =
      some true := by decide +kernel
  obtain ⟨⟨⟨l₁, log₁⟩, rs⟩, hrun, h⟩ := Option.bind_eq_some_iff.mp hruns
  obtain ⟨dec, hdec, h⟩ := Option.bind_eq_some_iff.mp h
  obtain ⟨sB, hsB, h⟩ := Option.bind_eq_some_iff.mp h
  obtain ⟨⟨l₂, r₂⟩, h₂, h⟩ := Option.bind_eq_some_iff.mp h
  obtain ⟨⟨l₃, r₃⟩, h₃, h⟩ := Option.bind_eq_some_iff.mp h
  obtain ⟨ev, hev, h⟩ := Option.bind_eq_some_iff.mp h
  obtain ⟨⟨l₄, r₄⟩, h₄, h⟩ := Option.bind_eq_some_iff.mp h
  obtain ⟨sA, hsA, h⟩ := Option.bind_eq_some_iff.mp h
  obtain ⟨⟨l₅, r₅⟩, h₅, h⟩ := Option.bind_eq_some_iff.mp h
  obtain ⟨d, hd, h⟩ := Option.map_eq_some_iff.mp h
  obtain ⟨hslot, hanswered, hnot, hcrossed, hcounter, hheard, rfl, hlength, hcount⟩ :=
    of_decide_eq_true h
  obtain ⟨n, rfl⟩ := Event.decryptedUnder_eq_some hsB
  have hreach : Runs (fun _ _ => True) (newLink, []) (l₁, log₁) :=
    (Machine.reaches_of_run hrun).mono fun q i _ => Machine.Party.guardB_true q.1 i
  -- the retry that is answered keeps the slot
  have hguard : P.guardB (Keeps sB.localIndex) l₃ (.b, deliverAt 6 2) := by
    intro i hi
    have hevent : l₃.b.event i = some ev := by
      rw [Machine.Party.eventB, hi, Option.bind_some] at hev
      exact hev
    obtain ⟨i', hi', hstep⟩ := Machine.Party.move_b h₄
    obtain rfl : i = i' := Option.some.inj (hi.symm.trans hi')
    obtain ⟨datagram, -, rfl⟩ := Option.map_eq_some_iff.mp hi
    refine ⟨fun _ => hslot, fun s hs => ?_, ?_, fun t' ht' => ?_, fun hs => ?_⟩
    · cases hevent.symm.trans hs
      cases hanswered
    · rintro _ _ ⟨⟩
    · cases hstep.symm.trans ht'
      exact hnot rfl
    · cases hevent.symm.trans hs
      cases hanswered
  have hkeeps₃ : Runs (Keeps sB.localIndex) (l₂, log₁ ++ [.decrypted sB n])
      (l₃, log₁ ++ [.decrypted sB n]) :=
    Machine.Reaches.refl.tail (i := (.a, _)) trivial
      (Machine.logged_eq_some.mpr ⟨h₃, (List.append_nil _).symm⟩)
  have hkeeps₄ : Runs (Keeps sB.localIndex) (l₂, log₁ ++ [.decrypted sB n])
      (l₄, log₁ ++ [.decrypted sB n] ++ [ev]) :=
    hkeeps₃.tail hguard (Machine.logged_eq_some.mpr ⟨h₄, by rw [hev]; rfl⟩)
  obtain ⟨-, -, -, -, hall⟩ := session_survives ⟨_, _, _, _, _, _, _, _, rfl⟩ hreach hdec h₂ hkeeps₄
    hsA hcrossed h₅ .refl
  rw [hheard, hcounter] at hall
  obtain ⟨b', hb'⟩ := (hall (sampleEnv 7 (fromSecs 8)) none 148 (by decide)
    (by rw [hlength]; decide)).1 (by decide)
  exact ⟨l₅, d, b', hcount, hd, hb'⟩

/-- The packet is refused although the sender's session is young, no newer handshake has been
completed, and a packet has been decrypted on the other end. -/
theorem evicted_by_lost_responses :
    ∃ l log rs sA sB, runLink (handshakeMoves ++ lossyMoves) = some ((l, log), rs) ∧
      (∃ n, .decrypted sB n ∈ log) ∧ l.a.sessions.get l.a.current = some sA ∧ Crossed sA sB ∧
      fromSecs 161 - l.a.timers.sessionTimers (slot l.a.current) ≤ rejectAfterTime ∧
      rs.getLast? = some (.err .wrongIndex) := by
  have hruns : (runLink (handshakeMoves ++ lossyMoves)).map (fun q =>
      ((q.1.1.a.sessions.get q.1.1.a.current).bind fun sA =>
        (q.1.2.findSome? Event.decryptedUnder).map fun sB => decide (Crossed sA sB),
        decide (fromSecs 161 - q.1.1.a.timers.sessionTimers (slot q.1.1.a.current) ≤
          rejectAfterTime),
        q.2.getLast?)) = some (some true, true, some (.err .wrongIndex)) := by decide +kernel
  obtain ⟨⟨⟨l, log⟩, rs⟩, hrun, heq⟩ := Option.map_eq_some_iff.mp hruns
  obtain ⟨hcrossed, hyoung, hlast⟩ : _ ∧ _ ∧ _ := by simpa only [Prod.mk.injEq] using heq
  obtain ⟨sA, hsA, hrest⟩ := Option.bind_eq_some_iff.mp hcrossed
  obtain ⟨sB, hsB, hdec⟩ := Option.map_eq_some_iff.mp hrest
  refine ⟨l, log, rs, sA, sB, hrun, ?_, hsA, of_decide_eq_true hdec, of_decide_eq_true hyoung, hlast⟩
  obtain ⟨ev, hmem, hev⟩ := List.exists_of_findSome?_eq_some hsB
  obtain ⟨n, rfl⟩ := Event.decryptedUnder_eq_some hev
  exact ⟨n, hmem⟩

end Tunn

end NekoLink.Noise
