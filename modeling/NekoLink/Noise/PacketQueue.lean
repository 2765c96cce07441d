import NekoLink.Foundations.Fifo
import NekoLink.Noise.Rejection

/-!
# The queue of a tunnel

Packets that arrive while there is no session wait in `packet_queue`. A repeated call of
`decapsulate` takes the first one out and gives it to `encapsulate`, which puts it back at the end
when there still is no session.

* `packetQueue_step`: each call is at most one event of a queue of bounded length, if it is orderly.
* `inOrder_iff_orderly`: and only then.
* `packet_queue_fifo`: **in runs of orderly calls the packets leave in the order in which they
  arrived**, each once, and none is lost.
-/

namespace NekoLink.Noise

open Wire

namespace Tunn

section

variable {C : Prims}

/-- The current session. -/
def session (t : Tunn C) : Option Session := t.sessions.get t.current

/-- What a call means to the queue. The packet of a keepalive is empty, and `update_timers` clears
the queue when the connection expires. -/
def queueEvent (t t' : Tunn C) (r : TunnResult) : Call → Option (Fifo.Event (List UInt8))
  | .encapsulate src _ => if t.session.isNone then some (.arrive src) else none
  | .decapsulate _ datagram _ =>
    if datagram = [] ∧ t.session.isSome then some .depart else none
  | .updateTimers _ =>
    if t'.packetQueue = [] ∧ r = .err .connectionExpired then some .clear
    else if t'.packetQueue ≠ t.packetQueue then some (.arrive [])
    else none
  | .formatHandshakeInitiation _ _ => none
  | .setStaticPrivate _ _ _ => none

/-- A tunnel with the history of its queue. -/
abbrev Queued (C : Prims) := Tunn C × Fifo.History (List UInt8)

/-- One call and its result. -/
def queuedStep (q : Queued C) (i : Env × Call) : Option (Queued C × TunnResult) :=
  (q.1.step i).map fun r =>
    ((r.1, (queueEvent q.1 r.1 r.2 i.2).elim q.2 (q.2.next maxQueueDepth q.1.packetQueue)), r.2)

/-- A repeated call without a session finds no two different packets in the queue, and it can send
an initiation if it has to: the buffer is large enough, or a handshake is in progress. (With a full
queue an error puts no packet back.) -/
def Orderly (t : Tunn C) : Call → Prop
  | .decapsulate _ [] dstLen =>
    t.session.isSome = true ∨ t.packetQueue = [] ∨
      t.packetQueue.rotate 1 = t.packetQueue ∧
        (t.handshake.isInProgress = true ∨ handshakeInitSz ≤ dstLen ∨
          t.packetQueue.length = maxQueueDepth)
  | _ => True

instance (t : Tunn C) (call : Call) : Decidable (t.Orderly call) := by
  unfold Orderly
  split <;> infer_instance

variable {t t' : Tunn C} {r : TunnResult} {env : Env} {dstLen : ℕ}

theorem orderly_nil {srcAddr : Option IpAddr} :
    t.Orderly (.decapsulate srcAddr [] dstLen) ↔
      t.session.isSome = true ∨ t.packetQueue = [] ∨
        t.packetQueue.rotate 1 = t.packetQueue ∧
          (t.handshake.isInProgress = true ∨ handshakeInitSz ≤ dstLen ∨
            t.packetQueue.length = maxQueueDepth) := Iff.rfl

/-! ## The operations -/

theorem packetQueue_queuePacket (packet : List UInt8) :
    (t.queuePacket packet).packetQueue =
      Fifo.next maxQueueDepth t.packetQueue (.arrive packet) := by
  unfold queuePacket Fifo.next
  dsimp only
  split_ifs <;> rfl

/-- An initiation leaves the queue alone, and fails only for want of room. -/
theorem packetQueue_formatHandshakeInitiation (t : Tunn C) (env : Env) (dstLen : ℕ) (force : Bool) :
    (t.formatHandshakeInitiation env dstLen force).1.packetQueue = t.packetQueue ∧
      ((∃ e, (t.formatHandshakeInitiation env dstLen force).2 = .err e) ↔
        (t.handshake.isInProgress && !force) = false ∧ dstLen < handshakeInitSz) := by
  obtain ⟨hskip, heq⟩ | ⟨hsend, ⟨hd, heq⟩ | ⟨handshake, packet, hd, -, heq⟩⟩ :=
    t.formatHandshakeInitiation_spec env dstLen force
  · rw [heq, hskip]
    exact ⟨rfl, by simp⟩
  · rw [heq]
    exact ⟨packetQueue_restarted t env, fun _ => ⟨hsend, hd⟩, fun _ => ⟨_, rfl⟩⟩
  · rw [heq]
    refine ⟨?_, fun ⟨e, he⟩ => TunnResult.noConfusion he, fun hboth => ?_⟩
    · rw [packetQueue_initiated, packetQueue_restarted]
    · exact absurd hboth.2 (not_lt.mpr hd)

/-- Under a session a packet is sent at once, and without one it is queued. -/
theorem packetQueue_encapsulate {src : List UInt8}
    (h : t.encapsulate env src dstLen = some (t', r)) :
    (∃ s, t.session = some s ∧ t'.packetQueue = t.packetQueue ∧
      r = .writeToNetwork (s.dataPacket C s.sendingKeyCounter src).bytes) ∨
    (t.session = none ∧ t'.packetQueue = Fifo.next maxQueueDepth t.packetQueue (.arrive src) ∧
      ((∃ e, r = .err e) ↔ t.handshake.isInProgress = false ∧ dstLen < handshakeInitSz)) := by
  rw [encapsulate] at h
  unfold session
  rcases hs : t.sessions.get t.current with _ | s
  · rw [hs] at h
    obtain ⟨hqueue, herr⟩ :=
      packetQueue_formatHandshakeInitiation (t.queuePacket src) env dstLen false
    have hpair := Option.some.inj h
    rw [hpair] at hqueue herr
    rw [packetQueue_queuePacket] at hqueue
    rw [handshake_queuePacket, Bool.not_false, Bool.and_true] at herr
    exact .inr ⟨rfl, hqueue, herr⟩
  · rw [hs] at h
    obtain ⟨⟨s', datagram⟩, hformat, heq⟩ := Option.map_eq_some_iff.mp h
    obtain ⟨rfl, rfl⟩ := Session.formatPacketData_eq_some hformat
    dsimp only at heq
    split_ifs at heq <;> cases heq <;> exact .inl ⟨s, rfl, rfl, rfl⟩

/-- What a repeated call does to the queue: under a session the first packet is sent; without one it
goes to the end, and when then no initiation can be sent, also to the front. -/
theorem packetQueue_sendQueuedPacket (hbound : t.packetQueue.length ≤ maxQueueDepth)
    (h : t.sendQueuedPacket env dstLen = some (t', r)) :
    (t.packetQueue = [] ∧ t' = t) ∨
    (∃ s packet, t.session = some s ∧ t.packetQueue.head? = some packet ∧
      t'.packetQueue = t.packetQueue.tail ∧
      r = .writeToNetwork (s.dataPacket C s.sendingKeyCounter packet).bytes) ∨
    (t.session = none ∧ t.packetQueue ≠ [] ∧ ∃ packet ∈ t.packetQueue, t'.packetQueue =
      if t.handshake.isInProgress = false ∧ dstLen < handshakeInitSz ∧
          t.packetQueue.length < maxQueueDepth then packet :: t.packetQueue.rotate 1
      else t.packetQueue.rotate 1) := by
  rw [sendQueuedPacket] at h
  rcases hq : t.packetQueue with _ | ⟨packet, rest⟩
  · rw [hq] at h
    cases h
    exact .inl ⟨rfl, rfl⟩
  right
  rw [hq] at h hbound
  rw [List.length_cons] at hbound
  obtain ⟨⟨t₁, r₁⟩, hencap, heq⟩ := Option.map_eq_some_iff.mp h
  obtain ⟨s, hs, hqueue, rfl⟩ | ⟨hs, hqueue, herr⟩ := packetQueue_encapsulate hencap
  · cases heq
    exact .inl ⟨s, packet, hs, rfl, hqueue, rfl⟩
  · right
    have hback : t₁.packetQueue = (packet :: rest).rotate 1 := by
      rw [hqueue, List.rotate_cons_succ, List.rotate_zero]
      exact if_pos hbound
    refine ⟨hs, List.cons_ne_nil _ _, packet, List.mem_cons_self, ?_⟩
    by_cases hfails : t.handshake.isInProgress = false ∧ dstLen < handshakeInitSz
    · obtain ⟨e, rfl⟩ := herr.mpr hfails
      obtain ⟨rfl, -⟩ := Prod.mk.inj heq
      unfold requeuePacket
      rw [hback, List.length_rotate]
      split_ifs with hroom hcond hcond
      · rfl
      · exact absurd ⟨hfails.1, hfails.2, hroom⟩ hcond
      · exact absurd hcond.2.2 hroom
      · exact hback
    · rw [if_neg fun hall => hfails ⟨hall.1, hall.2.1⟩]
      have ht : t' = t₁ := by
        cases r₁ with
        | err e => exact absurd (herr.mp ⟨e, rfl⟩) hfails
        | done | writeToNetwork | writeToTunnelV4 | writeToTunnelV6 => cases heq; rfl
      rw [ht, hback]

theorem packetQueue_setCurrentSession (t : Tunn C) (newIdx : ℕ) :
    (t.setCurrentSession newIdx).packetQueue = t.packetQueue := by
  unfold setCurrentSession
  split_ifs <;> rfl

theorem packetQueue_validateDecapsulatedPacket (t : Tunn C) (packet : List UInt8) :
    (t.validateDecapsulatedPacket packet).1.packetQueue = t.packetQueue := by
  unfold validateDecapsulatedPacket
  split_ifs
  · rfl
  · rcases computedLenAndSource packet with _ | ⟨computedLen, addr | addr⟩
    · rfl
    · dsimp only
      split_ifs <;> rfl
    · dsimp only
      split_ifs <;> rfl

/-- What comes from the network leaves the queue alone. -/
theorem packetQueue_handleVerifiedPacket {packet : Packet}
    (h : t.handleVerifiedPacket env packet dstLen = some (t', r)) :
    t'.packetQueue = t.packetQueue := by
  cases packet with
  | handshakeInit p =>
    obtain ⟨⟨handshake, result⟩, -, heq⟩ := Option.map_eq_some_iff.mp h
    cases result with
    | error e => cases heq; rfl
    | ok ok => cases heq; rfl
  | handshakeResponse p =>
    rw [handleVerifiedPacket, handleHandshakeResponse] at h
    split at h
    · cases h
      rfl
    · obtain ⟨⟨session, keepalive⟩, -, heq⟩ := Option.map_eq_some_iff.mp h
      cases heq
      exact packetQueue_setCurrentSession _ _
  | packetCookieReply p =>
    have hpair := Option.some.inj h
    rw [handleCookieReply] at hpair
    split at hpair <;> cases hpair <;> rfl
  | packetData p =>
    obtain ⟨rfl, -⟩ | ⟨s, s', ret, -, -, hvalidate, -, -⟩ := handleData_cases h
    · rfl
    · have hqueue := packetQueue_validateDecapsulatedPacket (t.received p s') ret
      rw [hvalidate] at hqueue
      exact hqueue.trans (packetQueue_setCurrentSession _ _)

theorem packetQueue_decapsulate {srcAddr : Option IpAddr} {datagram : List UInt8}
    (hdata : datagram ≠ []) (h : t.decapsulate env srcAddr datagram dstLen = some (t', r)) :
    t'.packetQueue = t.packetQueue := by
  rw [decapsulate, if_neg hdata] at h
  split at h
  · rename_i rateLimiter packet _
    have hqueue : t'.packetQueue = ({ t with rateLimiter } : Tunn C).packetQueue :=
      packetQueue_handleVerifiedPacket h
    exact hqueue
  · split_ifs at h
    cases h
    rfl
  · cases h
    rfl
  · cases h

/-! ## `update_timers` -/

/-- The queue after `update_timers` and its parts: as it was, or with the packet of a keepalive, or
cleared when the connection expires. -/
def QueueTimed (t t' : Tunn C) (r : TunnResult) : Prop :=
  t'.packetQueue = t.packetQueue ∨
    t'.packetQueue = Fifo.next maxQueueDepth t.packetQueue (.arrive []) ∨
    t'.packetQueue = [] ∧ r = .err .connectionExpired

theorem packetQueue_handshakeInitiationRequired {now : ℕ} {required : Bool}
    (h : t.handshakeInitiationRequired now = some (t', required)) :
    t'.packetQueue = t.packetQueue := by
  simp only [handshakeInitiationRequired, Option.bind_eq_bind, Option.bind_eq_some_iff,
    Option.pure_def, Option.some.injEq, Prod.mk.injEq] at h
  obtain ⟨_, -, _, -, silent, -, rfl, -⟩ := h
  split_ifs <;> rfl

theorem packetQueue_keepaliveRequired {now : ℕ} {required : Bool}
    (h : t.keepaliveRequired now = some (t', required)) : t'.packetQueue = t.packetQueue := by
  simp only [keepaliveRequired, Option.bind_eq_bind, Option.bind_eq_some_iff,
    Option.pure_def, Option.some.injEq, Prod.mk.injEq] at h
  obtain ⟨quiet, -, persistent, -, rfl, -⟩ := h
  cases persistent <;> cases quiet <;> rfl

theorem queueTimed_initiateOrKeepalive {now : ℕ}
    (h : t.initiateOrKeepalive env now dstLen = some (t', r)) : QueueTimed t t' r := by
  unfold QueueTimed
  obtain ⟨t₁, hrequired, hformat⟩ | ⟨t₁, t₂, keepalive, hrequired, hkeepalive, h⟩ :=
    initiateOrKeepalive_cases h
  · left
    rw [← packetQueue_handshakeInitiationRequired hrequired,
      ← (packetQueue_formatHandshakeInitiation t₁ env dstLen true).1, hformat]
  · rw [← packetQueue_handshakeInitiationRequired hrequired,
      ← packetQueue_keepaliveRequired hkeepalive]
    obtain hencap | ⟨rfl, -⟩ := h
    · obtain ⟨s, -, hqueue, -⟩ | ⟨-, hqueue, -⟩ := packetQueue_encapsulate hencap
      · exact .inl hqueue
      · exact .inr (.inl hqueue)
    · exact .inl rfl

theorem queueTimed_checkTimers {now : ℕ} (h : t.checkTimers env now dstLen = some (t', r)) :
    QueueTimed t t' r := by
  obtain ⟨-, rfl, rfl⟩ | ⟨-, t₁, ht₁, hcases⟩ := checkTimers_cases h
  · exact .inl rfl
  · have hqueue₁ : t₁.packetQueue = t.packetQueue := by
      rcases ht₁ with rfl | rfl <;> rfl
    unfold QueueTimed
    rw [← hqueue₁]
    obtain hexpire | ⟨timeInitSent, -, hcall⟩ | ⟨-, hcall⟩ := hcases
    · cases hexpire
      exact .inr (.inr ⟨rfl, rfl⟩)
    · obtain ⟨trying, -, ⟨-, hexpire⟩ | ⟨-, -, hformat⟩ | ⟨-, -, rfl, -⟩⟩ :=
        retransmit_cases hcall
      · cases hexpire
        exact .inr (.inr ⟨rfl, rfl⟩)
      · left
        rw [← (packetQueue_formatHandshakeInitiation t₁ env dstLen true).1, hformat]
      · exact .inl rfl
    · exact queueTimed_initiateOrKeepalive hcall

theorem queueTimed_updateTimers (h : t.updateTimers env dstLen = some (t', r)) :
    QueueTimed t t' r := by
  simp only [updateTimers, Option.bind_eq_bind, Option.bind_eq_some_iff] at h
  obtain ⟨t₁, hsessions, h⟩ := h
  have hqueue₁ : t₁.packetQueue = t.packetQueue := by
    rw [updateSessionTimers] at hsessions
    split_ifs at hsessions <;> cases hsessions <;> rfl
  have htimed := queueTimed_checkTimers h
  unfold QueueTimed at htimed ⊢
  rwa [hqueue₁] at htimed

/-! ## One call -/

/-- The queue after one event, or after none. -/
def afterEvent (t : Tunn C) (e : Option (Fifo.Event (List UInt8))) : List (List UInt8) :=
  e.elim t.packetQueue (Fifo.next maxQueueDepth t.packetQueue)

/-- **An orderly call is at most one event of the queue**, and no other call is. -/
theorem packetQueue_step_iff {call : Call} (hbound : t.packetQueue.length ≤ maxQueueDepth)
    (h : t.step (env, call) = some (t', r)) :
    t'.packetQueue = t.afterEvent (queueEvent t t' r call) ↔ t.Orderly call := by
  cases call with
  | encapsulate src dstLen =>
    refine iff_of_true ?_ trivial
    simp only [queueEvent]
    obtain ⟨s, hs, hqueue, -⟩ | ⟨hs, hqueue, -⟩ := packetQueue_encapsulate h
    · rw [hs, hqueue]
      rfl
    · rw [hs, hqueue]
      rfl
  | decapsulate srcAddr datagram dstLen =>
    simp only [queueEvent]
    by_cases hdata : datagram = []
    · subst hdata
      have hsend : t.sendQueuedPacket env dstLen = some (t', r) := by
        rw [step, decapsulate, if_pos rfl] at h
        exact h
      rw [orderly_nil]
      obtain ⟨hempty, rfl⟩ | ⟨s, packet, hs, -, hqueue, -⟩ |
        ⟨hs, hne, packet, -, hqueue⟩ := packetQueue_sendQueuedPacket hbound hsend
      · refine iff_of_true ?_ (.inr (.inl hempty))
        unfold afterEvent
        rw [hempty]
        split_ifs <;> rfl
      · rw [hs, hqueue]
        exact iff_of_true rfl (.inl rfl)
      · unfold afterEvent
        rw [hqueue, or_iff_right (by rw [hs]; exact Bool.false_ne_true), or_iff_right hne]
        simp only [hs, Option.isSome_none, Bool.false_eq_true, and_false, if_false,
          Option.elim_none]
        by_cases hfails : t.handshake.isInProgress = false ∧ dstLen < handshakeInitSz ∧
            t.packetQueue.length < maxQueueDepth
        · rw [if_pos hfails]
          refine iff_of_false (fun heq => ?_) fun h => ?_
          · have hlen := congrArg List.length heq
            rw [List.length_cons, List.length_rotate] at hlen
            omega
          · obtain ⟨-, hsends⟩ := h
            obtain ⟨hidle, hsmall, hroom⟩ := hfails
            rcases hsends with hprogress | hlarge | hfull
            · rw [hidle] at hprogress
              cases hprogress
            · omega
            · omega
        · rw [if_neg hfails, and_iff_left]
          by_contra hnone
          simp only [not_or, not_le, Bool.not_eq_true] at hnone
          exact hfails ⟨hnone.1, hnone.2.1, lt_of_le_of_ne hbound hnone.2.2⟩
    · rw [packetQueue_decapsulate hdata h, if_neg fun hboth => hdata hboth.1]
      refine iff_of_true rfl ?_
      cases datagram with
      | nil => exact absurd rfl hdata
      | cons b bs => trivial
  | updateTimers dstLen =>
    refine iff_of_true ?_ trivial
    simp only [queueEvent]
    by_cases hcleared : t'.packetQueue = [] ∧ r = .err .connectionExpired
    · rw [if_pos hcleared]
      exact hcleared.1
    · rw [if_neg hcleared]
      by_cases hsame : t'.packetQueue = t.packetQueue
      · rw [if_neg (not_not.mpr hsame)]
        exact hsame
      · rw [if_pos hsame]
        obtain hqueue | hqueue | hboth := queueTimed_updateTimers h
        · exact absurd hqueue hsame
        · exact hqueue
        · exact absurd hboth hcleared
  | formatHandshakeInitiation dstLen force =>
    refine iff_of_true ?_ trivial
    have hqueue := (packetQueue_formatHandshakeInitiation t env dstLen force).1
    rw [Option.some.inj h] at hqueue
    exact hqueue
  | setStaticPrivate staticPrivate staticPublic rateLimiter =>
    refine iff_of_true ?_ trivial
    obtain ⟨t₁, hset, heq⟩ := Option.map_eq_some_iff.mp h
    obtain ⟨handshake, -, rfl⟩ := Option.map_eq_some_iff.mp hset
    cases heq
    rfl

/-! ## Runs -/

variable {q q' : Queued C}

/-- The history of a queue goes on in order exactly in an orderly call. -/
theorem inOrder_iff_orderly {i : Env × Call} (hq : Fifo.InOrder maxQueueDepth q.2 q.1.packetQueue)
    (h : queuedStep q i = some (q', r)) :
    Fifo.InOrder maxQueueDepth q'.2 q'.1.packetQueue ↔ q.1.Orderly i.2 := by
  obtain ⟨⟨t₁, r₁⟩, hstep, heq⟩ := Option.map_eq_some_iff.mp h
  cases heq
  rw [← packetQueue_step_iff hq.bounded hstep]
  unfold afterEvent
  dsimp only
  rcases queueEvent q.1 t₁ r₁ i.2 with _ | e
  · exact hq.eq_iff
  · exact (hq.next e).eq_iff

/-- **The queue is a FIFO in runs of orderly calls.** What arrived since it was last cleared is what
left it followed by what is in it. What leaves it is sent under the current session. -/
theorem packet_queue_fifo {t₀ : Tunn C} (h₀ : t₀.packetQueue = [])
    (h : Machine.Reaches queuedStep (fun q i => q.1.Orderly i.2) (t₀, Fifo.History.new) q) :
    q.2.arrived = q.2.departed ++ q.1.packetQueue ∧
      ∀ env srcAddr dstLen q' r s, q.1.session = some s →
        queuedStep q (env, .decapsulate srcAddr [] dstLen) = some (q', r) →
          ∀ packet ∈ q.1.packetQueue.head?,
            q'.2.departed = q.2.departed ++ [packet] ∧
              r = .writeToNetwork (s.dataPacket C s.sendingKeyCounter packet).bytes := by
  have horder : Fifo.InOrder maxQueueDepth q.2 q.1.packetQueue := by
    refine h.invariant (I := fun q => Fifo.InOrder maxQueueDepth q.2 q.1.packetQueue) ?_ ?_
    · rw [h₀]
      exact Fifo.inOrder_new
    · exact fun q i q' r hq horderly hstep => (inOrder_iff_orderly hq hstep).mpr horderly
  refine ⟨horder.arrived, fun env srcAddr dstLen q' r s hs hstep packet hpacket => ?_⟩
  obtain ⟨⟨t₁, r₁⟩, hcall, heq⟩ := Option.map_eq_some_iff.mp hstep
  cases heq
  have hsend : q.1.sendQueuedPacket env dstLen = some (t₁, r₁) := by
    rw [step, decapsulate, if_pos rfl] at hcall
    exact hcall
  have hevent : queueEvent q.1 t₁ r₁ (.decapsulate srcAddr [] dstLen) = some .depart :=
    if_pos ⟨rfl, Option.isSome_iff_exists.mpr ⟨s, hs⟩⟩
  obtain ⟨hempty, -⟩ | ⟨s', packet', hs', hpacket', -, hr⟩ | ⟨hnone, -⟩ :=
    packetQueue_sendQueuedPacket horder.bounded hsend
  · rw [hempty] at hpacket
    cases hpacket
  · cases hs.symm.trans hs'
    cases hpacket.symm.trans hpacket'
    refine ⟨?_, hr⟩
    dsimp only
    rw [hevent, Option.elim_some, Fifo.History.next, hpacket]
    rfl
  · cases hs.symm.trans hnone

end

/-! ## Packets that wait -/

/-- Three packets arrive, the peer's initiation is answered, and the empty calls that follow send an
initiation and then nothing. The new session is not the current one yet. -/
def overtakingCalls : List (Env × Call) :=
  [(sampleEnv 6 1, .encapsulate [1] 148), (sampleEnv 6 1, .encapsulate [2] 148),
    (sampleEnv 6 1, .encapsulate [3] 148), (sampleEnv 7 2, .decapsulate none peerInitiation 148),
    (sampleEnv 8 2, .decapsulate none [] 148), (sampleEnv 8 2, .decapsulate none [] 148)]

/-- The answer of the peer to the initiation of the same tunnel. -/
def peerResponse : List UInt8 :=
  match ((sampleTunn 2 1 2).decapsulate (sampleEnv 7 2) none peerInitiation 148).map Prod.snd with
  | some (.writeToNetwork packet) => packet
  | _ => []

/-- Two packets wait for the session, and the empty call that follows it sends the first one. -/
def waitingCalls : List (Env × Call) :=
  [(sampleEnv 5 1, .encapsulate [1] 148), (sampleEnv 5 1, .encapsulate [2] 148),
    (sampleEnv 5 2, .decapsulate none peerResponse 148), (sampleEnv 5 2, .decapsulate none [] 148)]

/-- The next empty call sends the second one. -/
theorem packet_queue_fifo_sample :
    ∃ (q q' : Queued checksumPrims) (r : TunnResult) (s : Session),
      Machine.Reaches queuedStep (fun q i => q.1.Orderly i.2)
        (sampleTunn 1 2 1, Fifo.History.new) q ∧
      q.2.departed = [[1]] ∧ q.2.arrived = q.2.departed ++ q.1.packetQueue ∧
      queuedStep q (sampleEnv 5 2, .decapsulate none [] 148) = some (q', r) ∧
      q'.2.departed = q.2.departed ++ [[2]] ∧
      r = .writeToNetwork (s.dataPacket checksumPrims s.sendingKeyCounter [2]).bytes := by
  obtain ⟨⟨q, os⟩, hrun, hq⟩ := Option.map_eq_some_iff.mp
    (show (Machine.run (Machine.guarded queuedStep fun q i => q.1.Orderly i.2)
        (sampleTunn 1 2 1, Fifo.History.new) waitingCalls).map (fun q =>
          (q.1.2.departed, q.1.1.packetQueue.head?, q.1.1.session.isSome,
            (queuedStep q.1 (sampleEnv 5 2, .decapsulate none [] 148)).isSome)) =
      some ([[1]], some [2], true, true) by decide +kernel)
  simp only [Prod.mk.injEq] at hq
  obtain ⟨hdeparted, hhead, hsession, hnext⟩ := hq
  obtain ⟨s, hs⟩ := Option.isSome_iff_exists.mp hsession
  obtain ⟨⟨q', r⟩, hstep⟩ := Option.isSome_iff_exists.mp hnext
  have hreaches := Machine.reaches_of_guarded_run hrun
  obtain ⟨harrived, hsend⟩ := packet_queue_fifo rfl hreaches
  obtain ⟨hdeparted', hr⟩ := hsend _ _ _ _ _ s hs hstep [2] (by rw [hhead]; rfl)
  exact ⟨q, q', r, s, hreaches, hdeparted, harrived, hstep, hdeparted', hr⟩

/-- **The third packet comes before the first two.** -/
theorem third_packet_overtakes :
    ¬ ∀ (t₀ : Tunn checksumPrims) (q : Queued checksumPrims), t₀.packetQueue = [] →
      Machine.Reaches queuedStep (fun _ _ => True) (t₀, Fifo.History.new) q →
        q.2.arrived = q.2.departed ++ q.1.packetQueue := by
  intro hclaim
  obtain ⟨⟨q, os⟩, hrun, hqueue⟩ := Option.map_eq_some_iff.mp
    (show (Machine.run queuedStep (sampleTunn 2 1 2, Fifo.History.new) overtakingCalls).map
        (fun q => (q.1.2.arrived, q.1.2.departed, q.1.1.packetQueue)) =
      some ([[1], [2], [3]], [], [[3], [1], [2]]) by decide +kernel)
  have harrived := hclaim _ q rfl (Machine.reaches_of_run hrun)
  simp only [Prod.mk.injEq] at hqueue
  rw [hqueue.1, hqueue.2.1, hqueue.2.2] at harrived
  exact absurd harrived (by decide)

end Tunn

end NekoLink.Noise
