import NekoLink.Noise.Channel
import NekoLink.Noise.SessionAge

/-!
# How many keepalives are sent

`update_timers` answers data that has come in by an empty packet when nothing else has been sent for
`KEEPALIVE_TIMEOUT`, and sends one at every interval when there is a persistent keepalive. An empty
packet is not data for the other side, so two tunnels do not keep each other awake.

* `Timers.Owing`: a keepalive is owed for data only, and once.
* `owing_take`: what a call does to this account.
* `keepalives_bounded`: **no more keepalives are sent than packets have been delivered**, and one
  for every persistent interval that has passed.
-/

namespace NekoLink.Noise

open Wire

/-- What is reported is a packet for the tunnel interface. -/
def TunnResult.isDelivery : TunnResult → Bool
  | .writeToTunnelV4 _ _ | .writeToTunnelV6 _ _ => true
  | _ => false

/-- What is reported is a data packet for the network. -/
def TunnResult.isData : TunnResult → Bool
  | .writeToNetwork packet =>
    match parseIncomingPacket packet with
    | .ok (.packetData _) => true
    | _ => false
  | _ => false

namespace Timers

/-- Data has come in and nothing has been sent since. -/
def owed (ts : Timers) : ℕ :=
  if ts.timers .timeLastPacketSent < ts.timers .timeLastDataPacketReceived then 1 else 0

/-- The keepalives sent, and the one that is owed, are accounted for by the packets delivered and
the intervals that have passed; the clock stands at `now`. -/
structure Owing (started interval now delivered keepalives : ℕ) (ts : Timers) : Prop where
  start : ts.timeStarted = started
  interval_eq : ts.persistentKeepalive = interval
  data_le : ts.timers .timeLastDataPacketReceived ≤ ts.timers .timeCurrent
  persistent_le : ts.timers .timePersistentKeepalive ≤ ts.timers .timeCurrent
  current_le : started + ts.timers .timeCurrent ≤ now
  account : keepalives + ts.owed ≤
    delivered + ts.timers .timePersistentKeepalive / fromSecs interval

variable {started interval now now' delivered keepalives : ℕ} {ts : Timers}

theorem Owing.mono (h : ts.Owing started interval now delivered keepalives) (hnow : now ≤ now') :
    ts.Owing started interval now' delivered keepalives :=
  { h with current_le := h.current_le.trans hnow }

theorem owed_le_one (ts : Timers) : ts.owed ≤ 1 := by
  rw [owed]
  split_ifs <;> omega

/-- Sending pays what is owed. -/
theorem owed_of_sent (h : ts.timers .timeLastDataPacketReceived ≤ ts.timers .timeLastPacketSent) :
    ts.owed = 0 :=
  if_neg (by omega)

theorem persistentKeepalive_tick (ts : Timers) (name : TimerName) :
    (ts.tick name).persistentKeepalive = ts.persistentKeepalive := by
  cases name <;> rfl

/-- No tick but the one for data received is a reason for a keepalive. -/
theorem owed_tick_le {name : TimerName} (hname : name ≠ .timeLastDataPacketReceived)
    (h : ts.timers .timeLastDataPacketReceived ≤ ts.timers .timeCurrent) :
    (ts.tick name).owed ≤ ts.owed := by
  rw [owed, owed, timers_tick, Function.update_of_ne hname.symm]
  by_cases hsent : name = .timeLastPacketSent
  · rw [hsent, Function.update_self, if_neg (by omega)]
    exact Nat.zero_le _
  · rw [Function.update_of_ne (Ne.symm hsent)]

theorem Owing.tick_of_owed {delivered' : ℕ} (name : TimerName)
    (h : ts.Owing started interval now delivered keepalives)
    (howed : (ts.tick name).owed + delivered ≤ ts.owed + delivered') :
    (ts.tick name).Owing started interval now delivered' keepalives := by
  have hcurrent : (ts.tick name).timers .timeCurrent = ts.timers .timeCurrent := by
    rw [timers_tick]
    by_cases heq : name = .timeCurrent
    · rw [heq, Function.update_self]
    · rw [Function.update_of_ne (Ne.symm heq)]
  have hupdate : ∀ name', (ts.tick name).timers name' = ts.timers .timeCurrent ∨
      (ts.tick name).timers name' = ts.timers name' := by
    intro name'
    rw [timers_tick]
    by_cases heq : name' = name
    · rw [heq, Function.update_self]
      exact Or.inl rfl
    · rw [Function.update_of_ne heq]
      exact Or.inr rfl
  have hpersistent : ts.timers .timePersistentKeepalive ≤
      (ts.tick name).timers .timePersistentKeepalive := by
    obtain heq | heq := hupdate .timePersistentKeepalive
    · rw [heq]
      exact h.persistent_le
    · rw [heq]
  have haccount := h.account
  have hdiv := Nat.div_le_div_right (c := fromSecs interval) hpersistent
  refine ⟨?_, ?_, ?_, ?_, ?_, by omega⟩
  · rw [timeStarted_tick, h.start]
  · rw [persistentKeepalive_tick, h.interval_eq]
  · rw [hcurrent]
    obtain heq | heq := hupdate .timeLastDataPacketReceived
    · rw [heq]
    · rw [heq]
      exact h.data_le
  · rw [hcurrent]
    obtain heq | heq := hupdate .timePersistentKeepalive
    · rw [heq]
    · rw [heq]
      exact h.persistent_le
  · rw [hcurrent]
    exact h.current_le

theorem Owing.tick (h : ts.Owing started interval now delivered keepalives) (name : TimerName)
    (hname : name ≠ .timeLastDataPacketReceived) :
    (ts.tick name).Owing started interval now delivered keepalives :=
  h.tick_of_owed name (by have := owed_tick_le hname h.data_le; omega)

/-- Data that comes in is the reason for a keepalive. -/
theorem Owing.tick_data (h : ts.Owing started interval now delivered keepalives) :
    (ts.tick .timeLastDataPacketReceived).Owing started interval now (delivered + 1) keepalives :=
  h.tick_of_owed _ (by have := (ts.tick .timeLastDataPacketReceived).owed_le_one; omega)

theorem Owing.clear (h : ts.Owing started interval now delivered keepalives) (hnow : now ≤ now') :
    (ts.clear now').Owing started interval now' delivered keepalives := by
  have hcurrent := h.current_le
  have hpersistent := h.persistent_le
  have haccount := h.account
  have hle : ts.timers .timePersistentKeepalive ≤ now' - ts.timeStarted := by
    rw [h.start]
    omega
  have hdiv := Nat.div_le_div_right (c := fromSecs interval) hle
  have howed : (ts.clear now').owed = 0 := owed_of_sent le_rfl
  refine ⟨h.start, h.interval_eq, le_rfl, le_rfl, ?_, ?_⟩
  · change started + (now' - ts.timeStarted) ≤ now'
    rw [h.start]
    omega
  · rw [howed]
    change keepalives + 0 ≤ delivered + (now' - ts.timeStarted) / fromSecs interval
    omega

theorem Owing.established {isInitiator : Bool} {sessionIdx : ℕ}
    (h : ts.Owing started interval now delivered keepalives) :
    (ts.tickSessionEstablished isInitiator sessionIdx).Owing started interval now delivered
      keepalives := by
  have htick := h.tick .timeSessionEstablished (by decide)
  exact ⟨htick.start, htick.interval_eq, htick.data_le, htick.persistent_le, htick.current_le,
    htick.account⟩

end Timers

namespace Tunn

variable {C : Prims} {t t' : Tunn C} {r : TunnResult} {env : Env}
  {dstLen started interval now delivered keepalives : ℕ}

/-! ## Sending -/

theorem owing_formatHandshakeInitiation
    (h : t.timers.Owing started interval now delivered keepalives) (hclear : now ≤ env.clear)
    (dstLen : ℕ) (force : Bool) :
    (t.formatHandshakeInitiation env dstLen force).1.timers.Owing started interval env.clear
      delivered keepalives := by
  have hrestarted : (t.restarted env).timers.Owing started interval env.clear delivered
      keepalives := by
    rw [restarted]
    split_ifs
    · exact h.clear hclear
    · exact h.mono hclear
  obtain ⟨-, heq⟩ | ⟨-, ⟨-, heq⟩ | ⟨handshake, packet, -, -, heq⟩⟩ :=
    t.formatHandshakeInitiation_spec env dstLen force
  · rw [heq]
    exact h.mono hclear
  · rw [heq]
    exact hrestarted
  · rw [heq, initiated, timers_timerTick]
    refine Timers.Owing.tick ?_ .timeLastPacketSent (by decide)
    split_ifs
    · exact hrestarted.tick .timeLastHandshakeStarted (by decide)
    · exact hrestarted

/-- An initiation is not a data packet. -/
theorem isData_formatHandshakeInitiation (t : Tunn C) (env : Env) (dstLen : ℕ) (force : Bool) :
    (t.formatHandshakeInitiation env dstLen force).2.isData = false := by
  obtain ⟨-, hquiet⟩ | ⟨cookies, macs, -, heq⟩ := formatHandshakeInitiation_cases t env dstLen force
  · obtain heq | ⟨e, heq⟩ | ⟨reply, heq⟩ := hquiet
    · rw [heq]
      rfl
    · rw [heq]
      rfl
    · rw [heq, TunnResult.isData, parseIncomingPacket_cookieReply]
  · rw [heq, TunnResult.isData, parseIncomingPacket_handshakeInit]

theorem owing_encapsulate {src : List UInt8}
    (h : t.timers.Owing started interval now delivered keepalives) (hclear : now ≤ env.clear)
    (hcall : t.encapsulate env src dstLen = some (t', r)) :
    t'.timers.Owing started interval env.clear delivered keepalives := by
  rw [encapsulate] at hcall
  rcases hs : t.sessions.get t.current with _ | s
  · rw [hs] at hcall
    rw [← timers_queuePacket t src] at h
    have hformat := owing_formatHandshakeInitiation h hclear dstLen false
    rwa [Option.some.inj hcall] at hformat
  · rw [hs] at hcall
    obtain ⟨⟨s', datagram⟩, -, heq⟩ := Option.map_eq_some_iff.mp hcall
    have hsent := (h.mono hclear).tick .timeLastPacketSent (by decide)
    dsimp only at heq
    split_ifs at heq <;> cases heq
    · exact hsent.tick .timeLastDataPacketSent (by decide)
    · exact hsent

/-- **A keepalive** is sent under a session and ticks one timer, or no data packet is sent. -/
theorem timers_encapsulate_nil (hcall : t.encapsulate env [] dstLen = some (t', r)) :
    r.isData = false ∨ t'.timers = t.timers.tick .timeLastPacketSent := by
  rw [encapsulate] at hcall
  rcases hs : t.sessions.get t.current with _ | s
  · rw [hs] at hcall
    have hdata := isData_formatHandshakeInitiation (t.queuePacket []) env dstLen false
    rw [Option.some.inj hcall] at hdata
    exact Or.inl hdata
  · rw [hs] at hcall
    obtain ⟨⟨s', datagram⟩, -, heq⟩ := Option.map_eq_some_iff.mp hcall
    cases heq
    exact Or.inr rfl

theorem owing_sendQueuedPacket
    (h : t.timers.Owing started interval now delivered keepalives) (hclear : now ≤ env.clear)
    (hcall : t.sendQueuedPacket env dstLen = some (t', r)) :
    t'.timers.Owing started interval env.clear delivered keepalives := by
  rw [sendQueuedPacket] at hcall
  rcases hq : t.packetQueue with _ | ⟨packet, rest⟩
  · rw [hq] at hcall
    cases hcall
    exact h.mono hclear
  · rw [hq] at hcall
    obtain ⟨⟨t₁, r₁⟩, hencap, heq⟩ := Option.map_eq_some_iff.mp hcall
    have h₁ := owing_encapsulate (t := { t with packetQueue := rest }) h hclear hencap
    cases r₁ with
    | err e =>
      cases heq
      rwa [timers_requeuePacket]
    | done | writeToNetwork | writeToTunnelV4 | writeToTunnelV6 =>
      cases heq
      exact h₁

/-! ## Receiving -/

/-- Only a packet that is delivered ticks the timer for data. -/
theorem owing_validateDecapsulatedPacket
    (h : t.timers.Owing started interval now delivered keepalives) (packet : List UInt8) :
    (t.validateDecapsulatedPacket packet).1.timers.Owing started interval now
      (delivered + (t.validateDecapsulatedPacket packet).2.isDelivery.toNat)
      keepalives := by
  rw [validateDecapsulatedPacket]
  split_ifs
  · exact h
  · rcases computedLenAndSource packet with _ | ⟨computedLen, addr | addr⟩
    · exact h
    · dsimp only
      split_ifs
      · exact h
      · exact h.tick_data
    · dsimp only
      split_ifs
      · exact h
      · exact h.tick_data

theorem owing_handleVerifiedPacket
    (h : t.timers.Owing started interval now delivered keepalives) {packet : Packet}
    (hcall : t.handleVerifiedPacket env packet dstLen = some (t', r)) :
    t'.timers.Owing started interval now (delivered + r.isDelivery.toNat)
      keepalives := by
  have hreceived := h.tick .timeLastPacketReceived (by decide)
  cases packet with
  | handshakeInit p =>
    obtain ⟨⟨handshake, result⟩, -, heq⟩ := Option.map_eq_some_iff.mp hcall
    cases result with
    | error e =>
      cases heq
      exact h
    | ok answer =>
      cases heq
      exact (hreceived.tick .timeLastPacketSent (by decide)).established
  | handshakeResponse p =>
    change t.handleHandshakeResponse env p dstLen = some (t', r) at hcall
    rw [handleHandshakeResponse] at hcall
    rcases hreceive : t.handshake.receiveHandshakeResponse p env.rtt with ⟨handshake, e | session⟩
    · rw [hreceive] at hcall
      cases hcall
      exact h
    · rw [hreceive] at hcall
      obtain ⟨⟨s', datagram⟩, -, heq⟩ := Option.map_eq_some_iff.mp hcall
      cases heq
      rw [timers_setCurrentSession]
      exact hreceived.established
  | packetCookieReply p =>
    have hresult := Option.some.inj hcall
    rw [handleCookieReply] at hresult
    rcases hreceive : t.handshake.receiveCookieReply p with ⟨handshake, e | ⟨⟩⟩
    · rw [hreceive] at hresult
      cases hresult
      exact h
    · rw [hreceive] at hresult
      cases hresult
      exact hreceived.tick .timeCookieReceived (by decide)
  | packetData p =>
    obtain ⟨rfl, e, rfl, -⟩ | ⟨s, s', ret, -, -, hvalidate, -, -⟩ := handleData_cases hcall
    · exact h
    · have hsession : (t.received p s').timers.Owing started interval now delivered
          keepalives := by
        refine Timers.Owing.tick ?_ .timeLastPacketReceived (by decide)
        rw [timers_setCurrentSession]
        exact h
      have hvalid := owing_validateDecapsulatedPacket hsession ret
      rwa [hvalidate] at hvalid

theorem owing_decapsulate {srcAddr : Option IpAddr} {datagram : List UInt8}
    (h : t.timers.Owing started interval now delivered keepalives) (hclear : now ≤ env.clear)
    (hcall : t.decapsulate env srcAddr datagram dstLen = some (t', r)) :
    t'.timers.Owing started interval env.clear (delivered + r.isDelivery.toNat)
      keepalives := by
  rw [decapsulate] at hcall
  split_ifs at hcall
  · have hsent := owing_sendQueuedPacket h hclear hcall
    exact { hsent with account := hsent.account.trans (by omega) }
  · rcases hverify : t.rateLimiter.verifyPacket C srcAddr datagram cookieReplySz env.cookie with
      ⟨rateLimiter, result | packet⟩
    · obtain ⟨e, rfl⟩ | ⟨reply, rfl⟩ := RateLimiter.verifyPacket_eq_error hverify
      · simp only [hverify, Option.some.injEq, Prod.mk.injEq] at hcall
        obtain ⟨rfl, rfl⟩ := hcall
        exact h.mono hclear
      · simp only [hverify] at hcall
        split_ifs at hcall
        simp only [Option.some.injEq, Prod.mk.injEq] at hcall
        obtain ⟨rfl, rfl⟩ := hcall
        exact h.mono hclear
    · simp only [hverify] at hcall
      exact (owing_handleVerifiedPacket (t := { t with rateLimiter }) h hcall).mono hclear

/-! ## `update_timers` -/

theorem owing_handshakeInitiationRequired {at' : ℕ} {required : Bool}
    (h : t.timers.Owing started interval now delivered keepalives)
    (hcall : t.handshakeInitiationRequired at' = some (t', required)) :
    t'.timers.Owing started interval now delivered keepalives ∧
      t'.timers.timers = t.timers.timers := by
  simp only [handshakeInitiationRequired, Option.bind_eq_bind, Option.bind_eq_some_iff,
    Option.pure_def, Option.some.injEq, Prod.mk.injEq] at hcall
  obtain ⟨_, -, _, -, silent, -, rfl, -⟩ := hcall
  split_ifs
  · exact ⟨⟨h.start, h.interval_eq, h.data_le, h.persistent_le, h.current_le, h.account⟩, rfl⟩
  · exact ⟨h, rfl⟩

/-- What is due has its guard, and is as old as its limit. -/
theorem dueAfter_eq_true {guard : Bool} {at' since limit : ℕ}
    (h : dueAfter guard at' since limit = some true) : guard = true ∧ since + limit ≤ at' := by
  rw [dueAfter] at h
  split_ifs at h with hguard
  · obtain ⟨age, hage, hle⟩ := Option.map_eq_some_iff.mp h
    rw [durationSub] at hage
    split_ifs at hage with hsince
    cases hage
    refine ⟨hguard, ?_⟩
    have := of_decide_eq_true hle
    omega
  · cases h

/-- **A keepalive that is required is accounted for**: data has come in, or an interval has
passed. -/
theorem owing_keepaliveRequired {at' : ℕ} {keepalive : Bool}
    (h : t.timers.Owing started interval now delivered keepalives)
    (hat : t.timers.timers .timeCurrent = at')
    (hcall : t.keepaliveRequired at' = some (t', keepalive)) :
    t'.timers.Owing started interval now delivered keepalives ∧
      (keepalive = true → (t'.timers.tick .timeLastPacketSent).Owing started interval now delivered
        (keepalives + 1)) := by
  simp only [keepaliveRequired, Option.bind_eq_bind, Option.bind_eq_some_iff,
    Option.pure_def, Option.some.injEq, Prod.mk.injEq] at hcall
  obtain ⟨quiet, hquiet, persistent, hpersistent, rfl, rfl⟩ := hcall
  generalize ht₁ : (if quiet then { t with timers := { t.timers with wantKeepalive := false } }
    else t) = t₁
  have h₁ : t₁.timers.Owing started interval now delivered keepalives ∧
      t₁.timers.timers = t.timers.timers := by
    rw [← ht₁]
    split_ifs
    · exact ⟨⟨h.start, h.interval_eq, h.data_le, h.persistent_le, h.current_le, h.account⟩, rfl⟩
    · exact ⟨h, rfl⟩
  generalize ht₂ : (if persistent then t₁.timerTick .timePersistentKeepalive else t₁) = t₂
  have h₂ : t₂.timers.Owing started interval now delivered keepalives := by
    rw [← ht₂]
    split_ifs
    · exact h₁.1.tick .timePersistentKeepalive (by decide)
    · exact h₁.1
  refine ⟨h₂, fun hrequired => ?_⟩
  have hsent := h₂.tick .timeLastPacketSent (by decide)
  refine { hsent with account := ?_ }
  have howed : (t₂.timers.tick .timeLastPacketSent).owed = 0 := by
    refine Timers.owed_of_sent ?_
    rw [Timers.timers_tick, Function.update_self, Function.update_of_ne (by decide)]
    exact h₂.data_le
  have haccount := h.account
  rw [howed, Timers.timers_tick, Function.update_of_ne (by decide)]
  cases persistent with
  | true =>
    -- the interval that has passed is counted from now on
    obtain ⟨hguard, hdue⟩ := dueAfter_eq_true hpersistent
    have hpos : 0 < fromSecs interval := by
      rw [← h.interval_eq]
      exact Nat.mul_pos (of_decide_eq_true hguard) (by decide)
    have hticked : t₂.timers.timers .timePersistentKeepalive = at' := by
      rw [← ht₂, if_pos rfl, timers_timerTick, Timers.timers_tick, Function.update_self, h₁.2, hat]
    have hdiv : t.timers.timers .timePersistentKeepalive / fromSecs interval + 1 ≤
        at' / fromSecs interval := by
      rw [← Nat.add_div_right _ hpos]
      rw [h.interval_eq] at hdue
      exact Nat.div_le_div_right hdue
    rw [hticked]
    omega
  | false =>
    -- data has come in, so a keepalive is owed
    rw [Bool.or_false, Bool.and_eq_true] at hrequired
    obtain ⟨rfl, -⟩ := hrequired
    obtain ⟨hguard, -⟩ := dueAfter_eq_true hquiet
    have hone : t.timers.owed = 1 := if_pos (of_decide_eq_true hguard)
    have hkept : t₂.timers.timers = t.timers.timers := by
      rw [← ht₂, if_neg (by decide), h₁.2]
    rw [hkept]
    omega

theorem owing_initiateOrKeepalive {at' : ℕ}
    (h : t.timers.Owing started interval now delivered keepalives) (hclear : now ≤ env.clear)
    (hat : t.timers.timers .timeCurrent = at')
    (hcall : t.initiateOrKeepalive env at' dstLen = some (t', r)) :
    t'.timers.Owing started interval env.clear delivered (keepalives + r.isData.toNat) := by
  simp only [initiateOrKeepalive, Option.bind_eq_bind, Option.bind_eq_some_iff, Prod.exists]
    at hcall
  obtain ⟨t₁, required, hrequired, hcall⟩ := hcall
  obtain ⟨h₁, htimers₁⟩ := owing_handshakeInitiationRequired h hrequired
  cases required with
  | true =>
    have hformat := owing_formatHandshakeInitiation h₁ hclear dstLen true
    have hdata := isData_formatHandshakeInitiation t₁ env dstLen true
    have hpair : t₁.formatHandshakeInitiation env dstLen true = (t', r) := Option.some.inj hcall
    rw [hpair] at hformat hdata
    rw [hdata]
    exact hformat
  | false =>
    obtain ⟨⟨t₂, keepalive⟩, hkeepalive, hcall⟩ := Option.bind_eq_some_iff.mp hcall
    obtain ⟨h₂, hpaid⟩ := owing_keepaliveRequired h₁ (by rw [htimers₁, hat]) hkeepalive
    cases keepalive with
    | false =>
      cases hcall
      exact h₂.mono hclear
    | true =>
      have hencap : t₂.encapsulate env [] dstLen = some (t', r) := hcall
      obtain hdata | htimers := timers_encapsulate_nil hencap
      · rw [hdata]
        exact owing_encapsulate h₂ hclear hencap
      · rw [htimers]
        have hsent := (hpaid rfl).mono hclear
        refine { hsent with account := le_trans ?_ hsent.account }
        have := r.isData.toNat_le
        omega

theorem owing_checkTimers {at' : ℕ}
    (h : t.timers.Owing started interval now delivered keepalives) (hclear : now ≤ env.clear)
    (hat : t.timers.timers .timeCurrent = at')
    (hcall : t.checkTimers env at' dstLen = some (t', r)) :
    t'.timers.Owing started interval env.clear delivered (keepalives + r.isData.toNat) := by
  obtain ⟨-, rfl, rfl⟩ | ⟨-, t₁, ht₁, hcases⟩ := checkTimers_cases hcall
  · exact h.mono hclear
  · have h₁ : t₁.timers = t.timers := by
      rcases ht₁ with rfl | rfl <;> rfl
    rw [← h₁] at h hat
    obtain hexpire | ⟨timeInitSent, -, hcall⟩ | ⟨-, hcall⟩ := hcases
    · cases hexpire
      exact h.clear hclear
    · obtain ⟨trying, -, ⟨-, hexpire⟩ | ⟨-, -, hformat⟩ | ⟨-, -, rfl, rfl⟩⟩ :=
        retransmit_cases hcall
      · cases hexpire
        exact h.clear hclear
      · have howing := owing_formatHandshakeInitiation h hclear dstLen true
        have hdata := isData_formatHandshakeInitiation t₁ env dstLen true
        rw [hformat] at howing hdata
        rw [hdata]
        exact howing
      · exact h.mono hclear
    · exact owing_initiateOrKeepalive h hclear hat hcall

theorem owing_updateTimers
    (h : t.timers.Owing started interval now delivered keepalives) (hstarted : started ≤ now)
    (htime : now ≤ env.time) (hclear : env.time ≤ env.clear)
    (hcall : t.updateTimers env dstLen = some (t', r)) :
    t'.timers.Owing started interval env.clear delivered (keepalives + r.isData.toNat) := by
  obtain ⟨rateLimiter, t₁, hsessions, hcheck⟩ := updateTimers_eq_some hcall
  have hcurrent := h.current_le
  have hdata := h.data_le
  have hpersistent := h.persistent_le
  have htimers : t₁.timers.timers =
      Function.update t.timers.timers .timeCurrent (env.time - t.timers.timeStarted) ∧
      t₁.timers.timeStarted = t.timers.timeStarted ∧
      t₁.timers.persistentKeepalive = t.timers.persistentKeepalive := by
    rw [updateSessionTimers] at hsessions
    split_ifs at hsessions
    cases hsessions
    exact ⟨rfl, rfl, rfl⟩
  have h₁ : t₁.timers.Owing started interval env.time delivered keepalives := by
    refine ⟨by rw [htimers.2.1, h.start], by rw [htimers.2.2, h.interval_eq], ?_, ?_, ?_, ?_⟩
    · rw [htimers.1, Function.update_self, Function.update_of_ne (by decide), h.start]
      omega
    · rw [htimers.1, Function.update_self, Function.update_of_ne (by decide), h.start]
      omega
    · rw [htimers.1, Function.update_self, h.start]
      omega
    · have howed : t₁.timers.owed = t.timers.owed := by
        rw [Timers.owed, Timers.owed, htimers.1, Function.update_of_ne (by decide),
          Function.update_of_ne (by decide)]
      rw [howed, htimers.1, Function.update_of_ne (by decide)]
      exact h.account
  exact owing_checkTimers h₁ hclear (by rw [htimers.1, Function.update_self]) hcheck

end Tunn

/-! ## Runs -/

/-- A tunnel under its clock, with what it has sent and delivered. -/
structure Traffic (C : Prims) where
  timed : Timed C
  /-- the data packets that `update_timers` has sent -/
  keepalives : ℕ
  /-- the packets that have been written to the tunnel interface -/
  delivered : ℕ

namespace Traffic

variable {C : Prims} {q q' : Traffic C} {i : Env × Tunn.Input} {r : TunnResult}
  {started interval : ℕ}

/-- The keepalive among the result of an input. -/
def keepalive (i : Env × Tunn.Input) (r : TunnResult) : ℕ :=
  match i.2 with
  | .call (.updateTimers _) => r.isData.toNat
  | _ => 0

def step (q : Traffic C) (i : Env × Tunn.Input) : Option (Traffic C × TunnResult) :=
  (q.timed.step i).map fun (timed, r) =>
    (⟨timed, q.keepalives + keepalive i r, q.delivered + r.isDelivery.toNat⟩, r)

/-- The tunnel is created. -/
def start (t : Tunn C) (env : Env) : Traffic C := ⟨Timed.start t env, 0, 0⟩

/-- The account is right. -/
structure Owing (started interval : ℕ) (q : Traffic C) : Prop where
  started_le : started ≤ q.timed.clock
  timers : q.timed.tunn.timers.Owing started interval q.timed.clock q.delivered q.keepalives

/-- **What an input does to the account.** -/
theorem owing_take {t t' : Tunn C} {now delivered keepalives : ℕ}
    (h : t.timers.Owing started interval now delivered keepalives) (hstarted : started ≤ now)
    (htime : now ≤ i.1.time) (hclear : i.1.time ≤ i.1.clear) (htake : t.take i = some (t', r)) :
    t'.timers.Owing started interval i.1.clear (delivered + r.isDelivery.toNat)
      (keepalives + keepalive i r) := by
  have hlater := htime.trans hclear
  -- more delivered packets than needed do no harm
  have hmore : ∀ {ts : Timers} {keepalives'},
      ts.Owing started interval i.1.clear delivered keepalives' →
      ts.Owing started interval i.1.clear (delivered + r.isDelivery.toNat) keepalives' :=
    fun hts => { hts with account := hts.account.trans (by omega) }
  obtain ⟨env, call | ⟨packet, dstLen⟩⟩ := i
  · cases call with
    | encapsulate src dstLen => exact hmore (Tunn.owing_encapsulate h hlater htake)
    | decapsulate srcAddr datagram dstLen => exact Tunn.owing_decapsulate h hlater htake
    | updateTimers dstLen =>
      exact hmore (Tunn.owing_updateTimers h hstarted htime hclear htake)
    | formatHandshakeInitiation dstLen force =>
      have hformat := Tunn.owing_formatHandshakeInitiation (t := t) h hlater dstLen force
      rw [Option.some.inj htake] at hformat
      exact hmore hformat
    | setStaticPrivate staticPrivate staticPublic rateLimiter =>
      obtain ⟨t₁, hrekey, heq⟩ := Option.map_eq_some_iff.mp htake
      obtain ⟨handshake, -, rfl⟩ := Option.map_eq_some_iff.mp hrekey
      cases heq
      exact ⟨h.start, h.interval_eq, h.data_le, h.persistent_le, h.current_le.trans hlater,
        h.account⟩
  · exact (Tunn.owing_handleVerifiedPacket h htake).mono hlater

theorem Owing.step (h : q.Owing started interval) (hforward : q.timed.Forward i)
    (hstep : q.step i = some (q', r)) : q'.Owing started interval := by
  obtain ⟨⟨timed, r'⟩, htimed, heq⟩ := Option.map_eq_some_iff.mp hstep
  obtain ⟨⟨t, r''⟩, htake, heq'⟩ := Option.map_eq_some_iff.mp htimed
  cases heq'
  cases heq
  obtain ⟨htime, hclear, hsent⟩ := hforward.bounds
  have hstarted := h.started_le
  refine ⟨?_, (owing_take h.timers hstarted htime hclear htake).mono hsent⟩
  dsimp only
  omega

/-- **Keepalives are answers to data, or persistent.** In every run under a clock that never goes
back, `update_timers` has sent no more data packets than the tunnel has delivered packets to its
interface, and one for each persistent interval that has passed. -/
theorem keepalives_bounded {staticPrivate peerStaticPublic : Bytes 32}
    {presharedKey : Option (Bytes 32)} {persistentKeepalive : Option ℕ} {index : UInt32}
    {rateLimiter : Option RateLimiter} {stamper : TimeStamper} {env : Env}
    (hrun : Machine.Reaches step (fun q i => q.timed.Forward i) (start (Tunn.new C staticPrivate
      peerStaticPublic presharedKey persistentKeepalive index rateLimiter stamper env) env) q) :
    q.keepalives ≤
      q.delivered + (q.timed.clock - env.time) / fromSecs (persistentKeepalive.getD 0) := by
  have howing : q.Owing env.time (persistentKeepalive.getD 0) := by
    refine hrun.invariant ⟨le_rfl, rfl, rfl, le_rfl, le_rfl, le_rfl, ?_⟩
      fun _ _ _ _ h hforward hstep => h.step hforward hstep
    exact Nat.zero_le _
  have hcurrent := howing.timers.current_le
  have hpersistent := howing.timers.persistent_le
  have haccount := howing.timers.account
  have hdiv : q.timed.tunn.timers.timers .timePersistentKeepalive /
      fromSecs (persistentKeepalive.getD 0) ≤
        (q.timed.clock - env.time) / fromSecs (persistentKeepalive.getD 0) :=
    Nat.div_le_div_right (by omega)
  omega

/-- The datagrams of a peer that is asked for a session and then has a packet to send. -/
def peerDatagrams : List (List UInt8) :=
  Tunn.sentDatagrams (Tunn.sampleTunn 2 1 2) <|
    (Tunn.sentDatagrams (Tunn.sampleTunn 1 2 1)
      (Tunn.initiations.take 1 ++ (Tunn.answers.take 1).map (Tunn.receive 10 6))).map
        (Tunn.receive 7 3) ++
      [(Tunn.sampleEnv 9 7, .call (.encapsulate Tunn.samplePacket 148))]

/-- The packet arrives after a second, and ten seconds later it is answered by a keepalive. -/
def quietRun : List (Env × Tunn.Input) :=
  Tunn.initiations.take 1 ++ (peerDatagrams.take 1).map (Tunn.receive 10 6) ++
    [(Tunn.sampleEnv 0 (fromSecs 1), .call (.updateTimers 148))] ++
    (peerDatagrams.drop 1).map (Tunn.receive 10 (fromSecs 1)) ++
    [(Tunn.sampleEnv 0 (fromSecs 12), .call (.updateTimers 148)),
      (Tunn.sampleEnv 0 (fromSecs 40), .call (.updateTimers 148))]

theorem keepalives_bounded_sample :
    ∃ q : Traffic checksumPrims, Machine.Reaches step (fun q i => q.timed.Forward i)
        (start (Tunn.sampleTunn 1 2 1) (Tunn.sampleEnv 0 0)) q ∧
      q.keepalives = 1 ∧ q.delivered = 1 ∧
      q.keepalives ≤ q.delivered + (q.timed.clock - 0) / fromSecs 0 := by
  obtain ⟨⟨q, results⟩, hrun, heq⟩ := Option.map_eq_some_iff.mp
    (show (Machine.run (Machine.guarded step fun q i => q.timed.Forward i)
        (start (Tunn.sampleTunn 1 2 1) (Tunn.sampleEnv 0 0)) quietRun).map
          (fun q => (q.1.keepalives, q.1.delivered)) = some (1, 1) by decide +kernel)
  have hreaches := Machine.reaches_of_guarded_run hrun
  exact ⟨q, hreaches, (Prod.mk.inj heq).1, (Prod.mk.inj heq).2, keepalives_bounded hreaches⟩

end Traffic

end NekoLink.Noise
