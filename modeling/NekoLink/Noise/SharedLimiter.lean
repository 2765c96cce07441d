import NekoLink.Foundations.Interleaving
import NekoLink.Noise.CookieReplies

/-!
# A rate limiter that threads share

The handlers call `verify_packet` and the timer calls `reset_count`, at once and without a lock
around the count. A call is taken apart into its atomic steps here, and what a thread computes
between two of them belongs to the step before.

* `alone_verifyPacket`: a call that no other comes between is `verify_packet` of the sequential
  limiter.
* `Inv.step`: in every period between two resets the counter steps have the places 0, 1, 2, ….
* `limiter_bound`: what every call returns, and how many pass without proving their address.
-/

namespace NekoLink.Noise.RateLimiter

open Wire Interleaving

variable {C : Prims}

/-! ## The steps of a call -/

/-- The arguments of `verify_packet`. -/
structure VerifyCall where
  srcAddr : Option IpAddr
  src : List UInt8
  dstLen : ℕ

namespace VerifyCall

variable (call : VerifyCall)

abbrev msg : List UInt8 := call.src.take (call.src.length - 32)

abbrev mac1 : List UInt8 := slice call.src (call.src.length - 32) (call.src.length - 16)

abbrev mac2 : List UInt8 := call.src.drop (call.src.length - 16)

/-- The first MAC is under the key of the limiter. -/
abbrev RightMac1 (C : Prims) (r : RateLimiter) : Prop :=
  (b2sKeyedMac16 C r.mac1Key.toList call.msg).toList = call.mac1

/-- The second MAC is under the cookie of the address. -/
abbrev ValidMac2 (C : Prims) (r : RateLimiter) (addr : IpAddr) (now : ℕ) : Prop :=
  (b2sKeyedMac16₂ C (r.currentCookie C addr now).toList call.msg call.mac1).toList = call.mac2

end VerifyCall

/-- A counter step: how many resets came before it, and how many counter steps since the last of
them. No step of the code reads it. -/
structure Ticket where
  period : ℕ
  place : ℕ

/-- Where a call is. -/
inductive Point
  | verifying (call : VerifyCall)
  /-- `mac1` is right, and `is_under_load` is next. -/
  | limiting (call : VerifyCall) (packet : Packet) (senderIdx : UInt32)
  | limited (call : VerifyCall) (packet : Packet) (senderIdx : UInt32) (ticket : Ticket)
      (underLoad : Bool)
  /-- `mac2` is wrong, and the nonce of the cookie reply is next. -/
  | replying (call : VerifyCall) (packet : Packet) (senderIdx : UInt32) (ticket : Ticket)
      (addr : IpAddr) (now : ℕ) (cookie : Bytes 16)
  /-- With the ticket of the call, and the time for which it computed a cookie. -/
  | verified (call : VerifyCall) (ticket : Option Ticket) (checked : Option ℕ)
      (result : Except TunnResult Packet)
  | resetting
  /-- The clock is read, and the lock of `last_reset` is next. -/
  | locking (currentTime : ℕ)
  | locked (currentTime : ℕ)
  | stored (currentTime : ℕ)
  | reset

/-- What the calls share, and for the tickets the numbers of resets and of counter steps. -/
structure Shared where
  limiter : RateLimiter
  /-- The process that has the lock of `last_reset`. -/
  lock : Option ℕ
  resets : ℕ
  counted : ℕ

inductive Request
  | verifyPacket (call : VerifyCall)
  | resetCount

def Request.point : Request → Point
  | .verifyPacket call => .verifying call
  | .resetCount => .resetting

section

variable (C)

/-- The packet is parsed and `mac1` is checked. -/
def entered (r : RateLimiter) (call : VerifyCall) : Point :=
  match parseIncomingPacket call.src with
  | .error e => .verified call none none (.error (.err e))
  | .ok packet =>
    match packet.handshakeSender with
    | none => .verified call none none (.ok packet)
    | some senderIdx =>
      if ¬call.RightMac1 C r then .verified call none none (.error (.err .invalidMac))
      else .limiting call packet senderIdx

/-- Under load `mac2` is checked, for an address. -/
def checkMac2 (r : RateLimiter) (call : VerifyCall) (packet : Packet) (senderIdx : UInt32)
    (ticket : Ticket) (now : ℕ) : Point :=
  match call.srcAddr with
  | none => .verified call (some ticket) none (.error (.err .underLoad))
  | some addr =>
    if ¬call.ValidMac2 C r addr now then
      if call.dstLen < cookieReplySz then
        .verified call (some ticket) (some now) (.error (.err .destinationBufferTooSmall))
      else .replying call packet senderIdx ticket addr now (r.currentCookie C addr now)
    else .verified call (some ticket) (some now) (.ok packet)

/-- The next atomic step of process `i`; a lock that is taken has to be waited for. -/
def atomic (i : ℕ) (s : Shared) : Point → ℕ → Option (Shared × Point)
  | .verifying call, _ => some (s, entered C s.limiter call)
  | .limiting call packet senderIdx, _ =>
    let (limiter, underLoad) := s.limiter.isUnderLoad
    some ({ s with limiter, counted := s.counted + 1 },
      .limited call packet senderIdx ⟨s.resets, s.counted⟩ underLoad)
  | .limited call packet senderIdx ticket underLoad, now =>
    if underLoad then some (s, checkMac2 C s.limiter call packet senderIdx ticket now)
    else some (s, .verified call (some ticket) none (.ok packet))
  | .replying call _ senderIdx ticket _ now cookie, _ =>
    let (limiter, nonce) := s.limiter.nonce C
    let encryptedCookie := C.xaeadSeal limiter.cookieKey nonce call.mac1 cookie
    some ({ s with limiter }, .verified call (some ticket) (some now)
      (.error (.writeToNetwork
        (PacketCookieReply.bytes { receiverIdx := senderIdx, nonce, encryptedCookie }))))
  | .verified .., _ => none
  | .resetting, now => some (s, .locking now)
  | .locking currentTime, _ =>
    if s.lock = none then some ({ s with lock := some i }, .locked currentTime) else none
  | .locked currentTime, _ =>
    if resetPeriod ≤ (currentTime - s.limiter.lastReset) / 10 ^ 9 then
      some ({ s with
        limiter := { s.limiter with count := 0 }, resets := s.resets + 1, counted := 0 },
        .stored currentTime)
    else some ({ s with lock := none }, .reset)
  | .stored currentTime, _ =>
    some ({ s with limiter := { s.limiter with lastReset := currentTime }, lock := none }, .reset)
  | .reset, _ => none

abbrev poolStep : Pool Shared Point → Move Request ℕ → Option (Pool Shared Point × Unit) :=
  Interleaving.step Request.point (atomic C)

end

/-- A limiter that nobody has called. -/
def fresh (r : RateLimiter) : Pool Shared Point := ⟨⟨r, none, 0, 0⟩, []⟩

/-! ## A call on its own -/

section Alone

variable {i now : ℕ} {s : Shared} {call : VerifyCall} {q : Shared × Point}

/-- The steps of process `i` on its own, at one time. -/
abbrev Alone (C : Prims) (i now : ℕ) : Shared × Point → Shared × Point → Prop :=
  Machine.Reaches (alone (atomic C) i) fun _ input => input = now

theorem Alone.next {k : Point} {r : Shared × Point} (h : atomic C i s k now = some q)
    (hrest : Alone C i now q r) : Alone C i now (s, k) r :=
  .head rfl (alone_eq_some h) hrest

/-- **A call that no other comes between** is `verify_packet` of the limiter. -/
theorem alone_verifyPacket (i : ℕ) (s : Shared) (call : VerifyCall) (now : ℕ) :
    ∃ counted ticket checked, Alone C i now (s, .verifying call)
      ({ s with
          limiter := (s.limiter.verifyPacket C call.srcAddr call.src call.dstLen now).1, counted },
        .verified call ticket checked
          (s.limiter.verifyPacket C call.srcAddr call.src call.dstLen now).2) := by
  have hfirst : atomic C i s (.verifying call) now = some (s, entered C s.limiter call) := rfl
  rcases hparse : parseIncomingPacket call.src with e | packet
  · rw [verifyPacket_error hparse]
    simp only [entered, hparse] at hfirst
    exact ⟨s.counted, none, none, .next hfirst .refl⟩
  rcases hsender : packet.handshakeSender with _ | senderIdx
  · rw [verifyPacket_not_handshake hparse hsender]
    simp only [entered, hparse, hsender] at hfirst
    exact ⟨s.counted, none, none, .next hfirst .refl⟩
  simp only [entered, hparse, hsender] at hfirst
  rcases h : s.limiter.verifyPacket C call.srcAddr call.src call.dstLen now with ⟨r, result⟩
  simp only [verifyPacket, hparse, hsender] at h
  split_ifs at h with hmac1 hload
  · cases h
    rw [if_pos hmac1] at hfirst
    exact ⟨s.counted, none, none, .next hfirst .refl⟩
  · rw [if_neg hmac1] at hfirst
    -- under load: the address and `mac2` decide
    have hcheck : atomic C i { s with
        limiter := s.limiter.isUnderLoad.1, counted := s.counted + 1 }
        (.limited call packet senderIdx ⟨s.resets, s.counted⟩ s.limiter.isUnderLoad.2) now =
        some (_, checkMac2 C s.limiter.isUnderLoad.1 call packet senderIdx _ now) := if_pos hload
    rcases haddr : call.srcAddr with _ | addr
    · rw [haddr] at h
      cases h
      simp only [checkMac2, haddr] at hcheck
      exact ⟨_, _, none, .next hfirst (.next rfl (.next hcheck .refl))⟩
    · rw [haddr] at h
      simp only [checkMac2, haddr] at hcheck
      simp only [formatCookieReply] at h
      split_ifs at h with hmac2 hdst
      · cases h
        rw [if_pos hmac2, if_pos hdst] at hcheck
        exact ⟨_, _, _, .next hfirst (.next rfl (.next hcheck .refl))⟩
      · cases h
        rw [if_pos hmac2, if_neg hdst] at hcheck
        exact ⟨_, _, _, .next hfirst (.next rfl (.next hcheck (.next rfl .refl)))⟩
      · cases h
        rw [if_neg hmac2] at hcheck
        exact ⟨_, _, _, .next hfirst (.next rfl (.next hcheck .refl))⟩
  · rw [if_neg hmac1] at hfirst
    cases h
    exact ⟨_, _, none, .next hfirst (.next rfl (.next (if_neg hload) .refl))⟩

/-- Reset calls likewise. -/
theorem alone_resetCount (i : ℕ) (s : Shared) (now : ℕ) (hlock : s.lock = none) :
    ∃ resets counted, Alone C i now (s, .resetting)
      ({ s with limiter := s.limiter.resetCount now, resets, counted }, .reset) := by
  obtain ⟨limiter, lock, resets, counted⟩ := s
  obtain rfl : lock = none := hlock
  rw [resetCount]
  split_ifs with hperiod
  · exact ⟨resets + 1, 0, .next rfl (.next rfl (.next (if_pos hperiod) (.next rfl .refl)))⟩
  · exact ⟨resets, counted, .next rfl (.next rfl (.next (if_neg hperiod) .refl))⟩

/-- So it is in the pool, whatever the other processes are at. -/
theorem reaches_verifyPacket {p : Pool Shared Point} (hcall : p.procs[i]? = some (.verifying call))
    (now : ℕ) :
    ∃ counted ticket checked, Machine.Reaches (poolStep C) (fun _ m => ∃ input, m = .go i input) p
      ⟨{ p.shared with
          limiter := (p.shared.limiter.verifyPacket C call.srcAddr call.src call.dstLen now).1
          counted },
        p.procs.set i (.verified call ticket checked
          (p.shared.limiter.verifyPacket C call.srcAddr call.src call.dstLen now).2)⟩ := by
  obtain ⟨counted, ticket, checked, h⟩ := alone_verifyPacket (C := C) i p.shared call now
  exact ⟨counted, ticket, checked, reaches_of_alone h hcall⟩

end Alone

/-! ## What a call returns -/

section Results

variable {r r' : RateLimiter} {call : VerifyCall} {packet : Packet} {senderIdx : UInt32}
  {s s' : Shared} {k k' : Point} {i now : ℕ} {ticket : Ticket}

/-- A handshake message whose first MAC is right. -/
structure Admitted (C : Prims) (r : RateLimiter) (call : VerifyCall) (packet : Packet)
    (senderIdx : UInt32) : Prop where
  parse : parseIncomingPacket call.src = .ok packet
  sender : packet.handshakeSender = some senderIdx
  mac1 : call.RightMac1 C r

/-- What is returned past the limit: `UnderLoad` without an address, else the packet or the cookie
of the address. -/
def Refusal (C : Prims) (r : RateLimiter) (call : VerifyCall) (packet : Packet)
    (senderIdx : UInt32) (checked : Option ℕ) (result : Except TunnResult Packet) : Prop :=
  match call.srcAddr with
  | none => result = .error (.err .underLoad)
  | some addr => ∃ now, checked = some now ∧
    (call.ValidMac2 C r addr now → result = .ok packet) ∧
    (¬call.ValidMac2 C r addr now → ∃ nonce, result = .error (.writeToNetwork
      (PacketCookieReply.bytes ⟨senderIdx, nonce,
        C.xaeadSeal r.cookieKey nonce call.mac1 (r.currentCookie C addr now)⟩)))

/-- **What a call has returned.** Only a handshake message whose first MAC is right has a ticket,
and the place on its ticket decides whether it is limited. -/
structure Settled (C : Prims) (r : RateLimiter) (call : VerifyCall) (ticket : Option Ticket)
    (checked : Option ℕ) (result : Except TunnResult Packet) : Prop where
  malformed : ∀ e, parseIncomingPacket call.src = .error e →
    ticket = none ∧ result = .error (.err e)
  notHandshake : ∀ packet, parseIncomingPacket call.src = .ok packet →
    packet.handshakeSender = none → ticket = none ∧ result = .ok packet
  wrongMac1 : ∀ packet senderIdx, parseIncomingPacket call.src = .ok packet →
    packet.handshakeSender = some senderIdx → ¬call.RightMac1 C r →
    ticket = none ∧ result = .error (.err .invalidMac)
  admitted : ∀ packet senderIdx, Admitted C r call packet senderIdx → ∃ t, ticket = some t ∧
    (t.place < r.limit → result = .ok packet) ∧
    (r.limit ≤ t.place → Refusal C r call packet senderIdx checked result)

/-- What is known of a call where it is. -/
def Point.Good (C : Prims) (r : RateLimiter) : Point → Prop
  | .verifying call => cookieReplySz ≤ call.dstLen
  | .limiting call packet senderIdx =>
    cookieReplySz ≤ call.dstLen ∧ Admitted C r call packet senderIdx
  | .limited call packet senderIdx ticket underLoad =>
    cookieReplySz ≤ call.dstLen ∧ Admitted C r call packet senderIdx ∧
      underLoad = decide (r.limit ≤ ticket.place)
  | .replying call packet senderIdx ticket addr now cookie =>
    Admitted C r call packet senderIdx ∧ r.limit ≤ ticket.place ∧ call.srcAddr = some addr ∧
      ¬call.ValidMac2 C r addr now ∧ cookie = r.currentCookie C addr now
  | .verified call ticket checked result => Settled C r call ticket checked result
  | _ => True

theorem Same.rightMac1 (h : Same r r') (call : VerifyCall) :
    call.RightMac1 C r' ↔ call.RightMac1 C r := by
  rw [VerifyCall.RightMac1, VerifyCall.RightMac1, h.mac1Key]

theorem Same.validMac2 (h : Same r r') (call : VerifyCall) (addr : IpAddr) (now : ℕ) :
    call.ValidMac2 C r' addr now ↔ call.ValidMac2 C r addr now := by
  rw [VerifyCall.ValidMac2, VerifyCall.ValidMac2, h.currentCookie_eq rfl]

/-- The result of an admitted message. -/
theorem Admitted.settled (h : Admitted C r call packet senderIdx) {checked : Option ℕ}
    {result : Except TunnResult Packet} (hwithin : ticket.place < r.limit → result = .ok packet)
    (hpast : r.limit ≤ ticket.place → Refusal C r call packet senderIdx checked result) :
    Settled C r call (some ticket) checked result where
  malformed e he := by
    rw [h.parse] at he
    cases he
  notHandshake p hp hnone := by
    rw [h.parse] at hp
    cases hp
    rw [h.sender] at hnone
    cases hnone
  wrongMac1 p idx hp hs hwrong := absurd h.mac1 hwrong
  admitted p idx h' := by
    obtain rfl : packet = p := Except.ok.inj (h.parse.symm.trans h'.parse)
    obtain rfl : senderIdx = idx := Option.some.inj (h.sender.symm.trans h'.sender)
    exact ⟨ticket, rfl, hwithin, hpast⟩

theorem good_entered (hsame : Same r r') (hdst : cookieReplySz ≤ call.dstLen) :
    (entered C r' call).Good C r := by
  simp only [entered, hsame.rightMac1]
  split
  · next e he =>
    refine ⟨by simp [he], by simp [he], by simp [he], fun p idx h => ?_⟩
    exact absurd (he.symm.trans h.parse) nofun
  · next packet hp =>
    split
    · next hnone =>
      refine ⟨by simp [hp], by simp [hp], fun p idx hp' hs => ?_, fun p idx h => ?_⟩
      · obtain rfl : packet = p := Except.ok.inj (hp.symm.trans hp')
        exact absurd (hnone.symm.trans hs) nofun
      · obtain rfl : packet = p := Except.ok.inj (hp.symm.trans h.parse)
        exact absurd (hnone.symm.trans h.sender) nofun
    · next idx hs =>
      split_ifs with hmac1
      · exact ⟨hdst, hp, hs, hmac1⟩
      · refine ⟨by simp [hp], fun p hp' hnone => ?_, by simp, fun p idx h => absurd h.mac1 hmac1⟩
        obtain rfl : packet = p := Except.ok.inj (hp.symm.trans hp')
        exact absurd (hs.symm.trans hnone) nofun

/-- The checks of a call under load, with keys that are still those of the limiter `r`. -/
theorem good_checkMac2 (hsame : Same r r') (hdst : cookieReplySz ≤ call.dstLen)
    (hadmitted : Admitted C r call packet senderIdx) (hpast : r.limit ≤ ticket.place) :
    (checkMac2 C r' call packet senderIdx ticket now).Good C r := by
  have hnot : ticket.place < r.limit → False := fun h => absurd hpast (not_le.mpr h)
  rw [checkMac2]
  split
  · next haddr =>
    refine hadmitted.settled (fun h => (hnot h).elim) fun _ => ?_
    rw [Refusal, haddr]
  · next addr haddr =>
    split_ifs with hmac2 hshort
    · exact hadmitted.settled (fun h => (hnot h).elim) fun _ => by
        rw [Refusal, haddr]
        exact ⟨now, rfl, fun _ => rfl, fun h => absurd ((hsame.validMac2 call addr now).mp hmac2) h⟩
    · exact absurd hdst (not_le.mpr hshort)
    · exact ⟨hadmitted, hpast, haddr, fun h => hmac2 ((hsame.validMac2 call addr now).mpr h),
        hsame.currentCookie_eq rfl⟩

/-- **What is known of a call** stays known, while the count is right. -/
theorem good_atomic (hsame : Same r s.limiter) (hcount : s.limiter.count = s.counted)
    (hgood : k.Good C r) (h : atomic C i s k now = some (s', k')) : k'.Good C r := by
  cases k with
  | verifying call =>
    cases h
    exact good_entered hsame hgood
  | limiting call packet senderIdx =>
    cases h
    refine ⟨hgood.1, hgood.2, ?_⟩
    rw [hcount, hsame.limit]
  | limited call packet senderIdx ticket underLoad =>
    obtain ⟨hdst, hadmitted, hload⟩ := hgood
    rw [atomic] at h
    split_ifs at h with hunder
    · cases h
      rw [hload, decide_eq_true_eq] at hunder
      exact good_checkMac2 hsame hdst hadmitted hunder
    · cases h
      rw [hload, decide_eq_true_eq] at hunder
      exact hadmitted.settled (fun _ => rfl) fun h => absurd h hunder
  | replying call packet senderIdx ticket addr now cookie =>
    obtain ⟨hadmitted, hpast, haddr, hmac2, rfl⟩ := hgood
    cases h
    refine hadmitted.settled (fun h => absurd hpast (not_le.mpr h)) fun _ => ?_
    rw [Refusal, haddr]
    refine ⟨now, rfl, fun h => absurd h hmac2, fun _ => ⟨(s.limiter.nonce C).2, ?_⟩⟩
    rw [← hsame.cookieKey]
    rfl
  | verified | reset => cases h
  | resetting =>
    cases h
    trivial
  | locking currentTime =>
    rw [atomic] at h
    split_ifs at h
    cases h
    trivial
  | locked currentTime =>
    rw [atomic] at h
    split_ifs at h <;> cases h <;> trivial
  | stored currentTime =>
    cases h
    trivial

end Results

/-! ## Tickets -/

def Point.ticket : Point → Option Ticket
  | .limited _ _ _ ticket _ => some ticket
  | .replying _ _ _ ticket .. => some ticket
  | .verified _ ticket _ _ => ticket
  | _ => none

/-- The call has a ticket of the period, with a place below the bound. -/
def Point.counts (period bound : ℕ) (k : Point) : Bool :=
  match k.ticket with
  | some t => t.period = period ∧ t.place < bound
  | none => false

/-- The call has a ticket of the period. -/
def Point.countsIn (period : ℕ) (k : Point) : Bool := k.ticket.any fun t => t.period = period

/-- A handshake message has passed in the period, and not for its second MAC. -/
def Point.passes (C : Prims) (r : RateLimiter) (period : ℕ) : Point → Bool
  | .verified call (some ticket) checked (.ok _) =>
    ticket.period = period ∧
      ¬∃ addr ∈ call.srcAddr, ∃ now ∈ checked, call.ValidMac2 C r addr now
  | _ => false

section Tickets

variable {r : RateLimiter} {s s' : Shared} {k k' : Point} {i now period bound : ℕ}
  {p p' : Pool Shared Point} {m : Move Request ℕ} {o : Unit}

/-- The ticket is of a period that has ended, or of the present one with a place that is given. -/
def Issued (s : Shared) (t : Ticket) : Prop :=
  t.period < s.resets ∨ t.period = s.resets ∧ t.place < s.counted

/-- What a step does to the counts. -/
inductive Effect (s s' : Shared) (k k' : Point) : Prop
  | counts (hk : k.ticket = none) (hk' : k'.ticket = some ⟨s.resets, s.counted⟩)
      (hlimiter : s'.limiter = s.limiter.isUnderLoad.1) (hresets : s'.resets = s.resets)
      (hcounted : s'.counted = s.counted + 1)
  | resets (hk : k'.ticket = k.ticket) (hcount : s'.limiter.count = 0)
      (hresets : s'.resets = s.resets + 1) (hcounted : s'.counted = 0)
  | other (hk : k'.ticket = k.ticket) (hcount : s'.limiter.count = s.limiter.count)
      (hresets : s'.resets = s.resets) (hcounted : s'.counted = s.counted)

theorem ticket_entered (r : RateLimiter) (call : VerifyCall) : (entered C r call).ticket = none := by
  rw [entered]
  split
  · rfl
  · split
    · rfl
    · split_ifs <;> rfl

theorem ticket_checkMac2 (r : RateLimiter) (call : VerifyCall) (packet : Packet)
    (senderIdx : UInt32) (ticket : Ticket) (now : ℕ) :
    (checkMac2 C r call packet senderIdx ticket now).ticket = some ticket := by
  rw [checkMac2]
  split
  · rfl
  · split_ifs <;> rfl

/-- **What an atomic step does.** -/
theorem atomic_effect (h : atomic C i s k now = some (s', k')) :
    Same s.limiter s'.limiter ∧ Effect s s' k k' := by
  cases k with
  | verifying call =>
    cases h
    exact ⟨.refl _, .other (ticket_entered _ _) rfl rfl rfl⟩
  | limiting call packet senderIdx =>
    cases h
    exact ⟨same_isUnderLoad _, .counts rfl rfl rfl rfl rfl⟩
  | limited call packet senderIdx ticket underLoad =>
    rw [atomic] at h
    split_ifs at h
    · cases h
      exact ⟨.refl _, .other (ticket_checkMac2 ..) rfl rfl rfl⟩
    · cases h
      exact ⟨.refl _, .other rfl rfl rfl rfl⟩
  | replying call packet senderIdx ticket addr now cookie =>
    cases h
    exact ⟨⟨rfl, rfl, rfl, rfl, rfl, rfl⟩, .other rfl rfl rfl rfl⟩
  | verified | reset => cases h
  | resetting =>
    cases h
    exact ⟨.refl _, .other rfl rfl rfl rfl⟩
  | locking currentTime =>
    rw [atomic] at h
    split_ifs at h
    cases h
    exact ⟨.refl _, .other rfl rfl rfl rfl⟩
  | locked currentTime =>
    rw [atomic] at h
    split_ifs at h
    · cases h
      exact ⟨⟨rfl, rfl, rfl, rfl, rfl, rfl⟩, .resets rfl rfl rfl rfl⟩
    · cases h
      exact ⟨.refl _, .other rfl rfl rfl rfl⟩
  | stored currentTime =>
    cases h
    exact ⟨⟨rfl, rfl, rfl, rfl, rfl, rfl⟩, .other rfl rfl rfl rfl⟩

/-- **The invariant of the count**: the counter steps of the present period have the places below
their number, each of them one. -/
structure Inv (C : Prims) (r : RateLimiter) (p : Pool Shared Point) : Prop where
  same : Same r p.shared.limiter
  count : p.shared.limiter.count = p.shared.counted
  present : ∀ bound,
    p.procs.countP (Point.counts p.shared.resets bound) = min bound p.shared.counted
  bounded : ∀ period bound, p.procs.countP (Point.counts period bound) ≤ bound
  issued : ∀ k ∈ p.procs, ∀ t, k.ticket = some t → Issued p.shared t
  good : ∀ k ∈ p.procs, k.Good C r

theorem counts_congr (h : k'.ticket = k.ticket) (period bound : ℕ) :
    k'.counts period bound = k.counts period bound := by
  rw [Point.counts, h, Point.counts]

theorem counts_none (h : k.ticket = none) (period bound : ℕ) : k.counts period bound = false := by
  rw [Point.counts, h]

theorem counts_some {t : Ticket} (h : k.ticket = some t) (period bound : ℕ) :
    k.counts period bound = decide (t.period = period ∧ t.place < bound) := by
  rw [Point.counts, h]

theorem ticket_enter (request : Request) : request.point.ticket = none := by
  cases request <;> rfl

/-- A counter step takes the next place. -/
theorem countP_counts (hk : p.procs[i]? = some k) (hticket : k.ticket = none)
    (hticket' : k'.ticket = some ⟨p.shared.resets, p.shared.counted⟩) (period bound : ℕ) :
    (p.procs.set i k').countP (Point.counts period bound) =
      p.procs.countP (Point.counts period bound) +
        if p.shared.resets = period ∧ p.shared.counted < bound then 1 else 0 := by
  have hnone := counts_none hticket period bound
  have hsome := counts_some hticket' period bound
  split_ifs with hnew
  · exact countP_go_new hk hnone (hsome.trans (decide_eq_true hnew))
  · exact countP_go_same hk ((hsome.trans (decide_eq_false hnew)).trans hnone.symm)

/-- The tickets of the others stay issued. -/
theorem Inv.issued_set (hinv : Inv C r p) (hissued : ∀ t, k'.ticket = some t → Issued s' t)
    (hmono : ∀ t, Issued p.shared t → Issued s' t) :
    ∀ q ∈ p.procs.set i k', ∀ t, q.ticket = some t → Issued s' t := by
  intro q hq t ht
  obtain hq | rfl := List.mem_or_eq_of_mem_set hq
  · exact hmono t (hinv.issued q hq t ht)
  · exact hissued t ht

section Moves

variable (hinv : Inv C r p) (hk : p.procs[i]? = some k) (hsame : Same p.shared.limiter s'.limiter)
  (hgood : ∀ q ∈ p.procs.set i k', q.Good C r)

include hinv hk hsame hgood

theorem Inv.counts (hticket : k.ticket = none)
    (hticket' : k'.ticket = some ⟨p.shared.resets, p.shared.counted⟩)
    (hlimiter : s'.limiter = p.shared.limiter.isUnderLoad.1) (hresets : s'.resets = p.shared.resets)
    (hcounted : s'.counted = p.shared.counted + 1) (hcalls : p.procs.length < 2 ^ 64) :
    Inv C r ⟨s', p.procs.set i k'⟩ := by
  have hcountP := countP_counts hk hticket hticket'
  have hpresent : ∀ bound, (p.procs.set i k').countP (Point.counts s'.resets bound) =
      min bound s'.counted := by
    intro bound
    rw [hresets, hcountP, hinv.present, hcounted]
    split_ifs with hnew
    · omega
    · have hle : bound ≤ p.shared.counted := not_lt.mp fun hlt => hnew ⟨rfl, hlt⟩
      omega
  refine ⟨hinv.same.trans hsame, ?_, hpresent, fun period bound => ?_,
    hinv.issued_set (fun t ht => ?_) (fun t ht => ?_), hgood⟩
  · -- the counter steps of the period are of different calls, so that the count does not wrap
    have hle := List.countP_le_length (l := p.procs.set i k')
      (p := Point.counts s'.resets s'.counted)
    rw [hpresent, min_self, List.length_set] at hle
    rw [hlimiter, isUnderLoad]
    dsimp only
    rw [hinv.count, hcounted]
    exact Nat.mod_eq_of_lt (by omega)
  · rw [hcountP]
    split_ifs with hnew
    · obtain ⟨rfl, hlt⟩ := hnew
      rw [hinv.present]
      omega
    · exact hinv.bounded period bound
  · rw [hticket'] at ht
    cases ht
    exact Or.inr ⟨hresets.symm, hcounted ▸ Nat.lt_succ_self _⟩
  · rw [Issued, hresets, hcounted]
    exact ht.imp_right fun h => ⟨h.1, h.2.trans (Nat.lt_succ_self _)⟩

theorem Inv.resets (hticket : k'.ticket = k.ticket) (hcount : s'.limiter.count = 0)
    (hresets : s'.resets = p.shared.resets + 1) (hcounted : s'.counted = 0) :
    Inv C r ⟨s', p.procs.set i k'⟩ := by
  have hcountP : ∀ period bound, (p.procs.set i k').countP (Point.counts period bound) =
      p.procs.countP (Point.counts period bound) :=
    fun period bound => countP_go_same hk (counts_congr hticket _ _)
  have hmono : ∀ t, Issued p.shared t → Issued s' t := by
    intro t ht
    rw [Issued, hresets]
    exact Or.inl (Nat.lt_succ_of_le (ht.elim le_of_lt fun h => h.1.le))
  have hissued := hinv.issued k (List.mem_of_getElem? hk)
  refine ⟨hinv.same.trans hsame, hcount.trans hcounted.symm, fun bound => ?_,
    fun period bound => (hcountP _ _).trans_le (hinv.bounded period bound),
    hinv.issued_set (fun t ht => hmono t (hissued t (hticket.symm.trans ht))) hmono, hgood⟩
  -- the period that begins has no ticket yet
  dsimp only
  rw [hcounted, Nat.min_zero, hcountP, List.countP_eq_zero]
  intro q hq
  rcases ht : q.ticket with _ | t
  · rw [counts_none ht]
    exact Bool.false_ne_true
  · have hle := hinv.issued q hq t ht
    rw [Issued] at hle
    rw [counts_some ht, decide_eq_true_eq]
    omega

theorem Inv.other (hticket : k'.ticket = k.ticket)
    (hcount : s'.limiter.count = p.shared.limiter.count) (hresets : s'.resets = p.shared.resets)
    (hcounted : s'.counted = p.shared.counted) : Inv C r ⟨s', p.procs.set i k'⟩ := by
  have hcountP : ∀ period bound, (p.procs.set i k').countP (Point.counts period bound) =
      p.procs.countP (Point.counts period bound) :=
    fun period bound => countP_go_same hk (counts_congr hticket _ _)
  have hmono : ∀ t, Issued p.shared t → Issued s' t := by
    intro t ht
    rwa [Issued, hresets, hcounted]
  have hissued := hinv.issued k (List.mem_of_getElem? hk)
  refine ⟨hinv.same.trans hsame, (hcount.trans hinv.count).trans hcounted.symm, fun bound => ?_,
    fun period bound => (hcountP _ _).trans_le (hinv.bounded period bound),
    hinv.issued_set (fun t ht => hmono t (hissued t (hticket.symm.trans ht))) hmono, hgood⟩
  dsimp only
  rw [hcountP, hresets, hinv.present, hcounted]

end Moves

theorem Inv.enter (hinv : Inv C r p) (request : Request)
    (hgood : ∀ q ∈ p.procs ++ [request.point], q.Good C r) :
    Inv C r { p with procs := p.procs ++ [request.point] } := by
  have hcountP : ∀ period bound, (p.procs ++ [request.point]).countP (Point.counts period bound) =
      p.procs.countP (Point.counts period bound) :=
    fun period bound => countP_enter _ (counts_none (ticket_enter request) _ _)
  refine ⟨hinv.same, hinv.count, fun bound => (hcountP _ _).trans (hinv.present bound),
    fun period bound => (hcountP _ _).trans_le (hinv.bounded period bound), fun q hq t ht => ?_,
    hgood⟩
  obtain hq | hq := List.mem_append.mp hq
  · exact hinv.issued q hq t ht
  · rw [List.mem_singleton.mp hq, ticket_enter] at ht
    cases ht

/-- **One move** of a pool of fewer than `2 ^ 64` calls. -/
theorem Inv.step (hinv : Inv C r p) (h : poolStep C p m = some (p', o))
    (hdst : ∀ call, m = .enter (.verifyPacket call) → cookieReplySz ≤ call.dstLen)
    (hcalls : p'.procs.length < 2 ^ 64) : Inv C r p' := by
  have hgood : ∀ k ∈ p'.procs, k.Good C r := by
    refine forall_procs_of_step hinv.good h ?_ ?_
    · rintro (call | _) hm
      · exact hdst call hm
      · trivial
    · intro i now k s' k' _ hk hatomic
      exact good_atomic hinv.same hinv.count (hinv.good k hk) hatomic
  obtain ⟨request, hm, rfl⟩ | ⟨i, now, k, s', k', -, hk, hatomic, rfl⟩ := step_cases h
  · exact hinv.enter request hgood
  · rw [List.length_set] at hcalls
    obtain ⟨hsame, heffect⟩ := atomic_effect hatomic
    cases heffect with
    | counts hticket hticket' hlimiter hresets hcounted =>
      exact hinv.counts hk hsame hgood hticket hticket' hlimiter hresets hcounted hcalls
    | resets hticket hcount hresets hcounted =>
      exact hinv.resets hk hsame hgood hticket hcount hresets hcounted
    | other hticket hcount hresets hcounted =>
      exact hinv.other hk hsame hgood hticket hcount hresets hcounted

/-! ## The bound -/

theorem inv_fresh (r : RateLimiter) (hcount : r.count = 0) : Inv C r (fresh r) where
  same := .refl r
  count := hcount
  present bound := by rw [fresh, List.countP_nil, Nat.min_zero]
  bounded _ bound := Nat.zero_le bound
  issued := nofun
  good := nofun

theorem inv_of_reaches (hcount : r.count = 0) (h : Machine.Reaches (poolStep C)
    (fun _ m => ∀ call, m = .enter (.verifyPacket call) → cookieReplySz ≤ call.dstLen) (fresh r) p)
    (hcalls : p.procs.length < 2 ^ 64) : Inv C r p := by
  refine Machine.Reaches.invariant (I := fun p => p.procs.length < 2 ^ 64 → Inv C r p) h
    (fun _ => inv_fresh r hcount) ?_ hcalls
  intro p m p' o hinv hdst hstep hcalls'
  exact (hinv ((length_le_of_step hstep).trans_lt hcalls')).step hstep hdst hcalls'

/-- What the count has is what the tickets of the period take. -/
theorem Inv.count_eq (hinv : Inv C r p) :
    p.procs.countP (Point.countsIn p.shared.resets) = p.shared.limiter.count := by
  have hpresent := hinv.present p.shared.counted
  rw [min_self] at hpresent
  rw [hinv.count, ← hpresent]
  refine List.countP_congr fun k hk => ?_
  rcases ht : k.ticket with _ | t
  · rw [Point.countsIn, ht, counts_none ht, Option.any_none]
  · have hissued := hinv.issued k hk t ht
    rw [Issued] at hissued
    rw [Point.countsIn, ht, counts_some ht, Option.any_some, decide_eq_true_eq, decide_eq_true_eq]
    omega

/-- Only an admitted message has a ticket. -/
theorem Settled.exists_admitted {call : VerifyCall} {t : Ticket} {checked : Option ℕ}
    {result : Except TunnResult Packet} (h : Settled C r call (some t) checked result) :
    ∃ packet senderIdx, Admitted C r call packet senderIdx := by
  rcases hparse : parseIncomingPacket call.src with e | packet
  · exact absurd (h.malformed e hparse).1 nofun
  rcases hsender : packet.handshakeSender with _ | senderIdx
  · exact absurd (h.notHandshake packet hparse hsender).1 nofun
  by_cases hmac1 : call.RightMac1 C r
  · exact ⟨packet, senderIdx, hparse, hsender, hmac1⟩
  · exact absurd (h.wrongMac1 packet senderIdx hparse hsender hmac1).1 nofun

/-- What passes without a proof of its address has a place below the limit. -/
theorem counts_of_passes (hgood : k.Good C r) (hpasses : k.passes C r period = true) :
    k.counts period r.limit = true := by
  rw [Point.passes.eq_def] at hpasses
  split at hpasses
  · next call ticket checked packet =>
    obtain ⟨hperiod, hproof⟩ := of_decide_eq_true hpasses
    obtain ⟨packet', senderIdx, hadmitted⟩ := Settled.exists_admitted hgood
    obtain ⟨t, heq, -, hpast⟩ := Settled.admitted hgood packet' senderIdx hadmitted
    cases heq
    refine (counts_some rfl _ _).trans (decide_eq_true ⟨hperiod, not_le.mp fun hle => ?_⟩)
    have hrefusal := hpast hle
    rw [Refusal] at hrefusal
    split at hrefusal
    · cases hrefusal
    · next addr haddr =>
      obtain ⟨now, hchecked, -, hcookie⟩ := hrefusal
      obtain ⟨nonce, heq⟩ := hcookie fun hvalid => hproof ⟨addr, haddr, now, hchecked, hvalid⟩
      cases heq
  · cases hpasses

/-- No more pass in a period without a proof than the limit allows. -/
theorem Inv.passes_le (hinv : Inv C r p) (period : ℕ) :
    p.procs.countP (Point.passes C r period) ≤ r.limit :=
  (List.countP_mono_left fun k hk => counts_of_passes (hinv.good k hk)).trans
    (hinv.bounded period r.limit)

/-- **The limiter is bounded.** In every period between two resets at most `limit` handshake
messages pass that do not prove their address, only messages with a right first MAC take from the
count, and what every call returns is settled by its place in the period. -/
theorem limiter_bound {publicKey : Bytes 32} {limit : ℕ} {seed : LimiterSeed}
    (h : Machine.Reaches (poolStep C)
      (fun _ m => ∀ call, m = .enter (.verifyPacket call) → cookieReplySz ≤ call.dstLen)
      (fresh (.new C publicKey limit seed)) p)
    (hcalls : p.procs.length < 2 ^ 64) :
    (∀ period, p.procs.countP (Point.passes C (.new C publicKey limit seed) period) ≤ limit) ∧
      p.procs.countP (Point.countsIn p.shared.resets) = p.shared.limiter.count ∧
      ∀ call ticket checked result, .verified call ticket checked result ∈ p.procs →
        Settled C (.new C publicKey limit seed) call ticket checked result := by
  have hinv := inv_of_reaches rfl h hcalls
  exact ⟨hinv.passes_le, hinv.count_eq, fun call ticket checked result hk => hinv.good _ hk⟩

end Tickets

/-! ## Two initiations at once -/

/-- A limiter that lets one message pass. -/
def singleLimiter : RateLimiter :=
  .new bindingPrims (bindingPrims.publicKey (fill 32 2)) 1 ⟨fill 16 9, fill 32 9, 0, 0⟩

def initiation : VerifyCall := ⟨some loadedAddr, loadedMessage, 64⟩

/-- Two threads with the same initiation, of which each counts before the other returns. -/
def floodMoves : List (Move Request ℕ) :=
  [.enter (.verifyPacket initiation), .enter (.verifyPacket initiation), .go 0 5, .go 1 5, .go 1 5,
    .go 0 5, .go 0 5, .go 1 5, .go 0 5]

/-- One of the two passes. -/
theorem limiter_bound_sample : ∃ p os,
    Machine.run (poolStep bindingPrims) (fresh singleLimiter) floodMoves = some (p, os) ∧
      p.procs.countP (Point.passes bindingPrims singleLimiter 0) = 1 ∧
      p.procs.countP (Point.countsIn p.shared.resets) = 2 := by
  have hrun : (Machine.run (poolStep bindingPrims) (fresh singleLimiter) floodMoves).map
      (fun q => (q.1.procs.length, q.1.procs.countP (Point.passes bindingPrims singleLimiter 0),
        q.1.shared.limiter.count)) = some (2, 1, 2) := by decide +kernel
  obtain ⟨⟨p, os⟩, hrun, heq⟩ := Option.map_eq_some_iff.mp hrun
  rw [Prod.mk.injEq, Prod.mk.injEq] at heq
  have hreaches := Machine.reaches_of_run_of_forall (Q := fun _ m =>
    ∀ call, m = .enter (.verifyPacket call) → cookieReplySz ≤ call.dstLen) hrun ?_
  · obtain ⟨hbound, hcount, -⟩ := limiter_bound hreaches (by rw [heq.1]; decide)
    exact ⟨p, os, hrun, le_antisymm (hbound 0) heq.2.1.ge, hcount.trans heq.2.2⟩
  · intro m hm _ call heq
    subst heq
    simp only [floodMoves, List.mem_cons, Move.enter.injEq, Request.verifyPacket.injEq,
      reduceCtorEq, List.not_mem_nil, or_false, or_self] at hm
    rw [hm]
    exact le_rfl

end NekoLink.Noise.RateLimiter
