import NekoLink.Noise.TunnSteps

/-!
# What a tunnel makes of a packet

A packet that the rate limiter lets pass is refused, or it is authentic, or it is a cookie reply.

* `handleVerifiedPacket_cases`: these three, with what they leave of the tunnel.
* `rejected_untouched`: an error leaves the tunnel as it was, but for the rate limiter's count and
  for an authentic data packet with an invalid content.
-/

namespace NekoLink.Noise

open Wire

variable {C : Prims}

/-! ## Sessions and handshakes -/

/-- A data packet under the session, with a fresh counter, opens to `ret`. -/
structure Session.Opens (C : Prims) (s : Session) (p : PacketData) (ret : List UInt8) : Prop where
  index : p.receiverIdx = s.receivingIndex
  fresh : s.receivingCounterQuickCheck p.counter = some (.ok ())
  opened : openBox C s.receiver p.counter p.encryptedEncapsulatedPacket p.tag_le = some ret

/-- A data packet that is decrypted opens. -/
theorem Session.opens_of_receivePacketData {s s' : Session} {p : PacketData} {dstLen : ℕ}
    {ret : List UInt8} (h : s.receivePacketData C p dstLen = some (s', .ok ret)) :
    s.Opens C p ret := by
  obtain ⟨hidx, hfresh, hopen, -⟩ := mark_of_receivePacketData h
  exact ⟨hidx, hfresh, hopen⟩

namespace Handshake

variable {h h' : Handshake C}

/-- The cookie reply opens under the key of the peer's public key and the last MAC sent. -/
def AcceptsCookie (h : Handshake C) (packet : PacketCookieReply) : Prop :=
  ∃ mac1 cookie, h.cookies.lastMac1 = some mac1 ∧ packet.receiverIdx = h.cookies.index ∧
    C.xaeadOpen (b2sHash C labelCookie h.params.peerStaticPublic.toList) packet.nonce mac1.toList
      (n := 16) packet.encryptedCookie = some cookie

/-- A cookie reply is refused, or it opens and is taken. -/
theorem receiveCookieReply_iff (h : Handshake C) (packet : PacketCookieReply) :
    (¬ h.AcceptsCookie packet ∧ ∃ e, h.receiveCookieReply packet = (h, .error e)) ∨
      (h.AcceptsCookie packet ∧ ∃ h', h.receiveCookieReply packet = (h', .ok ())) := by
  rw [receiveCookieReply, AcceptsCookie]
  rcases hmac : h.cookies.lastMac1 with _ | mac1
  · refine Or.inl ⟨?_, _, rfl⟩
    rintro ⟨mac1, cookie, hnone, -⟩
    cases hnone
  · dsimp only
    by_cases hidx : packet.receiverIdx = h.cookies.index
    · rw [if_neg (not_not.mpr hidx)]
      rcases hopen : C.xaeadOpen (b2sHash C labelCookie h.params.peerStaticPublic.toList)
        packet.nonce mac1.toList (n := 16) packet.encryptedCookie with _ | cookie
      · refine Or.inl ⟨?_, _, rfl⟩
        rintro ⟨mac1', cookie, hsome, -, hopen'⟩
        cases hsome
        rw [hopen] at hopen'
        cases hopen'
      · exact Or.inr ⟨⟨mac1, cookie, rfl, hidx, hopen⟩, _, rfl⟩
    · rw [if_pos hidx]
      refine Or.inl ⟨?_, _, rfl⟩
      rintro ⟨mac1', cookie, -, hidx', -⟩
      exact hidx hidx'

end Handshake

/-! ## The rate limiter -/

/-- Unless the limiter answers by a cookie reply, only its count has changed. -/
theorem RateLimiter.verifyPacket_count {r r' : RateLimiter} {srcAddr : Option IpAddr}
    {src : List UInt8} {dstLen now : ℕ} {result : Except TunnResult Packet}
    (h : r.verifyPacket C srcAddr src dstLen now = (r', result))
    (hreply : ∀ reply, result ≠ .error (.writeToNetwork reply)) :
    ∃ count, r' = { r with count } := by
  rcases hparse : parseIncomingPacket src with e | packet
  · rw [verifyPacket_error hparse] at h
    cases h
    exact ⟨r.count, rfl⟩
  · rcases hsender : packet.handshakeSender with _ | senderIdx
    · rw [verifyPacket_not_handshake hparse hsender] at h
      cases h
      exact ⟨r.count, rfl⟩
    · simp only [verifyPacket, hparse, hsender, isUnderLoad, decide_eq_true_eq] at h
      split at h
      · cases h
        exact ⟨r.count, rfl⟩
      · split at h
        · rcases srcAddr with _ | addr
          · cases h
            exact ⟨_, rfl⟩
          · obtain heq | ⟨r'', reply, -, heq⟩ := formatCookieReply_cases (C := C)
              { r with count := (r.count + 1) % 2 ^ 64 } senderIdx
              ({ r with count := (r.count + 1) % 2 ^ 64 }.currentCookie C addr now)
              (slice src (src.length - 32) (src.length - 16)) dstLen
            · simp only [heq] at h
              split_ifs at h <;> cases h
              · exact ⟨_, rfl⟩
              · exact ⟨_, rfl⟩
            · simp only [heq] at h
              split_ifs at h <;> cases h
              · exact absurd rfl (hreply _)
              · exact ⟨_, rfl⟩
        · cases h
          exact ⟨_, rfl⟩

/-- A packet that the limiter lets pass is the datagram's. -/
theorem RateLimiter.parse_of_verifyPacket {r r' : RateLimiter} {srcAddr : Option IpAddr}
    {src : List UInt8} {dstLen now : ℕ} {packet : Packet}
    (h : r.verifyPacket C srcAddr src dstLen now = (r', .ok packet)) :
    parseIncomingPacket src = .ok packet := by
  rcases hparse : parseIncomingPacket src with e | packet'
  · rw [verifyPacket_error hparse] at h
    cases h
  · rcases hsender : packet'.handshakeSender with _ | senderIdx
    · rw [verifyPacket_not_handshake hparse hsender] at h
      cases h
      rfl
    · obtain heq | ⟨e, heq⟩ | ⟨-, reply, -, heq⟩ := verifyPacket_handshake hparse hsender h <;>
        cases heq
      rfl

namespace Tunn

variable {t t' : Tunn C} {env : Env} {dstLen : ℕ} {r : TunnResult}

/-! ## The tunnel -/

/-- The packet proves that its sender has the peer's static private key, or a session key: its
timestamp, its empty box or its data opens under a key that takes one of them to derive. -/
inductive Authentic (t : Tunn C) : Packet → Prop
  | handshakeInit {p : HandshakeInit} {timestamp : Bytes 12} {chainingKey hash : Bytes 32}
      (haccepts : t.handshake.Accepts p timestamp chainingKey hash) : Authentic t (.handshakeInit p)
  | handshakeResponse {p : HandshakeResponse} {s : HandshakeInitSentState} {isPrevious : Bool}
      {keys : Bytes 32 × Bytes 32} (hawait : t.handshake.awaiting p.receiverIdx = some (s, isPrevious))
      (hopen : openResponse t.handshake.params s p = .ok keys) : Authentic t (.handshakeResponse p)
  | packetData {p : PacketData} {s : Session} {ret : List UInt8}
      (hs : t.sessions.get p.receiverIdx.toNat = some s) (hopens : s.Opens C p ret) :
      Authentic t (.packetData p)

/-- Not a keepalive, and without an IP header or shorter than its header says. -/
def InvalidContent (packet : List UInt8) : Prop :=
  packet ≠ [] ∧ ∀ computedLen addr,
    computedLenAndSource packet = some (computedLen, addr) → packet.length < computedLen

theorem invalidContent_of_delivered {packet : List UInt8} {e : WireGuardError}
    (h : delivered packet = .err e) : InvalidContent packet := by
  rw [delivered] at h
  split_ifs at h with hempty
  refine ⟨hempty, fun computedLen addr heq => ?_⟩
  rw [heq] at h
  dsimp only at h
  split_ifs at h with hlt
  · exact hlt
  · cases addr <;> cases h

/-- The data packet is authentic and fresh, and its content is not a valid IP packet. -/
def BadData (t : Tunn C) (packet : Packet) : Prop :=
  ∃ p s ret, packet = .packetData p ∧ t.sessions.get p.receiverIdx.toNat = some s ∧
    s.Opens C p ret ∧ InvalidContent ret

/-- **What a verified packet does**: it is refused and leaves no trace, or it is authentic, or it
is a cookie reply that opens. -/
theorem handleVerifiedPacket_cases {packet : Packet} (hd : handshakeRespSz ≤ dstLen)
    (h : t.handleVerifiedPacket env packet dstLen = some (t', r)) :
    (t' = t ∧ ∃ e, r = .err e) ∨ (t.Authentic packet ∧ ∀ e, r = .err e → t.BadData packet) ∨
      ∃ p, packet = .packetCookieReply p ∧ t.handshake.AcceptsCookie p ∧ r = .done := by
  cases packet with
  | handshakeInit p =>
    rw [handleVerifiedPacket, handleHandshakeInit] at h
    obtain ⟨e, heq⟩ | ⟨timestamp, chainingKey, hash, ha, ⟨hsmall, -⟩ | ⟨cookies, macs, -, heq⟩⟩ :=
      t.handshake.receiveHandshakeInitialization_cases p env.ephemeralPrivate dstLen
    · rw [heq] at h
      cases h
      exact Or.inl ⟨rfl, e, rfl⟩
    · exact absurd hd (not_le.mpr hsmall)
    · rw [heq] at h
      cases h
      exact Or.inr (Or.inl ⟨.handshakeInit ha, fun e he => by cases he⟩)
  | handshakeResponse p =>
    rw [handleVerifiedPacket, handleHandshakeResponse] at h
    obtain ⟨e, heq⟩ | ⟨s, isPrevious, temp2, temp3, rtt, hawait, hopen, heq⟩ :=
      Handshake.receiveHandshakeResponse_cases t.handshake p env.rtt
    · rw [heq] at h
      cases h
      exact Or.inl ⟨rfl, e, rfl⟩
    · rw [heq] at h
      obtain ⟨⟨session, keepalive⟩, -, heq⟩ := Option.map_eq_some_iff.mp h
      cases heq
      exact Or.inr (Or.inl ⟨.handshakeResponse hawait hopen, fun e he => by cases he⟩)
  | packetCookieReply p =>
    rw [handleVerifiedPacket, handleCookieReply] at h
    obtain ⟨-, e, heq⟩ | ⟨haccepts, handshake, heq⟩ :=
      Handshake.receiveCookieReply_iff t.handshake p
    · rw [heq] at h
      cases h
      exact Or.inl ⟨rfl, e, rfl⟩
    · rw [heq] at h
      cases h
      exact Or.inr (Or.inr ⟨p, rfl, haccepts, rfl⟩)
  | packetData p =>
    obtain ⟨rfl, e, rfl, -⟩ | ⟨s, s', ret, hs, hreceive, -, rfl, -⟩ := handleData_cases h
    · exact Or.inl ⟨rfl, e, rfl⟩
    · have hopens := Session.opens_of_receivePacketData hreceive
      refine Or.inr (Or.inl ⟨.packetData hs hopens, fun e he => ?_⟩)
      exact ⟨p, s, ret, rfl, hs, hopens, invalidContent_of_delivered he⟩

/-- A repeated call reports no error: what could not be sent is queued again. -/
theorem sendQueuedPacket_not_err {e : WireGuardError} :
    t.sendQueuedPacket env dstLen ≠ some (t', .err e) := by
  intro h
  rw [sendQueuedPacket] at h
  split at h
  · cases h
  · obtain ⟨⟨t₁, r₁⟩, -, heq⟩ := Option.map_eq_some_iff.mp h
    cases r₁ <;> cases heq

/-- **Rejected datagrams leave the tunnel untouched**, but for the count of the rate limiter. -/
theorem rejected_untouched {srcAddr : Option IpAddr} {datagram : List UInt8} {e : WireGuardError}
    (hd : max handshakeInitSz datagram.length ≤ dstLen)
    (h : t.decapsulate env srcAddr datagram dstLen = some (t', .err e)) :
    (∃ count, t' = { t with rateLimiter := { t.rateLimiter with count } }) ∨
      ∃ packet, parseIncomingPacket datagram = .ok packet ∧ t.BadData packet := by
  have hsz : handshakeRespSz ≤ dstLen :=
    le_trans (by decide) ((le_max_left handshakeInitSz datagram.length).trans hd)
  rw [decapsulate] at h
  by_cases hempty : datagram = []
  · -- a repeated call reports no error
    rw [if_pos hempty] at h
    exact absurd h sendQueuedPacket_not_err
  · rw [if_neg hempty] at h
    rcases hverify : t.rateLimiter.verifyPacket C srcAddr datagram cookieReplySz env.cookie with
      ⟨rateLimiter, result | packet⟩
    · rw [hverify] at h
      cases result with
      | err e' =>
        cases h
        obtain ⟨count, rfl⟩ := RateLimiter.verifyPacket_count hverify fun reply heq => by cases heq
        exact Or.inl ⟨count, rfl⟩
      | writeToNetwork cookie =>
        dsimp only at h
        split_ifs at h
        cases h
      | done | writeToTunnelV4 | writeToTunnelV6 => cases h
    · obtain ⟨count, rfl⟩ := RateLimiter.verifyPacket_count hverify fun reply heq => by cases heq
      rw [hverify] at h
      obtain ⟨rfl, -⟩ | ⟨-, hbad⟩ | ⟨p, -, -, hdone⟩ := handleVerifiedPacket_cases hsz h
      · exact Or.inl ⟨count, rfl⟩
      · refine Or.inr ⟨packet, RateLimiter.parse_of_verifyPacket hverify, ?_⟩
        exact hbad e rfl
      · cases hdone

/-- The initiation of the peer of a concrete tunnel. -/
def peerInitiation : List UInt8 :=
  match ((sampleTunn 1 2 1).formatHandshakeInitiation (sampleEnv 5 1) 148 false).2 with
  | .writeToNetwork packet => packet
  | _ => []

/-- An initiation that comes again is rejected. -/
theorem rejected_untouched_sample :
    ∃ (t t' : Tunn checksumPrims) (answer : TunnResult),
      (sampleTunn 2 1 2).decapsulate (sampleEnv 6 2) none peerInitiation 148 = some (t, answer) ∧
      t.decapsulate (sampleEnv 7 3) none peerInitiation 148 =
        some (t', .err .wrongTai64nTimestamp) ∧
      ((∃ count, t' = { t with rateLimiter := { t.rateLimiter with count } }) ∨
        ∃ packet, parseIncomingPacket peerInitiation = .ok packet ∧ t.BadData packet) := by
  have hrun : ((sampleTunn 2 1 2).decapsulate (sampleEnv 6 2) none peerInitiation 148).map
      (fun q => (q.1.decapsulate (sampleEnv 7 3) none peerInitiation 148).map Prod.snd) =
      some (some (.err .wrongTai64nTimestamp)) := by decide +kernel
  obtain ⟨⟨t, answer⟩, hfirst, hagain⟩ := Option.map_eq_some_iff.mp hrun
  obtain ⟨⟨t', result⟩, hagain, heq⟩ := Option.map_eq_some_iff.mp hagain
  obtain rfl : result = .err .wrongTai64nTimestamp := heq
  exact ⟨t, t', answer, hfirst, hagain, rejected_untouched (by decide +kernel) hagain⟩

end Tunn

end NekoLink.Noise
