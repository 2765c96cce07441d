import NekoLink.Device.DeviceSteps
import NekoLink.Device.Receive
import NekoLink.Noise.Rejection

/-!
# The UDP handler

The handler that `register_udp_handler` of `device/mod.rs` registers for a UDP or raw IP socket. What
it receives is cut into segments, and each segment is a datagram: it is verified, its peer is found,
the peer's tunnel handles it, and when that is no error the peer's endpoint becomes the address that
the datagram came from.

* `handleDatagram_endpoint`: the only way in which an endpoint changes.
* `endpoints_authentic_iff`: the datagram that moves an endpoint is authentic, unless it is a cookie
  reply that opens.
* `forged_cookie_moves`: that cookie reply takes no secret.
-/

namespace NekoLink.Device

open Wire Noise Routing

def SocketAddr.port : SocketAddr → UInt16
  | .v4 _ port => port
  | .v6 _ port _ _ => port

/-- The address that a peer gets as its endpoint. -/
def SocketAddr.finalAddr (addr : SocketAddr) : SocketAddr := .new addr.ip addr.port

@[simp] theorem SocketAddr.finalAddr_finalAddr (addr : SocketAddr) :
    addr.finalAddr.finalAddr = addr.finalAddr := by
  cases addr <;> rfl

def SocketAddr.isIpv4 : SocketAddr → Bool
  | .v4 .. => true
  | .v6 .. => false

/-- What one slot of `recvmmsg` holds; the segment size is zero when the kernel gives none. -/
structure Received where
  addr : Option SocketAddr
  groSegmentSize : ℕ
  srcBuf : List UInt8

variable {C : Prims} {T : Type → Type} [Table T IpNetwork IpAddr]

/-- The datagram in a segment: on a raw IP socket there is an IPv4 header before it. -/
def payload (ipProtocol : Option UInt8) (addr : SocketAddr) (segment : List UInt8) :
    Option (List UInt8) :=
  if ipProtocol.isSome && addr.isIpv4 then
    if segment.length < 20 then none
    else
      let ihl := (segment.headD 0 &&& 0x0f).toNat * 4
      if segment.length < ihl then none else some (segment.drop ihl)
  else some segment

/-- One datagram. The endpoint is updated for every result but an error. -/
def handleDatagram (d : Device C T) (keyPair : KeyPair C) (limiter : RateLimiter) (envs : ℕ → Env)
    (addr : SocketAddr) (packet : List UInt8) : Option (Device C T × List Sent) :=
  match d.verify keyPair limiter (envs 0) addr.ip packet with
  | (d, .cookie cookie) => some (d, [.cookie cookie])
  | (d, .refused) | (d, .unknown) => some (d, [])
  | (d, .packet i packet) =>
    (d.step (.peer i (.handleVerifiedPacket (envs 1) packet maxUdpSize))).bind fun (d, res) =>
      match res with
      | .err _ => some (d, [])
      | res =>
        (d.step (.peer i (.setEndpoint addr.finalAddr))).bind fun (d, _) =>
          match res with
          | .writeToNetwork packet =>
            (flushQueue i (d.rounds i) (fun k => envs (k + 2)) d).map fun (d, queued) =>
              (d, .reply packet :: queued)
          | .writeToTunnelV4 packet addr => some (d, d.toTunnel i packet (.v4 addr))
          | .writeToTunnelV6 packet addr => some (d, d.toTunnel i packet (.v6 addr))
          | .done | .err _ => some (d, [])

/-- One segment; without a private key the handler does nothing. -/
def handleSegment (d : Device C T) (ipProtocol : Option UInt8) (envs : ℕ → Env)
    (addr : SocketAddr) (segment : List UInt8) : Option (Device C T × List Sent) :=
  match d.keyPair, d.rateLimiter, payload ipProtocol addr segment with
  | some keyPair, some limiter, some packet => d.handleDatagram keyPair limiter envs addr packet
  | _, _, _ => some (d, [])

def handleSegments (ipProtocol : Option UInt8) (addr : SocketAddr) :
    (ℕ → ℕ → Env) → List (List UInt8) → Device C T → Option (Device C T × List Sent)
  | _, [], d => some (d, [])
  | envs, segment :: segments, d =>
    (d.handleSegment ipProtocol (envs 0) addr segment).bind fun (d, sent) =>
      (handleSegments ipProtocol addr (fun k => envs (k + 1)) segments d).map fun (d, rest) =>
        (d, sent ++ rest)

/-- The handler on what it receives in one call; a segment size of zero is the whole buffer. -/
def udpHandler (ipProtocol : Option UInt8) :
    (ℕ → ℕ → ℕ → Env) → List Received → Device C T → Option (Device C T × List Sent)
  | _, [], d => some (d, [])
  | envs, received :: rest, d =>
    match received.addr with
    | none => udpHandler ipProtocol (fun k => envs (k + 1)) rest d
    | some addr =>
      (handleSegments ipProtocol addr (envs 0)
        (received.srcBuf.toChunks received.groSegmentSize) d).bind fun (d, sent) =>
          (udpHandler ipProtocol (fun k => envs (k + 1)) rest d).map fun (d, later) =>
            (d, sent ++ later)

/-! ## Endpoints -/

/-- The endpoint address of the peer at a position. -/
def endpointAt (d : Device C T) (i : PeerRef) : Option SocketAddr := (d.lock i).bind Peer.endpoint

section Endpoints

variable {d d' : Device C T} {i : PeerRef} {r : TunnResult}

omit [Table T IpNetwork IpAddr] in
theorem endpointAt_of_lock {p : Peer C T} (h : d.lock i = some p) : d.endpointAt i = p.endpoint := by
  rw [endpointAt, h, Option.bind_some]

omit [Table T IpNetwork IpAddr] in
/-- One peer of the heap is replaced. -/
theorem endpointAt_set {p : Peer C T} (h : d.lock i = some p) (p' : Peer C T) :
    endpointAt { d with heap := d.heap.set i p' } =
      Function.update d.endpointAt i p'.endpoint := by
  have hlock : d.heap[i]? = some p := h
  funext j
  by_cases hj : j = i
  · subst hj
    rw [Function.update_self, endpointAt, lock,
      List.getElem?_set_self (List.getElem?_eq_some_iff.mp hlock).1, Option.bind_some]
  · rw [Function.update_of_ne hj, endpointAt, endpointAt, lock, lock,
      List.getElem?_set_ne (Ne.symm hj)]

omit [Table T IpNetwork IpAddr] in
theorem lock_set {p : Peer C T} (h : d.lock i = some p) (p' : Peer C T) :
    lock { d with heap := d.heap.set i p' } i = some p' := by
  have hlock : d.heap[i]? = some p := h
  rw [lock, List.getElem?_set_self (List.getElem?_eq_some_iff.mp hlock).1]

theorem step_peer_of_lock {call : PeerCall} {p p' : Peer C T} (hlock : d.lock i = some p)
    (hcall : p.step call = some (p', r)) :
    d.step (.peer i call) = some ({ d with heap := d.heap.set i p' }, r) := by
  rw [step, hlock, Option.bind_some, hcall, Option.map_some]

/-- Only `set_endpoint` changes an endpoint. -/
theorem endpointAt_step {call : PeerCall} (h : d.step (.peer i call) = some (d', r))
    (hcall : ∀ addr, call ≠ .setEndpoint addr) : d'.endpointAt = d.endpointAt := by
  obtain ⟨p, p', hlock, hstep, rfl⟩ := step_peer h
  have hendpoint : p'.endpoint = p.endpoint := by
    cases call with
    | tunnel env call | handleVerifiedPacket env packet dstLen =>
      obtain ⟨⟨tunnel, r'⟩, -, heq⟩ := Option.map_eq_some_iff.mp hstep
      cases heq
      rfl
    | setEndpoint addr => exact absurd rfl (hcall addr)
  rw [endpointAt_set hlock, hendpoint, ← endpointAt_of_lock hlock, Function.update_eq_self]

theorem endpointAt_setEndpoint {addr : SocketAddr}
    (h : d.step (.peer i (.setEndpoint addr)) = some (d', r)) :
    d'.endpointAt = Function.update d.endpointAt i (some addr) := by
  obtain ⟨p, p', hlock, hstep, rfl⟩ := step_peer h
  cases hstep
  exact endpointAt_set hlock _

theorem endpointAt_flushQueue {n : ℕ} {envs : ℕ → Env} {sent : List Sent}
    (h : flushQueue i n envs d = some (d', sent)) : d'.endpointAt = d.endpointAt := by
  induction n generalizing envs d d' sent with
  | zero =>
    cases h
    rfl
  | succ n ih =>
    obtain ⟨⟨d₁, res⟩, hnext, hrest⟩ := Option.bind_eq_some_iff.mp h
    have hkeep := endpointAt_step hnext fun addr heq => by cases heq
    cases res with
    | writeToNetwork packet =>
      obtain ⟨⟨d₂, sent₂⟩, hflush, heq⟩ := Option.map_eq_some_iff.mp hrest
      cases heq
      exact (ih hflush).trans hkeep
    | done | err | writeToTunnelV4 | writeToTunnelV6 =>
      cases hrest
      exact hkeep

theorem endpointAt_removePeer (d : Device C T) (pubKey : Bytes 32) (i : PeerRef) :
    (d.removePeer pubKey).endpointAt i = d.endpointAt i := by
  rw [removePeer]
  split <;> rfl

omit [Table T IpNetwork IpAddr] in
theorem endpoint_setStaticPrivateAt {env : Env} {privateKey publicKey : Bytes 32}
    {rateLimiter : RateLimiter} {heap heap' : List (Peer C T)} {peer : PeerRef}
    (h : setStaticPrivateAt env privateKey publicKey rateLimiter heap peer = some heap') (i : ℕ) :
    heap'[i]?.bind Peer.endpoint = heap[i]?.bind Peer.endpoint := by
  simp only [setStaticPrivateAt, Option.bind_eq_bind, Option.bind_eq_some_iff, Option.pure_def,
    Option.some.injEq] at h
  obtain ⟨p, hp, tunnel, -, rfl⟩ := h
  by_cases hi : i = peer
  · subst hi
    rw [List.getElem?_set_self (List.getElem?_eq_some_iff.mp hp).1, hp]
    rfl
  · rw [List.getElem?_set_ne (Ne.symm hi)]

omit [Table T IpNetwork IpAddr] in
theorem endpoint_foldlM_setStaticPrivateAt {env : Env} {privateKey publicKey : Bytes 32}
    {rateLimiter : RateLimiter} {refs : List PeerRef} {heap heap' : List (Peer C T)}
    (h : refs.foldlM (setStaticPrivateAt env privateKey publicKey rateLimiter) heap = some heap')
    (i : ℕ) : heap'[i]?.bind Peer.endpoint = heap[i]?.bind Peer.endpoint := by
  induction refs generalizing heap with
  | nil =>
    cases h
    rfl
  | cons peer refs ih =>
    rw [List.foldlM_cons] at h
    obtain ⟨heap₁, hfirst, hrest⟩ := Option.bind_eq_some_iff.mp h
    exact (ih hrest).trans (endpoint_setStaticPrivateAt hfirst i)

/-- A peer keeps its endpoint when the tables are changed. -/
theorem endpointAt_request {op : Op} (h : d.step op = some (d', r))
    (hcall : ∀ peer call, op ≠ .peer peer call) (hi : i < d.heap.length) :
    d'.endpointAt i = d.endpointAt i := by
  cases op with
  | updatePeer seed pubKey remove replaceIps endpoint allowedIps keepalive presharedKey =>
    obtain ⟨d₁, hupdate, heq⟩ := Option.map_eq_some_iff.mp h
    cases heq
    obtain ⟨-, rfl⟩ | ⟨-, -, rfl⟩ | ⟨-, -, lfsr, idx, -, ⟨-, rfl⟩ | ⟨kp, -, rfl⟩⟩ :=
      updatePeer_cases hupdate
    · exact endpointAt_removePeer ..
    · rfl
    · rfl
    · rw [endpointAt, endpointAt, lock, lock, addPeer, List.getElem?_append_left hi]
  | removePeer pubKey =>
    cases h
    exact endpointAt_removePeer ..
  | clearPeers =>
    cases h
    rfl
  | setKey env privateKey =>
    obtain ⟨d₁, hset, heq⟩ := Option.map_eq_some_iff.mp h
    cases heq
    rw [setKey] at hset
    dsimp only at hset
    split_ifs at hset
    · cases hset
      rfl
    · obtain ⟨heap, hfold, rfl⟩ := Option.map_eq_some_iff.mp hset
      exact endpoint_foldlM_setStaticPrivateAt hfold i
  | peer peer call => exact absurd rfl (hcall peer call)

end Endpoints

/-! ## Which datagrams move an endpoint -/

section Datagram

variable {d d' : Device C T} {keyPair : KeyPair C} {limiter : RateLimiter} {envs : ℕ → Env}
  {addr : SocketAddr} {datagram : List UInt8} {sent : List Sent} {i : PeerRef} {packet : Packet}

omit [Table T IpNetwork IpAddr] in
/-- A packet that has a peer is the datagram's, and only the limiter has changed. -/
theorem verify_packet {env : Env} {ip : IpAddr}
    (h : d.verify keyPair limiter env ip datagram = (d', .packet i packet)) :
    parseIncomingPacket datagram = .ok packet ∧ d.identify keyPair packet = some i ∧
      ∃ limiter', d' = { d with rateLimiter := limiter' } := by
  rw [verify] at h
  split at h
  · cases h
  · cases h
  · next limiter' packet' hverify =>
    rcases hidentify : d.identify keyPair packet' with _ | i'
    · rw [hidentify] at h
      cases h
    · rw [hidentify] at h
      cases h
      exact ⟨RateLimiter.parse_of_verifyPacket hverify, hidentify, _, rfl⟩

omit [Table T IpNetwork IpAddr] in
/-- Whatever the limiter answers, only the limiter has changed. -/
theorem verify_device (d : Device C T) (keyPair : KeyPair C) (limiter : RateLimiter) (env : Env)
    (ip : IpAddr) (datagram : List UInt8) :
    ∃ limiter', (d.verify keyPair limiter env ip datagram).1 = { d with rateLimiter := limiter' } := by
  rw [verify]
  split <;> exact ⟨_, rfl⟩

/-- **How an endpoint changes.** The datagram is for the peer, and it is authentic or it is a cookie
reply that opens. -/
theorem handleDatagram_endpoint
    (h : d.handleDatagram keyPair limiter envs addr datagram = some (d', sent)) :
    d'.endpointAt = d.endpointAt ∨
      ∃ i p packet, parseIncomingPacket datagram = .ok packet ∧ d.lock i = some p ∧
        d.identify keyPair packet = some i ∧
        d'.endpointAt = Function.update d.endpointAt i (some addr.finalAddr) ∧
        (p.tunnel.Authentic packet ∨
          ∃ reply, packet = .packetCookieReply reply ∧ p.tunnel.handshake.AcceptsCookie reply) := by
  rw [handleDatagram] at h
  obtain ⟨limiter', hdevice⟩ := verify_device d keyPair limiter (envs 0) addr.ip datagram
  rcases hverify : d.verify keyPair limiter (envs 0) addr.ip datagram with ⟨d₁, verified⟩
  rw [hverify] at h hdevice
  obtain rfl : d₁ = { d with rateLimiter := limiter' } := hdevice
  cases verified with
  | cookie | refused | unknown =>
    cases h
    exact Or.inl rfl
  | packet i packet =>
    obtain ⟨hparse, hidentify, -⟩ := verify_packet hverify
    obtain ⟨⟨d₂, res⟩, hhandle, h⟩ := Option.bind_eq_some_iff.mp h
    have hkeep := endpointAt_step hhandle fun addr heq => by cases heq
    obtain ⟨p, p', hlock, hcall, -⟩ := step_peer hhandle
    obtain ⟨⟨tunnel, r⟩, htunnel, heq⟩ := Option.map_eq_some_iff.mp hcall
    cases heq
    -- every result but an error sets the endpoint
    have hmove : (∀ e, res ≠ .err e) →
        d'.endpointAt = Function.update d.endpointAt i (some addr.finalAddr) := by
      intro hres
      have hset : ∀ {d₃ : Device C T} {r : TunnResult},
          d₂.step (.peer i (.setEndpoint addr.finalAddr)) = some (d₃, r) →
          d₃.endpointAt = Function.update d.endpointAt i (some addr.finalAddr) :=
        fun hstep => (endpointAt_setEndpoint hstep).trans (by rw [hkeep]; rfl)
      cases res with
      | err e => exact absurd rfl (hres e)
      | writeToNetwork reply =>
        obtain ⟨⟨d₃, r₃⟩, hstep, hrest⟩ := Option.bind_eq_some_iff.mp h
        obtain ⟨⟨d₄, queued⟩, hflush, heq⟩ := Option.map_eq_some_iff.mp hrest
        cases heq
        exact (endpointAt_flushQueue hflush).trans (hset hstep)
      | done | writeToTunnelV4 | writeToTunnelV6 =>
        obtain ⟨⟨d₃, r₃⟩, hstep, hrest⟩ := Option.bind_eq_some_iff.mp h
        cases hrest
        exact hset hstep
    by_cases herr : ∃ e, res = .err e
    · obtain ⟨e, rfl⟩ := herr
      cases h
      exact Or.inl hkeep
    · have hmoved := hmove fun e he => herr ⟨e, he⟩
      refine Or.inr ⟨i, p, packet, hparse, hlock, hidentify, hmoved, ?_⟩
      obtain ⟨-, e, he⟩ | ⟨hauthentic, -⟩ | ⟨reply, hreply, haccepts, -⟩ :=
        Tunn.handleVerifiedPacket_cases (by decide) htunnel
      · exact absurd ⟨e, he⟩ herr
      · exact Or.inl hauthentic
      · exact Or.inr ⟨reply, hreply, haccepts⟩

/-- A cookie reply that opens is handled, and sets the endpoint. -/
theorem handleDatagram_cookieReply (keyPair : KeyPair C) (limiter : RateLimiter)
    (envs : ℕ → Env) (addr : SocketAddr) {reply : PacketCookieReply} {p : Peer C T}
    (hparse : parseIncomingPacket datagram = .ok (.packetCookieReply reply))
    (hi : d.peersByIdx.lookup (reply.receiverIdx >>> 8) = some i) (hlock : d.lock i = some p)
    (haccepts : p.tunnel.handshake.AcceptsCookie reply) :
    ∃ d', d.handleDatagram keyPair limiter envs addr datagram = some (d', []) ∧
      d'.endpointAt = Function.update d.endpointAt i (some addr.finalAddr) := by
  have hverify : d.verify keyPair limiter (envs 0) addr.ip datagram =
      ({ d with rateLimiter := some limiter }, .packet i (.packetCookieReply reply)) := by
    rw [verify, RateLimiter.verifyPacket_not_handshake hparse rfl]
    simp only [identify, hi]
  obtain ⟨hnot, -⟩ | ⟨-, handshake, hreceive⟩ :=
    Handshake.receiveCookieReply_iff p.tunnel.handshake reply
  · exact absurd haccepts hnot
  · have hcookie : ∃ tunnel, p.tunnel.handleVerifiedPacket (envs 1) (.packetCookieReply reply)
        maxUdpSize = some (tunnel, .done) := by
      rw [Tunn.handleVerifiedPacket, Tunn.handleCookieReply, hreceive]
      exact ⟨_, rfl⟩
    obtain ⟨tunnel, hcookie⟩ := hcookie
    have hcall : p.step (.handleVerifiedPacket (envs 1) (.packetCookieReply reply) maxUdpSize) =
        some ({ p with tunnel }, .done) := by
      rw [Peer.step, hcookie, Option.map_some]
    have hmove : Peer.step { p with tunnel } (.setEndpoint addr.finalAddr) =
        some ({ p with tunnel, endpoint := some addr.finalAddr }, .done) := rfl
    have hhandle := step_peer_of_lock (d := { d with rateLimiter := some limiter }) hlock hcall
    have hset := step_peer_of_lock
      (lock_set (d := { d with rateLimiter := some limiter }) hlock { p with tunnel }) hmove
    refine ⟨{ d with
      rateLimiter := some limiter
      heap := d.heap.set i { p with tunnel, endpoint := some addr.finalAddr } }, ?_,
      endpointAt_set (d := { d with rateLimiter := some limiter }) hlock _⟩
    rw [handleDatagram, hverify]
    simp only [hhandle, Option.bind_some, hset, List.set_set]

/-! ## Segments -/

/-- A peer whose endpoint a segment changes has authenticated the datagram in it. -/
def EndpointsAuthentic (d : Device C T) (ipProtocol : Option UInt8) (envs : ℕ → Env)
    (addr : SocketAddr) (segment : List UInt8) : Prop :=
  ∀ d' sent i, d.handleSegment ipProtocol envs addr segment = some (d', sent) →
    d'.endpointAt i ≠ d.endpointAt i →
    ∃ p datagram packet, d.lock i = some p ∧ payload ipProtocol addr segment = some datagram ∧
      parseIncomingPacket datagram = .ok packet ∧ p.tunnel.Authentic packet

/-- The datagram is a cookie reply that opens for its peer, and comes from another address than
the peer's. -/
def CookieMoves (d : Device C T) (ipProtocol : Option UInt8) (addr : SocketAddr)
    (segment : List UInt8) : Prop :=
  d.keyPair.isSome ∧ d.rateLimiter.isSome ∧ ∃ datagram reply i p,
    payload ipProtocol addr segment = some datagram ∧
    parseIncomingPacket datagram = .ok (.packetCookieReply reply) ∧
    d.peersByIdx.lookup (reply.receiverIdx >>> 8) = some i ∧ d.lock i = some p ∧
    p.tunnel.handshake.AcceptsCookie reply ∧ p.endpoint ≠ some addr.finalAddr

variable {ipProtocol : Option UInt8} {segment : List UInt8}

/-- What a segment is to the handler. -/
theorem handleSegment_cases
    (h : d.handleSegment ipProtocol envs addr segment = some (d', sent)) :
    d' = d ∨ ∃ keyPair limiter datagram, d.keyPair = some keyPair ∧ d.rateLimiter = some limiter ∧
      payload ipProtocol addr segment = some datagram ∧
      d.handleDatagram keyPair limiter envs addr datagram = some (d', sent) := by
  rw [handleSegment] at h
  split at h
  · next keyPair limiter datagram hkey hlimiter hpayload =>
    exact Or.inr ⟨keyPair, limiter, datagram, hkey, hlimiter, hpayload, h⟩
  · cases h
    exact Or.inl rfl

/-- The cookie reply moves the endpoint, and authenticates nobody. -/
theorem not_authentic_of_cookieMoves (h : d.CookieMoves ipProtocol addr segment) :
    ¬ d.EndpointsAuthentic ipProtocol envs addr segment := by
  obtain ⟨hkey, hlimiter, datagram, reply, i, p, hpayload, hparse, hi, hlock, haccepts, hne⟩ := h
  obtain ⟨keyPair, hkey⟩ := Option.isSome_iff_exists.mp hkey
  obtain ⟨limiter, hlimiter⟩ := Option.isSome_iff_exists.mp hlimiter
  obtain ⟨d', hhandle, hmoved⟩ := handleDatagram_cookieReply keyPair limiter envs addr
    hparse hi hlock haccepts
  intro hauthentic
  have hsegment : d.handleSegment ipProtocol envs addr segment = some (d', []) := by
    rw [handleSegment, hkey, hlimiter, hpayload]
    exact hhandle
  obtain ⟨p', datagram', packet, -, hpayload', hparse', hpacket⟩ := hauthentic d' [] i hsegment (by
    rw [hmoved, Function.update_self, endpointAt_of_lock hlock]
    exact Ne.symm hne)
  obtain rfl : datagram = datagram' := Option.some.inj (hpayload.symm.trans hpayload')
  rw [hparse] at hparse'
  cases hparse'
  cases hpacket

/-- **Only authentic datagrams move an endpoint**, but for the cookie replies that open. -/
theorem endpoints_authentic_iff (d : Device C T) (ipProtocol : Option UInt8) (envs : ℕ → Env)
    (addr : SocketAddr) (segment : List UInt8) :
    d.EndpointsAuthentic ipProtocol envs addr segment ↔
      ¬ d.CookieMoves ipProtocol addr segment := by
  constructor
  · intro hauthentic hmoves
    exact not_authentic_of_cookieMoves hmoves hauthentic
  · intro hnot d' sent i h hne
    obtain rfl | ⟨keyPair, limiter, datagram, hkey, hlimiter, hpayload, h⟩ := handleSegment_cases h
    · exact absurd rfl hne
    · obtain hkeep | ⟨j, p, packet, hparse, hlock, hidentify, hmoved, hpacket⟩ :=
        handleDatagram_endpoint h
      · exact absurd (congrFun hkeep i) hne
      · -- the endpoint that differs is that of the datagram's peer
        obtain rfl : i = j := by
          by_contra hij
          exact hne (by rw [hmoved, Function.update_of_ne hij])
        rcases hpacket with hauthentic | ⟨reply, rfl, haccepts⟩
        · exact ⟨p, datagram, packet, hlock, hpayload, hparse, hauthentic⟩
        · refine absurd ⟨by rw [hkey]; rfl, by rw [hlimiter]; rfl, datagram, reply, i, p, hpayload,
            hparse, hidentify, hlock, haccepts, fun heq => hne ?_⟩ hnot
          rw [hmoved, Function.update_self, endpointAt_of_lock hlock, heq]

end Datagram

/-! ## The whole handler -/

section Handler

variable {d d' : Device C T} {ipProtocol : Option UInt8} {sent : List Sent} {i : PeerRef}

/-- A segment with its address and what its handling draws, as a step. -/
def segmentStep (ipProtocol : Option UInt8) (d : Device C T)
    (x : (ℕ → Env) × SocketAddr × List UInt8) : Option (Device C T × List Sent) :=
  d.handleSegment ipProtocol x.1 x.2.1 x.2.2

/-- The segments of what is received. -/
def IsSegment (received : List Received) (addr : SocketAddr) (segment : List UInt8) : Prop :=
  ∃ r ∈ received, r.addr = some addr ∧ segment ∈ r.srcBuf.toChunks r.groSegmentSize

/-- The segments of one buffer are handled one after the other. -/
theorem handleSegments_reaches {addr : SocketAddr} {envs : ℕ → ℕ → Env}
    {segments : List (List UInt8)}
    (h : handleSegments ipProtocol addr envs segments d = some (d', sent)) :
    Machine.Reaches (segmentStep ipProtocol) (fun _ x => x.2.1 = addr ∧ x.2.2 ∈ segments) d d' := by
  induction segments generalizing envs d sent with
  | nil =>
    cases h
    exact .refl
  | cons segment segments ih =>
    obtain ⟨⟨d₁, sent₁⟩, hsegment, hrest⟩ := Option.bind_eq_some_iff.mp h
    obtain ⟨⟨d₂, sent₂⟩, hlast, heq⟩ := Option.map_eq_some_iff.mp hrest
    cases heq
    have hfirst : segmentStep ipProtocol d (envs 0, addr, segment) = some (d₁, sent₁) := hsegment
    refine .head ⟨rfl, List.mem_cons_self ..⟩ hfirst ((ih hlast).mono ?_)
    rintro _ x ⟨haddr, hmem⟩
    exact ⟨haddr, List.mem_cons_of_mem _ hmem⟩

/-- A call of the handler goes through the segments of what it receives. -/
theorem udpHandler_reaches {envs : ℕ → ℕ → ℕ → Env} {received : List Received}
    (h : udpHandler ipProtocol envs received d = some (d', sent)) :
    Machine.Reaches (segmentStep ipProtocol) (fun _ x => IsSegment received x.2.1 x.2.2) d d' := by
  induction received generalizing envs d sent with
  | nil =>
    cases h
    exact .refl
  | cons r received ih =>
    have hlater : ∀ (_ : Device C T) (x : (ℕ → Env) × SocketAddr × List UInt8),
        IsSegment received x.2.1 x.2.2 → IsSegment (r :: received) x.2.1 x.2.2 := by
      rintro - x ⟨r', hmem, hsegment⟩
      exact ⟨r', List.mem_cons_of_mem _ hmem, hsegment⟩
    rw [udpHandler] at h
    rcases haddr : r.addr with _ | addr
    · rw [haddr] at h
      exact (ih h).mono hlater
    · rw [haddr] at h
      obtain ⟨⟨d₁, sent₁⟩, hsegments, hrest⟩ := Option.bind_eq_some_iff.mp h
      obtain ⟨⟨d₂, sent₂⟩, hlast, heq⟩ := Option.map_eq_some_iff.mp hrest
      cases heq
      refine ((handleSegments_reaches hsegments).mono ?_).trans ((ih hlast).mono hlater)
      rintro _ x ⟨rfl, hmem⟩
      exact ⟨r, List.mem_cons_self .., haddr, hmem⟩

/-- **An endpoint that a call of the handler changes** is changed by one of the segments. -/
theorem udpHandler_moved {envs : ℕ → ℕ → ℕ → Env} {received : List Received}
    (h : udpHandler ipProtocol envs received d = some (d', sent))
    (hmoved : d'.endpointAt i ≠ d.endpointAt i) :
    ∃ (d₁ d₂ : Device C T) (envs₁ : ℕ → Env) (addr : SocketAddr) (segment : List UInt8)
      (sent₁ : List Sent), IsSegment received addr segment ∧
      d₁.handleSegment ipProtocol envs₁ addr segment = some (d₂, sent₁) ∧
      d₂.endpointAt i ≠ d₁.endpointAt i := by
  by_contra hnone
  refine hmoved (Machine.Reaches.invariant (I := fun d₁ => d₁.endpointAt i = d.endpointAt i)
    (udpHandler_reaches h) rfl ?_)
  rintro d₁ ⟨envs₁, addr, segment⟩ d₂ sent₁ hI hsegment hstep
  by_contra hne
  refine hnone ⟨d₁, d₂, envs₁, addr, segment, sent₁, hsegment, hstep, fun heq => hne ?_⟩
  rw [heq, hI]

end Handler

/-! ## A cookie reply takes no secret -/

/-- The cookie reply that an observer of an initiation makes of it and of the public key of the peer
that it is sent to. -/
def forgeCookieReply (C : Prims) (peerStaticPublic : Bytes 32) (initiation : List UInt8) :
    PacketCookieReply where
  receiverIdx := UInt32.ofNat (leValue (slice initiation 4 8))
  nonce := zeros 24
  encryptedCookie := C.xaeadSeal (b2sHash C labelCookie peerStaticPublic.toList) (zeros 24)
    (slice initiation 116 132) (zeros 16)

/-- The wire shows the index and the MAC of the last message. -/
structure OnWire (handshake : Handshake C) (initiation : List UInt8) : Prop where
  index : leValue (slice initiation 4 8) = handshake.cookies.index.toNat
  mac1 : handshake.cookies.lastMac1.map List.Vector.toList = some (slice initiation 116 132)

theorem onWire_append (handshake : Handshake C) (p : HandshakeInit) :
    OnWire (handshake.appendMac1AndMac2 p.senderIdx p.bytes).1
      (handshake.appendMac1AndMac2 p.senderIdx p.bytes).2 := by
  rw [Handshake.appendMac1AndMac2]
  constructor
  · rw [slice_append_left (by simp), HandshakeInit.bytes,
      slice_append_right (by simp), length_leBytes, slice_append_zero (by simp)]
    exact leValue_leBytes_of_lt p.senderIdx.toNat_lt
  · rw [slice_append_right (by simp), HandshakeInit.length_bytes, List.Vector.toList_append,
      slice_append_zero (by simp)]
    rfl

/-- An initiation shows them. -/
theorem onWire_initiation {t t' : Tunn C} {env : Env} {dstLen : ℕ} {force : Bool}
    {initiation : List UInt8}
    (h : t.formatHandshakeInitiation env dstLen force = (t', .writeToNetwork initiation)) :
    OnWire t'.handshake initiation := by
  obtain ⟨-, heq⟩ | ⟨-, ⟨-, heq⟩ | ⟨handshake, packet, hd, hformat, heq⟩⟩ :=
    t.formatHandshakeInitiation_spec env dstLen force
  · cases (Prod.mk.inj (heq.symm.trans h)).2
  · cases (Prod.mk.inj (heq.symm.trans h)).2
  · obtain ⟨rfl, hr⟩ := Prod.mk.inj (heq.symm.trans h)
    cases hr
    rw [Tunn.handshake_initiated]
    rw [Handshake.formatHandshakeInitiation, if_neg (by omega)] at hformat
    cases hformat
    exact onWire_append _ (sealInitiation ..).1

omit [Table T IpNetwork IpAddr] in
/-- **An observer moves the endpoint** of a peer that was last sent the initiation. -/
theorem forged_cookie_moves [C.Lawful] {d : Device C T} {i : PeerRef} {p : Peer C T}
    {addr : SocketAddr} {initiation : List UInt8} (hkey : d.keyPair.isSome)
    (hlimiter : d.rateLimiter.isSome) (hlock : d.lock i = some p)
    (hi : d.peersByIdx.lookup (p.tunnel.handshake.cookies.index >>> 8) = some i)
    (hwire : OnWire p.tunnel.handshake initiation) (haddr : p.endpoint ≠ some addr.finalAddr) :
    d.CookieMoves none addr
      (forgeCookieReply C p.tunnel.handshake.params.peerStaticPublic initiation).bytes := by
  obtain ⟨mac1, hmac1, hslice⟩ := Option.map_eq_some_iff.mp hwire.mac1
  have hreceiver : (forgeCookieReply C p.tunnel.handshake.params.peerStaticPublic
      initiation).receiverIdx = p.tunnel.handshake.cookies.index := by
    rw [forgeCookieReply, hwire.index, UInt32.ofNat_toNat]
  refine ⟨hkey, hlimiter, _, _, i, p, rfl, parseIncomingPacket_cookieReply _, ?_, hlock,
    ⟨mac1, zeros 16, hmac1, hreceiver, ?_⟩, haddr⟩
  · rw [hreceiver, hi]
  · rw [forgeCookieReply, hslice]
    exact Prims.Lawful.xopen_xseal ..

/-- The endpoint of the peer of a concrete device. -/
def homeAddr : SocketAddr := .v4 ⟨[10, 0, 0, 1], rfl⟩ 51820

/-- Another address. -/
def observerAddr : SocketAddr := .v4 ⟨[10, 0, 0, 66], rfl⟩ 4242

/-- A device gets a key and a peer, and sends the peer an initiation. -/
def initiationOps : List Op :=
  [sampleSetKey,
    .updatePeer ⟨Tunn.sampleEnv 0 0, ⟨10 ^ 18, 0⟩⟩ (fill 32 7) false false (some homeAddr) [] none
      none,
    .peer 0 (.tunnel (Tunn.sampleEnv 5 1) (.formatHandshakeInitiation 148 false))]

/-- The initiation that it sends. -/
def sampleInitiation : List UInt8 :=
  match Machine.run step (new sampleDevice.nextIndex .udp :
      Device checksumPrims (PrefixMap IpNetwork)) initiationOps with
  | some (_, [_, _, .writeToNetwork packet]) => packet
  | _ => []

/-- **A forged cookie reply moves the endpoint**: it is made of the initiation on the wire and the
peer's public key. -/
theorem cookie_reply_moves_endpoint :
    ∃ d : Device checksumPrims (PrefixMap IpNetwork),
      Machine.run step (new sampleDevice.nextIndex .udp) initiationOps =
        some (d, [.done, .done, .writeToNetwork sampleInitiation]) ∧
      ¬ d.EndpointsAuthentic none (fun _ => Tunn.sampleEnv 0 3) observerAddr
        (forgeCookieReply checksumPrims (fill 32 7) sampleInitiation).bytes := by
  have hrun : (Machine.run step (new sampleDevice.nextIndex .udp :
      Device checksumPrims (PrefixMap IpNetwork)) initiationOps).map (fun q =>
        (q.2, q.1.keyPair.isSome && q.1.rateLimiter.isSome, (q.1.lock 0).map fun p =>
          decide (p.tunnel.handshake.params.peerStaticPublic = fill 32 7 ∧
            p.endpoint = some homeAddr ∧ p.tunnel.handshake.cookies.index = 0xd01 ∧
            p.tunnel.handshake.cookies.lastMac1.map List.Vector.toList =
              some (slice sampleInitiation 116 132)),
          decide (q.1.peersByIdx.lookup 0xd = some 0))) =
      some ([.done, .done, .writeToNetwork sampleInitiation], true, some true, true) := by
    decide +kernel
  obtain ⟨⟨d, results⟩, hrun, heq⟩ := Option.map_eq_some_iff.mp hrun
  simp only [Prod.mk.injEq, Bool.and_eq_true, decide_eq_true_eq] at heq
  obtain ⟨rfl, ⟨hkey, hlimiter⟩, hlock, hi⟩ := heq
  obtain ⟨p, hlock, heq⟩ := Option.map_eq_some_iff.mp hlock
  obtain ⟨hpublic, hendpoint, hindex, hmac1⟩ := of_decide_eq_true heq
  refine ⟨d, hrun, not_authentic_of_cookieMoves ?_⟩
  rw [← hpublic]
  refine forged_cookie_moves hkey hlimiter hlock ?_ ⟨?_, hmac1⟩ ?_
  · rw [hindex]
    exact hi
  · rw [hindex]
    decide +kernel
  · rw [hendpoint]
    decide

end NekoLink.Device
