import NekoLink.Device.Device
import NekoLink.Noise.TunnSteps

/-!
# Packets from the network

What the handlers of `device/mod.rs` do alike with a packet from the network: it is verified by the
device's rate limiter, its peer is found, the peer's tunnel handles it, and what the tunnel had
queued is sent. What a call of the tunnel draws and reads comes with its number.

* `flushQueue_rounds`: the loop that sends the queued packets ends.
-/

namespace NekoLink.Device

open Wire Noise Routing

/-- What a handler sends to where the packet came from, and to the interface. -/
inductive Sent
  | cookie (packet : List UInt8)
  | reply (packet : List UInt8)
  | queued (packet : List UInt8)
  | tunnel (packet : List UInt8)

variable {C : Prims} {T : Type → Type} [Table T IpNetwork IpAddr]

/-- The peer that a packet is for. -/
def identify (d : Device C T) (keyPair : KeyPair C) : Packet → Option PeerRef
  | .handshakeInit p =>
    match parseHandshakeAnon C keyPair.privateKey keyPair.publicKey p with
    | .ok hh => d.peers.lookup hh.peerStaticPublic
    | .error _ => none
  | .handshakeResponse p => d.peersByIdx.lookup (p.receiverIdx >>> 8)
  | .packetCookieReply p => d.peersByIdx.lookup (p.receiverIdx >>> 8)
  | .packetData p => d.peersByIdx.lookup (p.receiverIdx >>> 8)

/-- The answer of the rate limiter, and the peer of a packet that it lets pass. -/
inductive Verified
  | cookie (packet : List UInt8)
  | refused
  | unknown
  | packet (i : PeerRef) (packet : Packet)

/-- `rate_limiter.verify_packet` and the search for the peer. -/
def verify (d : Device C T) (keyPair : KeyPair C) (limiter : RateLimiter) (env : Env)
    (addr : IpAddr) (src : List UInt8) : Device C T × Verified :=
  match limiter.verifyPacket C (some addr) src maxUdpSize env.cookie with
  | (limiter, .error (.writeToNetwork cookie)) =>
    ({ d with rateLimiter := some limiter }, .cookie cookie)
  | (limiter, .error _) => ({ d with rateLimiter := some limiter }, .refused)
  | (limiter, .ok packet) =>
    ({ d with rateLimiter := some limiter },
      match d.identify keyPair packet with
      | none => .unknown
      | some i => .packet i packet)

/-- A repeated call of `decapsulate`. -/
def nextQueued (d : Device C T) (i : PeerRef) (env : Env) : Option (Device C T × TunnResult) :=
  d.step (.peer i (.tunnel env (.decapsulate none [] maxUdpSize)))

/-- Send queued packets, `n` of them at most. -/
def flushQueue (i : PeerRef) : ℕ → (ℕ → Env) → Device C T → Option (Device C T × List Sent)
  | 0, _, d => some (d, [])
  | n + 1, envs, d =>
    (d.nextQueued i (envs 0)).bind fun (d, res) =>
      match res with
      | .writeToNetwork packet =>
        (flushQueue i n (fun k => envs (k + 1)) d).map fun (d, sent) => (d, .queued packet :: sent)
      | _ => some (d, [])

/-- The packets that may come, and the call that ends the loop. -/
def rounds (d : Device C T) (i : PeerRef) : ℕ :=
  match d.lock i with
  | some p => p.tunnel.pending + 1
  | none => 1

/-- A packet out of the tunnel goes to the interface when its source is allowed. -/
def toTunnel (d : Device C T) (i : PeerRef) (packet : List UInt8) (addr : IpAddr) : List Sent :=
  match d.lock i with
  | some p => if p.isAllowedIp addr then [.tunnel packet] else []
  | none => []

/-! ## The loop ends -/

variable {d d' : Device C T} {i : PeerRef} {env : Env} {packet : List UInt8}

omit [Table T IpNetwork IpAddr] in
theorem rounds_pos (d : Device C T) (i : PeerRef) : 0 < d.rounds i := by
  rw [rounds]
  split <;> exact Nat.succ_pos _

theorem rounds_nextQueued (h : d.nextQueued i env = some (d', .writeToNetwork packet)) :
    d'.rounds i < d.rounds i := by
  obtain ⟨p, hlock, h⟩ := Option.bind_eq_some_iff.mp h
  obtain ⟨⟨p', r⟩, hcall, heq⟩ := Option.map_eq_some_iff.mp h
  obtain ⟨⟨tunnel, r'⟩, htunnel, heq'⟩ := Option.map_eq_some_iff.mp hcall
  cases heq
  cases heq'
  have hpending : tunnel.pending < p.tunnel.pending := Tunn.pending_sendQueuedPacket htunnel
  have hlock' : d.heap[i]? = some p := hlock
  have hset : (d.heap.set i { p with tunnel })[i]? = some { p with tunnel } := by
    rw [List.getElem?_set_self (List.getElem?_eq_some_iff.mp hlock').1]
  rw [rounds, rounds, lock, lock, hset, hlock']
  exact Nat.succ_lt_succ hpending

/-- **The loop ends** after the rounds of the peer's queue: it would do the same with more. -/
theorem flushQueue_rounds {n : ℕ} {envs : ℕ → Env} (h : d.rounds i ≤ n) :
    flushQueue i n envs d = flushQueue i (d.rounds i) envs d := by
  -- two numbers of rounds, both large enough
  have hall : ∀ n m envs (d : Device C T), d.rounds i ≤ n → d.rounds i ≤ m →
      flushQueue i n envs d = flushQueue i m envs d := by
    intro n
    induction n with
    | zero =>
      intro m envs d hn
      exact absurd (d.rounds_pos i) (by omega)
    | succ n ih =>
      intro m envs d hn hm
      rcases m with _ | m
      · exact absurd (d.rounds_pos i) (by omega)
      · rw [flushQueue, flushQueue]
        refine Option.bind_congr fun q hq => ?_
        obtain ⟨d', res⟩ := q
        cases res with
        | writeToNetwork packet =>
          have hlt := rounds_nextQueued hq
          dsimp only
          rw [ih m (fun k => envs (k + 1)) d' (by omega) (by omega)]
        | done | err | writeToTunnelV4 | writeToTunnelV6 => rfl
  exact hall n _ envs d h le_rfl

end NekoLink.Device
