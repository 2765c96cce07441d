import NekoLink.Device.TcpStreams

/-!
# Frames that wait in the framing buffer

The stream handler stops behind the packet with which `MAX_ITR` have passed the rate limiter. What
it leaves behind is in the buffer and not in the socket, so it does not trigger the event for
reading.

* `Reads.served_iff`: after which calls no whole frame waits for bytes that may never come.
* `served_of_reaches`: along the runs of such calls, all the whole frames that come are handed over.
* `limit_leaves_frame`: a hundred and one data packets, read at once.
-/

namespace NekoLink.Device

open Wire Noise Routing

variable {C : Prims} {T : Type → Type} [Table T IpNetwork IpAddr]

namespace Connection

variable {s s' : Connection} {endpoint : SocketAddr} {d : Device C T} {envs : ℕ → ℕ → Env}
  {cut : ℕ} {r : StreamResult C T} {o : Option (StreamResult C T)}

/-- No whole frame is in the buffer, or the event for reading is triggered. -/
def Served (s : Connection) : Prop :=
  nextFrame headerLen s.framing.buffered = none ∨ s.unread ≠ []

/-- Fewer than `MAX_ITR` of the packets ahead of the last one pass the limiter, of those that are
buffered after the read of the call; or more is left to read. -/
def WithinLimit (endpoint : SocketAddr) (s : Connection) : ConnectionEvent C T → Prop
  | .call d envs cut =>
    (∀ limiter, d.rateLimiter = some limiter →
      passing C endpoint.ip limiter (fun k => (envs k 0).cookie)
        (frames headerLen (s.filled cut)).1.dropLast < maxItr) ∨
    s.unread.drop (s.got cut).length ≠ []
  | .arrive _ | .finish _ => True

/-- The packets of a call are handed over one after another. -/
theorem handleAll_of_call {packets : List (List UInt8)} (hv : s.framing.Valid)
    (hkeyed : Keyed (ConnectionEvent.call d envs cut))
    (h : s.step endpoint (.call d envs cut) = some (s', o))
    (hpackets : s.handedOver endpoint (.call d envs cut) = some packets) :
    ∃ r, o = some r ∧ handleAll endpoint envs packets d = some (r.device, r.sent) := by
  obtain ⟨r, rfl, hreads | hcloses | ⟨rfl, hgot, -⟩⟩ := call_cases hv hkeyed h
  · obtain ⟨limiter, hlimiter, -, hall⟩ := hreads.limited
    rw [handedOver, if_neg hreads.got_ne, hlimiter] at hpackets
    cases hpackets
    exact ⟨r, rfl, hall⟩
  · rw [handedOver, if_pos hcloses.got_eq] at hpackets
    cases hpackets
  · rw [handedOver, if_pos hgot] at hpackets
    cases hpackets

/-- **When no whole frame is left waiting** by a call that reads something. -/
theorem Reads.served_iff (h : Reads endpoint s s' d envs cut r) :
    s'.Served ↔ WithinLimit endpoint s (ConnectionEvent.call d envs cut) := by
  obtain ⟨limiter, hlimiter, hbuffered, -⟩ := h.limited
  obtain ⟨-, hshort, hnone⟩ := stream_frames (w := headerLen) (by decide) (s.filled cut)
  have hunread : s'.unread = s.unread.drop (s.got cut).length := by
    rw [h.after, unread, unread, List.drop_drop]
  have hframes : nextFrame headerLen s'.framing.buffered = none ↔
      passing C endpoint.ip limiter (fun k => (envs k 0).cookie)
        (frames headerLen (s.filled cut)).1.dropLast < maxItr := by
    have hleft : taken C endpoint.ip limiter (fun k => (envs k 0).cookie) 0
        (frames headerLen (s.filled cut)).1 < (frames headerLen (s.filled cut)).1.length ↔
          maxItr ≤ 0 + passing C endpoint.ip limiter (fun k => (envs k 0).cookie)
            (frames headerLen (s.filled cut)).1.dropLast := taken_lt_iff (by decide)
    rw [h.after]
    dsimp only
    rw [hbuffered, nextFrame_stream_eq_none (fun p hp => hshort p (List.mem_of_mem_drop hp)) hnone,
      List.drop_eq_nil_iff, takes]
    omega
  rw [Served, WithinLimit, hframes, hunread]
  refine or_congr ⟨fun hlt limiter' hlimiter' => ?_, fun hall => hall limiter hlimiter⟩ Iff.rfl
  obtain rfl := Option.some.inj (hlimiter.symm.trans hlimiter')
  exact hlt

theorem Served.step (h : Served s) (hv : s.framing.Valid) {e : ConnectionEvent C T}
    (hkeyed : Keyed e) (hlimit : WithinLimit endpoint s e)
    (hstep : s.step endpoint e = some (s', o)) : Served s' := by
  cases e with
  | arrive bs =>
    rw [of_step_arrive hstep]
    refine h.imp_right fun hunread hnil => hunread ?_
    rw [unread, List.drop_eq_nil_iff, List.length_append] at hnil
    exact List.drop_eq_nil_of_le (le_of_add_le_left hnil)
  | finish ending =>
    rw [of_step_finish hstep]
    exact h
  | call d envs cut =>
    obtain ⟨r, rfl, hreads | hcloses | ⟨rfl, -⟩⟩ := call_cases hv hkeyed hstep
    · exact hreads.served_iff.mpr hlimit
    · rw [hcloses.after]
      exact h
    · exact h

/-- **No whole frame is left waiting** in a run whose calls keep within the limit: when nothing is
left to read, all the whole frames that have come have been handed over. -/
theorem served_of_reaches {log : List (List (List UInt8))}
    (h : Machine.Reaches (Machine.logged (step (C := C) (T := T) endpoint) (handedOver endpoint))
      (fun q e => Keyed e ∧ WithinLimit endpoint q.1 e) (new, []) (s, log)) :
    (nextFrame headerLen s.framing.buffered = none ∨ s.unread ≠ []) ∧
      (s.unread = [] → frames headerLen s.received = (log.flatten, s.framing.buffered)) := by
  obtain ⟨ht, hserved⟩ : Tracks s log ∧ Served s := by
    refine Machine.Reaches.invariant (I := fun q => Tracks q.1 q.2 ∧ Served q.1) h
      ⟨tracks_new, .inl rfl⟩ ?_
    rintro q e q' o ⟨ht, hserved⟩ ⟨hkeyed, hlimit⟩ hstep
    obtain ⟨hstep, hlog⟩ := Machine.logged_eq_some.mp hstep
    rw [hlog]
    exact ⟨ht.step hkeyed hstep, hserved.step ht.valid hkeyed hlimit hstep⟩
  refine ⟨hserved, fun hempty => ?_⟩
  rw [ht.received_eq, hempty, List.append_nil]
  exact frames_stream (by decide) ht.short (hserved.resolve_right (absurd hempty))

/-! ## A hundred and one data packets -/

/-- A data packet for an index that no peer has. -/
def strayPacket : List UInt8 := [4, 0, 0, 0] ++ List.replicate 28 0

def strayPackets (n : ℕ) : List (List UInt8) := List.replicate n strayPacket

theorem verifyPacket_stray (limiter : RateLimiter) (addr : IpAddr) (now : ℕ) :
    ∃ p, limiter.verifyPacket checksumPrims (some addr) strayPacket maxUdpSize now =
      (limiter, .ok p) ∧ ∀ keyPair, keyedDevice.identify keyPair p = none := by
  obtain ⟨p, hparse, hsender, hpeer⟩ : ∃ p, parseIncomingPacket strayPacket = .ok p ∧
      p.handshakeSender = none ∧ ∀ keyPair, keyedDevice.identify keyPair p = none :=
    ⟨_, rfl, rfl, fun _ => rfl⟩
  exact ⟨p, RateLimiter.verifyPacket_not_handshake hparse hsender, hpeer⟩

/-- All of them pass. -/
theorem passing_stray (limiter : RateLimiter) (addr : IpAddr) (times : ℕ → ℕ) (n : ℕ) :
    passing checksumPrims addr limiter times (strayPackets n) = n := by
  induction n generalizing times with
  | zero => rfl
  | succ n ih =>
    obtain ⟨p, hverify, -⟩ := verifyPacket_stray limiter addr (times 0)
    rw [strayPackets, List.replicate_succ, passing, hverify]
    dsimp only
    exact congrArg (· + 1) (ih _)

theorem handleAll_stray (envs : ℕ → ℕ → Env) (n : ℕ) :
    handleAll sampleEndpoint envs (strayPackets n) keyedDevice = some (keyedDevice, []) := by
  induction n generalizing envs with
  | zero => rfl
  | succ n ih =>
    obtain ⟨limiter, hlimiter⟩ : ∃ limiter, keyedDevice.rateLimiter = some limiter := ⟨_, rfl⟩
    obtain ⟨keyPair, hkey⟩ : ∃ keyPair, keyedDevice.keyPair = some keyPair := ⟨_, rfl⟩
    obtain ⟨p, hverify, hpeer⟩ := verifyPacket_stray limiter sampleEndpoint.ip (envs 0 0).cookie
    have hhandle : keyedDevice.handlePacket keyPair limiter (envs 0) sampleEndpoint strayPacket =
        some (keyedDevice, [], true) := by
      have hdevice : { keyedDevice with rateLimiter := some limiter } = keyedDevice := by
        rw [← hlimiter]
      rw [handlePacket, verify, hverify]
      simp only [hpeer, hdevice]
    rw [strayPackets, List.replicate_succ, handleAll_cons hkey hlimiter hhandle, ← strayPackets, ih]
    rfl

theorem strayPackets_short (n : ℕ) : ∀ p ∈ strayPackets n, p.length < 256 ^ headerLen := by
  intro p hp
  rw [List.eq_of_mem_replicate hp]
  decide

theorem frames_stray (n : ℕ) :
    frames headerLen (stream headerLen (strayPackets n)) = (strayPackets n, []) := by
  have hframes : frames headerLen (stream headerLen (strayPackets n) ++ []) =
      (strayPackets n, []) := frames_stream (by decide) (strayPackets_short n) rfl
  rwa [List.append_nil] at hframes

theorem length_stray (n : ℕ) : (stream headerLen (strayPackets n)).length = n * 34 := by
  induction n with
  | zero => rfl
  | succ n ih =>
    rw [strayPackets, List.replicate_succ, stream_cons, List.length_append, length_frame,
      ← strayPackets, ih, Nat.succ_mul, Nat.add_comm]
    rfl

theorem stream_stray_ne {n : ℕ} (hpos : 0 < n) : stream headerLen (strayPackets n) ≠ [] := by
  intro hnil
  have hlen := length_stray n
  rw [hnil, List.length_nil] at hlen
  omega

def quietEnvs : ℕ → ℕ → Env := fun _ _ => Tunn.sampleEnv 0 0

/-- What a first call leaves behind of some stray packets that have come. -/
theorem first_call_stray {n : ℕ} (hpos : 0 < n) (hfits : n * 34 ≤ maxDatagramSize) :
    ∃ (s : Connection) (o : Option (StreamResult checksumPrims (PrefixMap IpNetwork))),
      (came (stream headerLen (strayPackets n))).step sampleEndpoint
        (.call keyedDevice quietEnvs (stream headerLen (strayPackets n)).length) = some (s, o) ∧
      s.closed = false ∧ s.received = stream headerLen (strayPackets n) ∧ s.unread = [] ∧
      (nextFrame headerLen s.framing.buffered = none ↔ n ≤ maxItr) := by
  obtain ⟨limiter, hlimiter⟩ : ∃ limiter, keyedDevice.rateLimiter = some limiter := ⟨_, rfl⟩
  have hne := stream_stray_ne hpos
  set m := takes checksumPrims sampleEndpoint limiter quietEnvs (stream headerLen (strayPackets n))
    with hm
  have hall : handleAll sampleEndpoint quietEnvs ((strayPackets n).take m) keyedDevice =
      some (keyedDevice, []) := by
    rw [strayPackets, List.take_replicate]
    exact handleAll_stray quietEnvs _
  obtain ⟨framing, hv, hbuffered, hcall⟩ := step_first_call sampleEndpoint rfl hlimiter hne
    (by rw [length_stray]; exact hfits) (frames_stray n) hall
  refine ⟨_, _, hcall, rfl, rfl, List.drop_length, ?_⟩
  have hleft : m < (strayPackets n).length ↔
      maxItr ≤ 0 + passing checksumPrims sampleEndpoint.ip limiter (fun k => (quietEnvs k 0).cookie)
        (strayPackets n).dropLast := by
    rw [hm, takes, frames_stray]
    exact taken_lt_iff (by decide)
  rw [strayPackets, List.dropLast_replicate, ← strayPackets, ← strayPackets, passing_stray] at hleft
  have hlen : (strayPackets n).length = n := List.length_replicate
  dsimp only
  rw [hbuffered, nextFrame_stream_eq_none
    (fun p hp => strayPackets_short n p (List.mem_of_mem_drop hp)) rfl, List.drop_eq_nil_iff]
  omega

/-- Three stray packets are handed over. -/
theorem served_of_reaches_sample : ∃ (s : Connection) (log : List (List (List UInt8))),
    s.received = stream headerLen (strayPackets 3) ∧ s.unread = [] ∧
    frames headerLen s.received = (log.flatten, s.framing.buffered) := by
  obtain ⟨s, o, hcall, -, hreceived, hunread, -⟩ :=
    first_call_stray (n := 3) (by decide) (by decide)
  have hlimit : WithinLimit sampleEndpoint (came (stream headerLen (strayPackets 3)))
      (ConnectionEvent.call keyedDevice quietEnvs (stream headerLen (strayPackets 3)).length) := by
    refine .inl fun limiter _ => ?_
    rw [filled_came (stream_stray_ne (by decide)) (by rw [length_stray]; decide), frames_stray,
      strayPackets, List.dropLast_replicate, ← strayPackets, passing_stray]
    decide
  have hreach : Machine.Reaches (Machine.logged (step sampleEndpoint) (handedOver sampleEndpoint))
      (fun q e => Keyed e ∧ WithinLimit sampleEndpoint q.1 e) (new, [])
      (came (stream headerLen (strayPackets 3)), []) :=
    .tail .refl (i := ConnectionEvent.arrive (C := checksumPrims) (T := PrefixMap IpNetwork)
      (stream headerLen (strayPackets 3))) ⟨trivial, trivial⟩ rfl
  have hreach' := hreach.tail ⟨keyed_call _ _, hlimit⟩ (Machine.logged_of_step hcall [])
  exact ⟨s, _, hreceived, hunread, (served_of_reaches hreach').2 hunread⟩

/-- **A hundred and one packets, read at once, leave one behind**, and nothing in the socket for
which the handler would run again. -/
theorem limit_leaves_frame :
    ¬ ∀ s : Connection,
      Machine.Reaches (step (C := checksumPrims) (T := PrefixMap IpNetwork) sampleEndpoint)
        (fun _ e => Keyed e) new s →
      s.closed = false → nextFrame headerLen s.framing.buffered = none ∨ s.unread ≠ [] := by
  intro hserved
  obtain ⟨s, o, hcall, hopen, -, hunread, hleft⟩ :=
    first_call_stray (n := 101) (by decide) (by decide)
  obtain hnone | hmore := hserved s (reaches_first_call (keyed_call _ _) hcall) hopen
  · exact absurd (hleft.mp hnone) (by decide)
  · exact hmore hunread

end Connection

end NekoLink.Device
