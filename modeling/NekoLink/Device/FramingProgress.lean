import NekoLink.Device.TcpStreams

/-!
# The room in the framing buffer

The buffer has `MAX_DATAGRAM_SIZE` bytes for a frame and its header, and a header can announce as
many bytes without it. So a frame of the two greatest lengths never fits, and when the buffer is
full of one the next read, into no space at all, gives nothing, as at the end of the stream.

* `progresses_of_reaches`: with every frame that comes so far short enough there is always room, and
  only the peer ends the connection.
* `stuck_connection`: a frame of the greatest length fills the buffer.
-/

namespace NekoLink.Device

open Wire Noise Routing

variable {C : Prims} {T : Type → Type} [Table T IpNetwork IpAddr]

/-- A frame of which a whole buffer has come announces no more than fits behind its header. -/
def FitsBuffer (received : List UInt8) : Prop :=
  ∀ packets rest, received = stream headerLen packets ++ rest →
    (∀ p ∈ packets, p.length < 256 ^ headerLen) → maxDatagramSize ≤ rest.length →
    beValue (rest.take headerLen) ≤ maxDatagramSize - headerLen

theorem FitsBuffer.of_append {received more : List UInt8} (h : FitsBuffer (received ++ more)) :
    FitsBuffer received := by
  intro packets rest heq hshort hlen
  have hheader : headerLen ≤ rest.length := le_trans (by decide) hlen
  have hmore := h packets (rest ++ more) (by rw [heq, List.append_assoc]) hshort
    (by rw [List.length_append]; omega)
  rwa [List.take_append_of_le_length hheader] at hmore

namespace Connection

variable {s s' : Connection} {endpoint : SocketAddr} {d : Device C T} {envs : ℕ → ℕ → Env}
  {cut : ℕ} {r : StreamResult C T} {o : Option (StreamResult C T)}

/-- There is room for a read, and a read that gives nothing is the end of the stream. -/
structure Progresses (C : Prims) (T : Type → Type) [Table T IpNetwork IpAddr]
    (endpoint : SocketAddr) (s : Connection) : Prop where
  room : s.framing.unprocessedI < maxDatagramSize
  nothing : ∀ cut, (s.incoming cut).read s.free = .ok [] →
    s.unread = [] ∧ s.ending = some .shutdown
  advances : ∀ (d : Device C T) (envs : ℕ → ℕ → Env) (cut : ℕ) (s' : Connection)
    (o : Option (StreamResult C T)), Keyed (ConnectionEvent.call d envs cut) →
    s.step endpoint (.call d envs cut) = some (s', o) → s.unread ≠ [] → s.ending ≠ some .reset →
    s.read < s'.read ∧ s'.closed = false

/-! ## Room after a call -/

/-- What is buffered is not a full buffer without a whole frame. -/
theorem lt_of_nextFrame {buffered : List UInt8} {packets : List (List UInt8)} {rest : List UInt8}
    (hfits : FitsBuffer s.received)
    (hreceived : s.received = stream headerLen packets ++ (buffered ++ rest))
    (hshort : ∀ p ∈ packets, p.length < 256 ^ headerLen)
    (hnone : nextFrame headerLen buffered = none) : buffered.length < maxDatagramSize := by
  by_contra hfull
  have hheader : headerLen ≤ buffered.length := le_trans (by decide) (not_lt.mp hfull)
  have hannounced := hfits packets _ hreceived hshort (by rw [List.length_append]; omega)
  rw [List.take_append_of_le_length hheader] at hannounced
  -- so the frame at the front is whole
  rw [nextFrame, if_neg (not_lt.mpr hheader)] at hnone
  have hwhole : ¬ buffered.length < headerLen + beValue (buffered.take headerLen) := by
    simp only [maxDatagramSize, headerLen] at hannounced hfull ⊢
    omega
  rw [if_neg hwhole] at hnone
  cases hnone

/-- **A call leaves room in the buffer.** -/
theorem Reads.room (h : Reads endpoint s s' d envs cut r) {log : List (List (List UInt8))}
    (ht : Tracks s log) (hfits : FitsBuffer s.received) :
    r.framing.unprocessedI < maxDatagramSize := by
  obtain ⟨limiter, hlimiter, hbuffered, -⟩ := h.limited
  have hfilled : (s.filled cut).length ≤ maxDatagramSize := by
    rw [filled, List.length_append, TcpFraming.length_buffered ht.valid]
    exact h.fits
  obtain ⟨hsplit, -, hnone⟩ := stream_frames (w := headerLen) (by decide) (s.filled cut)
  rw [← TcpFraming.length_buffered h.valid, hbuffered]
  rcases hframes : (frames headerLen (s.filled cut)).1 with _ | ⟨packet, packets⟩
  · -- nothing is taken
    rw [hframes, stream_nil, List.nil_append] at hsplit
    rw [List.drop_nil, stream_nil, List.nil_append, ← hsplit]
    rw [← hsplit] at hnone
    obtain ⟨rest, hrest⟩ := h.got_prefix
    have hreceived : s.received = stream headerLen log.flatten ++ (s.filled cut ++ rest) := by
      rw [ht.received_eq, ← hrest, filled, List.append_assoc]
    exact lt_of_nextFrame hfits hreceived ht.short hnone
  · -- one packet is taken, with its header
    obtain ⟨n, hn⟩ : ∃ n, takes C endpoint limiter envs (s.filled cut) = n + 1 := by
      rw [takes, hframes]
      exact Nat.exists_eq_succ_of_ne_zero (taken_cons_pos _).ne'
    have hlen := congrArg List.length (stream_take_frames (w := headerLen) (by decide)
      (s.filled cut) (n + 1))
    rw [hframes, List.take_succ_cons, List.length_append, stream_cons, List.length_append,
      length_frame] at hlen
    rw [hn]
    have hheader : headerLen = 2 := rfl
    omega

/-! ## Runs -/

theorem received_step {e : ConnectionEvent C T} (hstep : s.step endpoint e = some (s', o)) :
    ∃ more, s'.received = s.received ++ more := by
  cases e with
  | arrive bs =>
    rw [of_step_arrive hstep]
    exact ⟨bs, rfl⟩
  | finish ending =>
    rw [of_step_finish hstep]
    exact ⟨[], (List.append_nil _).symm⟩
  | call d envs cut =>
    rw [step] at hstep
    split_ifs at hstep
    obtain ⟨r, -, heq⟩ := Option.map_eq_some_iff.mp hstep
    cases heq
    exact ⟨[], (List.append_nil _).symm⟩

/-- There is room, and the handler has exited only when the peer has ended the connection. -/
structure Roomy (s : Connection) : Prop where
  room : s.framing.unprocessedI < maxDatagramSize
  ended : s.closed = true → s.ending ≠ none

theorem Roomy.step {log : List (List (List UInt8))} (h : Roomy s) (ht : Tracks s log)
    (hfits : FitsBuffer s.received) {e : ConnectionEvent C T} (hkeyed : Keyed e)
    (hstep : s.step endpoint e = some (s', o)) : Roomy s' := by
  cases e with
  | arrive bs =>
    rw [of_step_arrive hstep]
    exact ⟨h.room, h.ended⟩
  | finish ending =>
    rw [of_step_finish hstep]
    exact ⟨h.room, fun _ => Option.some_ne_none ending⟩
  | call d envs cut =>
    obtain ⟨r, rfl, hreads | hcloses | ⟨rfl, -⟩⟩ := call_cases ht.valid hkeyed hstep
    · rw [hreads.after]
      exact ⟨hreads.room ht hfits, h.ended⟩
    · rw [hcloses.after]
      refine ⟨h.room, fun _ => ?_⟩
      obtain hreset | ⟨-, hshutdown⟩ | ⟨-, hfull⟩ := hcloses.why
      · exact Option.ne_none_iff_exists'.mpr ⟨_, hreset⟩
      · exact Option.ne_none_iff_exists'.mpr ⟨_, hshutdown⟩
      · exact absurd hfull h.room.ne
    · exact h

theorem roomy_of_reaches {log : List (List (List UInt8))}
    (h : Machine.Reaches (Machine.logged (step (C := C) (T := T) endpoint) (handedOver endpoint))
      (fun _ e => Keyed e) (new, []) (s, log)) (hfits : FitsBuffer s.received) : Roomy s := by
  generalize hq : (s, log) = q at h
  induction h generalizing s log with
  | refl =>
    cases hq
    exact ⟨by decide, fun hclosed => by cases hclosed⟩
  | @tail q₁ q₂ e o hreach hkeyed hstep ih =>
    obtain ⟨s₁, log₁⟩ := q₁
    subst hq
    obtain ⟨hstep, -⟩ := Machine.logged_eq_some.mp hstep
    obtain ⟨more, hmore⟩ := received_step hstep
    rw [hmore] at hfits
    exact (ih hfits.of_append rfl).step (tracks_of_reaches hreach) hfits.of_append hkeyed hstep

/-- **The framing always makes progress** while no frame of which a whole buffer has come announces
more than fits behind its header. -/
theorem progresses_of_reaches
    (h : Machine.Reaches (step (C := C) (T := T) endpoint) (fun _ e => Keyed e) new s)
    (hfits : FitsBuffer s.received) :
    Progresses C T endpoint s ∧ (s.closed = true → s.ending ≠ none) := by
  obtain ⟨log, hlogged⟩ := h.logged (handedOver endpoint) []
  have hroomy := roomy_of_reaches hlogged hfits
  have ht := tracks_of_reaches hlogged
  refine ⟨⟨hroomy.room, fun cut hread => ?_, fun d envs cut s' o hkeyed hstep hunread hreset => ?_⟩,
    hroomy.ended⟩
  · have hreset : s.ending ≠ some .reset := by
      intro hreset
      rw [incoming, hreset] at hread
      cases hread
    have hunread : s.unread = [] := by
      by_contra hunread
      rw [incoming_data cut hreset hunread, ReadResult.ok.injEq, List.take_eq_nil_iff,
        List.take_eq_nil_iff, free] at hread
      have hroom := hroomy.room
      obtain hfull | hcut | hempty := hread
      · omega
      · cases hcut
      · exact hunread hempty
    refine ⟨hunread, ?_⟩
    rw [incoming] at hread
    rcases hending : s.ending with _ | _ | _
    · rw [hending] at hread
      simp [hunread, Incoming.read] at hread
    · rfl
    · exact absurd hending hreset
  · obtain ⟨r, rfl, hreads | hcloses | ⟨-, -, hempty, -⟩⟩ := call_cases ht.valid hkeyed hstep
    · have hopen : s.closed = false := by
        rw [step] at hstep
        split_ifs at hstep with hclosed
        exact Bool.eq_false_of_not_eq_true hclosed
      rw [hreads.after]
      exact ⟨Nat.lt_add_of_pos_right (List.length_pos_of_ne_nil hreads.got_ne), hopen⟩
    · obtain hreset' | ⟨hempty, -⟩ | ⟨-, hfull⟩ := hcloses.why
      · exact absurd hreset' hreset
      · exact absurd hempty hunread
      · exact absurd hfull hroomy.room.ne
    · exact absurd hempty hunread

/-! ## A frame that fits -/

/-- The payload of a frame that just fits into the buffer, whose header is `[255, 253]`. -/
def fittingPayload : List UInt8 := List.replicate 65533 0

theorem nextFrame_fitting {rest : List UInt8} (h : rest.length < 65533) :
    nextFrame headerLen ([255, 253] ++ rest) = none := by
  rw [nextFrame, if_neg (by simp [headerLen])]
  refine if_pos ?_
  rw [List.take_left' (by rfl), List.length_append]
  change 2 + rest.length < 2 + 65533
  omega

/-- A whole buffer has come only of the frame at the front, and it fits. -/
theorem fitsBuffer_fittingPayload : FitsBuffer ([255, 253] ++ fittingPayload) := by
  intro packets rest heq _ hlen
  have hlength : (stream headerLen packets).length + rest.length = 65535 := by
    rw [← List.length_append, ← heq, List.length_append, fittingPayload, List.length_replicate]
    rfl
  have hnil : stream headerLen packets = [] := by
    unfold maxDatagramSize at hlen
    exact List.length_eq_zero_iff.mp (by omega)
  rw [hnil, List.nil_append] at heq
  rw [← heq, List.take_left' (by rfl)]
  decide

/-- The header has been read and the payload has come: there is room, and the next call reads. -/
theorem progresses_of_reaches_sample : ∃ (s s' : Connection)
    (o : Option (StreamResult checksumPrims (PrefixMap IpNetwork))),
    s.framing.buffered = [255, 253] ∧ s.framing.unprocessedI < maxDatagramSize ∧
      s.step sampleEndpoint (.call keyedDevice (fun _ _ => Tunn.sampleEnv 0 0) 0) = some (s', o) ∧
      s.read < s'.read ∧ s'.closed = false := by
  have hnothing : handleAll sampleEndpoint (fun _ _ => Tunn.sampleEnv 0 0) [] keyedDevice =
      some (keyedDevice, []) := rfl
  have hframes (rest : List UInt8) (h : rest.length < 65533) :
      frames headerLen ([255, 253] ++ rest) = ([], [255, 253] ++ rest) := by
    have hstream : frames headerLen (stream headerLen [] ++ ([255, 253] ++ rest)) =
        ([], [255, 253] ++ rest) := frames_stream (by decide) (by simp) (nextFrame_fitting h)
    rwa [stream_nil, List.nil_append] at hstream
  have hheader : frames headerLen [255, 253] = ([], [255, 253]) := hframes [] (by decide)
  obtain ⟨framing, hv, hbuffered, hcall⟩ := step_first_call (d := keyedDevice) sampleEndpoint rfl
    rfl (by decide) (by decide) hheader (by rw [List.take_nil]; exact hnothing)
  rw [List.drop_nil, stream_nil, List.nil_append] at hbuffered
  let s : Connection := ⟨framing, [255, 253] ++ fittingPayload, 2, none, false⟩
  have hreach : Machine.Reaches (step (C := checksumPrims) (T := PrefixMap IpNetwork)
      sampleEndpoint) (fun _ e => Keyed e) new s :=
    (reaches_first_call (keyed_call _ _) hcall).tail (i := .arrive fittingPayload) trivial rfl
  obtain ⟨hprogresses, -⟩ := progresses_of_reaches hreach fitsBuffer_fittingPayload
  have hunread : s.unread ≠ [] := by
    change fittingPayload ≠ []
    rw [fittingPayload, List.replicate_succ]
    exact List.cons_ne_nil _ _
  have hending : s.ending ≠ some .reset := nofun
  obtain ⟨framing', -, -, hnext⟩ := step_call_data (s := s) (d := keyedDevice) sampleEndpoint
    (fun _ _ => Tunn.sampleEnv 0 0) 0 hv rfl rfl rfl hending hunread hprogresses.room
  have hgot : (s.got 0).length ≤ 1 := by
    rw [got, incoming_data 0 hending hunread]
    exact (List.length_take_le' _ _).trans (List.length_take_le _ _)
  have hfilled : s.filled 0 = [255, 253] ++ s.got 0 := congrArg (· ++ s.got 0) hbuffered
  rw [hfilled, hframes _ (by omega), List.take_nil, hnothing, Option.map_some] at hnext
  obtain ⟨hlt, hopen⟩ := hprogresses.advances _ _ _ _ _ (keyed_call _ _) hnext hunread hending
  exact ⟨s, _, _, hbuffered, hprogresses.room, hnext, hlt, hopen⟩

/-! ## A frame of the greatest length -/

/-- The header, and as much of the payload as fits with it. -/
def longFrame : List UInt8 := [255, 255] ++ List.replicate 65533 0

theorem nextFrame_longFrame : nextFrame headerLen longFrame = none := by
  have hlen : longFrame.length = 65535 := by
    rw [longFrame, List.length_append, List.length_replicate]
    rfl
  have htake : longFrame.take headerLen = [255, 255] := by
    rw [longFrame]
    exact List.take_left' rfl
  rw [nextFrame, hlen, if_neg (by decide), htake]
  exact if_pos (by decide)

theorem length_longFrame : longFrame.length = maxDatagramSize := by
  rw [longFrame, List.length_append, List.length_replicate]
  rfl

/-- It has come and has been read: the buffer is full. -/
theorem reaches_longFrame : ∃ framing : TcpFraming, framing.Valid ∧ framing.buffered = longFrame ∧
    Machine.Reaches (step (C := checksumPrims) (T := PrefixMap IpNetwork) sampleEndpoint)
      (fun _ e => Keyed e) new ⟨framing, longFrame, longFrame.length, none, false⟩ := by
  have hne : longFrame ≠ [] := by
    intro hnil
    have hlen := length_longFrame
    rw [hnil] at hlen
    cases hlen
  have hframes : frames headerLen (stream headerLen [] ++ longFrame) = ([], longFrame) :=
    frames_stream (by decide) (by simp) nextFrame_longFrame
  rw [stream_nil, List.nil_append] at hframes
  obtain ⟨framing, hv, hbuffered, hcall⟩ := step_first_call (d := keyedDevice) sampleEndpoint rfl
    rfl hne length_longFrame.le hframes
    (by rw [List.take_nil]; exact rfl : handleAll sampleEndpoint (fun _ _ => Tunn.sampleEnv 0 0) _
      keyedDevice = some (keyedDevice, []))
  rw [List.drop_nil, stream_nil, List.nil_append] at hbuffered
  exact ⟨framing, hv, hbuffered, reaches_first_call (keyed_call _ _) hcall⟩

/-- **A frame of the greatest length closes its connection**: when its last bytes have come, the
handler takes the full buffer for the end of the stream. -/
theorem longFrame_closes : ∃ s : Connection,
    Machine.Reaches (step (C := checksumPrims) (T := PrefixMap IpNetwork) sampleEndpoint)
      (fun _ e => Keyed e) new s ∧ s.closed = true ∧ s.ending = none := by
  obtain ⟨framing, hv, hbuffered, hreach⟩ := reaches_longFrame
  have hfull : framing.unprocessedI = maxDatagramSize := by
    rw [← TcpFraming.length_buffered hv, hbuffered, length_longFrame]
  let s : Connection := ⟨framing, longFrame ++ [0, 0], longFrame.length, none, false⟩
  have hunread : s.unread ≠ [] := by
    rw [unread]
    simp only [s, List.drop_left]
    decide
  have hending : s.ending ≠ some .reset := fun h => by cases h
  have harrive : step (C := checksumPrims) (T := PrefixMap IpNetwork) sampleEndpoint
      ⟨framing, longFrame, longFrame.length, none, false⟩ (.arrive [0, 0]) = some (s, none) := rfl
  have hcall := step_call_of_ends (s := s) sampleEndpoint keyedDevice
    (fun _ _ => Tunn.sampleEnv 0 0) hv rfl (ends_of_full 0 hending hunread hfull)
  exact ⟨_, ((hreach.tail (by exact trivial) harrive).tail (keyed_call _ _) hcall), rfl, rfl⟩

/-- **A frame of the greatest length fills the buffer**: there is no room for its last bytes, and no
whole frame. -/
theorem longFrame_not_progresses :
    ¬ ∀ s : Connection,
      Machine.Reaches (step (C := checksumPrims) (T := PrefixMap IpNetwork) sampleEndpoint)
        (fun _ e => Keyed e) new s →
      s.closed = false → nextFrame headerLen s.framing.buffered = none →
      s.framing.unprocessedI < maxDatagramSize := by
  intro hroom
  obtain ⟨framing, hv, hbuffered, hreach⟩ := reaches_longFrame
  have hlt := hroom _ hreach rfl (by rw [hbuffered, nextFrame_longFrame])
  rw [← TcpFraming.length_buffered hv, hbuffered, length_longFrame] at hlt
  exact lt_irrefl _ hlt

end Connection

end NekoLink.Device
