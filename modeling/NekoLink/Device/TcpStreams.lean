import NekoLink.Device.StreamFrames

/-!
# A connection and its handler

A TCP connection as its handler sees it: bytes come from the peer, in any pieces, until the peer
ends the connection; and the event loop calls the handler, which reads some of what has come. The
event is one for reading, and it is enabled again after every call, so the handler runs again as
long as something is left to read.

* `call_cases`: what a call does.
* `tracks_of_reaches`: the packets handed over, the buffer and what is left to read are what has
  come.
-/

namespace NekoLink.Device

open Wire Noise Routing

variable {C : Prims} {T : Type → Type} [Table T IpNetwork IpAddr]

/-- How the peer ends a connection. -/
inductive Ending
  | shutdown
  | reset
  deriving DecidableEq

structure Connection where
  framing : TcpFraming
  /-- all that has come from the peer -/
  received : List UInt8
  /-- how much of it has been read -/
  read : ℕ
  ending : Option Ending
  /-- the handler has asked to exit -/
  closed : Bool

inductive ConnectionEvent (C : Prims) (T : Type → Type)
  | arrive (bs : List UInt8)
  | finish (ending : Ending)
  /-- The handler runs on some device; its read gives `cut + 1` bytes at most. -/
  | call (d : Device C T) (envs : ℕ → ℕ → Env) (cut : ℕ)

namespace Connection

def new : Connection := ⟨.new, [], 0, none, false⟩

variable (s : Connection)

def unread : List UInt8 := s.received.drop s.read

def free : ℕ := maxDatagramSize - s.framing.unprocessedI

/-- What the socket has for a read. -/
def incoming (cut : ℕ) : Incoming :=
  match s.ending with
  | some .reset => .error
  | some .shutdown => if h : s.unread.take (cut + 1) = [] then .eof else .data _ h
  | none => if h : s.unread.take (cut + 1) = [] then .wouldBlock else .data _ h

/-- The bytes that a read gives. -/
def got (cut : ℕ) : List UInt8 :=
  match (s.incoming cut).read s.free with
  | .ok bs => bs
  | .wouldBlock | .error => []

def step (endpoint : SocketAddr) (s : Connection) :
    ConnectionEvent C T → Option (Connection × Option (StreamResult C T))
  | .arrive bs =>
    if s.ending = none then some ({ s with received := s.received ++ bs }, none) else none
  | .finish ending =>
    if s.ending = none then some ({ s with ending := some ending }, none) else none
  | .call d envs cut =>
    if s.closed then none
    else
      (d.streamHandler envs s.framing endpoint (s.incoming cut)).map fun r =>
        ({ s with
          framing := r.framing
          read := s.read + (s.got cut).length
          closed := r.action == .exit }, some r)

/-- The handler runs on a device with its keys. -/
def Keyed : ConnectionEvent C T → Prop
  | .call d _ _ => d.keyPair.isSome ∧ d.rateLimiter.isSome
  | .arrive _ | .finish _ => True

/-- The bytes buffered after the read of a call. -/
def filled (cut : ℕ) : List UInt8 := s.framing.buffered ++ s.got cut

/-- The packets that a call hands over, when it reads something. -/
def handedOver (endpoint : SocketAddr) (s : Connection) :
    ConnectionEvent C T → Option (List (List UInt8))
  | .call d envs cut =>
    if s.got cut = [] then none
    else
      d.rateLimiter.map fun limiter =>
        (frames headerLen (s.filled cut)).1.take (takes C endpoint limiter envs (s.filled cut))
  | .arrive _ | .finish _ => none

variable {s} {s' : Connection} {endpoint : SocketAddr} {d : Device C T} {envs : ℕ → ℕ → Env}
  {cut : ℕ} {r : StreamResult C T} {o : Option (StreamResult C T)}

/-! ## What the peer does -/

theorem of_step_arrive {bs : List UInt8}
    (h : s.step endpoint (.arrive bs : ConnectionEvent C T) = some (s', o)) :
    s' = { s with received := s.received ++ bs } := by
  rw [step] at h
  split_ifs at h
  cases h
  rfl

theorem of_step_finish {ending : Ending}
    (h : s.step endpoint (.finish ending : ConnectionEvent C T) = some (s', o)) :
    s' = { s with ending := some ending } := by
  rw [step] at h
  split_ifs at h
  cases h
  rfl

/-! ## What a call does -/

/-- A read gives the first of what is left to read, as much as there is room for. -/
theorem incoming_data (cut : ℕ) (hending : s.ending ≠ some .reset) (hunread : s.unread ≠ []) :
    (s.incoming cut).read s.free = .ok ((s.unread.take (cut + 1)).take s.free) := by
  have hne : s.unread.take (cut + 1) ≠ [] := by
    rw [Ne, List.take_eq_nil_iff]
    rintro (h | h)
    · cases h
    · exact hunread h
  rw [incoming]
  rcases hend : s.ending with _ | _ | _
  · dsimp only
    rw [dif_neg hne]
    rfl
  · dsimp only
    rw [dif_neg hne]
    rfl
  · exact absurd hend hending

/-- Bytes are read. -/
structure Reads (endpoint : SocketAddr) (s s' : Connection) (d : Device C T) (envs : ℕ → ℕ → Env)
    (cut : ℕ) (r : StreamResult C T) : Prop where
  got_ne : s.got cut ≠ []
  got_prefix : s.got cut <+: s.unread
  fits : s.framing.unprocessedI + (s.got cut).length ≤ maxDatagramSize
  valid : r.framing.Valid
  after : s' = { s with framing := r.framing, read := s.read + (s.got cut).length }
  action : r.action = .continue
  limited : ∃ limiter, d.rateLimiter = some limiter ∧
    r.framing.buffered = stream headerLen ((frames headerLen (s.filled cut)).1.drop
      (takes C endpoint limiter envs (s.filled cut))) ++ (frames headerLen (s.filled cut)).2 ∧
    handleAll endpoint envs ((frames headerLen (s.filled cut)).1.take
      (takes C endpoint limiter envs (s.filled cut))) d = some (r.device, r.sent)

/-- The handler asks to exit, because the peer has ended the connection or because there is no room
for what is left to read. -/
structure Closes (s s' : Connection) (cut : ℕ) (r : StreamResult C T) : Prop where
  got_eq : s.got cut = []
  after : s' = { s with closed := true }
  action : r.action = .exit
  why : s.ending = some .reset ∨ (s.unread = [] ∧ s.ending = some .shutdown) ∨
    (s.unread ≠ [] ∧ s.framing.unprocessedI = maxDatagramSize)

theorem getFreeSpace_eq (hv : s.framing.Valid) : s.framing.getFreeSpace = some s.free := if_pos hv

/-- A read that fails or gives nothing. -/
theorem streamHandler_of_ends (hv : s.framing.Valid) {incoming : Incoming}
    (hends : incoming.Ends s.free) :
    d.streamHandler envs s.framing endpoint incoming = some ⟨d, s.framing, .exit, [], true⟩ := by
  rw [streamHandler, getFreeSpace_eq hv, Option.bind_some]
  obtain hread | hread := hends <;> rw [hread]

theorem got_of_ends (hends : (s.incoming cut).Ends s.free) : s.got cut = [] := by
  rw [got]
  obtain hread | hread := hends <;> rw [hread]

/-- The handler exits. -/
theorem step_call_of_ends (endpoint : SocketAddr) (d : Device C T) (envs : ℕ → ℕ → Env)
    (hv : s.framing.Valid) (hopen : s.closed = false) (hends : (s.incoming cut).Ends s.free) :
    s.step endpoint (.call d envs cut) =
      some ({ s with closed := true }, some ⟨d, s.framing, .exit, [], true⟩) := by
  rw [step, if_neg (by simp [hopen]), streamHandler_of_ends hv hends, Option.map_some,
    got_of_ends hends]
  rfl

theorem closes_of_ends (hv : s.framing.Valid) (hopen : s.closed = false)
    (hends : (s.incoming cut).Ends s.free)
    (hwhy : s.ending = some .reset ∨ (s.unread = [] ∧ s.ending = some .shutdown) ∨
      (s.unread ≠ [] ∧ s.framing.unprocessedI = maxDatagramSize))
    (h : s.step endpoint (.call d envs cut) = some (s', o)) :
    ∃ r, o = some r ∧ Closes s s' cut r := by
  rw [step_call_of_ends endpoint d envs hv hopen hends] at h
  cases h
  exact ⟨_, rfl, got_of_ends hends, rfl, rfl, hwhy⟩

/-- No room for what is left to read. -/
theorem ends_of_full (cut : ℕ) (hreset : s.ending ≠ some .reset) (hunread : s.unread ≠ [])
    (hfull : s.framing.unprocessedI = maxDatagramSize) : (s.incoming cut).Ends s.free := by
  left
  rw [incoming_data cut hreset hunread, free, hfull, Nat.sub_self, List.take_zero]

/-- A read into some room, of what is left to read. -/
theorem got_spec (cut : ℕ) (hreset : s.ending ≠ some .reset) (hunread : s.unread ≠ [])
    (hroom : s.framing.unprocessedI < maxDatagramSize) :
    (s.incoming cut).read s.free = .ok (s.got cut) ∧ s.got cut ≠ [] ∧ s.got cut <+: s.unread ∧
      s.framing.unprocessedI + (s.got cut).length ≤ maxDatagramSize := by
  have hread := incoming_data cut hreset hunread
  have hgot : s.got cut = (s.unread.take (cut + 1)).take s.free := by rw [got, hread]
  refine ⟨hgot ▸ hread, ?_, ?_, ?_⟩
  · rw [hgot, Ne, List.take_eq_nil_iff, List.take_eq_nil_iff, free]
    rintro (h | h | h)
    · omega
    · cases h
    · exact hunread h
  · rw [hgot]
    exact (List.take_prefix _ _).trans (List.take_prefix _ _)
  · have hle := List.length_take_le s.free (s.unread.take (cut + 1))
    rw [← hgot, free] at hle
    omega

/-- **A call that reads something.** -/
theorem step_call_data (endpoint : SocketAddr) (envs : ℕ → ℕ → Env) (cut : ℕ)
    {limiter : RateLimiter} (hv : s.framing.Valid) (hopen : s.closed = false)
    (hkey : d.keyPair.isSome) (hlimiter : d.rateLimiter = some limiter)
    (hreset : s.ending ≠ some .reset)
    (hunread : s.unread ≠ []) (hroom : s.framing.unprocessedI < maxDatagramSize) :
    let whole := frames headerLen (s.filled cut)
    let n := takes C endpoint limiter envs (s.filled cut)
    ∃ framing', framing'.Valid ∧ framing'.buffered = stream headerLen (whole.1.drop n) ++ whole.2 ∧
      s.step endpoint (.call d envs cut) =
        (handleAll endpoint envs (whole.1.take n) d).map fun (d, sent) =>
          ({ s with framing := framing', read := s.read + (s.got cut).length },
            some ⟨d, framing', .continue, sent, false⟩) := by
  intro whole n
  obtain ⟨hread, hne, -, hfits⟩ := got_spec cut hreset hunread hroom
  obtain ⟨framing', hv', hbuffered', hhandler⟩ :=
    streamHandler_data endpoint envs hv hkey hlimiter hne hfits hread
  refine ⟨framing', hv', hbuffered', ?_⟩
  rw [step, if_neg (by simp [hopen]), hhandler, Option.map_map]
  refine Option.map_congr fun q _ => ?_
  simp [hopen]

/-- **What a call does.** -/
theorem call_cases (hv : s.framing.Valid)
    (hkeyed : Keyed (ConnectionEvent.call d envs cut))
    (h : s.step endpoint (.call d envs cut) = some (s', o)) :
    ∃ r, o = some r ∧ (Reads endpoint s s' d envs cut r ∨ Closes s s' cut r ∨
      (s' = s ∧ s.got cut = [] ∧ s.unread = [] ∧ s.ending = none ∧ r.action = .continue)) := by
  have hopen : s.closed = false := by
    rw [step] at h
    split_ifs at h with hclosed
    exact Bool.eq_false_of_not_eq_true hclosed
  by_cases hreset : s.ending = some .reset
  · have hends : (s.incoming cut).Ends s.free := by
      rw [incoming, hreset]
      exact .inr rfl
    obtain ⟨r, rfl, hcloses⟩ := closes_of_ends hv hopen hends (.inl hreset) h
    exact ⟨r, rfl, .inr (.inl hcloses)⟩
  by_cases hunread : s.unread = []
  · rcases hending : s.ending with _ | _ | _
    · -- nothing has come, and more may come
      have hincoming : s.incoming cut = .wouldBlock := by
        rw [incoming, hending]
        simp [hunread]
      have hgot : s.got cut = [] := by rw [got, hincoming, Incoming.read]
      rw [step, if_neg (by simp [hopen]), streamHandler, getFreeSpace_eq hv, Option.bind_some,
        hincoming] at h
      cases h
      refine ⟨_, rfl, .inr (.inr ⟨?_, hgot, hunread, rfl, rfl⟩)⟩
      rw [hgot]
      cases s
      simp_all
    · have hends : (s.incoming cut).Ends s.free := by
        rw [incoming, hending]
        simp [hunread, Incoming.Ends, Incoming.read]
      obtain ⟨r, rfl, hcloses⟩ :=
        closes_of_ends hv hopen hends (.inr (.inl ⟨hunread, hending⟩)) h
      exact ⟨r, rfl, .inr (.inl hcloses)⟩
    · exact absurd hending hreset
  · by_cases hfull : s.framing.unprocessedI = maxDatagramSize
    · obtain ⟨r, rfl, hcloses⟩ := closes_of_ends hv hopen (ends_of_full cut hreset hunread hfull)
        (.inr (.inr ⟨hunread, hfull⟩)) h
      exact ⟨r, rfl, .inr (.inl hcloses)⟩
    · have hroom : s.framing.unprocessedI < maxDatagramSize := lt_of_le_of_ne hv hfull
      obtain ⟨hkey, hlimiter⟩ := hkeyed
      obtain ⟨limiter, hlimiter⟩ := Option.isSome_iff_exists.mp hlimiter
      obtain ⟨-, hne, hprefix, hfits⟩ := got_spec cut hreset hunread hroom
      obtain ⟨framing', hv', hbuffered', hcall⟩ :=
        step_call_data endpoint envs cut hv hopen hkey hlimiter hreset hunread hroom
      rw [hcall] at h
      obtain ⟨⟨d', sent⟩, hall, heq⟩ := Option.map_eq_some_iff.mp h
      cases heq
      exact ⟨_, rfl, .inl ⟨hne, hprefix, hfits, hv', rfl, rfl, limiter, hlimiter, hbuffered',
        hall⟩⟩

/-! ## Runs -/

/-- The packets handed over so far, the buffer and what is left to read are what has come. -/
structure Tracks (s : Connection) (log : List (List (List UInt8))) : Prop where
  valid : s.framing.Valid
  read_le : s.read ≤ s.received.length
  split : s.received.take s.read = stream headerLen log.flatten ++ s.framing.buffered
  short : ∀ p ∈ log.flatten, p.length < 256 ^ headerLen

theorem tracks_new : Tracks new [] where
  valid := TcpFraming.valid_new
  read_le := le_rfl
  split := rfl
  short := by simp

/-- All that has come. -/
theorem Tracks.received_eq {log : List (List (List UInt8))} (h : Tracks s log) :
    s.received = stream headerLen log.flatten ++ (s.framing.buffered ++ s.unread) := by
  rw [← List.append_assoc, ← h.split, unread, List.take_append_drop]

/-- The bytes of a read are the next ones. -/
theorem Reads.take_eq {limiter : RateLimiter} (h : Reads endpoint s s' d envs cut r)
    {log : List (List (List UInt8))} (ht : Tracks s log) (hlimiter : d.rateLimiter = some limiter) :
    s.received.take (s.read + (s.got cut).length) =
      stream headerLen (log.flatten ++ (frames headerLen (s.filled cut)).1.take
        (takes C endpoint limiter envs (s.filled cut))) ++ r.framing.buffered := by
  obtain ⟨limiter', hlimiter', hbuffered, -⟩ := h.limited
  obtain rfl := Option.some.inj (hlimiter.symm.trans hlimiter')
  obtain ⟨rest, hrest⟩ := h.got_prefix
  rw [List.take_add, ht.split, ← unread, ← hrest, List.take_left, stream_append, List.append_assoc,
    List.append_assoc, hbuffered, ← stream_take_frames (by decide), filled]

theorem Tracks.step {log : List (List (List UInt8))} (h : Tracks s log) {e : ConnectionEvent C T}
    (hkeyed : Keyed e) (hstep : s.step endpoint e = some (s', o)) :
    Tracks s' (log ++ (s.handedOver endpoint e).toList) := by
  cases e with
  | arrive bs =>
    rw [of_step_arrive hstep]
    rw [handedOver, Option.toList_none, List.append_nil]
    refine ⟨h.valid, ?_, ?_, h.short⟩
    · rw [List.length_append]
      exact h.read_le.trans (Nat.le_add_right _ _)
    · rw [List.take_append_of_le_length h.read_le]
      exact h.split
  | finish ending =>
    rw [of_step_finish hstep]
    rw [handedOver, Option.toList_none, List.append_nil]
    exact ⟨h.valid, h.read_le, h.split, h.short⟩
  | call d envs cut =>
    obtain ⟨r, rfl, hreads | hcloses | ⟨rfl, hgot, -⟩⟩ := call_cases h.valid hkeyed hstep
    · obtain ⟨limiter, hlimiter, -⟩ := hreads.limited
      have htake := hreads.take_eq h hlimiter
      rw [handedOver, if_neg hreads.got_ne, hlimiter, hreads.after]
      refine ⟨hreads.valid, ?_, ?_, ?_⟩
      · have hle := hreads.got_prefix.length_le
        rw [unread, List.length_drop] at hle
        have hread := h.read_le
        dsimp only
        omega
      · simpa using htake
      · intro p hp
        rw [Option.map_some, Option.toList_some, List.flatten_append, List.flatten_singleton] at hp
        rcases List.mem_append.mp hp with hp | hp
        · exact h.short p hp
        · exact (stream_frames (by decide) _).2.1 p (List.mem_of_mem_take hp)
    · rw [handedOver, if_pos hcloses.got_eq, Option.toList_none, List.append_nil, hcloses.after]
      exact ⟨h.valid, h.read_le, h.split, h.short⟩
    · rw [handedOver, if_pos hgot, Option.toList_none, List.append_nil]
      exact h

/-- **All along a run**, the packets handed over, the buffer and what is left to read are what has
come. -/
theorem tracks_of_reaches {log : List (List (List UInt8))}
    (h : Machine.Reaches (Machine.logged (step (C := C) (T := T) endpoint) (handedOver endpoint))
      (fun _ e => Keyed e) (new, []) (s, log)) : Tracks s log := by
  refine Machine.Reaches.invariant (I := fun q => Tracks q.1 q.2) h tracks_new ?_
  intro q e q' o ht hkeyed hstep
  obtain ⟨hstep, hlog⟩ := Machine.logged_eq_some.mp hstep
  rw [hlog]
  exact ht.step hkeyed hstep

/-! ## A first read -/

/-- Some bytes have come, and nothing has been read. -/
def came (bs : List UInt8) : Connection := ⟨.new, bs, 0, none, false⟩

variable {bs : List UInt8}

theorem step_arrive (endpoint : SocketAddr) (bs : List UInt8) :
    step (C := C) (T := T) endpoint new (.arrive bs) = some (came bs, none) := rfl

theorem unread_came (bs : List UInt8) : (came bs).unread = bs := rfl

theorem ending_came (bs : List UInt8) : (came bs).ending ≠ some .reset := nofun

theorem room_came (bs : List UInt8) : (came bs).framing.unprocessedI < maxDatagramSize :=
  Nat.zero_lt_succ 65534

/-- All of it is read at once. -/
theorem got_came (hne : bs ≠ []) (hfits : bs.length ≤ maxDatagramSize) :
    (came bs).got bs.length = bs := by
  have hread : ((came bs).incoming bs.length).read (came bs).free =
      .ok (((came bs).unread.take (bs.length + 1)).take (came bs).free) :=
    incoming_data _ (ending_came bs) hne
  have htake : ((came bs).unread.take (bs.length + 1)).take (came bs).free = bs := by
    rw [unread_came, List.take_of_length_le (Nat.le_succ _)]
    exact List.take_of_length_le hfits
  rw [got, hread, htake]

theorem filled_came (hne : bs ≠ []) (hfits : bs.length ≤ maxDatagramSize) :
    (came bs).filled bs.length = bs := by
  rw [filled, got_came hne hfits]
  rfl

/-- The first call of the handler. -/
theorem step_first_call (endpoint : SocketAddr) {envs : ℕ → ℕ → Env} {limiter : RateLimiter}
    {d' : Device C T} {sent : List Sent} {packets : List (List UInt8)} {rest : List UInt8}
    (hkey : d.keyPair.isSome) (hlimiter : d.rateLimiter = some limiter) (hne : bs ≠ [])
    (hfits : bs.length ≤ maxDatagramSize) (hframes : frames headerLen bs = (packets, rest))
    (hall : handleAll endpoint envs (packets.take (takes C endpoint limiter envs bs)) d =
      some (d', sent)) :
    ∃ framing : TcpFraming, framing.Valid ∧
      framing.buffered =
        stream headerLen (packets.drop (takes C endpoint limiter envs bs)) ++ rest ∧
      (came bs).step endpoint (.call d envs bs.length) =
        some (⟨framing, bs, bs.length, none, false⟩,
          some ⟨d', framing, .continue, sent, false⟩) := by
  obtain ⟨framing, hv, hbuffered, hcall⟩ := step_call_data (s := came bs) endpoint
    envs bs.length TcpFraming.valid_new rfl hkey hlimiter (ending_came bs) hne (room_came bs)
  rw [filled_came hne hfits, hframes] at hbuffered hcall
  refine ⟨framing, hv, hbuffered, hcall.trans ?_⟩
  dsimp only
  rw [hall, Option.map_some, got_came hne hfits]
  simp [came]

theorem reaches_first_call (hkeyed : Keyed (ConnectionEvent.call d envs cut))
    (hcall : (came bs).step endpoint (.call d envs cut) = some (s, o)) :
    Machine.Reaches (step (C := C) (T := T) endpoint) (fun _ e => Keyed e) new s :=
  (Machine.Reaches.refl.tail (i := .arrive bs) trivial (step_arrive endpoint bs)).tail hkeyed hcall

/-! ## A concrete device -/

/-- A device of the concrete instance with its keys, and no peers. -/
def keyedDevice : Device checksumPrims (PrefixMap IpNetwork) where
  __ := sampleDevice
  keyPair := some ⟨fill 32 1, checksumPrims.publicKey (fill 32 1), rfl⟩
  rateLimiter := some (.new checksumPrims (checksumPrims.publicKey (fill 32 1)) handshakeRateLimit
    (Tunn.sampleEnv 0 0).limiter)

def sampleEndpoint : SocketAddr := .v4 (fill 4 10) 9

theorem keyed_call (envs : ℕ → ℕ → Env) (cut : ℕ) :
    Keyed (ConnectionEvent.call keyedDevice envs cut) := ⟨rfl, rfl⟩

end Connection

end NekoLink.Device
