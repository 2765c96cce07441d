import NekoLink.Ctl.Signaling
import NekoLink.Noise.Expiry

/-!
# Smart Halt

The send tasks push for an interface only while no peer of it is established. The data plane writes
how long ago a session was established, and the control plane reads this as a time on the clock.

* `smart_halt_iff`: the established peers are seen exactly when the elapsed seconds of each of them
  pass for a time on the clock that is less than 150 seconds ago, and those of no older one do.
* `not_recent_of_clock`: after the first five minutes of 1970 the clock shows no such time.
* `smart_halt_blind`: a session of ten seconds is not seen, and the pushes go on.
-/

namespace NekoLink.Ctl

open Wire Noise Device Routing Text

variable {C : Prims} {T : Type → Type}

/-- How long ago the current session of a peer was established. -/
def sessionAge (time : ℕ) (p : Peer C T) : Option ℕ :=
  (p.tunnel.sessions.get p.tunnel.current).map fun _ =>
    time - p.tunnel.establishedAt p.tunnel.current

/-- The current session is younger than 150 seconds. -/
def Fresh (time : ℕ) (p : Peer C T) : Prop :=
  ∃ age, sessionAge time p = some age ∧ 0 < age ∧ age < fromSecs 150

def Stale (time : ℕ) (p : Peer C T) : Prop :=
  ∃ age, sessionAge time p = some age ∧ fromSecs 150 ≤ age

/-- The established peers of an interface are seen, and end the pushes for it. -/
structure SmartHalt (W : World) (iface : String) (time : ℕ) (d : Device C T) : Prop where
  fresh : ∀ e ∈ peersOf d, Fresh time e.2 → toHex e.1.toList ∈ W.established iface
  stale : ∀ e ∈ peersOf d, Stale time e.2 → toHex e.1.toList ∉ W.established iface
  absent : ∀ e ∈ peersOf d, sessionAge time e.2 = none →
    toHex e.1.toList ∉ W.established iface
  halts : (∃ e ∈ peersOf d, Fresh time e.2) → ∀ (takes : NekoConfig → Bool)
    (push : World → NekoState → PeerConfig → Option (SocketAddr × List UInt8))
    (worlds : ℕ → World) (state : NekoState), worlds 0 = W → state.config.interface = iface →
      sendTurn takes push worlds state = []

section

variable {W : World} {iface : String} {time : ℕ} {d : Device C T}

/-- A key has one peer. -/
theorem peersOf_unique {k : Bytes 32} {p p' : Peer C T} (h : (k, p) ∈ peersOf d)
    (h' : (k, p') ∈ peersOf d) : p = p' := by
  unfold peersOf at h h'
  obtain ⟨⟨k₁, i⟩, hi, hp⟩ := List.mem_filterMap.mp h
  obtain ⟨⟨k₂, j⟩, hj, hp'⟩ := List.mem_filterMap.mp h'
  obtain ⟨q, hq, heq⟩ := Option.map_eq_some_iff.mp hp
  obtain ⟨q', hq', heq'⟩ := Option.map_eq_some_iff.mp hp'
  cases heq
  cases heq'
  have hlookup := mem_entries_iff.mp hi
  rw [mem_entries_iff.mp hj] at hlookup
  cases hlookup
  exact Option.some.inj (hq.symm.trans hq')

/-- Without a session nothing is written. -/
theorem not_seenRecent_of_absent {now : UInt64} {p : Peer C T} (h : sessionAge time p = none) :
    ¬ SeenRecent time now p := by
  rintro ⟨t, ht, -⟩
  unfold Tunn.timeSinceLastHandshake at ht
  rw [sessionAge, Option.map_eq_none_iff] at h
  rw [h] at ht
  cases ht

end

section

variable [Table T IpNetwork IpAddr] {W : World} {iface : String} {time : ℕ} {d : Device C T}

/-- A key is in the set when its peer is taken for recent. -/
theorem mem_established {P : Printers} {s : Settings} {response : List Char}
    (h : getResponse P s time d = some response) (hread : W.uapi iface = some response)
    {e : Bytes 32 × Peer C T} (he : e ∈ peersOf d) :
    toHex e.1.toList ∈ W.established iface ↔ SeenRecent time W.clock e.2 := by
  rw [World.established, hread, Option.elim_some, mem_establishedPeers h]
  constructor
  · rintro ⟨e', he', hkey, hrecent⟩
    have hkeys : e.1 = e'.1 := List.Vector.toList_injective (toHex_injective hkey)
    obtain ⟨k, p⟩ := e
    obtain ⟨k', p'⟩ := e'
    cases hkeys
    rwa [peersOf_unique he he']
  · intro hrecent
    exact ⟨e, he, rfl, hrecent⟩

/-- A send task does nothing for an interface with an established peer. -/
theorem sendTurn_of_established {takes : NekoConfig → Bool}
    {push : World → NekoState → PeerConfig → Option (SocketAddr × List UInt8)}
    {worlds : ℕ → World} {state : NekoState} {key : List Char}
    (h : key ∈ (worlds 0).established state.config.interface) :
    sendTurn takes push worlds state = [] := by
  have hne : (worlds 0).established state.config.interface ≠ ∅ := Finset.ne_empty_of_mem h
  unfold sendTurn pushes
  rw [decide_eq_false hne, Bool.and_false]
  rfl

/-- **When Smart Halt sees the established peers.** -/
theorem smart_halt_iff {P : Printers} {s : Settings} {response : List Char}
    (h : getResponse P s time d = some response) (hread : W.uapi iface = some response) :
    SmartHalt W iface time d ↔ ∀ e ∈ peersOf d,
      (Fresh time e.2 → SeenRecent time W.clock e.2) ∧
        (Stale time e.2 → ¬ SeenRecent time W.clock e.2) := by
  constructor
  · intro hhalt e he
    constructor
    · intro hfresh
      exact (mem_established h hread he).mp (hhalt.fresh e he hfresh)
    · intro hstale hrecent
      exact hhalt.stale e he hstale ((mem_established h hread he).mpr hrecent)
  · intro hseen
    refine ⟨fun e he hfresh => ?_, fun e he hstale => ?_, fun e he habsent => ?_, ?_⟩
    · exact (mem_established h hread he).mpr ((hseen e he).1 hfresh)
    · rw [mem_established h hread he]
      exact (hseen e he).2 hstale
    · rw [mem_established h hread he]
      exact not_seenRecent_of_absent habsent
    · rintro ⟨e, he, hfresh⟩ takes push worlds state rfl rfl
      exact sendTurn_of_established ((mem_established h hread he).mpr ((hseen e he).1 hfresh))

/-- **The clock is too far from the elapsed time**: later than five minutes after the epoch it takes
less than 150 seconds for no recent time. -/
theorem not_recent_of_clock {now : UInt64} (hnow : 300 ≤ now.toNat) {t : ℕ}
    (ht : t < fromSecs 150) : ¬ Recent now (t / 10 ^ 9) := by
  have hsec : t / 10 ^ 9 < 150 := by
    rw [Nat.div_lt_iff_lt_mul (by decide)]
    exact ht
  rintro ⟨-, -, hrecent⟩
  omega

end

/-! ## A device with a session -/

/-- What the other end answers to an initiation. -/
def sampleResponse (initiation : List UInt8) : Option (List UInt8) :=
  match (Tunn.sampleTunn 2 1 2).decapsulate (Tunn.sampleEnv 5 0) none initiation 148 with
  | some (_, .writeToNetwork response) => some response
  | _ => none

/-- The calls up to an initiation to the other end. -/
def initiationOps : List Op :=
  [sampleSetKey,
    .updatePeer ⟨Tunn.sampleEnv 0 0, ⟨10 ^ 18, 0⟩⟩ (checksumPrims.publicKey (fill 32 2)) false false
      none [] none none,
    .peer 0 (.tunnel (Tunn.sampleEnv 3 0) (.formatHandshakeInitiation 148 false))]

/-- The device after them, and after the response to it. -/
def establishedDevice : Option (Device checksumPrims (PrefixMap IpNetwork)) :=
  (Machine.run Device.step sampleDevice initiationOps).bind fun q =>
    match q.2.getLast? with
    | some (.writeToNetwork initiation) =>
      (sampleResponse initiation).bind fun response =>
        (q.1.step (.peer 0 (.tunnel (Tunn.sampleEnv 4 0) (.decapsulate none response 148)))).map
          Prod.fst
    | _ => none

def sampleSettings : Settings := ⟨51820, none, none⟩

/-- Ten seconds later. -/
theorem exists_establishedDevice :
    ∃ (d : Device checksumPrims (PrefixMap IpNetwork)) (response : List Char), Reached d ∧
      getResponse samplePrinters sampleSettings (fromSecs 10) d = some response ∧
      ∃ e, peersOf d = [e] ∧ sessionAge (fromSecs 10) e.2 = some (fromSecs 10) ∧
        e.2.tunnel.timeSinceLastHandshake (fromSecs 10) = some (some (fromSecs 10)) := by
  have hrun : (establishedDevice.map fun d =>
      ((getResponse samplePrinters sampleSettings (fromSecs 10) d).isSome,
        (peersOf d).map fun e => (sessionAge (fromSecs 10) e.2,
          e.2.tunnel.timeSinceLastHandshake (fromSecs 10)))) =
      some (true, [(some (fromSecs 10), some (some (fromSecs 10)))]) := by decide +kernel
  obtain ⟨d, hd, heq⟩ := Option.map_eq_some_iff.mp hrun
  obtain ⟨hsome, hpeers⟩ := Prod.mk.inj heq
  obtain ⟨response, hresponse⟩ := Option.isSome_iff_exists.mp hsome
  obtain ⟨e, he, hages⟩ := List.map_eq_singleton_iff.mp hpeers
  obtain ⟨hage, htime⟩ := Prod.mk.inj hages
  refine ⟨d, response, ?_, hresponse, e, he, hage, htime⟩
  unfold establishedDevice at hd
  obtain ⟨⟨d₁, os⟩, hops, hlast⟩ := Option.bind_eq_some_iff.mp hd
  dsimp only at hlast
  split at hlast
  · obtain ⟨message, -, hstep⟩ := Option.bind_eq_some_iff.mp hlast
    obtain ⟨⟨d₂, r⟩, hlate, rfl⟩ := Option.map_eq_some_iff.mp hstep
    exact ⟨_, _, _, _, _, (Machine.reaches_of_run hops).tail trivial hlate⟩
  · cases hlast

/-- On a host whose clock has not been set the session is seen. -/
theorem smart_halt_sample :
    ∃ (d : Device checksumPrims (PrefixMap IpNetwork)) (response : List Char), Reached d ∧
      (∃ e ∈ peersOf d, Fresh (fromSecs 10) e.2) ∧
      SmartHalt { sampleWorld with uapi := fun _ => some response, clock := 20 } "wg0" (fromSecs 10)
        d := by
  obtain ⟨d, response, hreached, hresponse, e, hpeers, hage, htime⟩ := exists_establishedDevice
  have hmem : e ∈ peersOf d := by
    rw [hpeers]
    exact List.mem_singleton_self e
  refine ⟨d, response, hreached, ⟨e, hmem, _, hage, by decide, by decide⟩,
    (smart_halt_iff hresponse rfl).mpr fun e' he' => ?_⟩
  rw [hpeers, List.mem_singleton] at he'
  subst he'
  constructor
  · intro _
    exact ⟨_, htime, show Recent 20 10 by decide⟩
  · rintro ⟨age, hage', hold⟩
    rw [hage] at hage'
    cases hage'
    exact absurd hold (by decide)

/-- **Smart Halt is blind**: ten seconds after the handshake, in 2023, the peer is not seen. -/
theorem smart_halt_blind :
    ¬ ∀ (d : Device checksumPrims (PrefixMap IpNetwork)) (W : World) (iface : String) (time : ℕ)
        (P : Printers) (s : Settings) (response : List Char), Reached d →
      getResponse P s time d = some response → W.uapi iface = some response →
      SmartHalt W iface time d := by
  intro hclaim
  obtain ⟨d, response, hreached, hresponse, e, hpeers, hage, htime⟩ := exists_establishedDevice
  have hmem : e ∈ peersOf d := by
    rw [hpeers]
    exact List.mem_singleton_self e
  have hhalt := hclaim d { sampleWorld with uapi := fun _ => some response } "wg0" _ _ _ response
    hreached hresponse rfl
  have hseen := hhalt.fresh e hmem ⟨_, hage, by decide, by decide⟩
  obtain ⟨t, ht, hrecent⟩ := (mem_established hresponse rfl hmem).mp hseen
  rw [htime] at ht
  cases ht
  have hclock : 300 ≤ sampleWorld.clock.toNat := by decide
  exact not_recent_of_clock hclock (by decide) hrecent

end NekoLink.Ctl
