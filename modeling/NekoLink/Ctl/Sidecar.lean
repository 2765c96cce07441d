import NekoLink.Ctl.Signaling

/-!
# The process of a bridged peer

In the mode `mullvad-tcp`, `configure_peer` starts a `udp2tcp` before it looks at the cache and puts
it into the `client_sidecar` of its caller. What was there is dropped, and with `kill_on_drop` that
ends it.

* `idempotent_iff`: when a call leaves everything as the same call before it did.
* `repeated_call_restarts_sidecar`: the second of two equal calls ends the process of the first.
-/

namespace NekoLink.Ctl

open Wire Noise Device Text

/-- A `udp2tcp` process. -/
structure Bridge where
  number : ℕ
  udpListen : List Char
  tcpForward : List Char
  deriving DecidableEq

/-- The peers of a node with the processes that its instances own. -/
@[ext] structure Hosted where
  peering : Peering
  /-- What each `client_sidecar` holds -/
  sidecars : ℕ → Option Bridge
  /-- The processes started so far -/
  started : ℕ
  number_lt : ∀ slot b, sidecars slot = some b → b.number < started

section

variable (P : Parsers) (R : Printers) (W : World) (call : ConfigureCall) (clientSidecar : Option ℕ)
  (spawns : Bool)

/-- A call starts a process: it is bridged, its caller gives a `client_sidecar`, and `udp2tcp` can be
started. -/
def Starts : Prop := IsBridged R W call ∧ clientSidecar.isSome = true ∧ spawns = true

instance : Decidable (Starts R W call clientSidecar spawns) :=
  inferInstanceAs (Decidable (_ ∧ _))

namespace Hosted

/-- The new process takes the place of the one that was there. -/
def start (slot : ℕ) (h : Hosted) : Hosted where
  peering := h.peering
  sidecars := Function.update h.sidecars slot
    (some ⟨h.started, bridgeAddr W call.interface, resolved R W call.endpoint⟩)
  started := h.started + 1
  number_lt i b hb := by
    by_cases hi : i = slot
    · rw [hi, Function.update_self] at hb
      cases hb
      exact Nat.lt_succ_self _
    · rw [Function.update_of_ne hi] at hb
      exact (h.number_lt i b hb).trans (Nat.lt_succ_self _)

/-- `configure_peer`, up to where the endpoint is the address of the process -/
def host (h : Hosted) : Hosted :=
  match clientSidecar with
  | some slot => if IsBridged R W call ∧ spawns = true then h.start R W call slot else h
  | none => h

/-- `configure_peer` -/
def configurePeer (h : Hosted) : Hosted :=
  { h.host R W call clientSidecar spawns with
    peering := Ctl.configurePeer P R W call h.peering }

/-- The peers, their endpoints, the cache, the MTUs and the processes are the same. -/
structure Keeps (h h' : Hosted) : Prop where
  peering : h.peering.Keeps h'.peering
  linkMtus : h'.peering.linkMtus = h.peering.linkMtus
  sidecars : h'.sidecars = h.sidecars

end Hosted

/-- `configure_peer` returns `Ok`. -/
def Succeeds (s : Peering) : Prop :=
  s.cache.lookup call.key = some (peerEndpoint R W call) ∨ Accepted P R W call s

end

section

variable {P : Parsers} {R : Printers} {W W' : World} {call : ConfigureCall}
  {clientSidecar : Option ℕ} {spawns : Bool} {s : Peering} {h : Hosted}

@[simp] theorem Hosted.peering_configurePeer :
    (h.configurePeer P R W call clientSidecar spawns).peering =
      Ctl.configurePeer P R W call h.peering := rfl

/-- The processes after a call are those before it unless it starts one. -/
theorem Hosted.host_eq_iff :
    (h.host R W call clientSidecar spawns).sidecars = h.sidecars ↔
      ¬ Starts R W call clientSidecar spawns := by
  unfold Hosted.host Starts
  cases clientSidecar with
  | none => simp
  | some slot =>
    dsimp only
    by_cases hstarts : IsBridged R W call ∧ spawns = true
    · rw [if_pos hstarts]
      refine ⟨fun hsame => ?_, fun hnot => absurd ⟨hstarts.1, rfl, hstarts.2⟩ hnot⟩
      -- The new process would have been there already, with a number not given yet.
      have hslot := congrFun hsame slot
      simp only [Hosted.start, Function.update_self] at hslot
      exact absurd (h.number_lt slot _ hslot.symm) (lt_irrefl _)
    · rw [if_neg hstarts]
      exact ⟨fun _ hboth => hstarts ⟨hboth.1, hboth.2.2⟩, fun _ => rfl⟩

theorem Hosted.host_of_not_starts (hnot : ¬ Starts R W call clientSidecar spawns) :
    h.host R W call clientSidecar spawns = h := by
  unfold Hosted.host
  cases clientSidecar with
  | none => rfl
  | some slot => exact if_neg fun hboth => hnot ⟨hboth.1, rfl, hboth.2⟩

/-- A call that leaves the peers as they are sets no MTU. -/
theorem linkMtus_of_inert (hinert : Inert P R W call s) :
    (Ctl.configurePeer P R W call s).linkMtus = s.linkMtus := by
  have hquiet : s.cache.lookup call.key = some (peerEndpoint R W call) ∨
      ¬ Accepted P R W call s := hinert.imp_right And.left
  rw [linkMtus_configurePeer, if_pos hquiet, List.append_nil]

/-- When a call succeeds, the cache has the endpoint that the data plane was told. -/
theorem cached_of_succeeds (hs : Succeeds P R W call s) :
    (Ctl.configurePeer P R W call s).cache.lookup call.key = some (peerEndpoint R W call) := by
  obtain ⟨hcached, heq⟩ | ⟨hcached, -, hcache⟩ := configurePeer_cases P R W call s
  · rw [heq, hcached]
  · rw [hcache, if_pos (hs.resolve_left hcached), AList.lookup_insert]

/-- When a call changes nothing: it starts no process, and the peers stay as they are. -/
theorem keeps_iff :
    h.Keeps (h.configurePeer P R W call clientSidecar spawns) ↔
      ¬ Starts R W call clientSidecar spawns ∧ Inert P R W call h.peering := by
  refine ⟨fun hkeeps => ⟨Hosted.host_eq_iff.mp hkeeps.sidecars,
    keeps_configurePeer_iff.mp hkeeps.peering⟩, fun ⟨hnot, hinert⟩ => ⟨?_, ?_, ?_⟩⟩
  · exact keeps_configurePeer_iff.mpr hinert
  · exact linkMtus_of_inert hinert
  · exact Hosted.host_eq_iff.mpr hnot

/-- A call for an endpoint that is in the cache changes nothing but the process. -/
theorem configurePeer_of_cached
    (hcached : h.peering.cache.lookup call.key = some (peerEndpoint R W call)) :
    h.configurePeer P R W call clientSidecar spawns = h.host R W call clientSidecar spawns := by
  have hpeering : (h.host R W call clientSidecar spawns).peering = h.peering := by
    unfold Hosted.host
    cases clientSidecar with
    | none => rfl
    | some slot =>
      dsimp only
      split_ifs <;> rfl
  refine Hosted.ext ?_ rfl rfl
  rw [hpeering]
  exact if_pos hcached

/-- **When a call leaves everything as the same call before it did**: when it starts no process and
finds its endpoint in the cache, or has no effect on its peer. If it finds the name and the port
that the first one found, it only has to start no process, and then it changes nothing at all. -/
theorem idempotent_iff (hs : Succeeds P R W call h.peering) (clientSidecar : Option ℕ)
    (spawns spawns' : Bool) :
    ((h.configurePeer P R W call clientSidecar spawns).Keeps
        ((h.configurePeer P R W call clientSidecar spawns).configurePeer P R W' call clientSidecar
          spawns') ↔
      ¬ Starts R W' call clientSidecar spawns' ∧
        Inert P R W' call (Ctl.configurePeer P R W call h.peering)) ∧
    (peerEndpoint R W' call = peerEndpoint R W call →
      ((h.configurePeer P R W call clientSidecar spawns).configurePeer P R W' call clientSidecar
          spawns' = h.configurePeer P R W call clientSidecar spawns ↔
        ¬ Starts R W' call clientSidecar spawns')) := by
  refine ⟨keeps_iff, fun hsame => ?_⟩
  have hcached : (h.configurePeer P R W call clientSidecar spawns).peering.cache.lookup call.key =
      some (peerEndpoint R W' call) := by
    rw [hsame]
    exact cached_of_succeeds hs
  rw [configurePeer_of_cached hcached]
  exact ⟨fun heq => Hosted.host_eq_iff.mp (congrArg Hosted.sidecars heq),
    Hosted.host_of_not_starts⟩

end

/-! ## A peer in the mode `mullvad-tcp` -/

/-- A peer with the key `99…` at 10.0.0.2, over TCP. -/
def bridgedCall : ConfigureCall where
  interface := "wg0"
  peerPubKey := fill 32 9
  endpoint := sampleSocketText (.new (sampleIp 2) 51820)
  keepalive := none
  peerMtu := some 1400
  autoSyncMtu := true
  mode := "mullvad-tcp"

/-- A node without peers. -/
def sampleHosted : Hosted where
  peering :=
    { planes := fun iface => if iface = "wg0" then some ⟨fun _ => none, fun _ => none⟩ else none
      cache := ∅
      linkMtus := [] }
  sidecars _ := none
  started := 0
  number_lt _ _ hb := absurd hb.symm (Option.some_ne_none _)

/-- The crates read the address of the process. -/
def bridgeNames : Parsers where
  base64Decode _ := none
  ipAddr _ := none
  socketAddr s :=
    if s = "127.0.0.1:51821".toList then some (.v4 ⟨[127, 0, 0, 1], rfl⟩ 51821) else none

theorem succeeds_bridgedCall :
    Succeeds bridgeNames samplePrinters sampleWorld bridgedCall sampleHosted.peering :=
  .inr (by decide +kernel)

/-- If `udp2tcp` cannot be started, the second call changes nothing. -/
theorem idempotent_sample :
    (sampleHosted.configurePeer bridgeNames samplePrinters sampleWorld bridgedCall (some 0)
        false).configurePeer bridgeNames samplePrinters sampleWorld bridgedCall (some 0) false =
      sampleHosted.configurePeer bridgeNames samplePrinters sampleWorld bridgedCall (some 0) false :=
  ((idempotent_iff succeeds_bridgedCall (some 0) false false).2 rfl).mpr
    fun hstarts => Bool.false_ne_true hstarts.2.2

/-- **A repeated call ends the process of the first**, in a surrounding that has not changed. -/
theorem repeated_call_restarts_sidecar :
    ∃ b b' : Bridge, b.number ≠ b'.number ∧
      Succeeds bridgeNames samplePrinters sampleWorld bridgedCall sampleHosted.peering ∧
      (sampleHosted.configurePeer bridgeNames samplePrinters sampleWorld bridgedCall (some 0)
        true).sidecars 0 = some b ∧
      ((sampleHosted.configurePeer bridgeNames samplePrinters sampleWorld bridgedCall (some 0)
        true).configurePeer bridgeNames samplePrinters sampleWorld bridgedCall (some 0)
          true).sidecars 0 = some b' :=
  ⟨⟨0, "127.0.0.1:51821".toList, "10.0.0.2:51820".toList⟩,
    ⟨1, "127.0.0.1:51821".toList, "10.0.0.2:51820".toList⟩, by decide, succeeds_bridgedCall,
    by decide +kernel, by decide +kernel⟩

end NekoLink.Ctl
