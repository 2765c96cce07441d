import NekoLink.Ctl.Signaling
import NekoLink.Foundations.Runs

/-!
# The cache and the data planes

`configure_peer` takes a peer away and brings it back, each by a command whose delivery can fail, and
writes `PEER_CACHE` only after the second. What the cache says of a peer should be what its data
plane has been told. `CONFIG_MUTEX` lets one call at a time come this far.

* `agrees_configurePeer_iff`: when one call keeps the two in agreement.
* `cache_agrees_iff`: when a sequence of calls does, and that the peer of a call which ends at the
  cache is then there.
-/

namespace NekoLink.Ctl

open Wire Noise Device Text

section

variable (P : Parsers) (R : Printers)

namespace Peering

/-- Every peer in the cache is in the data plane of its interface, with the endpoint that the cache
has. -/
def Agrees (s : Peering) : Prop :=
  ∀ key e, s.cache.lookup key = some e →
    ∃ addr, parseEndpoint P e = some addr ∧ s.endpoint key = some (some addr)

end Peering

/-- The data plane of a new peer that is accepted has it, with an endpoint that it can parse: the old
one is still there with the same endpoint, or it is not there any more and the second command is
carried out, with a private key. -/
def Applied (W : World) (addr : Option SocketAddr) (before : Option (Option SocketAddr)) : Prop :=
  addr.isSome = true ∧
    if W.remove.carriedOut = false ∧ before.isSome = true then before = some addr
    else W.add.carriedOut = true ∧ W.keyed = true

/-- The call ends at the cache, or the new peer is accepted and applied, or it is not accepted and
the cache has no entry or the commands leave the old peer as it was. -/
def Faithful (W : World) (call : ConfigureCall) (s : Peering) : Prop :=
  s.cache.lookup call.key = some (peerEndpoint R W call) ∨
    if Accepted P R W call s then
      Applied W (parseEndpoint P (peerEndpoint R W call)) (s.endpoint call.key)
    else
      s.cache.lookup call.key = none ∨
        Idle W (parseEndpoint P (peerEndpoint R W call)) (s.endpoint call.key)

/-- A call, with what it finds. -/
def configureNext (s : Peering) (c : World × ConfigureCall) : Peering :=
  configurePeer P R c.1 c.2 s

end

/-! ## One call -/

section

variable {P : Parsers} {R : Printers} {W : World} {call : ConfigureCall} {s : Peering}

/-- What an accepted second command leaves. -/
theorem afterCommands_applied_iff {addr : Option SocketAddr}
    {before : Option (Option SocketAddr)} :
    (addr.isSome = true ∧ afterCommands W addr before = some addr) ↔ Applied W addr before := by
  unfold Applied
  rw [and_congr_right_iff]
  intro hparse
  obtain ⟨addr, rfl⟩ := Option.isSome_iff_exists.mp hparse
  unfold afterCommands
  dsimp only
  rcases before with _ | e
  · cases hadd : W.add.carriedOut <;> cases hkeyed : W.keyed <;> simp
  · cases hremove : W.remove.carriedOut
    · simp
    · cases hadd : W.add.carriedOut <;> cases hkeyed : W.keyed <;> simp

/-- Agreement after a call is a matter of the peer it is about. -/
theorem agrees_configurePeer_key (h : s.Agrees P) :
    (configurePeer P R W call s).Agrees P ↔
      ∀ e, (configurePeer P R W call s).cache.lookup call.key = some e →
        ∃ addr, parseEndpoint P e = some addr ∧
          (configurePeer P R W call s).endpoint call.key = some (some addr) := by
  refine ⟨fun hagrees e => hagrees call.key e, fun hcall key e he => ?_⟩
  by_cases hkey : key = call.key
  · subst hkey
    exact hcall e he
  · obtain ⟨hendpoint, hcache⟩ := elsewhere_configurePeer (P := P) (R := R) (W := W) (s := s) hkey
    rw [hcache] at he
    rw [hendpoint]
    exact h key e he

/-- A peer in the cache has a data plane. -/
theorem Peering.Agrees.plane (h : s.Agrees P) {key : PeerKey} {e : List Char}
    (he : s.cache.lookup key = some e) : ∃ c, s.planes key.1 = some c := by
  obtain ⟨addr, -, hendpoint⟩ := h key e he
  obtain ⟨c, hc, -⟩ := Option.bind_eq_some_iff.mp hendpoint
  exact ⟨c, hc⟩

/-- **When a call keeps the cache and the data planes in agreement.** -/
theorem agrees_configurePeer_iff (h : s.Agrees P) :
    (configurePeer P R W call s).Agrees P ↔ Faithful P R W call s := by
  obtain ⟨hcached, heq⟩ | ⟨hcached, hendpoint, hcache⟩ := configurePeer_cases P R W call s
  · rw [heq]
    exact ⟨fun _ => .inl hcached, fun _ => h⟩
  rw [agrees_configurePeer_key h, hendpoint, hcache, Faithful, or_iff_right hcached]
  by_cases hacc : Accepted P R W call s
  · -- The cache has the new endpoint, and so must the data plane.
    obtain ⟨c, hc⟩ := Option.isSome_iff_exists.mp hacc.2.2
    rw [if_pos hacc, if_pos hacc, AList.lookup_insert, endpoint_replacePeer_eq hc,
      ← afterCommands_applied_iff]
    refine ⟨fun hall => ?_, fun happlied e he => ?_⟩
    · obtain ⟨addr, haddr, hafter⟩ := hall _ rfl
      rw [haddr] at hafter ⊢
      exact ⟨rfl, hafter⟩
    · cases he
      obtain ⟨addr, haddr⟩ := Option.isSome_iff_exists.mp happlied.1
      exact ⟨addr, haddr, happlied.2.trans (congrArg some haddr)⟩
  · -- The cache has the old endpoint, and so must the data plane still.
    rw [if_neg hacc, if_neg hacc]
    rcases hlookup : s.cache.lookup call.key with _ | e
    · exact ⟨fun _ => .inl rfl, fun _ e he => absurd he (Option.some_ne_none e).symm⟩
    · obtain ⟨c, hc⟩ := h.plane hlookup
      obtain ⟨addr, haddr, hbefore⟩ := h call.key e hlookup
      rw [or_iff_right (Option.some_ne_none e), ← endpoint_replacePeer hc, hbefore]
      refine ⟨fun hall => ?_, fun hsame e' he' => ?_⟩
      · obtain ⟨addr', haddr', hafter⟩ := hall e rfl
        rw [haddr] at haddr'
        cases haddr'
        exact hafter
      · cases he'
        exact ⟨addr, haddr, hsame⟩

end

/-! ## A sequence of calls -/

/-- **The cache agrees with the data planes after every call of a sequence exactly when every call
is faithful**, and then a call that ends at the cache leaves its peer there with the endpoint it
asks for. -/
theorem cache_agrees_iff {P : Parsers} {R : Printers} {s : Peering}
    {calls : List (World × ConfigureCall)} (h : s.Agrees P) :
    (Machine.Along (configureNext P R) (fun s c => (configureNext P R s c).Agrees P) s calls ↔
      Machine.Along (configureNext P R) (fun s c => Faithful P R c.1 c.2 s) s calls) ∧
    (Machine.Along (configureNext P R) (fun s c => Faithful P R c.1 c.2 s) s calls →
      Machine.Along (configureNext P R)
        (fun s c => s.cache.lookup c.2.key = some (peerEndpoint R c.1 c.2) →
          ∃ addr, parseEndpoint P (peerEndpoint R c.1 c.2) = some addr ∧
            (configureNext P R s c).endpoint c.2.key = some (some addr)) s calls) := by
  refine ⟨Machine.along_congr h (fun s c hs => agrees_configurePeer_iff hs)
    fun s c _ hafter => hafter, fun hall => ?_⟩
  refine hall.imp h (fun s c hs _ hcached => ?_)
    fun s c hs hfaithful => (agrees_configurePeer_iff hs).mpr hfaithful
  obtain ⟨-, heq⟩ | ⟨hmiss, -⟩ := configurePeer_cases P R c.1 c.2 s
  · rw [configureNext, heq]
    exact hs _ _ hcached
  · exact absurd hcached hmiss

/-! ## A second command that is lost -/

/-- A data plane without peers. -/
def samplePeering : Peering where
  planes iface := if iface = "wg0" then some ⟨fun _ => none, fun _ => none⟩ else none
  cache := ∅
  linkMtus := []

theorem agrees_samplePeering (P : Parsers) : samplePeering.Agrees P := by
  intro key e he
  cases (AList.lookup_empty key).symm.trans he

/-- A peer with the key `99…` at 10.0.0.1 or 10.0.0.2. -/
def sampleCall (last : UInt8) : ConfigureCall where
  interface := "wg0"
  peerPubKey := fill 32 9
  endpoint := sampleSocketText (.new (sampleIp last) 51820)
  keepalive := none
  peerMtu := none
  autoSyncMtu := false
  mode := "udp"

theorem cache_agrees_sample :
    Machine.Along (configureNext sampleNames samplePrinters)
      (fun s c => (configureNext sampleNames samplePrinters s c).Agrees sampleNames) samplePeering
      [(sampleWorld, sampleCall 1)] := by
  have hacc : Accepted sampleNames samplePrinters sampleWorld (sampleCall 1) samplePeering := by
    decide +kernel
  refine (cache_agrees_iff (agrees_samplePeering sampleNames)).1.mpr ⟨.inr ?_, trivial⟩
  rw [if_pos hacc]
  exact ⟨by decide +kernel, (if_neg fun hboth => Bool.noConfusion hboth.1).mpr ⟨rfl, rfl⟩⟩

/-- The peer is configured, a call with another endpoint removes it and does not get through with
the second command, and a call with the first endpoint ends at the cache. -/
def lostAdd : List (World × ConfigureCall) :=
  [(sampleWorld, sampleCall 1), ({ sampleWorld with add := .lost }, sampleCall 2),
    (sampleWorld, sampleCall 1)]

/-- **The cache keeps an endpoint whose peer is gone.** -/
theorem cached_peer_is_missing :
    ¬ ∀ (s : Peering) (calls : List (World × ConfigureCall)), s.Agrees sampleNames →
      Machine.Along (configureNext sampleNames samplePrinters)
        (fun s c => (configureNext sampleNames samplePrinters s c).Agrees sampleNames) s calls := by
  intro hclaim
  obtain ⟨-, -, hlast, -⟩ := hclaim samplePeering lostAdd (agrees_samplePeering sampleNames)
  obtain ⟨addr, -, hendpoint⟩ := hlast ("wg0", fill 32 9)
    (sampleSocketText (.new (sampleIp 1) 51820)) (by decide +kernel)
  have hmissing : (lostAdd.foldl (configureNext sampleNames samplePrinters)
      samplePeering).endpoint ("wg0", fill 32 9) = none := by decide +kernel
  cases hmissing.symm.trans hendpoint

end NekoLink.Ctl
