import NekoLink.Device.Api
import NekoLink.Device.Routing

/-!
# What is configured

`Config` is what a device has been told about its peers, without the indices it has drawn for them:
for every key the settings of the peer, and for every network the key it is routed to. The abstract
`planned` applies a peer section to it and draws an index when a peer is added.

* `plan_commit`: committing a section to a device is `planned` on its configuration.
-/

namespace NekoLink.Device

open Wire Noise Routing

/-- The settings of a peer. -/
@[ext]
structure PeerConfig where
  endpoint : Option SocketAddr
  keepalive : Option ℕ
  presharedKey : Option (Bytes 32)
  allowed : IpNetwork → Bool
  /-- It is found under its index. -/
  indexed : Bool

@[ext]
structure Config where
  peers : Bytes 32 → Option PeerConfig
  routes : IpNetwork → Option (Bytes 32)

/-! ## Sections -/

/-- The settings a section gives to a peer. -/
def PeerSection.config (s : PeerSection) : PeerConfig where
  endpoint := s.endpoint
  keepalive := s.keepalive.filter (0 < ·)
  presharedKey := s.presharedKey
  allowed n := n ∈ s.allowedIps.map IpNetwork.newTruncate
  indexed := true

namespace Config

def remove (c : Config) (pubKey : Bytes 32) : Config where
  peers := Function.update c.peers pubKey none
  routes n := (c.routes n).filter (· ≠ pubKey)

def add (c : Config) (s : PeerSection) : Config where
  peers := Function.update c.peers s.publicKey (some s.config)
  routes n := if n ∈ s.allowedIps.map IpNetwork.newTruncate then some s.publicKey else c.routes n

end Config

/-- A section is applied to a configuration, and may draw an index; `none` is the assertion. -/
def planned (a : Config × IndexLfsr) (s : PeerSection) : Option (Config × IndexLfsr) :=
  if s.remove then some (a.1.remove s.publicKey, a.2)
  else if (a.1.peers s.publicKey).isSome then some a
  else a.2.next.map fun (lfsr, _) => (a.1.add s, lfsr)

/-! ## The configuration of a device -/

variable {C : Prims} {T : Type → Type} [Table T IpNetwork IpAddr]

/-- The peer under a key. -/
def peerAt (d : Device C T) (pubKey : Bytes 32) : Option (Peer C T) :=
  (d.peers.lookup pubKey).bind d.lock

/-- The key of the peer at a position. -/
def keyOf (d : Device C T) (i : PeerRef) : Option (Bytes 32) :=
  (d.peers.entries.find? fun e => e.2 == i).map Sigma.fst

def config (d : Device C T) : Config where
  peers pubKey := (d.peers.lookup pubKey).bind fun i => (d.lock i).map fun p =>
    { endpoint := p.endpoint
      keepalive := p.persistentKeepalive
      presharedKey := p.presharedKey
      allowed n := (p.allowedIps.exactMatch n).isSome
      indexed := d.peersByIdx.lookup p.index = some i }
  routes n := (d.peersByIp.exactMatch n).bind d.keyOf

/-- The configuration and the register. -/
def plan (d : Device C T) : Config × IndexLfsr := (d.config, d.nextIndex)

/-- The settings of a peer that is found under its index. -/
def Peer.config (p : Peer C T) : PeerConfig where
  endpoint := p.endpoint
  keepalive := p.persistentKeepalive
  presharedKey := p.presharedKey
  allowed n := (p.allowedIps.exactMatch n).isSome
  indexed := true

variable {d d' : Device C T}

theorem keyOf_eq_some (h : Consistent d) {i : PeerRef} {pubKey : Bytes 32} :
    d.keyOf i = some pubKey ↔ d.peers.lookup pubKey = some i := by
  constructor
  · intro hkey
    obtain ⟨⟨k, j⟩, hfind, rfl⟩ := Option.map_eq_some_iff.mp hkey
    have hij : j = i := by simpa using List.find?_some hfind
    rw [← hij]
    exact mem_entries_iff.mp (List.mem_of_find?_eq_some hfind)
  · intro hlookup
    have hsome : (d.peers.entries.find? fun e => e.2 == i).isSome :=
      List.find?_isSome.mpr ⟨_, mem_entries_iff.mpr hlookup, beq_self_eq_true i⟩
    obtain ⟨⟨k, j⟩, hfind⟩ := Option.isSome_iff_exists.mp hsome
    have hij : j = i := by simpa using List.find?_some hfind
    have hk := mem_entries_iff.mp (List.mem_of_find?_eq_some hfind)
    rw [hij] at hk
    rw [keyOf, hfind, Option.map_some, h.injective _ _ i hk hlookup]

/-- In a consistent device every peer is found under its index. -/
theorem config_peers (h : Consistent d) (pubKey : Bytes 32) :
    d.config.peers pubKey = (d.peerAt pubKey).map Peer.config := by
  rw [config, peerAt]
  dsimp only
  rcases hpeer : d.peers.lookup pubKey with _ | i
  · rfl
  · obtain ⟨p, hlock⟩ := h.alive i ⟨pubKey, hpeer⟩
    have hidx := (h.byIdx p.index i).mpr ⟨⟨pubKey, hpeer⟩, p, hlock, rfl⟩
    simp only [Option.bind_some, hlock, Option.map_some, hidx, decide_true]
    rfl

theorem config_routes (h : Consistent d) {n : IpNetwork} {pubKey : Bytes 32} :
    d.config.routes n = some pubKey ↔
      ∃ i, d.peersByIp.exactMatch n = some i ∧ d.peers.lookup pubKey = some i := by
  rw [config, Option.bind_eq_some_iff]
  simp only [keyOf_eq_some h]

theorem config_isSome (h : Consistent d) (pubKey : Bytes 32) :
    (d.config.peers pubKey).isSome = (d.peers.lookup pubKey).isSome := by
  rw [config_peers h, Option.isSome_map, peerAt]
  rcases hpeer : d.peers.lookup pubKey with _ | i
  · rfl
  · obtain ⟨p, hlock⟩ := h.alive i ⟨pubKey, hpeer⟩
    rw [Option.bind_some, hlock]
    rfl

/-! ## Removing -/

variable [LawfulTable T IpNetwork IpAddr]

theorem config_removePeer (h : Consistent d) (pubKey : Bytes 32) :
    (d.removePeer pubKey).config = d.config.remove pubKey := by
  have h' := h.removePeer pubKey
  rcases hpeer : d.peers.lookup pubKey with _ | i
  · -- nothing is configured for the key, and nothing is routed to it
    have hnone : d.config.peers pubKey = none := by
      rw [config_peers h, peerAt, hpeer]
      rfl
    rw [removePeer_of_none hpeer]
    refine Config.ext ?_ (funext fun n => Option.ext fun k => ?_)
    · rw [Config.remove, ← hnone, Function.update_eq_self]
    · simp only [Config.remove, Option.filter_eq_some_iff, decide_eq_true_eq]
      refine ⟨fun hk => ⟨hk, ?_⟩, And.left⟩
      rintro rfl
      obtain ⟨i, -, hlookup⟩ := (config_routes h).mp hk
      rw [hpeer] at hlookup
      cases hlookup
  · obtain ⟨p, hlock⟩ := h.alive i ⟨pubKey, hpeer⟩
    rw [removePeer_of_some hpeer hlock] at h' ⊢
    refine Config.ext (funext fun k => ?_) (funext fun n => Option.ext fun k => ?_)
    · rw [config_peers h', Config.remove]
      dsimp only
      by_cases hk : k = pubKey
      · rw [hk, Function.update_self, peerAt, AList.lookup_erase]
        rfl
      · rw [Function.update_of_ne hk, config_peers h, peerAt, AList.lookup_erase_ne hk]
        rfl
    · refine (config_routes h').trans ?_
      simp only [exactMatch_remove_eq_some, lookup_erase_iff, Config.remove,
        Option.filter_eq_some_iff, config_routes h, decide_eq_true_eq]
      constructor
      · rintro ⟨j, ⟨hexact, -⟩, hne, hlookup⟩
        exact ⟨⟨j, hexact, hlookup⟩, hne⟩
      · rintro ⟨⟨j, hexact, hlookup⟩, hne⟩
        refine ⟨j, ⟨hexact, ?_⟩, hne, hlookup⟩
        rintro rfl
        exact hne (h.injective _ _ _ hlookup hpeer)

/-! ## Adding -/

/-- The settings of a new peer are those of its section. -/
theorem config_new (s : PeerSection) (privateKey : Bytes 32) (idx : UInt32) (seed : TunnSeed)
    (transportMode : TransportMode) :
    (Peer.new (Tunn.new C privateKey s.publicKey s.presharedKey s.keepalive idx none seed.stamper
      seed.env) idx s.endpoint s.allowedIps s.presharedKey transportMode : Peer C T).config =
      s.config := by
  refine PeerConfig.ext rfl ?_ rfl (funext fun n => ?_) rfl
  · change (if 0 < s.keepalive.getD 0 then some (s.keepalive.getD 0) else none) =
      s.keepalive.filter (0 < ·)
    rcases s.keepalive with _ | k
    · rfl
    · rw [Option.filter_some]
      simp only [Option.getD_some, decide_eq_true_eq]
  · have hexact := AllowedIps.exactMatch_insertAll (t := (.new : AllowedIps T Unit)) s.allowedIps () n
    simp only [Peer.config, Peer.new, AllowedIps.fromIter, hexact, PeerSection.config]
    split_ifs with hn
    · rw [decide_eq_true hn]
      rfl
    · rw [decide_eq_false hn, AllowedIps.exactMatch_new]
      rfl

theorem config_addPeer (h : Consistent d) {lfsr : IndexLfsr} {s : PeerSection} {p : Peer C T}
    (habsent : d.peers.lookup s.publicKey = none) (hp : p.config = s.config)
    (h' : Consistent (d.addPeer lfsr s.publicKey p s.allowedIps)) :
    (d.addPeer lfsr s.publicKey p s.allowedIps).config = d.config.add s := by
  have hlookup : ∀ k, k ≠ s.publicKey →
      (d.addPeer lfsr s.publicKey p s.allowedIps).peers.lookup k = d.peers.lookup k :=
    fun k hk => AList.lookup_insert_ne hk
  have hlookup_self : (d.addPeer lfsr s.publicKey p s.allowedIps).peers.lookup s.publicKey =
      some d.heap.length := AList.lookup_insert _
  refine Config.ext (funext fun k => ?_) (funext fun n => Option.ext fun k => ?_)
  · rw [config_peers h', Config.add]
    dsimp only
    by_cases hk : k = s.publicKey
    · rw [hk, Function.update_self, peerAt, hlookup_self, Option.bind_some,
        lock_addPeer.mpr (Or.inr ⟨rfl, rfl⟩), Option.map_some, hp]
    · rw [Function.update_of_ne hk, config_peers h, peerAt, peerAt, hlookup k hk]
      rcases hpeer : d.peers.lookup k with _ | i
      · rfl
      · obtain ⟨q, hlock⟩ := h.alive i ⟨k, hpeer⟩
        rw [Option.bind_some, Option.bind_some, hlock, lock_addPeer.mpr (Or.inl hlock)]
  · refine (config_routes h').trans ?_
    rw [Config.add]
    dsimp only
    split_ifs with hn
    · have hexact : (d.addPeer lfsr s.publicKey p s.allowedIps).peersByIp.exactMatch n =
          some d.heap.length := by rw [exactMatch_addPeer, if_pos hn]
      simp only [hexact, Option.some.injEq, exists_eq_left']
      constructor
      · intro hk
        exact h'.injective _ _ _ hlookup_self hk
      · rintro rfl
        exact hlookup_self
    · have hexact : (d.addPeer lfsr s.publicKey p s.allowedIps).peersByIp.exactMatch n =
          d.peersByIp.exactMatch n := by rw [exactMatch_addPeer, if_neg hn]
      rw [hexact, config_routes h]
      refine exists_congr fun i => and_congr_right fun hi => ?_
      by_cases hk : k = s.publicKey
      · rw [hk, hlookup_self, habsent]
        obtain ⟨q, hlock⟩ := h.alive i (h.byIp n i hi)
        refine ⟨fun heq => ?_, fun heq => (by cases heq)⟩
        exact absurd (Option.some.inj heq).symm (Nat.ne_of_lt (lock_lt hlock))
      · rw [hlookup k hk]

/-! ## Committing -/

omit [LawfulTable T IpNetwork IpAddr] in
/-- A commit is a call on the device. -/
theorem step_commit {seed : TunnSeed} {s : PeerSection} (hcommit : d.commit seed s = some d') :
    d.step (.updatePeer seed s.publicKey s.remove s.replaceIps s.endpoint s.allowedIps s.keepalive
      s.presharedKey) = some (d', .done) := by
  rw [step]
  exact Option.map_eq_some_iff.mpr ⟨d', hcommit, rfl⟩

theorem commit_consistent (h : Consistent d) {seed : TunnSeed} {s : PeerSection}
    (hcommit : d.commit seed s = some d') : Consistent d' ∧ d'.keyPair = d.keyPair := by
  refine ⟨h.change (step_change (step_commit hcommit)), ?_⟩
  obtain ⟨-, rfl⟩ | ⟨-, -, rfl⟩ | ⟨-, -, lfsr, idx, -, ⟨-, rfl⟩ | ⟨kp, -, rfl⟩⟩ :=
    updatePeer_cases hcommit
  · rw [removePeer]
    split <;> rfl
  · rfl
  · rfl
  · rfl

/-- **Committing a section** is `planned` on the configuration. -/
theorem plan_commit (h : Consistent d) (hkey : d.keyPair.isSome) (seed : TunnSeed)
    (s : PeerSection) : (d.commit seed s).map plan = planned d.plan s := by
  obtain ⟨kp, hkp⟩ := Option.isSome_iff_exists.mp hkey
  rw [planned, plan, config_isSome h]
  split_ifs with hremove hpresent
  · rw [commit, updatePeer, if_pos hremove, Option.map_some, plan, config_removePeer h]
    congr 2
    rw [removePeer]
    split <;> rfl
  · rw [commit, updatePeer, if_neg hremove, if_pos hpresent]
    rfl
  · have habsent := Option.not_isSome_iff_eq_none.mp hpresent
    rcases hnext : d.nextIndex.next with _ | ⟨lfsr, idx⟩
    · rw [commit, updatePeer, if_neg hremove, if_neg hpresent, hnext]
      rfl
    · have hcommit : d.commit seed s = some (d.addPeer lfsr s.publicKey
          (.new (Tunn.new C kp.privateKey s.publicKey s.presharedKey s.keepalive idx none
            seed.stamper seed.env) idx s.endpoint s.allowedIps s.presharedKey d.transportMode)
          s.allowedIps) := by
        rw [commit, updatePeer, if_neg hremove, if_neg hpresent, hnext, Option.map_some]
        simp only [hkp]
      rw [hcommit, Option.map_some, Option.map_some, plan,
        config_addPeer h habsent (config_new s _ _ _ _) (commit_consistent h hcommit).1]
      rfl

end NekoLink.Device
