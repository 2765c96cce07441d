import NekoLink.Android.WgQuick
import NekoLink.Foundations.Runs

/-!
# Reading a configuration

What the reader of a configuration makes of any text, and of the sections that are written.

* `Interface.provenance`: every text of an interface comes from a line.
* `Config.parse_eq_some`: the lines of the interface are lines of the text, trimmed.
* `Config.parse_toWgQuickString`: the attributes that are written, each within its line, are the
  lines of the interface.
-/

namespace NekoLink.Android

open Wire Noise Device JavaText
open Text (unlines)

/-! ## Where what is read comes from -/

section

variable {α : Type} [DecidableEq α] {s l : List α} {a x : α}

theorem mem_addTo : x ∈ addTo s a ↔ x ∈ s ∨ x = a := by
  rw [addTo]
  split_ifs with h
  · exact ⟨.inl, fun hx => hx.elim id fun heq => heq ▸ h⟩
  · rw [List.mem_append, List.mem_singleton]

theorem mem_foldl_addTo : x ∈ l.foldl addTo s ↔ x ∈ s ∨ x ∈ l := by
  induction l generalizing s with
  | nil => simp
  | cons a l ih => rw [List.foldl_cons, ih, mem_addTo, List.mem_cons, or_assoc]

theorem nodup_addTo (h : s.Nodup) : (addTo s a).Nodup := by
  rw [addTo]
  split_ifs with hmem
  · exact h
  · exact List.nodup_append.mpr ⟨h, List.nodup_singleton a, fun y hy z hz heq =>
      hmem (List.mem_singleton.mp hz ▸ heq ▸ hy)⟩

/-- New elements are added in their order. -/
theorem foldl_addTo (h : (s ++ l).Nodup) : l.foldl addTo s = s ++ l := by
  induction l generalizing s with
  | nil => rw [List.foldl_nil, List.append_nil]
  | cons a l ih =>
    have hnot : a ∉ s := fun hmem =>
      (List.nodup_append.mp h).2.2 a hmem a List.mem_cons_self rfl
    have happend : s ++ a :: l = s ++ [a] ++ l := by simp
    rw [List.foldl_cons, addTo, if_neg hnot, ih (happend ▸ h), happend]

/-- Texts that are read one after the other, each into the same set. -/
theorem foldlM_addTo {β γ : Type} {f : β → γ → Option β} {text : α → γ} (get : β → List α)
    (put : β → List α → β) (hsame : ∀ b, put b (get b) = b) (hget : ∀ b s, get (put b s) = s)
    (hput : ∀ b s s', put (put b s) s' = put b s')
    (hstep : ∀ b, ∀ a ∈ l, f b (text a) = some (put b (addTo (get b) a))) (b : β) :
    (l.map text).foldlM f b = some (put b (l.foldl addTo (get b))) := by
  induction l generalizing b with
  | nil => exact congrArg some (hsame b).symm
  | cons a l ih =>
    rw [List.map_cons, List.foldlM_cons, hstep b a List.mem_cons_self]
    refine (ih (fun b x hx => hstep b x (List.mem_cons_of_mem a hx)) _).trans ?_
    rw [hget, hput, List.foldl_cons]

end

namespace InterfaceBuilder

section

variable {P : Platform} {generatePublicKey : Key → Key} {b b' : InterfaceBuilder}
  {value : List Char} {lines : List (List Char)}

theorem excludeApplications_eq (applications : List (List Char)) :
    b.excludeApplications applications =
      { b with excludedApplications := applications.foldl addTo b.excludedApplications } := by
  induction applications generalizing b with
  | nil => rfl
  | cons application applications ih => exact ih (b := b.excludeApplication application)

theorem includeApplications_eq (applications : List (List Char)) :
    b.includeApplications applications =
      { b with includedApplications := applications.foldl addTo b.includedApplications } := by
  induction applications generalizing b with
  | nil => rfl
  | cons application applications ih => exact ih (b := b.includeApplication application)

/-- A port that can be set; zero is none. -/
theorem setListenPort_eq_some {n : ℤ} (h : b.setListenPort n = some b') :
    ∃ listenPort, b' = { b with listenPort } ∧ ∀ p ∈ listenPort, 0 < p ∧ p ≤ 65535 := by
  rw [setListenPort] at h
  split_ifs at h with hrange hzero
  · cases h
    exact ⟨none, rfl, fun p hp => nomatch hp⟩
  · cases h
    refine ⟨some n.toNat, rfl, fun p hp => ?_⟩
    obtain rfl := Option.some.inj hp
    omega

theorem setMtu_eq_some {n : ℤ} (h : b.setMtu n = some b') :
    ∃ mtu, b' = { b with mtu } ∧ ∀ m ∈ mtu, 0 < m ∧ (m : ℤ) = n := by
  rw [setMtu] at h
  split_ifs at h with hrange hzero
  · cases h
    exact ⟨none, rfl, fun m hm => nomatch hm⟩
  · cases h
    refine ⟨some n.toNat, rfl, fun m hm => ?_⟩
    obtain rfl := Option.some.inj hm
    omega

/-- An empty key is none. -/
theorem mem_setNekoKey {nekoKey : Option (List Char)} {k : List Char} :
    k ∈ (b.setNekoKey nekoKey).nekoKey ↔ nekoKey = some k ∧ k ≠ [] := by
  rw [Option.mem_def, setNekoKey, Option.filter_eq_some_iff, decide_eq_true_eq]

theorem parseAddresses_eq_some (h : b.parseAddresses P value = some b') :
    ∃ addresses, b' = { b with addresses } := by
  refine Machine.foldlM_invariant (p := fun b' => ∃ addresses, b' = { b with addresses })
    (fun b₁ b₂ address _ hb₁ hstep => ?_) ⟨_, rfl⟩ h
  obtain ⟨addresses, rfl⟩ := hb₁
  obtain ⟨n, -, rfl⟩ := Option.map_eq_some_iff.mp hstep
  exact ⟨_, rfl⟩

/-- Where the servers and the search domains come from. -/
theorem parseDnsServers_eq_some (h : b.parseDnsServers P value = some b') :
    ∃ dnsServers dnsSearchDomains, b' = { b with dnsServers, dnsSearchDomains } ∧
      (∀ a ∈ dnsServers, a ∈ b.dnsServers ∨ ∃ s, InetAddresses.parse P s = some a) ∧
      ∀ d ∈ dnsSearchDomains, d ∈ b.dnsSearchDomains ∨ d ∈ split P.classes value ∧
        InetAddresses.isHostname d = true ∧ InetAddresses.parse P d = none := by
  refine Machine.foldlM_invariant (p := fun b' => ∃ dnsServers dnsSearchDomains,
    b' = { b with dnsServers, dnsSearchDomains } ∧
      (∀ a ∈ dnsServers, a ∈ b.dnsServers ∨ ∃ s, InetAddresses.parse P s = some a) ∧
      ∀ d ∈ dnsSearchDomains, d ∈ b.dnsSearchDomains ∨ d ∈ split P.classes value ∧
        InetAddresses.isHostname d = true ∧ InetAddresses.parse P d = none)
    (fun b₁ b₂ dnsServer hmem hb₁ hstep => ?_)
    ⟨_, _, rfl, fun _ => .inl, fun _ => .inl⟩ h
  obtain ⟨dnsServers, dnsSearchDomains, rfl, hservers, hdomains⟩ := hb₁
  rw [parseDnsServer] at hstep
  split at hstep
  · next address hparse =>
    cases hstep
    refine ⟨_, _, rfl, fun a ha => ?_, hdomains⟩
    rcases mem_addTo.mp ha with ha | rfl
    · exact hservers a ha
    · exact .inr ⟨_, hparse⟩
  · next hparse =>
    split_ifs at hstep with hname
    cases hstep
    refine ⟨_, _, rfl, hservers, fun d hd => ?_⟩
    rcases mem_addTo.mp hd with hd | rfl
    · exact hdomains d hd
    · exact .inr ⟨hmem, hname, hparse⟩

section

variable (P lines)

/-- A line gives the value under the name. -/
def Given (name value : List Char) : Prop :=
  ∃ line ∈ lines, ∃ key, Attribute.parse P.classes line = some (key, value) ∧ toLowerCase key = name

/-- A line gives a list under the name that has the element. -/
def Listed (name a : List Char) : Prop :=
  ∃ value, Given P lines name value ∧ a ∈ split P.classes value

/-- Every text of a builder comes from a line. -/
structure Provenance (b : InterfaceBuilder) : Prop where
  excluded : ∀ a ∈ b.excludedApplications, Listed P lines "excludedapplications".toList a
  included : ∀ a ∈ b.includedApplications, Listed P lines "includedapplications".toList a
  domains : ∀ d ∈ b.dnsSearchDomains, Listed P lines "dns".toList d ∧
    InetAddresses.isHostname d = true ∧ InetAddresses.parse P d = none
  servers : ∀ a ∈ b.dnsServers, ∃ s, InetAddresses.parse P s = some a
  nekoKey : ∀ k ∈ b.nekoKey, Given P lines "nekolinkkey".toList k

end

theorem Provenance.new : Provenance P lines .new where
  excluded _ h := absurd h List.not_mem_nil
  included _ h := absurd h List.not_mem_nil
  domains _ h := absurd h List.not_mem_nil
  servers _ h := absurd h List.not_mem_nil
  nekoKey _ h := nomatch h

/-- **One line**: what it adds comes from it. -/
theorem Provenance.parseLine (hb : Provenance P lines b) {line : List Char} (hline : line ∈ lines)
    (h : b.parseLine P generatePublicKey line = some b') : Provenance P lines b' := by
  obtain ⟨⟨key, value⟩, hattribute, h⟩ := Option.bind_eq_some_iff.mp h
  have hgiven : Given P lines (toLowerCase key) value := ⟨line, hline, key, hattribute, rfl⟩
  dsimp only at h
  generalize toLowerCase key = name at h hgiven
  rw [parseAttribute] at h
  split_ifs at h with haddress hdns hexcluded hincluded hport hmtu hprivate hneko
  · obtain ⟨addresses, rfl⟩ := parseAddresses_eq_some h
    exact ⟨hb.excluded, hb.included, hb.domains, hb.servers, hb.nekoKey⟩
  · obtain ⟨dnsServers, dnsSearchDomains, rfl, hservers, hdomains⟩ := parseDnsServers_eq_some h
    refine ⟨hb.excluded, hb.included, fun d hd => ?_, fun a ha => ?_, hb.nekoKey⟩
    · rcases hdomains d hd with hd | ⟨hd, hname, hparse⟩
      · exact hb.domains d hd
      · exact ⟨⟨value, hdns ▸ hgiven, hd⟩, hname, hparse⟩
    · exact (hservers a ha).elim (hb.servers a) id
  · have heq := (Option.some.inj h).symm
    rw [parseExcludedApplications, excludeApplications_eq] at heq
    subst heq
    refine ⟨fun a ha => ?_, hb.included, hb.domains, hb.servers, hb.nekoKey⟩
    rcases mem_foldl_addTo.mp ha with ha | ha
    · exact hb.excluded a ha
    · exact ⟨value, hexcluded ▸ hgiven, ha⟩
  · have heq := (Option.some.inj h).symm
    rw [parseIncludedApplications, includeApplications_eq] at heq
    subst heq
    refine ⟨hb.excluded, fun a ha => ?_, hb.domains, hb.servers, hb.nekoKey⟩
    rcases mem_foldl_addTo.mp ha with ha | ha
    · exact hb.included a ha
    · exact ⟨value, hincluded ▸ hgiven, ha⟩
  · obtain ⟨n, -, hset⟩ := Option.bind_eq_some_iff.mp h
    obtain ⟨port, rfl, -⟩ := setListenPort_eq_some hset
    exact ⟨hb.excluded, hb.included, hb.domains, hb.servers, hb.nekoKey⟩
  · obtain ⟨n, -, hset⟩ := Option.bind_eq_some_iff.mp h
    obtain ⟨m, rfl, -⟩ := setMtu_eq_some hset
    exact ⟨hb.excluded, hb.included, hb.domains, hb.servers, hb.nekoKey⟩
  · obtain ⟨privateKey, -, rfl⟩ := Option.map_eq_some_iff.mp h
    exact ⟨hb.excluded, hb.included, hb.domains, hb.servers, hb.nekoKey⟩
  · cases h
    refine ⟨hb.excluded, hb.included, hb.domains, hb.servers, fun k hk => ?_⟩
    obtain ⟨heq, -⟩ := mem_setNekoKey.mp hk
    cases heq
    exact hneko ▸ hgiven

end

end InterfaceBuilder

/-- An interface that is built has what the builder has. -/
theorem InterfaceBuilder.build_eq_some {b : InterfaceBuilder} {i : Interface}
    (h : b.build = some i) :
    b = ⟨i.addresses, i.dnsServers, i.dnsSearchDomains, i.excludedApplications,
        i.includedApplications, some i.keyPair, i.listenPort, i.mtu, i.nekoKey⟩ ∧
      (i.includedApplications = [] ∨ i.excludedApplications = []) := by
  obtain ⟨keyPair, hkey, h⟩ := Option.bind_eq_some_iff.mp h
  split_ifs at h with hboth
  cases h
  refine ⟨?_, ?_⟩
  · rw [← hkey]
  · tauto

/-- **Where the texts of an interface come from.** -/
theorem Interface.provenance {P : Platform} {generatePublicKey : Key → Key}
    {lines : List (List Char)} {i : Interface}
    (h : Interface.parse P generatePublicKey lines = some i) :
    ∃ b : InterfaceBuilder, b.build = some i ∧ b.Provenance P lines := by
  obtain ⟨b, hfold, hbuild⟩ := Option.bind_eq_some_iff.mp h
  exact ⟨b, hbuild, Machine.foldlM_invariant (fun _ _ _ hline hb hstep => hb.parseLine hline hstep)
    .new hfold⟩

/-! ## Which lines are read -/

namespace ConfigReader

section

variable {P : Platform} {r r' : ConfigReader}

theorem parsePeer_eq_some (h : r.parsePeer P = some r') :
    ∃ peers peerLines, r' = { r with peers, peerLines } := by
  rw [parsePeer] at h
  split_ifs at h
  · obtain ⟨peer, -, rfl⟩ := Option.map_eq_some_iff.mp h
    exact ⟨_, _, rfl⟩
  · cases h
    exact ⟨_, _, rfl⟩

/-- A line of the interface is new or the line read. -/
theorem of_mem_interfaceLines {line l : List Char} (h : r.readLine P line = some r')
    (hl : l ∈ r'.interfaceLines) : l ∈ r.interfaceLines ∨ l = withoutComment line := by
  rw [readLine] at h
  split_ifs at h with hblank
  · cases h
    exact .inl hl
  · rw [parseLine] at h
    by_cases hsection : (withoutComment line).head? = some '['
    · rw [if_pos hsection] at h
      obtain ⟨r₁, hparse, h⟩ := Option.bind_eq_some_iff.mp h
      obtain ⟨peers, peerLines, rfl⟩ := parsePeer_eq_some hparse
      split_ifs at h
      · cases h
        exact .inl hl
      · cases h
        exact .inl hl
    · rw [if_neg hsection] at h
      split_ifs at h
      · cases h
        exact (List.mem_append.mp hl).imp_right List.mem_singleton.mp
      · cases h
        exact .inl hl

end

end ConfigReader

/-- **The lines of the interface** are lines of the text, without their comments. -/
theorem Config.parse_eq_some {P : Platform} {generatePublicKey : Key → Key} {text : List Char}
    {c : Config} (h : Config.parse P generatePublicKey text = some c) :
    ∃ lines, Interface.parse P generatePublicKey lines = some c.interface ∧
      ∀ line ∈ lines, ∃ l ∈ readLines text, line = ConfigReader.withoutComment l := by
  obtain ⟨r, hfold, hfinish⟩ := Option.bind_eq_some_iff.mp h
  obtain ⟨r₁, hparse, hfinish⟩ := Option.bind_eq_some_iff.mp hfinish
  obtain ⟨peers, peerLines, rfl⟩ := ConfigReader.parsePeer_eq_some hparse
  split_ifs at hfinish
  obtain ⟨i, hinterface, rfl⟩ := Option.map_eq_some_iff.mp hfinish
  refine ⟨r.interfaceLines, hinterface, ?_⟩
  refine Machine.foldlM_invariant (p := fun r : ConfigReader => ∀ line ∈ r.interfaceLines,
    ∃ l ∈ readLines text, line = ConfigReader.withoutComment l)
    (fun r₁ r₂ l hl hr₁ hstep line hline => ?_) (fun _ hline => absurd hline List.not_mem_nil) hfold
  rcases ConfigReader.of_mem_interfaceLines hstep hline with hline | rfl
  · exact hr₁ line hline
  · exact ⟨l, hl, rfl⟩

/-! ## Sections that are written -/

/-- An attribute within its line: its value has no end of a line and no comment. -/
structure Attribute.Within (a : List Char × List Char) : Prop where
  key : Attribute.Key a.1
  line : OneLine a.2
  hash : '#' ∉ a.2

namespace Attribute.Within

variable {a : List Char × List Char} (h : Within a)
include h

theorem not_mem_line {c : Char} (halphanum : c.isAlphanum = false) (hsep : c ∉ " = ".toList)
    (hvalue : c ∉ a.2) : c ∉ Attribute.line a.1 a.2 := by
  intro hmem
  rcases List.mem_append.mp hmem with hmem | hmem
  · rcases List.mem_append.mp hmem with hmem | hmem
    · exact absurd (h.key.alphanum c hmem) (by simp [halphanum])
    · exact hsep hmem
  · exact hvalue hmem

theorem oneLine : OneLine (Attribute.line a.1 a.2) :=
  ⟨h.not_mem_line rfl (by decide) h.line.1, h.not_mem_line rfl (by decide) h.line.2⟩

theorem withoutComment_line :
    ConfigReader.withoutComment (Attribute.line a.1 a.2) = trim (Attribute.line a.1 a.2) := by
  have hhash := h.not_mem_line rfl (by decide) h.hash
  have hall : ∀ c ∈ Attribute.line a.1 a.2, decide (c ≠ '#') = true :=
    fun c hc => decide_eq_true fun heq => hhash (heq ▸ hc)
  rw [ConfigReader.withoutComment, List.takeWhile_eq_self_iff.mpr hall]

/-- An attribute is a line of the section that is read. -/
theorem readLine {P : Platform} (r : ConfigReader) :
    r.readLine P (Attribute.line a.1 a.2) =
      if r.inInterfaceSection then
        some { r with interfaceLines := r.interfaceLines ++ [trim (Attribute.line a.1 a.2)] }
      else if r.inPeerSection then
        some { r with peerLines := r.peerLines ++ [trim (Attribute.line a.1 a.2)] }
      else none := by
  obtain ⟨hne, hsection, -⟩ := Attribute.parse_trim_line (K := P.classes) h.key a.2
  rw [ConfigReader.readLine, h.withoutComment_line, if_neg hne, ConfigReader.parseLine,
    if_neg hsection]

end Attribute.Within

/-- A peer whose attributes are within their lines and are read as a peer. -/
def Peer.Readable (P : Platform) (p : Peer) : Prop :=
  (∀ a ∈ p.attributes P, Attribute.Within a) ∧
    ∃ p', Peer.parse P ((p.wgQuickLines P).map trim) = some p'

namespace ConfigReader

section

variable {P : Platform} {r : ConfigReader} {as : List (List Char × List Char)}

/-- The attributes of the interface. -/
theorem foldlM_interfaceLines (has : ∀ a ∈ as, Attribute.Within a)
    (hsection : r.inInterfaceSection = true) :
    (as.map fun a => Attribute.line a.1 a.2).foldlM (readLine P) r =
      some { r with interfaceLines :=
        r.interfaceLines ++ (as.map fun a => Attribute.line a.1 a.2).map trim } := by
  induction as generalizing r with
  | nil => simp
  | cons a as ih =>
    obtain ⟨ha, has⟩ := List.forall_mem_cons.mp has
    rw [List.map_cons, List.foldlM_cons, ha.readLine, if_pos hsection]
    refine (ih has (by exact hsection)).trans ?_
    simp

/-- The attributes of a peer. -/
theorem foldlM_peerLines (has : ∀ a ∈ as, Attribute.Within a)
    (hinterface : r.inInterfaceSection = false) (hpeer : r.inPeerSection = true) :
    (as.map fun a => Attribute.line a.1 a.2).foldlM (readLine P) r =
      some { r with peerLines :=
        r.peerLines ++ (as.map fun a => Attribute.line a.1 a.2).map trim } := by
  induction as generalizing r with
  | nil => simp
  | cons a as ih =>
    obtain ⟨ha, has⟩ := List.forall_mem_cons.mp has
    rw [List.map_cons, List.foldlM_cons, ha.readLine, if_neg (by simp [hinterface]), if_pos hpeer]
    refine (ih has (by exact hinterface) (by exact hpeer)).trans ?_
    simp

variable (P) in
/-- The reader has the lines of the interface, and those of a peer that can be read. -/
structure Ready (interfaceLines : List (List Char)) (r : ConfigReader) : Prop where
  lines : r.interfaceLines = interfaceLines
  seen : r.seenInterfaceSection = true
  peer : ∃ peers, r.parsePeer P = some { r with peers, peerLines := [] }

/-- A peer that is read once the one before it is. -/
theorem Ready.readPeer {interfaceLines : List (List Char)} (h : Ready P interfaceLines r) {p : Peer}
    (hp : p.Readable P) :
    ∃ r', ([] :: "[Peer]".toList :: p.wgQuickLines P).foldlM (readLine P) r = some r' ∧
      Ready P interfaceLines r' := by
  obtain ⟨hwithin, p', hparse⟩ := hp
  obtain ⟨peers, hpeer⟩ := h.peer
  have hblank : r.readLine P [] = some r := rfl
  have hheader : r.readLine P "[Peer]".toList =
      some { r with
        peers, peerLines := [], inInterfaceSection := false, inPeerSection := true } := by
    have hline : withoutComment "[Peer]".toList = "[Peer]".toList := by decide
    rw [readLine, hline, if_neg (by decide), parseLine, if_pos (by decide), hpeer]
    rfl
  have hlines := foldlM_peerLines (P := P) (r := { r with
      peers, peerLines := [], inInterfaceSection := false, inPeerSection := true }) hwithin rfl rfl
  have hread : parsePeer P { r with
      peers
      peerLines := (p.wgQuickLines P).map trim
      inInterfaceSection := false
      inPeerSection := true } = some { r with
        peers := peers ++ [p']
        peerLines := []
        inInterfaceSection := false
        inPeerSection := true } := by
    rw [parsePeer, if_pos rfl, hparse]
    rfl
  have hready : Ready P interfaceLines { r with
      peers
      peerLines := (p.wgQuickLines P).map trim
      inInterfaceSection := false
      inPeerSection := true } := ⟨h.lines, h.seen, _, hread⟩
  refine ⟨_, ?_, hready⟩
  simp only [List.foldlM_cons, hblank, hheader, Option.bind_eq_bind, Option.bind_some]
  exact hlines

theorem Ready.readPeers {interfaceLines : List (List Char)} (h : Ready P interfaceLines r)
    {ps : List Peer} (hps : ∀ p ∈ ps, p.Readable P) :
    ∃ r', (ps.flatMap fun p => [] :: "[Peer]".toList :: p.wgQuickLines P).foldlM (readLine P) r =
      some r' ∧ Ready P interfaceLines r' := by
  induction ps generalizing r with
  | nil => exact ⟨r, rfl, h⟩
  | cons p ps ih =>
    obtain ⟨hp, hps⟩ := List.forall_mem_cons.mp hps
    obtain ⟨r₁, hfirst, hready⟩ := h.readPeer hp
    obtain ⟨r', hrest, hready'⟩ := ih hready hps
    refine ⟨r', ?_, hready'⟩
    rw [List.flatMap_cons, List.foldlM_append, hfirst]
    exact hrest

end

end ConfigReader

/-- The text of a configuration by its lines. -/
theorem Config.toWgQuickString_eq (P : Platform) (c : Config) :
    c.toWgQuickString P = unlines ("[Interface]".toList :: c.interface.wgQuickLines P ++
      c.peers.flatMap fun p => [] :: "[Peer]".toList :: p.wgQuickLines P) := by
  have hheader : "[Interface]\n".toList = "[Interface]".toList ++ ['\n'] := by decide
  have hpeer : "\n[Peer]\n".toList = '\n' :: ("[Peer]".toList ++ ['\n']) := by decide
  unfold Config.toWgQuickString
  rw [hheader, hpeer]
  generalize "[Interface]".toList = interfaceHeader
  generalize "[Peer]".toList = peerHeader
  simp [unlines, Interface.toWgQuickString, Peer.toWgQuickString, List.flatMap_assoc]

/-- **Sections that are written are read**: the interface from its attributes. -/
theorem Config.parse_toWgQuickString {P : Platform} {c : Config}
    (hinterface : ∀ a ∈ c.interface.attributes P, Attribute.Within a)
    (hpeers : ∀ p ∈ c.peers, p.Readable P) (generatePublicKey : Key → Key) :
    ∃ peers, Config.parse P generatePublicKey (c.toWgQuickString P) =
      (Interface.parse P generatePublicKey ((c.interface.wgQuickLines P).map trim)).map
        fun interface => ⟨interface, peers⟩ := by
  have hlines : ∀ l ∈ "[Interface]".toList :: c.interface.wgQuickLines P ++
      c.peers.flatMap (fun p => [] :: "[Peer]".toList :: p.wgQuickLines P), OneLine l := by
    intro l hl
    rw [List.cons_append, List.mem_cons, List.mem_append, List.mem_flatMap] at hl
    obtain rfl | hl | ⟨p, hp, hl⟩ := hl
    · exact ⟨by decide, by decide⟩
    · obtain ⟨a, ha, rfl⟩ := List.mem_map.mp hl
      exact (hinterface a ha).oneLine
    · rw [List.mem_cons, List.mem_cons] at hl
      obtain rfl | rfl | hl := hl
      · exact ⟨by decide, by decide⟩
      · exact ⟨by decide, by decide⟩
      · obtain ⟨a, ha, rfl⟩ := List.mem_map.mp hl
        exact ((hpeers p hp).1 a ha).oneLine
  let lines := (c.interface.wgQuickLines P).map trim
  have hheader : ConfigReader.new.readLine P "[Interface]".toList =
      some ⟨[], [], [], true, false, true⟩ := rfl
  have hattributes : (c.interface.wgQuickLines P).foldlM (ConfigReader.readLine P)
      ⟨[], [], [], true, false, true⟩ = some ⟨[], lines, [], true, false, true⟩ :=
    ConfigReader.foldlM_interfaceLines hinterface rfl
  have hstart : ConfigReader.Ready P lines ⟨[], lines, [], true, false, true⟩ := ⟨rfl, rfl, [], rfl⟩
  obtain ⟨r, hfold, hready⟩ := hstart.readPeers hpeers
  obtain ⟨peers, hpeer⟩ := hready.peer
  refine ⟨peers, ?_⟩
  have hread : (("[Interface]".toList :: c.interface.wgQuickLines P ++
      c.peers.flatMap fun p => [] :: "[Peer]".toList :: p.wgQuickLines P).foldlM
        (ConfigReader.readLine P) .new) = some r := by
    simp only [List.cons_append, List.foldlM_cons, hheader, List.foldlM_append,
      Option.bind_eq_bind, Option.bind_some, hattributes, hfold]
  rw [Config.parse, Config.toWgQuickString_eq, readLines_unlines hlines, hread, Option.bind_some,
    ConfigReader.finish, hpeer, Option.bind_some]
  simp only [hready.seen, hready.lines, if_true]
  rfl

end NekoLink.Android
