import NekoLink.Device.DeviceConfig

/-!
# Independent peer sections

A set request of several peer sections is compared with one request for each section. Of the
variables of `api_set_peer` only the allowed IPs are reset at a section's end, so a section takes
over what it does not set itself.

* `planOf_apiSet`: a request is the plan of its sections with what they take over.
* `planOf_separately`: requests of one section each are the plan of what the sections set.
* `sections_independent_iff`: the two agree at every section exactly when no section takes over
  anything that matters to it.
* `sections_dependent`: a keepalive interval that is taken over by the next peer.
-/

namespace NekoLink.Device

open Wire Noise Routing

/-! ## The text of a request -/

/-- A valid line of a section: `key=val`. -/
structure DirectiveText (P : Parsers) where
  key : List Char
  val : List Char
  directive : Directive
  parses : parseDirective P key val = some (some directive)
  no_newline : '\n' ∉ val

/-- A valid section: `public_key=val` and its lines. -/
structure SectionText (P : Parsers) where
  val : List Char
  pubKey : Bytes 32
  parses : KeyBytes.fromStr P val = some (some pubKey)
  no_newline : '\n' ∉ val
  body : List (DirectiveText P)

variable {P : Parsers}

def DirectiveText.line (l : DirectiveText P) : List Char := l.key ++ '=' :: l.val

namespace SectionText

def keyLine (s : SectionText P) : List Char := "public_key".toList ++ '=' :: s.val

def lines (s : SectionText P) : List (List Char) := s.keyLine :: s.body.map DirectiveText.line

/-- The section's lines are read into the variables. -/
def fill (s : SectionText P) (start : PeerSection) : PeerSection :=
  (s.body.map DirectiveText.directive).foldl PeerSection.set start

/-- What the section sets. -/
def own (s : SectionText P) : PeerSection := s.fill (.new s.pubKey)

/-- What the section commits after a section with these variables. -/
def effective (s : SectionText P) (carried : PeerSection) : PeerSection :=
  s.fill { carried with publicKey := s.pubKey, allowedIps := [] }

end SectionText

/-- The sections with their lines, closed by an empty line. -/
def requestText (sections : List (SectionText P)) : List Char :=
  Text.unlines (sections.flatMap SectionText.lines) ++ ['\n']

/-! ## What a section commits -/

/-- Two sections with the same key and the same allowed IPs, of which the second may be removed when
the first is not. -/
structure Carries (own eff : PeerSection) : Prop where
  publicKey : eff.publicKey = own.publicKey
  allowedIps : eff.allowedIps = own.allowedIps
  remove : own.remove = true → eff.remove = true

theorem Carries.set {own eff : PeerSection} (h : Carries own eff) (l : Directive) :
    Carries (own.set l) (eff.set l) := by
  obtain ⟨hkey, hips, hremove⟩ := h
  cases l with
  | remove b => exact ⟨hkey, hips, id⟩
  | allowedIp ip => exact ⟨hkey, congrArg (· ++ [ip]) hips, hremove⟩
  | presharedKey | endpoint | persistentKeepaliveInterval | replaceAllowedIps | protocolVersion =>
    exact ⟨hkey, hips, hremove⟩

theorem Carries.foldl_set {own eff : PeerSection} (h : Carries own eff) (ls : List Directive) :
    Carries (ls.foldl PeerSection.set own) (ls.foldl PeerSection.set eff) := by
  induction ls generalizing own eff with
  | nil => exact h
  | cons l ls ih => exact ih (h.set l)

theorem SectionText.carries (s : SectionText P) (carried : PeerSection) :
    Carries s.own (s.effective carried) := by
  have hstart : Carries (.new s.pubKey) { carried with publicKey := s.pubKey, allowedIps := [] } :=
    ⟨rfl, rfl, fun h => absurd h Bool.false_ne_true⟩
  exact hstart.foldl_set _

theorem PeerSection.publicKey_foldl_set (ls : List Directive) (start : PeerSection) :
    (ls.foldl PeerSection.set start).publicKey = start.publicKey := by
  induction ls generalizing start with
  | nil => rfl
  | cons l ls ih =>
    rw [List.foldl_cons, ih]
    cases l <;> rfl

theorem SectionText.publicKey_own (s : SectionText P) : s.own.publicKey = s.pubKey :=
  PeerSection.publicKey_foldl_set _ _

/-- The settings of a peer do not differ. -/
def PeerSection.SameSettings (eff own : PeerSection) : Prop :=
  eff.endpoint = own.endpoint ∧ eff.keepalive.filter (0 < ·) = own.keepalive.filter (0 < ·) ∧
    eff.presharedKey = own.presharedKey

/-- The peers there are, and the register. -/
structure Roster where
  present : Bytes 32 → Bool
  nextIndex : IndexLfsr

/-- `none` is the assertion. -/
def Roster.update (r : Roster) (pubKey : Bytes 32) (remove : Bool) : Option Roster :=
  if remove then some { r with present := Function.update r.present pubKey false }
  else if r.present pubKey then some r
  else r.nextIndex.next.map fun (lfsr, _) => ⟨Function.update r.present pubKey true, lfsr⟩

/-- What the section takes over does not matter to it: it is removed only when it says so, and a
peer that it adds gets its own settings. -/
def SectionText.Unaffected (s : SectionText P) (r : Roster) (carried : PeerSection) : Prop :=
  (s.effective carried).remove = s.own.remove ∧
    (s.own.remove = false → r.present s.pubKey = false →
      (s.effective carried).SameSettings s.own)

/-- No section takes over what matters to it, as far as the register goes. -/
def Clean (r : Roster) (carried : PeerSection) : List (SectionText P) → Prop
  | [] => True
  | s :: ss => ∀ r', r.update s.pubKey s.own.remove = some r' →
      s.Unaffected r carried ∧ Clean r' (s.effective carried) ss

/-! ## Plans -/

def rosterOf (a : Config × IndexLfsr) : Roster := ⟨fun k => (a.1.peers k).isSome, a.2⟩

/-- The plan of a list of sections. -/
def planAll (a : Config × IndexLfsr) (ss : List PeerSection) : Option (Config × IndexLfsr) :=
  ss.foldlM planned a

/-- What the sections commit in one request. -/
def effectives (carried : PeerSection) : List (SectionText P) → List PeerSection
  | [] => []
  | s :: ss => s.effective carried :: effectives (s.effective carried) ss

section Plans

variable {a a' : Config × IndexLfsr} {s : PeerSection}

theorem planAll_cons (a : Config × IndexLfsr) (s : PeerSection) (ss : List PeerSection) :
    planAll a (s :: ss) = (planned a s).bind fun a => planAll a ss := List.foldlM_cons ..

theorem rosterOf_planned :
    (planned a s).map rosterOf = (rosterOf a).update s.publicKey s.remove := by
  rw [planned, Roster.update, rosterOf]
  dsimp only
  split_ifs
  · refine congrArg some (congrArg (Roster.mk · a.2) (funext fun k => ?_))
    by_cases hk : k = s.publicKey
    · simp [Config.remove, hk]
    · simp [Config.remove, hk]
  · rfl
  · rcases a.2.next with _ | ⟨lfsr, idx⟩
    · rfl
    · refine congrArg some (congrArg (Roster.mk · lfsr) (funext fun k => ?_))
      by_cases hk : k = s.publicKey
      · simp [Config.add, hk]
      · simp [Config.add, hk]

theorem config_eq_of_sameSettings {eff own : PeerSection} (hcarries : Carries own eff)
    (h : eff.SameSettings own) : eff.config = own.config := by
  obtain ⟨hendpoint, hkeepalive, hpsk⟩ := h
  exact PeerConfig.ext hendpoint hkeepalive hpsk
    (by simp only [PeerSection.config, hcarries.allowedIps]) rfl

theorem sameSettings_of_config_eq {eff own : PeerSection} (h : eff.config = own.config) :
    eff.SameSettings own :=
  ⟨congrArg PeerConfig.endpoint h, congrArg PeerConfig.keepalive h,
    congrArg PeerConfig.presharedKey h⟩

/-- A section that is unaffected commits what it says. -/
theorem planned_eq_of_unaffected {t : SectionText P} {carried : PeerSection}
    (h : t.Unaffected (rosterOf a) carried) :
    planned a (t.effective carried) = planned a t.own := by
  obtain ⟨hremove, hsettings⟩ := h
  have hcarries := t.carries carried
  rw [planned, planned, hremove, hcarries.publicKey]
  split_ifs with hrm hpresent
  · rfl
  · rfl
  · have habsent : (rosterOf a).present t.pubKey = false := by
      rw [t.publicKey_own] at hpresent
      exact Bool.eq_false_of_not_eq_true hpresent
    have hconfig := config_eq_of_sameSettings hcarries
      (hsettings (Bool.eq_false_of_not_eq_true hrm) habsent)
    have hadd : a.1.add (t.effective carried) = a.1.add t.own := by
      rw [Config.add, Config.add, hcarries.publicKey, hcarries.allowedIps, hconfig]
    rw [hadd]

/-- A section that commits what it says is unaffected. -/
theorem unaffected_of_planned_eq {t : SectionText P} {carried : PeerSection}
    (hown : planned a t.own = some a')
    (heff : ∀ a'', planned a (t.effective carried) = some a'' → a''.1 = a'.1) :
    t.Unaffected (rosterOf a) carried := by
  have hcarries := t.carries carried
  rcases hrm : t.own.remove with _ | _
  · -- the peer is there afterwards
    have hthere : (a'.1.peers t.own.publicKey).isSome := by
      rw [planned, hrm, if_neg (by decide)] at hown
      split_ifs at hown with hpresent
      · cases hown
        exact hpresent
      · obtain ⟨⟨lfsr, idx⟩, -, rfl⟩ := Option.map_eq_some_iff.mp hown
        simp [Config.add]
    have hkept : (t.effective carried).remove = false := by
      rcases hremove : (t.effective carried).remove with _ | _
      · rfl
      · have hgone := heff _ (if_pos hremove)
        rw [← hgone, hcarries.publicKey] at hthere
        simp [Config.remove] at hthere
    refine ⟨by rw [hkept, hrm], fun _ habsent => ?_⟩
    have hnone : ¬ (a.1.peers t.own.publicKey).isSome = true := by
      rw [t.publicKey_own]
      exact Bool.eq_false_iff.mp habsent
    rw [planned, hrm, if_neg (by decide), if_neg hnone] at hown
    obtain ⟨⟨lfsr, idx⟩, hnext, rfl⟩ := Option.map_eq_some_iff.mp hown
    have hadded := heff (a.1.add (t.effective carried), lfsr) (by
      rw [planned, hkept, if_neg (by decide), hcarries.publicKey, if_neg hnone, hnext,
        Option.map_some])
    have hpeers := congrFun (congrArg Config.peers hadded) t.own.publicKey
    simp only [Config.add, hcarries.publicKey, Function.update_self, Option.some.injEq] at hpeers
    exact sameSettings_of_config_eq hpeers
  · exact ⟨by rw [hcarries.remove hrm, hrm], fun h => (by rw [hrm] at h; cases h)⟩

/-- **Plans agree** after every section exactly when no section is affected. -/
theorem planAll_agree_iff (ss : List (SectionText P)) (a : Config × IndexLfsr)
    (carried : PeerSection) :
    (∀ m a₁ a₂, planAll a (effectives carried (ss.take m)) = some a₁ →
        planAll a ((ss.take m).map SectionText.own) = some a₂ → a₁.1 = a₂.1) ↔
      Clean (rosterOf a) carried ss := by
  induction ss generalizing a carried with
  | nil =>
    refine ⟨fun _ => trivial, fun _ m a₁ a₂ h₁ h₂ => ?_⟩
    rw [List.take_nil] at h₁ h₂
    exact congrArg Prod.fst (Option.some.inj (h₁.symm.trans h₂))
  | cons t ts ih =>
    constructor
    · intro hagree r' hr'
      rw [← t.publicKey_own, ← rosterOf_planned] at hr'
      obtain ⟨a', hown, rfl⟩ := Option.map_eq_some_iff.mp hr'
      have hunaffected : t.Unaffected (rosterOf a) carried := by
        refine unaffected_of_planned_eq hown fun a'' heff => ?_
        refine hagree 1 a'' a' ?_ ?_
        · rw [List.take_succ_cons, List.take_zero, effectives, effectives, planAll_cons, heff]
          rfl
        · rw [List.take_succ_cons, List.take_zero, List.map_singleton, planAll_cons, hown]
          rfl
      refine ⟨hunaffected, (ih a' _).mp fun m a₁ a₂ h₁ h₂ => hagree (m + 1) a₁ a₂ ?_ ?_⟩
      · rw [List.take_succ_cons, effectives, planAll_cons, planned_eq_of_unaffected hunaffected,
          hown]
        exact h₁
      · rw [List.take_succ_cons, List.map_cons, planAll_cons, hown]
        exact h₂
    · rintro hclean (_ | m) a₁ a₂ h₁ h₂
      · exact congrArg Prod.fst (Option.some.inj (h₁.symm.trans h₂))
      · rw [List.take_succ_cons, List.map_cons, planAll_cons] at h₂
        obtain ⟨a', hown, h₂⟩ := Option.bind_eq_some_iff.mp h₂
        have hr' : (rosterOf a).update t.pubKey t.own.remove = some (rosterOf a') := by
          rw [← t.publicKey_own, ← rosterOf_planned, hown, Option.map_some]
        obtain ⟨hunaffected, hclean'⟩ := hclean _ hr'
        rw [List.take_succ_cons, effectives, planAll_cons, planned_eq_of_unaffected hunaffected,
          hown] at h₁
        exact (ih a' _).mpr hclean' m a₁ a₂ h₁ h₂

end Plans

/-! ## Reading the text -/

theorem newline_notMem_key {key val : List Char} {l : Directive}
    (h : parseDirective P key val = some (some l)) :
    '\n' ∉ key ∧ '=' ∉ key ∧ key ≠ "public_key".toList := by
  rw [parseDirective] at h
  split_ifs at h with h₁ h₂ h₃ h₄ h₅ h₆ h₇
  · rw [h₁]; decide
  · rw [h₂]; decide
  · rw [h₃]; decide
  · rw [h₄]; decide
  · rw [h₅]; decide
  · rw [h₆]; decide
  · rw [h₇]; decide
  · exact absurd (Option.some.inj h) (Option.some_ne_none l).symm
  · exact absurd (Option.some.inj h) (Option.some_ne_none l).symm

theorem separator_notMem_publicKey : '=' ∉ "public_key".toList := by decide

theorem SectionText.keyLine_ne_nil (t : SectionText P) : t.keyLine ≠ [] :=
  List.append_ne_nil_of_right_ne_nil _ (List.cons_ne_nil _ _)

theorem SectionText.splitOnce_keyLine (t : SectionText P) :
    Text.splitOnce '=' t.keyLine = some ("public_key".toList, t.val) :=
  Text.splitOnce_append separator_notMem_publicKey t.val

theorem DirectiveText.newline_notMem (l : DirectiveText P) : '\n' ∉ l.line := by
  intro hmem
  obtain hmem | hmem := List.mem_append.mp hmem
  · exact (newline_notMem_key l.parses).1 hmem
  · obtain heq | hmem := List.mem_cons.mp hmem
    · exact absurd heq (by decide)
    · exact l.no_newline hmem

theorem SectionText.newline_notMem (t : SectionText P) : ∀ line ∈ t.lines, '\n' ∉ line := by
  intro line hline hmem
  obtain rfl | hbody := List.mem_cons.mp hline
  · obtain hmem | hmem := List.mem_append.mp hmem
    · exact absurd hmem (by decide)
    · obtain heq | hmem := List.mem_cons.mp hmem
      · exact absurd heq (by decide)
      · exact t.no_newline hmem
  · obtain ⟨l, -, rfl⟩ := List.mem_map.mp hbody
    exact l.newline_notMem hmem

theorem commands_requestText (sections : List (SectionText P)) (failing : Bool) :
    ∃ rest, Text.Reader.commands ⟨requestText sections, failing⟩ =
      sections.flatMap SectionText.lines ++ [] :: rest := by
  have hlines : ∀ line ∈ sections.flatMap SectionText.lines, '\n' ∉ line := by
    intro line hline
    obtain ⟨s, -, hs⟩ := List.mem_flatMap.mp hline
    exact s.newline_notMem line hs
  refine ⟨Text.Reader.commands ⟨[], failing⟩, ?_⟩
  rw [requestText, Text.Reader.commands_lines _ hlines]
  exact congrArg _ (Text.Reader.commands_append [] (List.not_mem_nil))

variable {C : Prims} {T : Type → Type} [Table T IpNetwork IpAddr] {d d' : Device C T}

/-- The lines of a section are read into its variables. -/
theorem apiSetPeer_body (body : List (DirectiveText P)) (seeds : ℕ → TunnSeed) (d : Device C T)
    (s : PeerSection) (cmds : List (List Char)) :
    ∃ seeds', apiSetPeer P seeds d s (body.map DirectiveText.line ++ cmds) =
      apiSetPeer P seeds' d ((body.map DirectiveText.directive).foldl PeerSection.set s) cmds := by
  induction body generalizing seeds s with
  | nil => exact ⟨seeds, rfl⟩
  | cons l body ih =>
    obtain ⟨-, hsep, hkey⟩ := newline_notMem_key l.parses
    have hne : l.line ≠ [] := by simp [DirectiveText.line]
    obtain ⟨seeds', hrest⟩ := ih (fun n => seeds (n + 1)) (s.set l.directive)
    refine ⟨seeds', ?_⟩
    rw [List.map_cons, List.cons_append, apiSetPeer, if_neg hne, DirectiveText.line,
      Text.splitOnce_append hsep]
    simp only [hkey, if_false, l.parses, Option.bind_some]
    exact hrest

/-- The first line of a section commits the section before. -/
theorem apiSetPeer_keyLine (t : SectionText P) (seeds : ℕ → TunnSeed) (d : Device C T)
    (s : PeerSection) (cmds : List (List Char)) :
    apiSetPeer P seeds d s (t.keyLine :: cmds) =
      (d.commit (seeds 0) s).bind fun d =>
        apiSetPeer P (fun n => seeds (n + 1)) d
          { s with publicKey := t.pubKey, allowedIps := [] } cmds := by
  rw [apiSetPeer, if_neg t.keyLine_ne_nil]
  simp only [t.splitOnce_keyLine, if_true, t.parses, Option.bind_some]

/-- The first line of a request. -/
theorem apiSetLines_keyLine (t : SectionText P) (S : Sockets C T) (seeds : ℕ → TunnSeed)
    (d : Device C T) (cmds : List (List Char)) :
    apiSetLines P S seeds d (t.keyLine :: cmds) =
      apiSetPeer P (fun n => seeds (n + 1)) d (.new t.pubKey) cmds := by
  rw [apiSetLines, if_neg t.keyLine_ne_nil]
  have h₁ : "public_key".toList ≠ "private_key".toList := by decide
  have h₂ : "public_key".toList ≠ "listen_port".toList := by decide
  have h₃ : "public_key".toList ≠ "fwmark".toList := by decide
  have h₄ : "public_key".toList ≠ "replace_peers".toList := by decide
  simp only [t.splitOnce_keyLine, h₁, h₂, h₃, h₄, if_false, if_true, t.parses, Option.bind_some]

/-! ## Requests -/

/-- The plan and the status that a request leaves. -/
def planOf (r : Device C T × Status) : (Config × IndexLfsr) × Status := (r.1.plan, r.2)

variable [LawfulTable T IpNetwork IpAddr]

/-- From within a section, the sections are committed one after the other. -/
theorem planOf_apiSetPeer (h : Consistent d) (hkey : d.keyPair.isSome) (seeds : ℕ → TunnSeed)
    (s : PeerSection) (ss : List (SectionText P)) (rest : List (List Char)) :
    (apiSetPeer P seeds d s (ss.flatMap SectionText.lines ++ [] :: rest)).map planOf =
      (planAll d.plan (s :: effectives s ss)).map fun a => (a, .ok) := by
  induction ss generalizing d s seeds with
  | nil =>
    rw [List.flatMap_nil, List.nil_append, apiSetPeer, if_pos rfl, effectives, planAll_cons,
      ← plan_commit h hkey (seeds 0) s, Option.map_map, Option.bind_map]
    rcases d.commit (seeds 0) s with _ | d'
    · rfl
    · rfl
  | cons t ts ih =>
    rw [List.flatMap_cons, List.append_assoc, SectionText.lines, List.cons_append,
      apiSetPeer_keyLine, planAll_cons, ← plan_commit h hkey (seeds 0) s, Option.bind_map,
      Option.map_bind, Option.map_bind]
    refine Option.bind_congr fun d' hcommit => ?_
    obtain ⟨h', hkeep⟩ := commit_consistent h hcommit
    obtain ⟨seeds', hbody⟩ := apiSetPeer_body t.body (fun n => seeds (n + 1)) d'
      { s with publicKey := t.pubKey, allowedIps := [] } (ts.flatMap SectionText.lines ++ [] :: rest)
    rw [Function.comp_apply, hbody]
    exact ih h' (by rw [hkeep]; exact hkey) seeds' (t.effective s)

/-- **A request** commits its sections with what they take over. -/
theorem planOf_apiSet (h : Consistent d) (hkey : d.keyPair.isSome) (S : Sockets C T)
    (seeds : ℕ → TunnSeed) (ss : List (SectionText P)) (failing : Bool) (k : Bytes 32) :
    (apiSet P S seeds d ⟨requestText ss, failing⟩).map planOf =
      (planAll d.plan (effectives (.new k) ss)).map fun a => (a, .ok) := by
  obtain ⟨rest, hcommands⟩ := commands_requestText ss failing
  rw [apiSet, hcommands]
  rcases ss with _ | ⟨t, ts⟩
  · rw [List.flatMap_nil, List.nil_append, apiSetLines, if_pos rfl]
    rfl
  · rw [List.flatMap_cons, List.append_assoc, SectionText.lines, List.cons_append,
      apiSetLines_keyLine]
    obtain ⟨seeds', hbody⟩ := apiSetPeer_body t.body (fun n => seeds (n + 1)) d (.new t.pubKey)
      (ts.flatMap SectionText.lines ++ [] :: rest)
    rw [hbody]
    exact planOf_apiSetPeer h hkey seeds' (t.effective (.new k)) ts rest

/-- One request for each section. -/
def separately (P : Parsers) (S : Sockets C T) (failing : Bool) (seeds : ℕ → ℕ → TunnSeed)
    (d : Device C T) : List (SectionText P) → Option (Device C T)
  | [] => some d
  | s :: ss => (apiSet P S (seeds 0) d ⟨requestText [s], failing⟩).bind fun r =>
      separately P S failing (fun n => seeds (n + 1)) r.1 ss

theorem apiSet_consistent (h : Consistent d) (S : Sockets C T) {seeds : ℕ → TunnSeed}
    {s : SectionText P} {failing : Bool} {status : Status}
    (hset : apiSet P S seeds d ⟨requestText [s], failing⟩ = some (d', status)) :
    Consistent d' ∧ d'.keyPair = d.keyPair := by
  obtain ⟨rest, hcommands⟩ := commands_requestText [s] failing
  rw [apiSet, hcommands, List.flatMap_singleton, SectionText.lines, List.cons_append,
    apiSetLines_keyLine] at hset
  obtain ⟨seeds', hbody⟩ := apiSetPeer_body s.body (fun n => seeds (n + 1)) d (.new s.pubKey)
    ([] :: rest)
  rw [hbody, apiSetPeer, if_pos rfl] at hset
  obtain ⟨d₁, hcommit, heq⟩ := Option.map_eq_some_iff.mp hset
  cases heq
  exact commit_consistent h hcommit

/-- **Requests of one section each** commit what the sections say. -/
theorem planOf_separately (h : Consistent d) (hkey : d.keyPair.isSome) (S : Sockets C T)
    (failing : Bool) (seeds : ℕ → ℕ → TunnSeed) (ss : List (SectionText P)) :
    (separately P S failing seeds d ss).map plan =
      planAll d.plan (ss.map SectionText.own) := by
  induction ss generalizing d seeds with
  | nil => rfl
  | cons s ss ih =>
    have hfirst := planOf_apiSet h hkey S (seeds 0) [s] failing s.pubKey
    rw [effectives, effectives, planAll_cons] at hfirst
    have hown : s.effective (.new s.pubKey) = s.own := rfl
    rw [hown] at hfirst
    rw [separately, List.map_cons, planAll_cons, Option.map_bind]
    rcases hset : apiSet P S (seeds 0) d ⟨requestText [s], failing⟩ with _ | ⟨d', status⟩
    · rw [hset, Option.map_none] at hfirst
      rcases hone : planned d.plan s.own with _ | a
      · rfl
      · rw [hone] at hfirst
        cases hfirst
    · rw [hset, Option.map_some] at hfirst
      obtain ⟨a, hall, heq⟩ := Option.map_eq_some_iff.mp hfirst.symm
      obtain ⟨a', hone, hnil⟩ := Option.bind_eq_some_iff.mp hall
      obtain rfl := Option.some.inj hnil
      obtain ⟨h', hkeep⟩ := apiSet_consistent h S hset
      have hplan : d'.plan = a' := (congrArg Prod.fst heq).symm
      rw [hone, Option.bind_some, Option.bind_some, ← hplan]
      exact ih h' (by rw [hkeep]; exact hkey) fun n => seeds (n + 1)

/-- **Independent sections.** On a device with a private key, a request of several sections answers
with success and leaves the peers, their settings, the routes and the index table as one request
for each section would, after every section of it, exactly when no section is affected by what it
takes over from those before it. -/
theorem sections_independent_iff (h : Reached d) (hkey : d.keyPair.isSome) (S : Sockets C T)
    (seeds : ℕ → TunnSeed) (seeds' : ℕ → ℕ → TunnSeed) (failing : Bool)
    (ss : List (SectionText P)) :
    (∀ m d₁ status d₂, apiSet P S seeds d ⟨requestText (ss.take m), failing⟩ = some (d₁, status) →
        separately P S failing seeds' d (ss.take m) = some d₂ →
        status = .ok ∧ d₁.config = d₂.config) ↔
      Clean ⟨fun pubKey => (d.peers.lookup pubKey).isSome, d.nextIndex⟩ (.new (zeros 32)) ss := by
  have hd := consistent_of_reached h
  have hroster : (⟨fun pubKey => (d.peers.lookup pubKey).isSome, d.nextIndex⟩ : Roster) =
      rosterOf d.plan :=
    congrArg (Roster.mk · d.nextIndex) (funext fun k => (config_isSome hd k).symm)
  rw [hroster, ← planAll_agree_iff]
  have hwhole := fun m => planOf_apiSet hd hkey S seeds (ss.take m) failing (zeros 32)
  have hseparate := fun m => planOf_separately hd hkey S failing seeds' (ss.take m)
  constructor
  · intro hagree m a₁ a₂ h₁ h₂
    rw [← hseparate m] at h₂
    obtain ⟨d₂, hsep, rfl⟩ := Option.map_eq_some_iff.mp h₂
    have hset := hwhole m
    rw [h₁, Option.map_some] at hset
    obtain ⟨⟨d₁, status⟩, hset, heq⟩ := Option.map_eq_some_iff.mp hset
    rw [← (Prod.mk.inj heq).1]
    exact (hagree m d₁ status d₂ hset hsep).2
  · intro hagree m d₁ status d₂ hset hsep
    have h₁ := hwhole m
    rw [hset, Option.map_some] at h₁
    obtain ⟨a₁, hplan, heq⟩ := Option.map_eq_some_iff.mp h₁.symm
    obtain ⟨rfl, hstatus⟩ := Prod.mk.inj heq
    have h₂ := hseparate m
    rw [hsep, Option.map_some] at h₂
    exact ⟨hstatus.symm, hagree m _ _ hplan h₂.symm⟩

/-! ## A section that takes over -/

/-- The readers of hexadecimal keys and numbers alone. -/
def sampleParsers : Parsers := ⟨fun _ => none, fun _ => none, fun _ => none⟩

/-- `persistent_keepalive_interval=25` -/
def sampleKeepalive : DirectiveText sampleParsers where
  key := "persistent_keepalive_interval".toList
  val := "25".toList
  directive := .persistentKeepaliveInterval 25
  parses := rfl
  no_newline := by decide

/-- A section of the peer with the key `11…11`. -/
def sampleFirst (body : List (DirectiveText sampleParsers)) : SectionText sampleParsers where
  val := List.replicate 64 '1'
  pubKey := fill 32 0x11
  parses := by decide +kernel
  no_newline := by decide
  body := body

/-- A section of the peer with the key `22…22`. -/
def sampleSecond (body : List (DirectiveText sampleParsers)) : SectionText sampleParsers where
  val := List.replicate 64 '2'
  pubKey := fill 32 0x22
  parses := by decide +kernel
  no_newline := by decide
  body := body

/-- The sockets stay as they are. -/
def sampleSockets : Sockets checksumPrims (PrefixMap IpNetwork) :=
  ⟨fun d _ => (d, true), fun d _ => (d, true)⟩

def sampleSeed : TunnSeed := ⟨Tunn.sampleEnv 0 0, ⟨10 ^ 18, 0⟩⟩

/-- The device with its private key. -/
def keyedDevice : Option (Device checksumPrims (PrefixMap IpNetwork)) :=
  (Machine.run step sampleDevice [sampleSetKey]).map Prod.fst

theorem exists_keyedDevice :
    ∃ d : Device checksumPrims (PrefixMap IpNetwork), keyedDevice = some d ∧ Reached d ∧
      d.keyPair.isSome := by
  have hkey : keyedDevice.map (fun d => d.keyPair.isSome) = some true := by decide +kernel
  obtain ⟨d, hd, hsome⟩ := Option.map_eq_some_iff.mp hkey
  obtain ⟨⟨d', os⟩, hrun, rfl⟩ := Option.map_eq_some_iff.mp hd
  exact ⟨_, hd, ⟨_, _, _, _, _, Machine.reaches_of_run hrun⟩, hsome⟩

/-- Sections that set the same variables do not affect each other. -/
theorem sections_independent_sample :
    ∃ d : Device checksumPrims (PrefixMap IpNetwork), Reached d ∧ d.keyPair.isSome ∧
      ∀ m d₁ status d₂, apiSet sampleParsers sampleSockets (fun _ => sampleSeed) d
          ⟨requestText ([sampleFirst [sampleKeepalive], sampleSecond [sampleKeepalive]].take m),
            false⟩ = some (d₁, status) →
        separately sampleParsers sampleSockets false (fun _ _ => sampleSeed) d
          ([sampleFirst [sampleKeepalive], sampleSecond [sampleKeepalive]].take m) = some d₂ →
        status = .ok ∧ d₁.config = d₂.config := by
  obtain ⟨d, -, hreached, hkey⟩ := exists_keyedDevice
  refine ⟨d, hreached, hkey, (sections_independent_iff hreached hkey sampleSockets
    (fun _ => sampleSeed) (fun _ _ => sampleSeed) false _).mpr fun r' _ => ⟨?_, fun r'' _ => ?_⟩⟩
  · exact ⟨rfl, fun _ _ => ⟨rfl, rfl, rfl⟩⟩
  · exact ⟨⟨rfl, fun _ _ => ⟨rfl, rfl, rfl⟩⟩, trivial⟩

/-- **A keepalive interval is taken over**: the second peer gets the one of the first. -/
theorem sections_dependent :
    ¬ ∀ d : Device checksumPrims (PrefixMap IpNetwork), Reached d → d.keyPair.isSome →
      ∀ (seeds : ℕ → TunnSeed) (seeds' : ℕ → ℕ → TunnSeed)
        (ss : List (SectionText sampleParsers)) d₁ status d₂,
        apiSet sampleParsers sampleSockets seeds d ⟨requestText ss, false⟩ = some (d₁, status) →
        separately sampleParsers sampleSockets false seeds' d ss = some d₂ →
        d₁.config = d₂.config := by
  intro hclaim
  obtain ⟨d, hd, hreached, hkey⟩ := exists_keyedDevice
  let ss := [sampleFirst [sampleKeepalive], sampleSecond []]
  have hrun : (keyedDevice.bind fun d =>
      (apiSet sampleParsers sampleSockets (fun _ => sampleSeed) d ⟨requestText ss, false⟩).bind
        fun r => (separately sampleParsers sampleSockets false (fun _ _ => sampleSeed) d ss).map
          fun d₂ => ((r.1.config.peers (fill 32 0x22)).map PeerConfig.keepalive,
            (d₂.config.peers (fill 32 0x22)).map PeerConfig.keepalive)) =
      some (some (some 25), some none) := by decide +kernel
  rw [hd, Option.bind_some] at hrun
  obtain ⟨⟨d₁, status⟩, hset, hrun⟩ := Option.bind_eq_some_iff.mp hrun
  obtain ⟨d₂, hsep, heq⟩ := Option.map_eq_some_iff.mp hrun
  obtain ⟨h₁, h₂⟩ := Prod.mk.inj heq
  have hconfig := hclaim d hreached hkey _ _ ss d₁ status d₂ hset hsep
  rw [hconfig, h₂] at h₁
  exact absurd (Option.some.inj h₁) (by decide)

end NekoLink.Device
