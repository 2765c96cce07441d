import NekoLink.Device.Commits
import NekoLink.Device.Sections

/-!
# Set requests that are cut off

A connection that is closed within a request delivers its first bytes. Then the last line is read
as if it were complete, without its last character, and the end is read as an empty line, which
commits the section that has begun.

* `reads_lines`: what the complete lines commit.
* `decode_settings_rest`, `decode_peer_rest`: what the unfinished line commits.
* `askedBy_cut`: the two together.
* `truncated_unaltered_iff`: when nothing is committed but what the request says.
-/

namespace NekoLink.Device

open Wire Noise Routing

variable {P : Parsers}

/-! ## Requests -/

/-- A valid line before the first section. -/
structure SettingText (P : Parsers) where
  key : List Char
  val : List Char
  setting : Setting
  parses : parseSetting P key val = some (some setting)
  no_newline : '\n' ∉ val

def SettingText.line (l : SettingText P) : List Char := l.key ++ '=' :: l.val

/-- A valid set request. -/
structure RequestText (P : Parsers) where
  settings : List (SettingText P)
  sections : List (SectionText P)

namespace RequestText

variable (req : RequestText P)

/-- What comes before the empty line at the end. -/
def body : List (List Char) :=
  req.settings.map SettingText.line ++ req.sections.flatMap SectionText.lines

def lines : List (List Char) := "set=1".toList :: (req.body ++ [[]])

def text : List Char := Text.unlines req.lines

/-- A line of a section says so. -/
def Says (directive : Directive) : Prop :=
  ∃ t ∈ req.sections, ∃ l ∈ t.body, l.directive = directive

/-- Every variable of the section is the value of a line of the request. -/
structure HasSection (s : PeerSection) : Prop where
  publicKey : ∃ t ∈ req.sections, t.pubKey = s.publicKey
  endpoint : ∀ addr, s.endpoint = some addr → req.Says (.endpoint addr)
  keepalive : ∀ interval, s.keepalive = some interval →
    req.Says (.persistentKeepaliveInterval interval)
  presharedKey : ∀ key, s.presharedKey = some key → req.Says (.presharedKey key)
  allowedIps : ∀ ip ∈ s.allowedIps, req.Says (.allowedIp ip)

/-- What is committed is the value of a line of the request. -/
def Has : Commit → Prop
  | .privateKey key => ∃ l ∈ req.settings, l.setting = .privateKey key
  | .listenPort port => ∃ l ∈ req.settings, l.setting = .listenPort port
  | .fwmark _ => True
  | .clearPeers => True
  | .peer s => req.HasSection s

/-- The sections of which the next line is among the first `n` lines of the sections. -/
def closedIn : List (SectionText P) → ℕ → ℕ
  | [], _ => 0
  | t :: ts, n => if t.lines.length < n then closedIn ts (n - t.lines.length) + 1 else 0

end RequestText

def Commit.isPeer : Commit → Bool
  | .peer _ => true
  | _ => false

/-! ## A connection -/

section Connection

variable {C : Prims} {T : Type → Type} [Table T IpNetwork IpAddr]

/-- What a connection asks for: with another first line nothing is set. -/
def askedBy (P : Parsers) (reader : Text.Reader) : List (Option Commit) :=
  match reader.commands with
  | cmd :: cmds => if cmd = "set=1".toList then (decode P .settings cmds).1 else []
  | [] => []

/-- The handler of the API socket, and the device after it; `errno` goes to the other side. -/
def apiHandler (P : Parsers) (S : Sockets C T) (seeds : ℕ → TunnSeed) (d : Device C T)
    (reader : Text.Reader) : Option (Device C T) :=
  match reader.commands with
  | cmd :: cmds =>
    if cmd = "set=1".toList then (apiSetLines P S seeds d cmds).map Prod.fst else some d
  | [] => some d

/-- **The commits of a connection** are all that it does to the device. -/
theorem apiHandler_eq (S : Sockets C T) (seeds : ℕ → TunnSeed) (d : Device C T)
    (reader : Text.Reader) : ∃ ending : Option Status,
      apiHandler P S seeds d reader =
        (carryOut S seeds d ending (askedBy P reader)).map Prod.fst := by
  rw [apiHandler, askedBy]
  split
  · next cmd cmds _ =>
    split_ifs
    · exact ⟨(decode P .settings cmds).2, by rw [apiSetLines_eq]⟩
    · exact ⟨some .ok, rfl⟩
  · exact ⟨some .ok, rfl⟩

end Connection

/-! ## What the complete lines commit -/

section Reads

variable {req : RequestText P}

theorem notMem_settingKey {key val : List Char} {setting : Setting}
    (h : parseSetting P key val = some (some setting)) :
    '\n' ∉ key ∧ '=' ∉ key ∧ key ≠ "public_key".toList := by
  rw [parseSetting] at h
  split_ifs at h with h₁ h₂ h₃ h₄
  · rw [h₁]; decide
  · rw [h₂]; decide
  · rw [h₃]; decide
  · rw [h₄]; decide
  · exact absurd (Option.some.inj h) (Option.some_ne_none setting).symm

theorem SettingText.newline_notMem (l : SettingText P) : '\n' ∉ l.line := by
  intro hmem
  obtain hmem | hmem := List.mem_append.mp hmem
  · exact (notMem_settingKey l.parses).1 hmem
  · obtain heq | hmem := List.mem_cons.mp hmem
    · exact absurd heq (by decide)
    · exact l.no_newline hmem

theorem RequestText.newline_notMem (req : RequestText P) : ∀ line ∈ req.lines, '\n' ∉ line := by
  intro line hline
  obtain rfl | hline := List.mem_cons.mp hline
  · decide
  obtain hbody | hend := List.mem_append.mp hline
  · obtain hsetting | hsection := List.mem_append.mp hbody
    · obtain ⟨l, -, rfl⟩ := List.mem_map.mp hsetting
      exact l.newline_notMem
    · obtain ⟨t, -, ht⟩ := List.mem_flatMap.mp hsection
      exact t.newline_notMem line ht
  · rw [List.mem_singleton.mp hend]
    exact List.not_mem_nil

theorem readLine_setting (l : SettingText P) :
    readLine P .settings l.line = .next l.setting.commit .settings := by
  obtain ⟨-, hsep, hkey⟩ := notMem_settingKey l.parses
  have hne : l.line ≠ [] := by simp [SettingText.line]
  rw [readLine, if_neg hne, SettingText.line, Text.splitOnce_append hsep]
  dsimp only
  rw [if_neg hkey, l.parses, Reading.ofValue]

theorem readLine_first (t : SectionText P) :
    readLine P .settings t.keyLine = .next none (.peer (.new t.pubKey)) := by
  rw [readLine, if_neg t.keyLine_ne_nil, t.splitOnce_keyLine]
  dsimp only
  rw [if_pos rfl, t.parses, Reading.ofValue]

theorem readLine_next (t : SectionText P) (s : PeerSection) :
    readLine P (.peer s) t.keyLine =
      .next (some (.peer s)) (.peer { s with publicKey := t.pubKey, allowedIps := [] }) := by
  rw [readLine, if_neg t.keyLine_ne_nil, t.splitOnce_keyLine]
  dsimp only
  rw [if_pos rfl, t.parses, Reading.ofValue]

theorem readLine_directive (l : DirectiveText P) (s : PeerSection) :
    readLine P (.peer s) l.line = .next none (.peer (s.set l.directive)) := by
  obtain ⟨-, hsep, hkey⟩ := newline_notMem_key l.parses
  have hne : l.line ≠ [] := by simp [DirectiveText.line]
  rw [readLine, if_neg hne, DirectiveText.line, Text.splitOnce_append hsep]
  dsimp only
  rw [if_neg hkey, l.parses, Reading.ofValue]

theorem reads_settings (ls : List (SettingText P)) :
    reads P .settings (ls.map SettingText.line) =
      some (ls.map fun l => l.setting.commit, .settings) := by
  induction ls with
  | nil => rfl
  | cons l ls ih => exact reads_cons (readLine_setting l) ih

theorem reads_body (ls : List (DirectiveText P)) (s : PeerSection) :
    reads P (.peer s) (ls.map DirectiveText.line) =
      some (ls.map fun _ => none, .peer ((ls.map DirectiveText.directive).foldl .set s)) := by
  induction ls generalizing s with
  | nil => rfl
  | cons l ls ih => exact reads_cons (readLine_directive l s) (ih _)

theorem RequestText.HasSection.set {s : PeerSection} (h : req.HasSection s) {l : Directive}
    (hsaid : req.Says l) : req.HasSection (s.set l) := by
  obtain ⟨hkey, hendpoint, hkeepalive, hpsk, hips⟩ := h
  cases l with
  | remove | replaceAllowedIps | protocolVersion =>
    exact ⟨hkey, hendpoint, hkeepalive, hpsk, hips⟩
  | presharedKey key =>
    refine ⟨hkey, hendpoint, hkeepalive, fun _ heq => ?_, hips⟩
    cases heq
    exact hsaid
  | endpoint addr =>
    refine ⟨hkey, fun _ heq => ?_, hkeepalive, hpsk, hips⟩
    cases heq
    exact hsaid
  | persistentKeepaliveInterval interval =>
    refine ⟨hkey, hendpoint, fun _ heq => ?_, hpsk, hips⟩
    cases heq
    exact hsaid
  | allowedIp ip =>
    refine ⟨hkey, hendpoint, hkeepalive, hpsk, fun ip' hmem => ?_⟩
    obtain hmem | hmem := List.mem_append.mp hmem
    · exact hips ip' hmem
    · rw [List.mem_singleton.mp hmem]
      exact hsaid

theorem RequestText.HasSection.foldl {s : PeerSection} (h : req.HasSection s)
    (ls : List (DirectiveText P)) (hsaid : ∀ l ∈ ls, req.Says l.directive) :
    req.HasSection ((ls.map DirectiveText.directive).foldl .set s) := by
  induction ls generalizing s with
  | nil => exact h
  | cons l ls ih =>
    exact ih (h.set (hsaid l List.mem_cons_self)) fun k hk => hsaid k (List.mem_cons_of_mem _ hk)

/-- A new section, from the variables that are left. -/
theorem RequestText.HasSection.next {s : PeerSection} (h : req.HasSection s) {t : SectionText P}
    (ht : t ∈ req.sections) :
    req.HasSection { s with publicKey := t.pubKey, allowedIps := [] } :=
  ⟨⟨t, ht, rfl⟩, h.endpoint, h.keepalive, h.presharedKey, nofun⟩

theorem RequestText.hasSection_new {t : SectionText P} (ht : t ∈ req.sections) :
    req.HasSection (.new t.pubKey) :=
  ⟨⟨t, ht, rfl⟩, nofun, nofun, nofun, nofun⟩

/-- The first lines of a section commit nothing. -/
theorem reads_within {body : List (DirectiveText P)} {s : PeerSection} (hs : req.HasSection s)
    (hbody : ∀ l ∈ body, req.Says l.directive) {n : ℕ} (hn : n ≤ body.length)
    (rest : List (List Char)) :
    ∃ cs s', reads P (.peer s) ((body.map DirectiveText.line ++ rest).take n) =
      some (cs, .peer s') ∧ req.HasSection s' ∧ cs.reduceOption = [] := by
  refine ⟨(body.take n).map fun _ => none, _, ?_,
    hs.foldl (body.take n) fun l hl => hbody l (List.mem_of_mem_take hl), ?_⟩
  · rw [List.take_append_of_le_length (by rwa [List.length_map]), ← List.map_take, reads_body]
  · rw [List.map_const', List.reduceOption_replicate_none]

theorem closedIn_zero (ts : List (SectionText P)) : RequestText.closedIn ts 0 = 0 := by
  cases ts with
  | nil => rfl
  | cons t ts => exact if_neg (Nat.not_lt_zero _)

theorem closedIn_succ (t : SectionText P) (ts : List (SectionText P)) (n : ℕ) :
    RequestText.closedIn (t :: ts) (n + 1) =
      if t.body.length < n then RequestText.closedIn ts (n - t.body.length) + 1 else 0 := by
  simp only [RequestText.closedIn, SectionText.lines, List.length_cons, List.length_map,
    Nat.add_lt_add_iff_right, Nat.add_sub_add_right]

theorem take_add_succ {α : Type*} (ls : List α) (a : α) (rest : List α) (m : ℕ) :
    (ls ++ a :: rest).take (ls.length + m + 1) = ls ++ a :: rest.take m := by
  have hsub : ls.length + m + 1 - ls.length = m + 1 := by omega
  rw [List.take_append, hsub, List.take_of_length_le (by omega), List.take_succ_cons]

/-- The first lines of sections, from within one: a section is committed when the next begins. -/
theorem reads_sections {body : List (DirectiveText P)} {ts : List (SectionText P)}
    {s : PeerSection} {n : ℕ} (hs : req.HasSection s) (hbody : ∀ l ∈ body, req.Says l.directive)
    (hts : ∀ t ∈ ts, t ∈ req.sections)
    (hn : n ≤ body.length + (ts.flatMap SectionText.lines).length) :
    ∃ cs s', reads P (.peer s)
        ((body.map DirectiveText.line ++ ts.flatMap SectionText.lines).take n) =
        some (cs, .peer s') ∧ (∀ c ∈ cs.reduceOption, req.Has c) ∧
      cs.reduceOption.countP Commit.isPeer =
        if body.length < n then RequestText.closedIn ts (n - body.length) + 1 else 0 := by
  induction ts generalizing body s n with
  | nil =>
    rw [List.flatMap_nil, List.length_nil, Nat.add_zero] at hn
    obtain ⟨cs, s', hreads, -, hnone⟩ := reads_within hs hbody hn []
    refine ⟨cs, s', hreads, ?_, ?_⟩
    · rw [hnone]
      nofun
    · rw [hnone, if_neg (not_lt.mpr hn)]
      rfl
  | cons t ts ih =>
    by_cases hlt : body.length < n
    · obtain ⟨m, rfl⟩ := Nat.exists_eq_add_of_lt hlt
      have ht := hts t List.mem_cons_self
      rw [List.flatMap_cons, List.length_append, SectionText.lines, List.length_cons,
        List.length_map] at hn
      have hfull := hs.foldl body hbody
      obtain ⟨cs, s', hreads, hhas, hcount⟩ := ih (n := m) (hfull.next ht)
        (fun l hl => ⟨t, ht, l, hl, rfl⟩) (fun u hu => hts u (List.mem_cons_of_mem _ hu)) (by omega)
      -- the body, then the first line of the next section, then the lines after it
      have hall := reads_append (reads_body body s) (reads_cons (readLine_next t _) hreads)
      have hlines := take_add_succ (body.map DirectiveText.line) t.keyLine
        (t.body.map DirectiveText.line ++ ts.flatMap SectionText.lines) m
      rw [List.length_map] at hlines
      rw [← hlines] at hall
      refine ⟨_, s', hall, ?_⟩
      rw [List.reduceOption_append, List.map_const', List.reduceOption_replicate_none,
        List.nil_append, List.reduceOption_cons_of_some]
      refine ⟨fun c hc => ?_, ?_⟩
      · obtain rfl | hc := List.mem_cons.mp hc
        · exact hfull
        · exact hhas c hc
      · have hsub : body.length + m + 1 - body.length = m + 1 := by omega
        rw [List.countP_cons_of_pos rfl, hcount, if_pos hlt, hsub, closedIn_succ]
    · obtain ⟨cs, s', hreads, -, hnone⟩ := reads_within hs hbody (not_lt.mp hlt) _
      refine ⟨cs, s', hreads, ?_, ?_⟩
      · rw [hnone]
        nofun
      · rw [hnone, if_neg hlt]
        rfl

theorem has_commit {l : SettingText P} (hl : l ∈ req.settings) {c : Commit}
    (h : l.setting.commit = some c) : req.Has c ∧ c.isPeer = false := by
  rcases hsetting : l.setting with key | port | mark | _ | _ <;> rw [hsetting] at h <;> cases h
  · exact ⟨⟨l, hl, hsetting⟩, rfl⟩
  · exact ⟨⟨l, hl, hsetting⟩, rfl⟩
  · exact ⟨trivial, rfl⟩
  · exact ⟨trivial, rfl⟩

theorem has_settings (req : RequestText P) {ls : List (SettingText P)}
    (hls : ∀ l ∈ ls, l ∈ req.settings) :
    (∀ c ∈ (ls.map fun l => l.setting.commit).reduceOption, req.Has c) ∧
      (ls.map fun l => l.setting.commit).reduceOption.countP Commit.isPeer = 0 := by
  have hmem : ∀ c ∈ (ls.map fun l => l.setting.commit).reduceOption,
      req.Has c ∧ c.isPeer = false := by
    intro c hc
    obtain ⟨l, hl, hcommit⟩ := List.mem_map.mp (List.reduceOption_mem_iff.mp hc)
    exact has_commit (hls l hl) hcommit
  refine ⟨fun c hc => (hmem c hc).1, List.countP_eq_zero.mpr fun c hc => ?_⟩
  rw [(hmem c hc).2]
  exact Bool.false_ne_true

/-- **What complete lines commit**: values of the request, and the sections that are closed. -/
theorem reads_lines (req : RequestText P) {n : ℕ} (hn : n ≤ req.body.length) :
    ∃ cs mode, reads P .settings (req.body.take n) = some (cs, mode) ∧
      (∀ c ∈ cs.reduceOption, req.Has c) ∧ cs.reduceOption.countP Commit.isPeer =
        RequestText.closedIn req.sections (n - req.settings.length) ∧
      (n ≤ req.settings.length ∧ mode = .settings ∨
        req.settings.length < n ∧ ∃ s, mode = .peer s) := by
  by_cases hle : n ≤ req.settings.length
  · obtain ⟨hhas, hcount⟩ := has_settings req
      fun l (hl : l ∈ req.settings.take n) => List.mem_of_mem_take hl
    refine ⟨_, _, ?_, hhas, ?_, Or.inl ⟨hle, rfl⟩⟩
    · rw [RequestText.body, List.take_append_of_le_length (by rwa [List.length_map]),
        ← List.map_take, reads_settings]
    · rw [hcount, Nat.sub_eq_zero_of_le hle, closedIn_zero]
  · have hlt := not_le.mp hle
    obtain ⟨m, rfl⟩ := Nat.exists_eq_add_of_lt hlt
    obtain ⟨hhas, hcount⟩ := has_settings req fun l (hl : l ∈ req.settings) => hl
    rw [RequestText.body, List.length_append, List.length_map] at hn
    rcases hsections : req.sections with _ | ⟨t, ts⟩
    · rw [hsections, List.flatMap_nil, List.length_nil] at hn
      omega
    · have ht : t ∈ req.sections := hsections ▸ List.mem_cons_self
      rw [hsections, List.flatMap_cons, List.length_append, SectionText.lines, List.length_cons,
        List.length_map] at hn
      obtain ⟨cs, s', hreads, hhas', hcount'⟩ := reads_sections (n := m) (req.hasSection_new ht)
        (fun l hl => ⟨t, ht, l, hl, rfl⟩)
        (fun u hu => hsections ▸ List.mem_cons_of_mem _ hu) (by omega)
      have hall := reads_append (reads_settings req.settings) (reads_cons (readLine_first t) hreads)
      have hlines := take_add_succ (req.settings.map SettingText.line) t.keyLine
        (t.body.map DirectiveText.line ++ ts.flatMap SectionText.lines) m
      rw [List.length_map] at hlines
      have hbody : req.body = req.settings.map SettingText.line ++ t.keyLine ::
          (t.body.map DirectiveText.line ++ ts.flatMap SectionText.lines) := by
        rw [RequestText.body, hsections]
        rfl
      rw [← hlines, ← hbody] at hall
      refine ⟨_, _, hall, ?_, ?_, Or.inr ⟨hlt, s', rfl⟩⟩
      · rw [List.reduceOption_append, List.reduceOption_cons_of_none]
        exact fun c hc => (List.mem_append.mp hc).elim (hhas c) (hhas' c)
      · have hsub : req.settings.length + m + 1 - req.settings.length = m + 1 := by omega
        rw [List.reduceOption_append, List.reduceOption_cons_of_none, List.countP_append, hcount,
          hcount', hsub, closedIn_succ, Nat.zero_add]

end Reads

/-! ## What the unfinished line commits -/

section Rest

variable {req : RequestText P} {cmd : List Char} {rest : List (List Char)}

/-- The line sets nothing but a private key or a port that the request has. -/
def HarmlessSetting (req : RequestText P) (cmd : List Char) : Prop :=
  ∀ key val, Text.splitOnce '=' cmd = some (key, val) →
    (key = "public_key".toList → ∀ publicKey, KeyBytes.fromStr P val ≠ some (some publicKey)) ∧
    (key = "private_key".toList → ∀ privateKey, KeyBytes.fromStr P val = some (some privateKey) →
      req.Has (.privateKey privateKey)) ∧
    (key = "listen_port".toList → ∀ port, parseUnsigned 65535 val = some port →
      req.Has (.listenPort port))

/-- The line is refused within a section, before the section is committed. -/
def HarmlessDirective (P : Parsers) (cmd : List Char) : Prop :=
  cmd ≠ [] ∧ ∀ key val, Text.splitOnce '=' cmd = some (key, val) →
    key ≠ "public_key".toList ∧ ∀ directive, parseDirective P key val ≠ some (some directive)

/-- Only values of the request are committed, and no section. -/
def Fine (req : RequestText P) (cs : List (Option Commit)) : Prop :=
  ∀ c ∈ cs.reduceOption, req.Has c ∧ c.isPeer = false

/-- What is committed first is a section, or a value that the request does not have. -/
def Spoiled (req : RequestText P) (cs : List (Option Commit)) : Prop :=
  ∃ c cs', cs.reduceOption = c :: cs' ∧ (c.isPeer = true ∨ ¬req.Has c)

theorem fine_none : Fine req [none] := nofun

theorem splitOnce_nil : Text.splitOnce '=' [] = none := rfl

theorem parseSetting_cases {key val : List Char} {setting : Setting}
    (h : parseSetting P key val = some (some setting)) :
    (∃ k, key = "private_key".toList ∧ KeyBytes.fromStr P val = some (some k) ∧
        setting = .privateKey k) ∨
      (∃ port, key = "listen_port".toList ∧ parseUnsigned 65535 val = some port ∧
        setting = .listenPort port) ∨
      (∃ mark, key = "fwmark".toList ∧ setting = .fwmark mark) ∨
      ∃ b, key = "replace_peers".toList ∧ setting = .replacePeers b := by
  rw [parseSetting] at h
  split_ifs at h with h₁ h₂ h₃ h₄
  · obtain ⟨value, hvalue, heq⟩ := Option.map_eq_some_iff.mp h
    obtain ⟨k, rfl, rfl⟩ := Option.map_eq_some_iff.mp heq
    exact Or.inl ⟨k, h₁, hvalue, rfl⟩
  · obtain ⟨port, hport, rfl⟩ := Option.map_eq_some_iff.mp (Option.some.inj h)
    exact Or.inr (Or.inl ⟨port, h₂, hport, rfl⟩)
  · obtain ⟨mark, hmark, rfl⟩ := Option.map_eq_some_iff.mp (Option.some.inj h)
    exact Or.inr (Or.inr (Or.inl ⟨mark, h₃, rfl⟩))
  · obtain ⟨b, hb, rfl⟩ := Option.map_eq_some_iff.mp (Option.some.inj h)
    exact Or.inr (Or.inr (Or.inr ⟨b, h₄, rfl⟩))
  · exact absurd (Option.some.inj h) (Option.some_ne_none setting).symm

theorem harmlessSetting_iff (req : RequestText P) {key val : List Char}
    (hsplit : Text.splitOnce '=' cmd = some (key, val)) : HarmlessSetting req cmd ↔
      (key = "public_key".toList → ∀ publicKey, KeyBytes.fromStr P val ≠ some (some publicKey)) ∧
      (key = "private_key".toList → ∀ privateKey,
        KeyBytes.fromStr P val = some (some privateKey) → req.Has (.privateKey privateKey)) ∧
      (key = "listen_port".toList → ∀ port, parseUnsigned 65535 val = some port →
        req.Has (.listenPort port)) := by
  refine ⟨fun h => h key val hsplit, fun h key' val' hsplit' => ?_⟩
  rw [hsplit] at hsplit'
  cases hsplit'
  exact h

/-- A line whose value is refused is harmless. -/
theorem harmlessSetting_of_refused {key val : List Char}
    (hsplit : Text.splitOnce '=' cmd = some (key, val))
    (hpublic : key = "public_key".toList → ∀ publicKey,
      KeyBytes.fromStr P val ≠ some (some publicKey))
    (hsetting : ∀ setting, parseSetting P key val ≠ some (some setting)) :
    HarmlessSetting req cmd := by
  refine (harmlessSetting_iff req hsplit).mpr ⟨hpublic, fun hkey k hk => ?_, fun hkey port hport => ?_⟩
  · refine absurd ?_ (hsetting (.privateKey k))
    rw [parseSetting, if_pos hkey, hk, Option.map_some, Option.map_some]
  · have hne : key ≠ "private_key".toList := by
      rw [hkey]
      decide
    refine absurd ?_ (hsetting (.listenPort port))
    rw [parseSetting, if_neg hne, if_pos hkey, hport, Option.map_some]

/-- A setting that is read from the unfinished line. -/
theorem harmlessSetting_or {key val : List Char} {setting : Setting}
    (hsplit : Text.splitOnce '=' cmd = some (key, val))
    (h : parseSetting P key val = some (some setting)) :
    HarmlessSetting req cmd ∧ Fine req [setting.commit, none] ∨
      ¬HarmlessSetting req cmd ∧ Spoiled req [setting.commit, none] := by
  have hpublic := (notMem_settingKey h).2.2
  have hiff := harmlessSetting_iff req hsplit
  obtain ⟨k, rfl, hk, rfl⟩ | ⟨port, rfl, hport, rfl⟩ | ⟨mark, rfl, rfl⟩ | ⟨b, rfl, rfl⟩ :=
    parseSetting_cases h
  · by_cases hhas : req.Has (.privateKey k)
    · refine Or.inl ⟨hiff.mpr ⟨fun heq => absurd heq hpublic, fun _ k' hk' => ?_,
        fun heq => absurd heq (by decide)⟩, fun c hc => ?_⟩
      · rw [hk] at hk'
        cases hk'
        exact hhas
      · rw [List.mem_singleton.mp hc]
        exact ⟨hhas, rfl⟩
    · exact Or.inr ⟨fun hharmless => hhas ((hiff.mp hharmless).2.1 rfl k hk),
        _, [], rfl, Or.inr hhas⟩
  · by_cases hhas : req.Has (.listenPort port)
    · refine Or.inl ⟨hiff.mpr ⟨fun heq => absurd heq hpublic, fun heq => absurd heq (by decide),
        fun _ port' hport' => ?_⟩, fun c hc => ?_⟩
      · rw [hport] at hport'
        cases hport'
        exact hhas
      · rw [List.mem_singleton.mp hc]
        exact ⟨hhas, rfl⟩
    · exact Or.inr ⟨fun hharmless => hhas ((hiff.mp hharmless).2.2 rfl port hport),
        _, [], rfl, Or.inr hhas⟩
  · refine Or.inl ⟨hiff.mpr ⟨fun heq => absurd heq hpublic, fun heq => absurd heq (by decide),
      fun heq => absurd heq (by decide)⟩, fun c hc => ?_⟩
    rw [List.mem_singleton.mp hc]
    exact ⟨trivial, rfl⟩
  · refine Or.inl ⟨hiff.mpr ⟨fun heq => absurd heq hpublic, fun heq => absurd heq (by decide),
      fun heq => absurd heq (by decide)⟩, fun c hc => ?_⟩
    cases b with
    | false => cases hc
    | true =>
      rw [List.mem_singleton.mp hc]
      exact ⟨trivial, rfl⟩

/-- **Before the first section.** -/
theorem decode_settings_rest (hrest : cmd ≠ [] → rest = [[]]) :
    HarmlessSetting req cmd ∧ Fine req (decode P .settings (cmd :: rest)).1 ∨
      ¬HarmlessSetting req cmd ∧ Spoiled req (decode P .settings (cmd :: rest)).1 := by
  rw [decode, readLine]
  by_cases hempty : cmd = []
  · rw [if_pos hempty]
    refine Or.inl ⟨fun key val hsplit => ?_, fine_none⟩
    rw [hempty, splitOnce_nil] at hsplit
    cases hsplit
  rw [if_neg hempty, hrest hempty]
  rcases hsplit : Text.splitOnce '=' cmd with _ | ⟨key, val⟩
  · refine Or.inl ⟨fun key val h => ?_, fine_none⟩
    rw [hsplit] at h
    cases h
  dsimp only
  by_cases hkey : key = "public_key".toList
  · have hsetting : ∀ setting, parseSetting P key val ≠ some (some setting) :=
      fun setting h => (notMem_settingKey h).2.2 hkey
    rw [if_pos hkey]
    rcases hvalue : KeyBytes.fromStr P val with _ | _ | publicKey
    · refine Or.inl ⟨harmlessSetting_of_refused hsplit (fun _ k => ?_) hsetting, fine_none⟩
      rw [hvalue]
      exact fun heq => by cases heq
    · refine Or.inl ⟨harmlessSetting_of_refused hsplit (fun _ k => ?_) hsetting, fine_none⟩
      rw [hvalue]
      exact fun heq => by cases heq
    · exact Or.inr ⟨fun h => (h key val hsplit).1 hkey publicKey hvalue, _, [], rfl, Or.inl rfl⟩
  · rw [if_neg hkey]
    rcases hvalue : parseSetting P key val with _ | _ | setting
    · refine Or.inl ⟨harmlessSetting_of_refused hsplit (fun heq => absurd heq hkey) fun k => ?_,
        fine_none⟩
      rw [hvalue]
      exact fun heq => by cases heq
    · refine Or.inl ⟨harmlessSetting_of_refused hsplit (fun heq => absurd heq hkey) fun k => ?_,
        fine_none⟩
      rw [hvalue]
      exact fun heq => by cases heq
    · exact harmlessSetting_or hsplit hvalue

/-- **Within a section**: what is not refused commits the section. -/
theorem decode_peer_rest (s : PeerSection) (hrest : cmd ≠ [] → rest = [[]]) :
    HarmlessDirective P cmd ∧ Fine req (decode P (.peer s) (cmd :: rest)).1 ∨
      ¬HarmlessDirective P cmd ∧ Spoiled req (decode P (.peer s) (cmd :: rest)).1 := by
  rw [decode, readLine]
  by_cases hempty : cmd = []
  · rw [if_pos hempty]
    exact Or.inr ⟨fun h => h.1 hempty, _, [], rfl, Or.inl rfl⟩
  rw [if_neg hempty, hrest hempty]
  rcases hsplit : Text.splitOnce '=' cmd with _ | ⟨key, val⟩
  · refine Or.inl ⟨⟨hempty, fun key val h => ?_⟩, fine_none⟩
    rw [hsplit] at h
    cases h
  dsimp only
  have hiff : HarmlessDirective P cmd ↔
      key ≠ "public_key".toList ∧
        ∀ directive, parseDirective P key val ≠ some (some directive) := by
    refine ⟨fun h => h.2 key val hsplit, fun h => ⟨hempty, fun key' val' hsplit' => ?_⟩⟩
    rw [hsplit] at hsplit'
    cases hsplit'
    exact h
  by_cases hkey : key = "public_key".toList
  · rw [if_pos hkey]
    refine Or.inr ⟨fun h => (hiff.mp h).1 hkey, ?_⟩
    rcases KeyBytes.fromStr P val with _ | _ | publicKey
    · exact ⟨_, [], rfl, Or.inl rfl⟩
    · exact ⟨_, [], rfl, Or.inl rfl⟩
    · exact ⟨_, _, rfl, Or.inl rfl⟩
  · rw [if_neg hkey]
    rcases hvalue : parseDirective P key val with _ | _ | directive
    · refine Or.inl ⟨hiff.mpr ⟨hkey, fun directive => ?_⟩, fine_none⟩
      rw [hvalue]
      exact fun heq => by cases heq
    · refine Or.inl ⟨hiff.mpr ⟨hkey, fun directive => ?_⟩, fine_none⟩
      rw [hvalue]
      exact fun heq => by cases heq
    · exact Or.inr ⟨fun h => (hiff.mp h).2 directive hvalue, _, [], rfl, Or.inl rfl⟩

end Rest

/-! ## The connection is closed -/

namespace RequestText

/-- The lines that are received with their newlines. -/
def complete (reader : Text.Reader) : ℕ := reader.text.count '\n'

/-- The line that is not, as it is read. -/
def lastLine (reader : Text.Reader) : List Char := (Text.unfinished reader.text).dropLast

/-- The unfinished line is not read, or it is refused, or it says what the request says. -/
def Harmless (req : RequestText P) (reader : Text.Reader) : Prop :=
  reader.failing = true ∨ complete reader = 0 ∨
    if complete reader - 1 ≤ req.settings.length then HarmlessSetting req (lastLine reader)
    else HarmlessDirective P (lastLine reader)

/-- Nothing is committed but values of the request, and sections whose next line is received. -/
structure Unaltered (req : RequestText P) (reader : Text.Reader) (cs : List Commit) : Prop where
  values : ∀ c ∈ cs, req.Has c
  sections : cs.countP Commit.isPeer ≤
    closedIn req.sections (complete reader - 1 - req.settings.length)

end RequestText

section Truncated

open RequestText (complete lastLine)

variable {req : RequestText P}

theorem reads_length {mode mode' : Mode} {ls : List (List Char)} {cs : List (Option Commit)}
    (h : reads P mode ls = some (cs, mode')) : cs.length = ls.length := by
  induction ls generalizing mode cs with
  | nil =>
    cases h
    rfl
  | cons line ls ih =>
    rw [reads] at h
    split at h
    · obtain ⟨⟨cs₁, mode₂⟩, hrest, heq⟩ := Option.map_eq_some_iff.mp h
      cases heq
      rw [List.length_cons, List.length_cons, ih hrest]
    · cases h

/-- The beginning of the first line is no command. -/
theorem dropLast_ne_of_prefix {rest line : List Char} (h : rest <+: line) (hne : line ≠ []) :
    rest.dropLast ≠ line := by
  intro heq
  have hle := h.length_le
  have hlength := congrArg List.length heq
  have hpos := List.length_pos_iff.mpr hne
  rw [List.length_dropLast] at hlength
  omega

/-- **What a connection that is closed asks for**: what the complete lines say, and what the
unfinished line does. -/
theorem askedBy_cut (req : RequestText P) {n : ℕ} (hn : n < Text.byteLength req.text) :
    ∃ cs tail, askedBy P (Text.cut n req.text) = cs ++ tail ∧
      cs.length = complete (Text.cut n req.text) - 1 ∧
      (∀ c ∈ cs.reduceOption, req.Has c) ∧
      cs.reduceOption.countP Commit.isPeer = RequestText.closedIn req.sections
        (complete (Text.cut n req.text) - 1 - req.settings.length) ∧
      (req.Harmless (Text.cut n req.text) ∧ Fine req tail ∨
        ¬req.Harmless (Text.cut n req.text) ∧ Spoiled req tail) := by
  obtain ⟨k, hk, rest, htext, hrest⟩ :=
    Text.exists_of_prefix_unlines (Text.cut_prefix n req.text) (Text.cut_ne hn)
  have hlines : ∀ line ∈ req.lines.take k, '\n' ∉ line :=
    fun line hline => req.newline_notMem line (List.mem_of_mem_take hline)
  have hnewline : '\n' ∉ rest :=
    fun hmem => req.newline_notMem _ (List.getElem_mem hk) (hrest.subset hmem)
  generalize Text.cut n req.text = reader at htext ⊢
  obtain ⟨text, failing⟩ := reader
  subst htext
  have hcomplete : complete ⟨Text.unlines (req.lines.take k) ++ rest, failing⟩ = k := by
    rw [complete, Text.count_unlines hlines hnewline, List.length_take,
      Nat.min_eq_left hk.le]
  have hlast : lastLine ⟨Text.unlines (req.lines.take k) ++ rest, failing⟩ = rest.dropLast := by
    rw [lastLine, Text.unfinished_unlines _ hnewline]
  rw [RequestText.Harmless, askedBy, Text.Reader.commands_lines rest hlines,
    Text.Reader.commands_unfinished hnewline, hcomplete, hlast]
  rcases k with _ | k
  · refine ⟨[], [], ?_, rfl, nofun, ?_, Or.inl ⟨Or.inr (Or.inl rfl), nofun⟩⟩
    · have hfirst : rest.dropLast ≠ "set=1".toList := dropLast_ne_of_prefix hrest (by decide)
      rw [List.take_zero, List.nil_append]
      cases failing with
      | true => rfl
      | false =>
        rw [if_neg Bool.false_ne_true]
        split_ifs with hempty
        · rfl
        · dsimp only
          rw [if_neg hfirst]
          rfl
    · rw [Nat.zero_sub, closedIn_zero]
      rfl
  · have hle : k ≤ req.body.length := by
      rw [RequestText.lines, List.length_cons, List.length_append, List.length_singleton] at hk
      omega
    obtain ⟨cs, mode, hreads, hhas, hcount, hmode⟩ := reads_lines req hle
    have hlength := reads_length hreads
    rw [List.length_take, Nat.min_eq_left hle] at hlength
    rw [RequestText.lines, List.take_succ_cons, List.take_append_of_le_length hle,
      List.cons_append]
    dsimp only
    rw [if_pos rfl, Nat.add_sub_cancel, decode_append hreads]
    refine ⟨cs, _, rfl, hlength, hhas, hcount, ?_⟩
    cases failing with
    | true => exact Or.inl ⟨Or.inl rfl, nofun⟩
    | false =>
      have htail : (if rest = [] then [[]] else [rest.dropLast, []]) =
          rest.dropLast :: if rest = [] then [] else [[]] := by
        split_ifs with hempty
        · rw [hempty]
          rfl
        · rfl
      have hend : rest.dropLast ≠ [] → (if rest = [] then [] else [[]]) = [([] : List Char)] :=
        fun hne => if_neg fun hempty => hne (by rw [hempty]; rfl)
      have hor : ∀ p : Prop, (false = true ∨ k + 1 = 0 ∨ p) ↔ p := fun p =>
        ⟨fun h => h.elim (fun h => absurd h Bool.false_ne_true)
          fun h => h.elim (fun h => absurd h (Nat.succ_ne_zero k)) id, fun h => Or.inr (Or.inr h)⟩
      rw [if_neg Bool.false_ne_true, htail, hor]
      obtain ⟨hsettings, rfl⟩ | ⟨hsettings, s, rfl⟩ := hmode
      · rw [if_pos hsettings]
        exact decode_settings_rest hend
      · rw [if_neg (not_le.mpr hsettings)]
        exact decode_peer_rest s hend

/-! ## What the device does -/

section Fails

variable {C : Prims} {T : Type → Type} [Table T IpNetwork IpAddr] (S : Sockets C T)

/-- One of the first `m` commits fails on the device. -/
def FailsWithin : ℕ → (ℕ → TunnSeed) → Device C T → List (Option Commit) → Prop
  | 0, _, _, _ => False
  | _ + 1, _, _, [] => False
  | m + 1, seeds, d, none :: cs => FailsWithin (m + 1) (fun n => seeds (n + 1)) d cs
  | m + 1, seeds, d, some c :: cs =>
    match perform S (seeds 0) d c with
    | some (d, none) => FailsWithin m (fun n => seeds (n + 1)) d cs
    | _ => True

variable {S}

theorem length_lt_of_failsWithin {m : ℕ} {seeds : ℕ → TunnSeed} {d : Device C T}
    {cs : List (Option Commit)} (h : FailsWithin S m seeds d cs) :
    (carriedOut S seeds d cs).length < m := by
  induction cs generalizing m seeds d with
  | nil =>
    cases m with
    | zero => exact h.elim
    | succ m => exact h.elim
  | cons c cs ih =>
    cases m with
    | zero => exact h.elim
    | succ m =>
      cases c with
      | none => exact ih h
      | some c =>
        rw [FailsWithin] at h
        rw [carriedOut]
        split
        · next d' hperform =>
          rw [hperform] at h
          exact Nat.succ_lt_succ (ih h)
        · exact Nat.succ_pos m

theorem le_length_of_not_failsWithin {m : ℕ} {seeds : ℕ → TunnSeed} {d : Device C T}
    {cs : List (Option Commit)} (h : ¬FailsWithin S m seeds d cs)
    (hm : m ≤ cs.reduceOption.length) : m ≤ (carriedOut S seeds d cs).length := by
  induction cs generalizing m seeds d with
  | nil => exact hm
  | cons c cs ih =>
    cases m with
    | zero => exact Nat.zero_le _
    | succ m =>
      cases c with
      | none => exact ih h hm
      | some c =>
        rw [FailsWithin] at h
        rw [carriedOut]
        split
        · next d' hperform =>
          rw [hperform] at h
          exact Nat.succ_le_succ (ih h (Nat.le_of_succ_le_succ hm))
        · next hperform =>
          refine absurd ?_ h
          split
          · next d' heq => exact absurd heq (hperform d')
          · trivial

theorem unaltered_of_prefix {reader : Text.Reader} {cs cs' : List Commit} (h : cs <+: cs')
    (hhas : ∀ c ∈ cs', req.Has c) (hcount : cs'.countP Commit.isPeer =
      RequestText.closedIn req.sections (complete reader - 1 - req.settings.length)) :
    req.Unaltered reader cs :=
  ⟨fun c hc => hhas c (h.subset hc), hcount ▸ h.sublist.countP_le⟩

/-- The commits that the complete lines ask for. -/
def completeCommits (P : Parsers) (reader : Text.Reader) : List Commit :=
  ((askedBy P reader).take (complete reader - 1)).reduceOption

/-- **A truncated set request alters nothing** exactly when the unfinished line is harmless, or the
device fails before that line commits anything. -/
theorem truncated_unaltered_iff (req : RequestText P) {n : ℕ} (hn : n < Text.byteLength req.text)
    (S : Sockets C T) (seeds : ℕ → TunnSeed) (d : Device C T) :
    req.Unaltered (Text.cut n req.text)
        (carriedOut S seeds d (askedBy P (Text.cut n req.text))) ↔
      req.Harmless (Text.cut n req.text) ∨
        FailsWithin S ((completeCommits P (Text.cut n req.text)).length + 1) seeds d
          (askedBy P (Text.cut n req.text)) := by
  obtain ⟨cs, tail, hasked, hlength, hhas, hcount, htail⟩ := askedBy_cut req hn
  have hprefix := carriedOut_prefix S seeds d (cs ++ tail)
  rw [List.reduceOption_append] at hprefix
  rw [completeCommits, hasked, ← hlength, List.take_left]
  obtain ⟨hharmless, hfine⟩ | ⟨hharmless, c, cs', hspoiled, hc⟩ := htail
  · refine iff_of_true ?_ (Or.inl hharmless)
    refine unaltered_of_prefix hprefix (fun c hmem => ?_) ?_
    · obtain hmem | hmem := List.mem_append.mp hmem
      · exact hhas c hmem
      · exact (hfine c hmem).1
    · have hnone : tail.reduceOption.countP Commit.isPeer = 0 :=
        List.countP_eq_zero.mpr fun c hmem => by rw [(hfine c hmem).2]; exact Bool.false_ne_true
      rw [List.countP_append, hcount, hnone, Nat.add_zero]
  · rw [or_iff_right hharmless]
    have hfirst : cs.reduceOption ++ [c] <+: cs.reduceOption ++ tail.reduceOption := by
      rw [hspoiled]
      exact ⟨cs', by rw [List.append_assoc, List.singleton_append]⟩
    constructor
    · intro hunaltered
      by_contra hfails
      have hreached := le_length_of_not_failsWithin hfails (by
        rw [List.reduceOption_append, List.length_append, hspoiled, List.length_cons]
        omega)
      -- the commits of the complete lines, and the one after them, are carried out
      have hdone := List.prefix_of_prefix_length_le hfirst hprefix (by
        rwa [List.length_append, List.length_singleton])
      obtain hpeer | hnot := hc
      · have hle := hdone.sublist.countP_le (p := Commit.isPeer)
        have hclosed := hunaltered.sections
        rw [List.countP_append, hcount, List.countP_singleton, if_pos hpeer] at hle
        omega
      · exact hnot (hunaltered.values c (hdone.subset (by simp)))
    · intro hfails
      have hlt := length_lt_of_failsWithin hfails
      exact unaltered_of_prefix (List.prefix_of_prefix_length_le hprefix
        (List.prefix_append _ _) (Nat.le_of_lt_succ hlt)) hhas hcount

end Fails

end Truncated

/-! ## A port that is cut off -/

/-- `listen_port=51820` -/
def samplePort : SettingText sampleParsers where
  key := "listen_port".toList
  val := "51820".toList
  setting := .listenPort 51820
  parses := rfl
  no_newline := by decide

/-- The connection is closed within `listen_port`. -/
theorem truncated_unaltered_sample :
    8 < Text.byteLength (RequestText.text ⟨[samplePort], []⟩) ∧
      RequestText.Unaltered ⟨[samplePort], []⟩ (Text.cut 8 (RequestText.text ⟨[samplePort], []⟩))
        (carriedOut sampleSockets (fun _ => sampleSeed) sampleDevice
          (askedBy sampleParsers (Text.cut 8 (RequestText.text ⟨[samplePort], []⟩)))) := by
  have hlt : 8 < Text.byteLength (RequestText.text ⟨[samplePort], []⟩) := by decide +kernel
  refine ⟨hlt, (truncated_unaltered_iff _ hlt _ _ _).mpr (Or.inl (Or.inr (Or.inr ?_)))⟩
  rw [if_pos (by decide +kernel)]
  intro key val hsplit
  have hnone : Text.splitOnce '=' (RequestText.lastLine
      (Text.cut 8 (RequestText.text ⟨[samplePort], []⟩))) = none := by decide +kernel
  rw [hnone] at hsplit
  cases hsplit

/-- **A port is altered**: when only the newline after `listen_port=51820` is missing, the device
listens on port 5182. -/
theorem truncated_altered :
    ¬ ∀ (req : RequestText sampleParsers) (n : ℕ), n < Text.byteLength req.text →
      ∀ (seeds : ℕ → TunnSeed) (d : Device checksumPrims (PrefixMap IpNetwork)), Reached d →
        req.Unaltered (Text.cut n req.text)
          (carriedOut sampleSockets seeds d (askedBy sampleParsers (Text.cut n req.text))) := by
  intro hclaim
  obtain ⟨d, -, hd, -⟩ := exists_keyedDevice
  have hunaltered := hclaim ⟨[samplePort], []⟩ 23 (by decide +kernel) (fun _ => sampleSeed) d hd
  have hasked : askedBy sampleParsers (Text.cut 23 (RequestText.text ⟨[samplePort], []⟩)) =
      [some (.listenPort 5182), none] := by rfl
  rw [hasked] at hunaltered
  obtain ⟨l, hl, hport⟩ := hunaltered.values (.listenPort 5182) List.mem_cons_self
  rw [List.mem_singleton.mp hl] at hport
  cases hport

end NekoLink.Device
