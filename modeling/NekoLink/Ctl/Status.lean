import NekoLink.Device.ApiGet
import NekoLink.Device.Routing
import Mathlib.Data.Finset.Insert

/-!
# What the control plane reads from a device

`get_uapi_info`, `get_established_peers` and `get_actual_listen_port` of `nekolink-ctl/src/main.rs`,
on the answer of the data plane.

* `mem_establishedPeers`: which keys the set has.
* `actualListenPort_eq`: the port is read exactly in UDP mode with a port.
-/

namespace NekoLink.Ctl

open Wire Noise Device Routing Text

/-! ## The functions -/

/-- The lines that `get_uapi_info` reads from here on, each with two blanks before it, when a part
of the first one has been read. -/
def uapiInfoFrom (read : List Char) : List Char → List Char
  | [] => if read = [] then [] else ' ' :: ' ' :: read
  | c :: rest =>
    if c = '\n' then
      if read = [] then [] else ' ' :: ' ' :: (read ++ '\n' :: uapiInfoFrom [] rest)
    else uapiInfoFrom (read ++ [c]) rest

/-- `get_uapi_info` -/
def uapiInfo (response : List Char) : List Char := uapiInfoFrom [] response

/-- The time of a handshake, taken for a time on the clock, is less than 150 seconds ago. -/
def Recent (now : UInt64) (sec : ℕ) : Prop :=
  0 < sec ∧ sec < now.toNat ∧ now.toNat - sec < 150

instance (now : UInt64) (sec : ℕ) : Decidable (Recent now sec) :=
  inferInstanceAs (Decidable (_ ∧ _))

/-- A line for `get_established_peers`: the current peer, and the set. -/
def scanLine (now : UInt64) (q : List Char × Finset (List Char)) (l : List Char) :
    List Char × Finset (List Char) :=
  let l := trim l
  match stripPrefix "public_key=".toList l with
  | some key => (key, q.2)
  | none =>
    match stripPrefix "last_handshake_time_sec=".toList l with
    | some value =>
      match parseUnsigned (2 ^ 64 - 1) value with
      | some sec => if Recent now sec then (q.1, insert q.1 q.2) else q
      | none => q
    | none => q

/-- `get_established_peers`, with the seconds of the system clock. -/
def establishedPeers (now : UInt64) (info : List Char) : Finset (List Char) :=
  ((lines info).foldl (scanLine now) ([], ∅)).2

/-- The port of the first line that has one. -/
def scanPort : List (List Char) → Option UInt16
  | [] => none
  | l :: ls =>
    match stripPrefix "listen_port=".toList l with
    | some value => (parseUnsigned 65535 (trim value)).map UInt16.ofNat
    | none => scanPort ls

/-- `get_actual_listen_port` -/
def actualListenPort (response : List Char) : Option UInt16 := scanPort (lines response)

/-! ## Reading the answer -/

section

variable {ls : List (List Char)}

theorem uapiInfoFrom_append {l : List Char} (read rest : List Char) (hne : read ++ l ≠ [])
    (h : '\n' ∉ l) :
    uapiInfoFrom read (l ++ '\n' :: rest) =
      ' ' :: ' ' :: (read ++ l ++ '\n' :: uapiInfo rest) := by
  induction l generalizing read with
  | nil =>
    rw [List.append_nil] at hne
    rw [List.nil_append, uapiInfoFrom, if_pos rfl, if_neg hne, List.append_nil, uapiInfo]
  | cons c l ih =>
    have hc : c ≠ '\n' := fun heq => h (heq ▸ List.mem_cons_self)
    have hl : '\n' ∉ l := fun hmem => h (List.mem_cons_of_mem _ hmem)
    rw [List.cons_append, uapiInfoFrom, if_neg hc, ih _ (by simp) hl]
    simp

/-- What is read are the lines up to the empty one. -/
theorem uapiInfo_unlines (h : ∀ l ∈ ls, l ≠ [] ∧ '\n' ∉ l) (rest : List Char) :
    uapiInfo (unlines ls ++ '\n' :: rest) = unlines (ls.map ([' ', ' '] ++ ·)) := by
  induction ls with
  | nil => rfl
  | cons l ls ih =>
    obtain ⟨hne, hl⟩ := h l List.mem_cons_self
    have hsplit : unlines (l :: ls) ++ '\n' :: rest =
        l ++ '\n' :: (unlines ls ++ '\n' :: rest) := by simp [unlines]
    rw [hsplit, uapiInfo, uapiInfoFrom_append _ _ (by simpa using hne) hl,
      ih fun k hk => h k (List.mem_cons_of_mem _ hk)]
    simp [unlines]

end

/-- The keys of the lines of a peer. -/
def peerKeys : List String := detailKeys ++ ["public_key", "last_handshake_time_sec"]

/-- The keys of all lines. -/
def allKeys : List String := headerKeys ++ peerKeys ++ ["errno"]

theorem allKeys_spec : ∀ key ∈ allKeys, '=' ∉ key.toList ∧ Solid key.toList := by
  decide

theorem stripPrefix_line {key key' : String} (h : key ∈ allKeys) (h' : key' ∈ allKeys)
    (value : List Char) :
    stripPrefix (key.toList ++ ['=']) (line key' value) =
      if key = key' then some value else none := by
  rw [line, stripPrefix_entry (allKeys_spec key h).1 (allKeys_spec key' h').1]
  simp only [String.toList_inj]

/-- A line of the answer has no blank, and is not empty. -/
theorem solid_of_isLine {keys : List String} (hkeys : keys ⊆ allKeys) {l : List Char}
    (h : IsLine keys l) : Solid l ∧ l ≠ [] := by
  obtain ⟨key, hkey, value, hvalue, rfl⟩ := h
  refine ⟨(allKeys_spec key (hkeys hkey)).2.entry hvalue, ?_⟩
  simp [line, entry]

/-! ## The established peers -/

/-- A line as `get_uapi_info` hands it on. -/
def indent (l : List Char) : List Char := [' ', ' '] ++ l

theorem trim_indent_line {key : String} (hkey : key ∈ allKeys) {value : List Char}
    (h : Solid value) : trim (indent (line key value)) = line key value :=
  trim_indent (by decide) ((allKeys_spec key hkey).2.entry h)

theorem stripPrefix_indent {tag key key' : String} (htag : tag.toList = key.toList ++ ['='])
    (h : key ∈ allKeys) (h' : key' ∈ allKeys) {value : List Char} (hvalue : Solid value) :
    stripPrefix tag.toList (trim (indent (line key' value))) =
      if key = key' then some value else none := by
  rw [trim_indent_line h' hvalue, htag, stripPrefix_line h h']

theorem publicKey_tag : "public_key=".toList = "public_key".toList ++ ['='] := by decide

theorem lastHandshake_tag :
    "last_handshake_time_sec=".toList = "last_handshake_time_sec".toList ++ ['='] := by
  decide

variable {now : UInt64} {q : List Char × Finset (List Char)} {ls : List (List Char)}

theorem scanLine_public_key {value : List Char} (h : Solid value) :
    scanLine now q (indent (line "public_key" value)) = (value, q.2) := by
  unfold scanLine
  dsimp only
  rw [stripPrefix_indent publicKey_tag (by decide) (by decide) h, if_pos rfl]

theorem scanLine_last_handshake (sec : ℕ) :
    scanLine now q (indent (line "last_handshake_time_sec" (writeUnsigned sec))) =
      if Recent now sec then (q.1, insert q.1 q.2) else q := by
  have hsolid := solid_writeUnsigned sec
  unfold scanLine
  dsimp only
  rw [stripPrefix_indent publicKey_tag (by decide) (by decide) hsolid, if_neg (by decide),
    stripPrefix_indent lastHandshake_tag (by decide) (by decide) hsolid, if_pos rfl]
  dsimp only
  rw [parseUnsigned_writeUnsigned]
  by_cases hsec : sec ≤ 2 ^ 64 - 1
  · rw [if_pos hsec]
  · have hnow := now.toNat_lt
    have hrecent : ¬ Recent now sec := fun h => by
      have hlt := h.2.1
      omega
    rw [if_neg hsec, if_neg hrecent]

/-- The other lines are passed over. -/
theorem foldl_scanLine_of_isLine {keys : List String} (hkeys : keys ⊆ allKeys)
    (hother : "public_key" ∉ keys ∧ "last_handshake_time_sec" ∉ keys)
    (h : ∀ l ∈ ls, IsLine keys l) : (ls.map indent).foldl (scanLine now) q = q := by
  induction ls with
  | nil => rfl
  | cons l ls ih =>
    obtain ⟨key, hkey, value, hvalue, rfl⟩ := h l List.mem_cons_self
    have hpublic : "public_key" ≠ key := fun heq => hother.1 (heq ▸ hkey)
    have htime : "last_handshake_time_sec" ≠ key := fun heq => hother.2 (heq ▸ hkey)
    have hscan : scanLine now q (indent (line key value)) = q := by
      unfold scanLine
      dsimp only
      rw [stripPrefix_indent publicKey_tag (by decide) (hkeys hkey) hvalue, if_neg hpublic,
        stripPrefix_indent lastHandshake_tag (by decide) (hkeys hkey) hvalue, if_neg htime]
    rw [List.map_cons, List.foldl_cons, hscan]
    exact ih fun k hk => h k (List.mem_cons_of_mem _ hk)

section

variable {C : Prims} {T : Type → Type} [Table T IpNetwork IpAddr] {P : Printers} {time : ℕ}
  {d : Device C T} {s : Settings}

/-- The seconds that are written for a peer are taken for a recent time. -/
def SeenRecent (time : ℕ) (now : UInt64) (p : Peer C T) : Prop :=
  ∃ t, p.tunnel.timeSinceLastHandshake time = some (some t) ∧ Recent now (t / 10 ^ 9)

/-- The lines of a peer add its key, or nothing. -/
theorem foldl_scanLine_peer {k : Bytes 32} {p : Peer C T} (h : p.lines P time k = some ls)
    {key : List Char} :
    key ∈ ((ls.map indent).foldl (scanLine now) q).2 ↔
      key ∈ q.2 ∨ key = toHex k.toList ∧ SeenRecent time now p := by
  obtain ⟨t, before, after, ht, hbefore, hafter, rfl⟩ := Peer.lines_spec h
  have hdetail : detailKeys ⊆ allKeys := by decide
  have hother : "public_key" ∉ detailKeys ∧ "last_handshake_time_sec" ∉ detailKeys := by decide
  rw [List.map_cons, List.foldl_cons, scanLine_public_key (solid_toHex _), List.map_append,
    List.map_append, List.foldl_append, List.foldl_append,
    foldl_scanLine_of_isLine hdetail hother hbefore, foldl_scanLine_of_isLine hdetail hother hafter]
  cases t with
  | none =>
    have hseen : ¬ SeenRecent time now p := by
      rintro ⟨t, ht', -⟩
      rw [ht] at ht'
      cases ht'
    simp [lineOf, hseen]
  | some t =>
    have hseen : SeenRecent time now p ↔ Recent now (t / 10 ^ 9) := by
      constructor
      · rintro ⟨t', ht', hrecent⟩
        rw [ht] at ht'
        cases ht'
        exact hrecent
      · intro hrecent
        exact ⟨t, ht, hrecent⟩
    rw [lineOf, Option.map_some, Option.toList_some, List.map_cons, List.map_nil, List.foldl_cons,
      List.foldl_nil, scanLine_last_handshake, hseen]
    by_cases hrecent : Recent now (t / 10 ^ 9)
    · rw [if_pos hrecent, Finset.mem_insert, and_iff_left hrecent, or_comm]
    · rw [if_neg hrecent]
      exact ⟨.inl, fun hmem => hmem.elim id fun hboth => absurd hboth.2 hrecent⟩

/-- The lines of the peers are those of the first and those of the others. -/
theorem lines_of_mapM_cons {e : Bytes 32 × Peer C T} {es : List (Bytes 32 × Peer C T)}
    {peers : List (List (List Char))}
    (h : (e :: es).mapM (fun e : Bytes 32 × Peer C T => e.2.lines P time e.1) = some peers) :
    ∃ ls rest, e.2.lines P time e.1 = some ls ∧
      es.mapM (fun e : Bytes 32 × Peer C T => e.2.lines P time e.1) = some rest ∧
      peers = ls :: rest := by
  rw [List.mapM_cons] at h
  obtain ⟨ls, hls, hrest⟩ := Option.bind_eq_some_iff.mp h
  obtain ⟨rest, hpeers, heq⟩ := Option.bind_eq_some_iff.mp hrest
  cases heq
  exact ⟨ls, rest, hls, hpeers, rfl⟩

theorem foldl_scanLine_peers {es : List (Bytes 32 × Peer C T)} {peers : List (List (List Char))}
    (h : es.mapM (fun e : Bytes 32 × Peer C T => e.2.lines P time e.1) = some peers)
    {key : List Char} :
    key ∈ ((peers.flatten.map indent).foldl (scanLine now) q).2 ↔
      key ∈ q.2 ∨ ∃ e ∈ es, key = toHex e.1.toList ∧ SeenRecent time now e.2 := by
  induction es generalizing q peers with
  | nil =>
    cases h
    simp
  | cons e es ih =>
    obtain ⟨ls, rest, hls, hpeers, rfl⟩ := lines_of_mapM_cons h
    rw [List.flatten_cons, List.map_append, List.foldl_append, ih hpeers, foldl_scanLine_peer hls,
      or_assoc]
    simp

theorem isLine_of_mapM {es : List (Bytes 32 × Peer C T)} {peers : List (List (List Char))}
    (h : es.mapM (fun e : Bytes 32 × Peer C T => e.2.lines P time e.1) = some peers) :
    ∀ l ∈ peers.flatten, IsLine peerKeys l := by
  induction es generalizing peers with
  | nil =>
    cases h
    simp
  | cons e es ih =>
    obtain ⟨ls, rest, hls, hpeers, rfl⟩ := lines_of_mapM_cons h
    obtain ⟨t, before, after, -, hbefore, hafter, rfl⟩ := Peer.lines_spec hls
    intro l hl
    rw [List.flatten_cons, List.mem_append, List.mem_cons, List.mem_append, List.mem_append] at hl
    rcases hl with (rfl | hl | hl | hl) | hl
    · exact isLine_line (solid_toHex _) (by decide)
    · exact (hbefore l hl).mono (by decide)
    · exact isLine_lineOf (fun t => solid_writeUnsigned _) (by decide) l hl
    · exact (hafter l hl).mono (by decide)
    · exact ih hpeers l hl

theorem isLine_apiGet (h : apiGet P s time d = some ls) :
    ∀ l ∈ ls ++ [line "errno" ['0']], IsLine allKeys l := by
  obtain ⟨header, peers, hheader, hpeers, rfl, -⟩ := apiGet_spec h
  intro l hl
  rw [List.mem_append, List.mem_append, List.mem_singleton] at hl
  rcases hl with (hl | hl) | rfl
  · exact (hheader l hl).mono (by decide)
  · exact (isLine_of_mapM hpeers l hl).mono (by decide)
  · exact isLine_line (by decide) (by decide)

/-- What is read for a get request. -/
theorem lines_uapiInfo {response : List Char} (h : getResponse P s time d = some response) :
    ∃ ls, apiGet P s time d = some ls ∧
      lines (uapiInfo response) = (ls ++ [line "errno" ['0']]).map indent := by
  obtain ⟨ls, hls, rfl⟩ := Option.map_eq_some_iff.mp h
  refine ⟨ls, hls, ?_⟩
  have hline : ∀ l ∈ ls ++ [line "errno" ['0']], Solid l ∧ l ≠ [] := fun l hl =>
    solid_of_isLine (List.Subset.refl _) (isLine_apiGet hls l hl)
  rw [uapiInfo_unlines (fun l hl => ⟨(hline l hl).2, (hline l hl).1.not_mem (by decide)⟩)]
  refine lines_unlines fun l hl => ?_
  obtain ⟨k, hk, rfl⟩ := List.mem_map.mp hl
  have hsolid := (hline k hk).1
  constructor
  · have hnewline := hsolid.not_mem (c := '\n') (by decide)
    simpa using hnewline
  · have hreturn := hsolid.not_mem (c := '\r') (by decide)
    simpa using hreturn

/-- **Which keys the set has**: those of the peers whose last handshake was so many seconds ago that
the clock said this number less than 150 seconds ago. -/
theorem mem_establishedPeers {response : List Char} (h : getResponse P s time d = some response)
    {key : List Char} :
    key ∈ establishedPeers now (uapiInfo response) ↔
      ∃ e ∈ peersOf d, key = toHex e.1.toList ∧ SeenRecent time now e.2 := by
  obtain ⟨ls, hls, hlines⟩ := lines_uapiInfo h
  obtain ⟨header, peers, hheader, hpeers, rfl, -⟩ := apiGet_spec hls
  have herrno : ∀ l ∈ [line "errno" ['0']], IsLine ["errno"] l := by
    intro l hl
    rw [List.mem_singleton] at hl
    subst hl
    exact isLine_line (by decide) (by decide)
  unfold establishedPeers
  rw [hlines, List.map_append, List.foldl_append,
    foldl_scanLine_of_isLine (by decide) (by decide) herrno, List.map_append, List.foldl_append,
    foldl_scanLine_of_isLine (by decide) (by decide) hheader, foldl_scanLine_peers hpeers]
  simp

/-! ## The listen port -/

theorem listenPort_tag : "listen_port=".toList = "listen_port".toList ++ ['='] := by decide

theorem scanPort_append {keys : List String} (hkeys : keys ⊆ allKeys)
    (hother : "listen_port" ∉ keys) (h : ∀ l ∈ ls, IsLine keys l) (rest : List (List Char)) :
    scanPort (ls ++ rest) = scanPort rest := by
  induction ls with
  | nil => rfl
  | cons l ls ih =>
    obtain ⟨key, hkey, value, -, rfl⟩ := h l List.mem_cons_self
    have hne : "listen_port" ≠ key := fun heq => hother (heq ▸ hkey)
    rw [List.cons_append, scanPort, listenPort_tag, stripPrefix_line (by decide) (hkeys hkey),
      if_neg hne]
    exact ih fun k hk => h k (List.mem_cons_of_mem _ hk)

theorem scanPort_listen_port (port : UInt16) (rest : List (List Char)) :
    scanPort (line "listen_port" (writeUnsigned port.toNat) :: rest) = some port := by
  have hlt := port.toNat_lt
  rw [scanPort, listenPort_tag, stripPrefix_line (by decide) (by decide), if_pos rfl]
  dsimp only
  rw [trim_of_solid (solid_writeUnsigned _), parseUnsigned_writeUnsigned, if_pos (by omega),
    Option.map_some, UInt16.ofNat_toNat]

/-- **The port that is read** is the device's in UDP mode, and none in the other modes and when the
device has none. -/
theorem actualListenPort_eq {response : List Char} (h : getResponse P s time d = some response) :
    actualListenPort response =
      if d.transportMode = .udp ∧ s.listenPort ≠ 0 then some s.listenPort else none := by
  obtain ⟨ls, hls, rfl⟩ := Option.map_eq_some_iff.mp h
  have hline : ∀ l ∈ ls ++ [line "errno" ['0']] ++ [[]], '\n' ∉ l ∧ '\r' ∉ l := by
    intro l hl
    rcases List.mem_append.mp hl with hl | hl
    · have hsolid := (solid_of_isLine (List.Subset.refl _) (isLine_apiGet hls l hl)).1
      exact ⟨hsolid.not_mem (by decide), hsolid.not_mem (by decide)⟩
    · rw [List.mem_singleton] at hl
      subst hl
      exact ⟨List.not_mem_nil, List.not_mem_nil⟩
  have hlines : lines (unlines (ls ++ [line "errno" ['0']]) ++ ['\n']) =
      ls ++ [line "errno" ['0']] ++ [[]] := by
    rw [← lines_unlines hline]
    congr 1
    simp [unlines]
  obtain ⟨header, peers, -, hpeers, rfl, rfl⟩ := apiGet_spec hls
  have hown : ∀ l ∈ lineOf "own_public_key" (fun k : KeyPair C => toHex k.publicKey.toList)
      d.keyPair, IsLine ["own_public_key"] l :=
    isLine_lineOf (fun k => solid_toHex _) List.mem_cons_self
  have hfwmark : ∀ l ∈ lineOf "fwmark" (fun mark : UInt32 => writeUnsigned mark.toNat) s.fwmark,
      IsLine ["fwmark"] l :=
    isLine_lineOf (fun mark => solid_writeUnsigned _) List.mem_cons_self
  have hipProtocol : ∀ l ∈ lineOf "ip_protocol" (fun p : UInt8 => writeUnsigned p.toNat)
      s.ipProtocol, IsLine ["ip_protocol"] l :=
    isLine_lineOf (fun p => solid_writeUnsigned _) List.mem_cons_self
  have hprotocol : ∀ (value : List Char) (hvalue : Solid value),
      ∀ l ∈ [line "protocol" value], IsLine ["protocol"] l := by
    intro value hvalue l hl
    rw [List.mem_singleton] at hl
    subst hl
    exact isLine_line hvalue List.mem_cons_self
  unfold actualListenPort
  rw [hlines]
  simp only [List.append_assoc]
  rw [scanPort_append (by decide) (by decide) hown]
  -- Without a port no line has this key.
  have hnone : scanPort (lineOf "fwmark" (fun mark : UInt32 => writeUnsigned mark.toNat) s.fwmark ++
      (peers.flatten ++ ([line "errno" ['0']] ++ [[]]))) = none := by
    rw [scanPort_append (by decide) (by decide) hfwmark,
      scanPort_append (by decide) (by decide) (isLine_of_mapM hpeers)]
    rfl
  cases hmode : d.transportMode with
  | udp =>
    rw [modeLines, List.cons_append, ← List.singleton_append,
      scanPort_append (by decide) (by decide) (hprotocol _ (by decide))]
    by_cases hport : s.listenPort = 0
    · rw [if_neg (not_not_intro hport), if_neg fun hboth => hboth.2 hport, List.nil_append, hnone]
    · rw [if_pos hport, if_pos ⟨rfl, hport⟩, List.cons_append, scanPort_listen_port]
  | rawIp =>
    rw [modeLines, List.cons_append, ← List.singleton_append,
      scanPort_append (by decide) (by decide) (hprotocol _ (by decide)),
      scanPort_append (by decide) (by decide) hipProtocol, hnone]
    rfl
  | tcp =>
    rw [modeLines, scanPort_append (by decide) (by decide) (hprotocol _ (by decide)), hnone]
    rfl

end

end NekoLink.Ctl
