import NekoLink.Device.Serialization
import NekoLink.Foundations.Lines

/-!
# The answer of a get request

`api_get` of `device/api.rs`, and the answer of the API handler.
The texts of addresses are a parameter, and the settings of the device that its tables do not have
come with it.

* `parseUnsigned_writeUnsigned`, `toHex_injective`: numbers and keys can be told by their texts.
* `apiGet_spec`, `Peer.lines_spec`: the lines of the answer by their keys; no line has a blank.
-/

namespace NekoLink.Device

open Wire Noise Routing Text

/-! ## Numbers and keys -/

/-- The decimal digits of an unsigned integer. -/
def writeUnsigned (n : ℕ) : List Char := Nat.toDigits 10 n

theorem isDigit_of_mem_writeUnsigned {n : ℕ} {c : Char} (h : c ∈ writeUnsigned n) :
    c.isDigit = true :=
  Nat.isDigit_of_mem_toDigits (by decide) (by decide) h

theorem solid_writeUnsigned (n : ℕ) : Solid (writeUnsigned n) := by
  intro c hc
  have hdigit := isDigit_of_mem_writeUnsigned hc
  rw [Char.isDigit_iff_toNat, show '0'.toNat = 48 from rfl, show '9'.toNat = 57 from rfl] at hdigit
  simp only [isWhitespace, List.mem_cons, List.not_mem_nil, or_false, Bool.or_eq_false_iff,
    Bool.and_eq_false_iff, decide_eq_false_iff_not]
  omega

theorem foldlM_digits {s : List Char} (h : ∀ c ∈ s, c.isDigit = true) (n : ℕ) :
    s.foldlM (fun n c => if c.isDigit then some (10 * n + (c.toNat - '0'.toNat)) else none) n =
      some (Nat.ofDigitChars 10 s n) := by
  induction s generalizing n with
  | nil => rfl
  | cons c s ih =>
    rw [List.foldlM_cons, if_pos (h c List.mem_cons_self)]
    exact ih (fun d hd => h d (List.mem_cons_of_mem _ hd)) _

/-- A number that is written is read back, unless it is too large. -/
theorem parseUnsigned_writeUnsigned (max n : ℕ) :
    parseUnsigned max (writeUnsigned n) = if n ≤ max then some n else none := by
  have hplus : ∀ rest, writeUnsigned n ≠ '+' :: rest := by
    intro rest heq
    have hdigit := isDigit_of_mem_writeUnsigned (n := n) (heq ▸ List.mem_cons_self)
    exact absurd hdigit (by decide)
  have hdecimal : decimal (writeUnsigned n) = some n := by
    unfold decimal
    rw [if_neg (show writeUnsigned n ≠ [] from Nat.toDigits_ne_nil),
      foldlM_digits fun c hc => isDigit_of_mem_writeUnsigned hc]
    exact congrArg some Nat.ofDigitChars_ten_toDigits
  unfold parseUnsigned
  split
  · rename_i rest heq
    exact absurd heq (hplus rest)
  · simp only [hdecimal, Option.filter_some, decide_eq_true_eq]

/-- `hex::encode` -/
def toHex (bytes : List UInt8) : List Char :=
  bytes.flatMap fun b => [Nat.digitChar (b.toNat / 16), Nat.digitChar (b.toNat % 16)]

theorem solid_toHex (bytes : List UInt8) : Solid (toHex bytes) := by
  have hdigit : ∀ n < 16, isWhitespace (Nat.digitChar n) = false := by decide
  intro c hc
  obtain ⟨b, -, hb⟩ := List.mem_flatMap.mp hc
  simp only [List.mem_cons, List.not_mem_nil, or_false] at hb
  have hlt := b.toNat_lt
  rcases hb with rfl | rfl
  · exact hdigit _ (by omega)
  · exact hdigit _ (by omega)

/-- Keys have different texts. -/
theorem toHex_injective : Function.Injective toHex := by
  have hdigit : ∀ m < 16, ∀ n < 16, Nat.digitChar m = Nat.digitChar n → m = n := by decide
  intro s
  induction s with
  | nil =>
    intro s' h
    cases s' with
    | nil => rfl
    | cons b s' => cases h
  | cons b s ih =>
    intro s' h
    cases s' with
    | nil => cases h
    | cons b' s' =>
      have hlt := b.toNat_lt
      have hlt' := b'.toNat_lt
      simp only [toHex, List.flatMap_cons, List.cons_append, List.nil_append, List.cons.injEq] at h
      obtain ⟨hhigh, hlow, hrest⟩ := h
      have h₁ := hdigit _ (by omega) _ (by omega) hhigh
      have h₂ := hdigit _ (by omega) _ (by omega) hlow
      have hb : b = b' := UInt8.toNat_inj.mp (by omega)
      rw [hb, ih hrest]

/-! ## The answer -/

/-- The texts of addresses, which have no blanks. -/
structure Printers where
  ipAddr : IpAddr → List Char
  socketAddr : SocketAddr → List Char
  solid_ipAddr : ∀ addr, Solid (ipAddr addr)
  solid_socketAddr : ∀ addr, Solid (socketAddr addr)

/-- The settings of a device besides its tables. -/
structure Settings where
  listenPort : UInt16
  ipProtocol : Option UInt8
  fwmark : Option UInt32

/-- A line of the answer. -/
def line (key : String) (value : List Char) : List Char := entry key.toList value

/-- The line of a value, when there is one. -/
def lineOf {α : Type} (key : String) (write : α → List Char) (value : Option α) :
    List (List Char) :=
  (value.map fun v => line key (write v)).toList

variable {C : Prims} {T : Type → Type} [Table T IpNetwork IpAddr]

/-- The lines of the transport mode. -/
def modeLines (s : Settings) : TransportMode → List (List Char)
  | .udp =>
    line "protocol" "udp".toList ::
      (if s.listenPort ≠ 0 then [line "listen_port" (writeUnsigned s.listenPort.toNat)] else [])
  | .rawIp =>
    line "protocol" "ip".toList ::
      lineOf "ip_protocol" (fun p : UInt8 => writeUnsigned p.toNat) s.ipProtocol
  | .tcp => [line "protocol" "tcp".toList]

variable (P : Printers)

/-- The lines of a peer. -/
def Peer.lines (now : ℕ) (k : Bytes 32) (p : Peer C T) : Option (List (List Char)) :=
  (p.tunnel.timeSinceLastHandshake now).map fun time =>
    line "public_key" (toHex k.toList) ::
      (lineOf "preshared_key" (fun key : Bytes 32 => toHex key.toList) p.presharedKey ++
        lineOf "persistent_keepalive_interval" writeUnsigned p.persistentKeepalive ++
        lineOf "endpoint" P.socketAddr p.endpoint ++
        p.allowedIps.iter.map (fun (_, ip, cidr) =>
          line "allowed_ip" (P.ipAddr ip ++ '/' :: writeUnsigned cidr)) ++
        lineOf "last_handshake_time_sec" (fun t => writeUnsigned (t / 10 ^ 9)) time ++
        lineOf "last_handshake_time_nsec" (fun t => writeUnsigned (t % 10 ^ 9)) time ++
        [line "rx_bytes" (writeUnsigned p.tunnel.rxBytes),
          line "tx_bytes" (writeUnsigned p.tunnel.txBytes)])

/-- The peers of the table, in its order. -/
def peersOf (d : Device C T) : List (Bytes 32 × Peer C T) :=
  d.peers.entries.filterMap fun e => (d.lock e.2).map fun p => (e.1, p)

/-- `api_get` at a time. `none` is a panic. -/
def apiGet (s : Settings) (now : ℕ) (d : Device C T) : Option (List (List Char)) :=
  ((peersOf d).mapM fun e : Bytes 32 × Peer C T => e.2.lines P now e.1).map fun peers =>
    lineOf "own_public_key" (fun k : KeyPair C => toHex k.publicKey.toList) d.keyPair ++
      modeLines s d.transportMode ++
      lineOf "fwmark" (fun mark : UInt32 => writeUnsigned mark.toNat) s.fwmark ++
      peers.flatten

/-- What the API handler writes for a get request. -/
def getResponse (s : Settings) (now : ℕ) (d : Device C T) : Option (List Char) :=
  (apiGet P s now d).map fun lines => unlines (lines ++ [line "errno" ['0']]) ++ ['\n']

/-! ## What the lines are -/

/-- A line with one of these keys. -/
def IsLine (keys : List String) (l : List Char) : Prop :=
  ∃ key ∈ keys, ∃ value, Solid value ∧ l = line key value

section

variable {P} {keys keys' : List String} {key : String} {value : List Char} {ls : List (List Char)}

theorem IsLine.mono {l : List Char} (h : IsLine keys l) (hsub : keys ⊆ keys') : IsLine keys' l := by
  obtain ⟨key, hkey, hvalue⟩ := h
  exact ⟨key, hsub hkey, hvalue⟩

theorem isLine_line (h : Solid value) (hkey : key ∈ keys) : IsLine keys (line key value) :=
  ⟨key, hkey, value, h, rfl⟩

theorem isLine_lineOf {α : Type} {write : α → List Char} {v : Option α}
    (h : ∀ a, Solid (write a)) (hkey : key ∈ keys) : ∀ l ∈ lineOf key write v, IsLine keys l := by
  intro l hl
  unfold lineOf at hl
  rw [Option.mem_toList] at hl
  obtain ⟨a, -, rfl⟩ := Option.map_eq_some_iff.mp hl
  exact isLine_line (h a) hkey

/-- The keys of the lines before the peers. -/
def headerKeys : List String :=
  ["own_public_key", "protocol", "listen_port", "ip_protocol", "fwmark"]

/-- The keys of the lines of a peer besides those of its key and its last handshake. -/
def detailKeys : List String :=
  ["preshared_key", "persistent_keepalive_interval", "endpoint", "allowed_ip",
    "last_handshake_time_nsec", "rx_bytes", "tx_bytes"]

theorem isLine_modeLines {s : Settings} {mode : TransportMode} :
    ∀ l ∈ modeLines s mode, IsLine headerKeys l := by
  intro l hl
  cases mode with
  | udp =>
    rcases List.mem_cons.mp hl with rfl | hl
    · exact isLine_line (by decide) (by decide)
    · split_ifs at hl
      · rw [List.mem_singleton] at hl
        subst hl
        exact isLine_line (solid_writeUnsigned _) (by decide)
      · cases hl
  | rawIp =>
    rcases List.mem_cons.mp hl with rfl | hl
    · exact isLine_line (by decide) (by decide)
    · exact isLine_lineOf (fun p => solid_writeUnsigned _) (by decide) l hl
  | tcp =>
    rcases List.mem_singleton.mp hl with rfl
    exact isLine_line (by decide) (by decide)

/-- The lines of a peer: its key, then details, and among them the seconds since its last
handshake. -/
theorem Peer.lines_spec {now : ℕ} {k : Bytes 32} {p : Peer C T}
    (h : p.lines P now k = some ls) :
    ∃ time before after, p.tunnel.timeSinceLastHandshake now = some time ∧
      (∀ l ∈ before, IsLine detailKeys l) ∧ (∀ l ∈ after, IsLine detailKeys l) ∧
      ls = line "public_key" (toHex k.toList) :: (before ++
        (lineOf "last_handshake_time_sec" (fun t => writeUnsigned (t / 10 ^ 9)) time ++ after)) := by
  obtain ⟨time, htime, rfl⟩ := Option.map_eq_some_iff.mp h
  refine ⟨time, lineOf "preshared_key" (fun key : Bytes 32 => toHex key.toList) p.presharedKey ++
    lineOf "persistent_keepalive_interval" writeUnsigned p.persistentKeepalive ++
    lineOf "endpoint" P.socketAddr p.endpoint ++
    p.allowedIps.iter.map (fun (_, ip, cidr) =>
      line "allowed_ip" (P.ipAddr ip ++ '/' :: writeUnsigned cidr)),
    lineOf "last_handshake_time_nsec" (fun t => writeUnsigned (t % 10 ^ 9)) time ++
    [line "rx_bytes" (writeUnsigned p.tunnel.rxBytes),
      line "tx_bytes" (writeUnsigned p.tunnel.txBytes)], htime, ?_, ?_, ?_⟩
  · intro l hl
    simp only [List.mem_append] at hl
    rcases hl with ((hl | hl) | hl) | hl
    · exact isLine_lineOf (fun key => solid_toHex _) (by decide) l hl
    · exact isLine_lineOf solid_writeUnsigned (by decide) l hl
    · exact isLine_lineOf P.solid_socketAddr (by decide) l hl
    · obtain ⟨⟨_, ip, cidr⟩, -, rfl⟩ := List.mem_map.mp hl
      refine isLine_line ((P.solid_ipAddr ip).append fun c hc => ?_) (by decide)
      rcases List.mem_cons.mp hc with rfl | hc
      · decide
      · exact solid_writeUnsigned cidr c hc
  · intro l hl
    rcases List.mem_append.mp hl with hl | hl
    · exact isLine_lineOf (fun t => solid_writeUnsigned _) (by decide) l hl
    · simp only [List.mem_cons, List.not_mem_nil, or_false] at hl
      rcases hl with rfl | rfl
      · exact isLine_line (solid_writeUnsigned _) (by decide)
      · exact isLine_line (solid_writeUnsigned _) (by decide)
  · simp only [List.append_assoc]

/-- **The answer**: lines about the device, then those of each peer. -/
theorem apiGet_spec {s : Settings} {now : ℕ} {d : Device C T} (h : apiGet P s now d = some ls) :
    ∃ header peers, (∀ l ∈ header, IsLine headerKeys l) ∧
      (peersOf d).mapM (fun e : Bytes 32 × Peer C T => e.2.lines P now e.1) = some peers ∧
      ls = header ++ peers.flatten ∧
      header = lineOf "own_public_key" (fun k : KeyPair C => toHex k.publicKey.toList) d.keyPair ++
        modeLines s d.transportMode ++
        lineOf "fwmark" (fun mark : UInt32 => writeUnsigned mark.toNat) s.fwmark := by
  obtain ⟨peers, hpeers, rfl⟩ := Option.map_eq_some_iff.mp h
  refine ⟨_, peers, fun l hl => ?_, hpeers, rfl, rfl⟩
  simp only [List.mem_append] at hl
  rcases hl with (hl | hl) | hl
  · exact isLine_lineOf (fun k => solid_toHex _) (by decide) l hl
  · exact isLine_modeLines l hl
  · exact isLine_lineOf (fun mark => solid_writeUnsigned _) (by decide) l hl

end

end NekoLink.Device
