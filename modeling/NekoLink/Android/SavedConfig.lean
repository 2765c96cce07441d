import NekoLink.Android.ConfigText

/-!
# A saved configuration is read back

`Config.parse` on what `Config.toWgQuickString` writes, for every interface that the builder accepts
and any peers. The laws of the platform are those of `LawfulUri` and what is documented of numeric
addresses.

* `InterfaceBuilder.Made.sound`: what the setters keep.
* `Interface.Writable.parse_eq`: an interface without special characters is read back.
* `Config.reads_back_iff`: which interfaces are read back.
* `Config.hash_lost`: one that is not.
-/

namespace NekoLink.Android

open Wire Noise Device JavaText

/-! ## The platform -/

section

variable (P : Platform)

/-- A text in a list of addresses: no blanks and spaces, no separators and no comments. -/
structure Token (s : List Char) : Prop where
  ne_nil : s ≠ []
  chars : ∀ c ∈ s, isBlank c = false ∧ P.classes.isSpace c = false ∧ c ≠ ',' ∧ c ≠ '#'

/-- What is documented of numeric addresses and of the hosts of URIs. -/
structure LawfulText : Prop extends LawfulUri P where
  /-- The text of an address that has been parsed is parsed to it. -/
  parse_hostAddress : ∀ s a, P.parseNumericAddress s = some a →
    P.parseNumericAddress (P.hostAddress a) = some a
  hostAddress : ∀ a, Token P (P.hostAddress a)
  /-- A host has no blanks, no other spaces and no control characters. -/
  host : ∀ s host port, P.uri s = some (some host, port) →
    ∀ c ∈ host, isBlank c = false ∧ P.classes.isSpace c = false

/-- A text that stands in its line as it is. -/
structure LineText (s : List Char) : Prop where
  line : OneLine s
  hash : '#' ∉ s
  head : ∀ c ∈ s.head?, P.classes.isSpace c = false
  last : ∀ c ∈ s.getLast?, isBlank c = false

end

namespace LineText

variable {P : Platform} {s : List Char}

theorem of_chars (h : ∀ c ∈ s, isBlank c = false ∧ P.classes.isSpace c = false ∧ c ≠ '#') :
    LineText P s where
  line := ⟨fun hmem => absurd (h _ hmem).1 (by decide), fun hmem => absurd (h _ hmem).1 (by decide)⟩
  hash hmem := (h _ hmem).2.2 rfl
  head c hc := (h c (List.mem_of_mem_head? hc)).2.1
  last c hc := (h c (List.mem_of_getLast? hc)).1

theorem settle_eq (h : LineText P s) : settle P.classes s = s := settle_eq_self h.head h.last

theorem plain (h : LineText P s) : OneLine s ∧ '#' ∉ s := ⟨h.line, h.hash⟩

end LineText

namespace Token

variable {P : Platform} {s t : List Char}

theorem lineText (h : Token P s) : LineText P s :=
  .of_chars fun c hc => ⟨(h.chars c hc).1, (h.chars c hc).2.1, (h.chars c hc).2.2.2⟩

theorem item (h : Token P s) : Item P.classes s where
  comma hmem := (h.chars _ hmem).2.2.1 rfl
  head := h.lineText.head

theorem append (h : Token P s) (h' : Token P t) : Token P (s ++ t) where
  ne_nil hnil := h.ne_nil (List.append_eq_nil_iff.mp hnil).1
  chars c hc := (List.mem_append.mp hc).elim (h.chars c) (h'.chars c)

end Token

section

variable {P : Platform}

theorem token_of_alphanum {s : List Char} (hne : s ≠ [])
    (h : ∀ c ∈ s, c.isAlphanum = true ∨ c ∈ ['.', '-', ':', '/', '+', '=', '[', ']']) :
    Token P s := by
  refine ⟨hne, fun c hc => ?_⟩
  rcases h c hc with hal | hmem
  · refine ⟨CharClasses.not_isBlank_of_isWord (P.classes.alphanum c hal),
      P.classes.not_isSpace_of_isAlphanum hal, ?_, ?_⟩
    · rintro rfl
      cases hal
    · rintro rfl
      cases hal
  · have hgraphic : ∀ d ∈ ['.', '-', ':', '/', '+', '=', '[', ']'],
        isBlank d = false ∧ ' ' < d ∧ d < '\x7f' ∧ d ≠ ',' ∧ d ≠ '#' := by
      simp [isBlank]
    obtain ⟨hblank, hlow, hhigh, hplain⟩ := hgraphic c hmem
    exact ⟨hblank, P.classes.graphic c hlow hhigh, hplain⟩

theorem token_writeUnsigned (n : ℕ) : Token P (writeUnsigned n) := by
  refine token_of_alphanum Nat.toDigits_ne_nil fun c hc => .inl ?_
  rw [Char.isAlphanum, isDigit_of_mem_writeUnsigned hc, Bool.or_true]

theorem Key.token_toBase64 (key : Key) : Token P key.toBase64 := by
  refine token_of_alphanum (fun hnil => ?_) fun c hc => ?_
  · have hread := Key.fromBase64_toBase64 key
    rw [hnil] at hread
    cases hread
  · rcases Key.of_mem_toBase64 hc with hal | rfl | rfl | rfl
    · exact .inl hal
    · exact .inr (by decide)
    · exact .inr (by decide)
    · exact .inr (by decide)

theorem InetAddresses.token_of_isHostname {d : List Char} (h : isHostname d = true) :
    Token P d := by
  simp only [isHostname, Bool.and_eq_true, List.all_eq_true] at h
  obtain ⟨-, hlabels⟩ := h
  have hlabel : ∀ label, isLabel label = true → label ≠ [] ∧
      ∀ c ∈ label, c.isAlphanum = true ∨ c = '-' := by
    intro label hlabel
    simp only [isLabel, Bool.and_eq_true, decide_eq_true_eq, List.all_eq_true, Bool.or_eq_true]
      at hlabel
    exact ⟨hlabel.1.1.1.1, hlabel.1.1.2⟩
  -- the labels, without the dot at the end
  obtain ⟨front, hfront, hsub⟩ : ∃ front : List Char,
      (∀ label ∈ front.splitOn '.', isLabel label = true) ∧ ∀ c ∈ d, c ∈ front ∨ c = '.' := by
    split_ifs at hlabels with hdot
    · obtain ⟨front, rfl⟩ := List.getLast?_eq_some_iff.mp hdot
      rw [List.dropLast_concat] at hlabels
      exact ⟨front, hlabels, fun c hc => (List.mem_append.mp hc).imp_right List.mem_singleton.mp⟩
    · exact ⟨d, hlabels, fun c hc => .inl hc⟩
  refine token_of_alphanum ?_ fun c hc => ?_
  · rintro rfl
    exact (hlabel [] (hlabels [] (by simp))).1 rfl
  · rcases hsub c hc with hc | rfl
    · have hjoin : ['.'].intercalate (front.splitOn '.') = front := List.intercalate_splitOn '.'
      rw [← hjoin] at hc
      obtain rfl | ⟨label, hmem, hc⟩ := Text.of_mem_intercalate hc
      · exact .inr (by decide)
      · rcases (hlabel label (hfront label hmem)).2 c hc with hal | rfl
        · exact .inl hal
        · exact .inr (by decide)
    · exact .inr (by decide)

end

/-! ## Numbers and addresses -/

theorem parseInt_writeUnsigned {n : ℕ} (h : n < 2 ^ 31) :
    parseInt (writeUnsigned n) = some (n : ℤ) := by
  have hdigits : ∀ c ∈ writeUnsigned n, c.isDigit = true := fun c => isDigit_of_mem_writeUnsigned
  have hsign : ∀ c, c.isDigit = false → (writeUnsigned n).head? ≠ some c := by
    intro c hc hhead
    rw [hdigits c (List.mem_of_mem_head? hhead)] at hc
    cases hc
  have hfold : ∀ (s : List Char) (m : ℕ), (∀ c ∈ s, c.isDigit = true) →
      s.foldl (fun (acc : ℤ) c => acc * 10 + (c.toNat - '0'.toNat)) m =
        (Nat.ofDigitChars 10 s m : ℕ) := by
    intro s
    induction s with
    | nil => exact fun m _ => rfl
    | cons c s ih =>
      intro m hs
      obtain ⟨hc, hs⟩ := List.forall_mem_cons.mp hs
      rw [Char.isDigit_iff_toNat] at hc
      rw [List.foldl_cons, Nat.ofDigitChars_cons, ← ih _ hs]
      congr 1
      rw [Nat.cast_add, Nat.cast_mul, Nat.cast_sub hc.1, mul_comm, Nat.cast_ofNat]
  have hvalue := hfold (writeUnsigned n) 0 hdigits
  rw [writeUnsigned, Nat.ofDigitChars_ten_toDigits, ← writeUnsigned, Nat.cast_zero] at hvalue
  have hne : writeUnsigned n ≠ [] := Nat.toDigits_ne_nil
  rw [parseInt]
  simp only [hsign '-' rfl, hsign '+' rfl, or_self, if_false]
  rw [if_neg, hvalue, if_pos]
  · omega
  · simp only [hne, false_or, not_not]
    exact List.all_eq_true.mpr hdigits

namespace InetNetwork

theorem splitMask_append {address mask : List Char} (h : '/' ∉ mask) :
    splitMask (address ++ '/' :: mask) = (address, some mask) := by
  have hall : ∀ c ∈ mask.reverse, decide (c ≠ '/') = true :=
    fun c hc => decide_eq_true fun heq => h (heq ▸ List.mem_reverse.mp hc)
  have hrev : (address ++ '/' :: mask).reverse = mask.reverse ++ '/' :: address.reverse := by simp
  have hspan : (mask.reverse ++ '/' :: address.reverse).span (· ≠ '/') =
      (mask.reverse, '/' :: address.reverse) := by
    rw [List.span_eq_takeWhile_dropWhile, List.takeWhile_append_of_pos hall,
      List.dropWhile_append_of_pos hall]
    simp
  rw [splitMask, hrev, hspan]
  simp

/-- An address that has been parsed, with its mask. -/
theorem of_parse {P : Platform} {s : List Char} {n : InetNetwork} (h : parse P s = some n) :
    (∃ rawAddress, P.parseNumericAddress rawAddress = some n.address) ∧
      n.mask ≤ maxMask n.address := by
  obtain ⟨rawMask, h⟩ : ∃ rawMask : ℤ, (if (splitMask s).1 = [] then none
      else (P.parseNumericAddress (splitMask s).1).bind fun address =>
        if maxMask address < rawMask then none
        else some ⟨address, if 0 ≤ rawMask then rawMask.toNat else maxMask address⟩) = some n := by
    rw [parse] at h
    simp only [Option.bind_eq_bind] at h
    split at h
    · exact ⟨-1, h⟩
    · obtain ⟨rawMask, -, h⟩ := Option.bind_eq_some_iff.mp h
      exact ⟨rawMask, h⟩
  by_cases hraw : (splitMask s).1 = []
  · rw [if_pos hraw] at h
    cases h
  rw [if_neg hraw] at h
  obtain ⟨address, haddress, h⟩ := Option.bind_eq_some_iff.mp h
  split_ifs at h with hmax
  · cases h
    refine ⟨⟨_, haddress⟩, ?_⟩
    dsimp only
    omega
  · cases h
    exact ⟨⟨_, haddress⟩, le_rfl⟩

variable {P : Platform} (hP : LawfulText P) {n : InetNetwork} (h : ∃ s, parse P s = some n)
include hP

theorem token_toString (n : InetNetwork) : Token P (n.toString P) := by
  refine (hP.hostAddress n.address).append ⟨List.cons_ne_nil _ _, fun c hc => ?_⟩
  rcases List.mem_cons.mp hc with rfl | hc
  · exact ⟨rfl, P.classes.graphic _ (by decide) (by decide), by decide, by decide⟩
  · exact (token_writeUnsigned n.mask).chars c hc

/-- The text of every network of a list. -/
theorem token_of_mem {ns : List InetNetwork} {t : List Char}
    (ht : t ∈ ns.map (InetNetwork.toString P)) : Token P t := by
  obtain ⟨n, -, rfl⟩ := List.mem_map.mp ht
  exact token_toString hP n

include h

/-- **A network is read back.** -/
theorem parse_toString : parse P (n.toString P) = some n := by
  obtain ⟨s, hparse⟩ := h
  obtain ⟨⟨rawAddress, haddress⟩, hmask⟩ := of_parse hparse
  have hmax : maxMask n.address ≤ 128 := by cases n.address <;> simp [maxMask]
  have hslash : '/' ∉ writeUnsigned n.mask := fun hmem =>
    absurd (isDigit_of_mem_writeUnsigned hmem) (by decide)
  rw [parse, toString, splitMask_append hslash]
  simp only [Option.bind_eq_bind, parseInt_writeUnsigned (n := n.mask) (by omega),
    Option.bind_some, (hP.hostAddress n.address).ne_nil, if_false,
    hP.parse_hostAddress _ _ haddress]
  rw [if_neg (by omega), if_pos (by omega)]
  rfl

end InetNetwork

/-! ## What the builder keeps -/

namespace InterfaceBuilder

variable (P : Platform) (generatePublicKey : Key → Key)

/-- A builder after calls of its setters. -/
inductive Made : InterfaceBuilder → Prop
  | new : Made .new
  | addAddress {b : InterfaceBuilder} {n : InetNetwork} (hb : Made b)
    (hn : ∃ s, InetNetwork.parse P s = some n) : Made (b.addAddress n)
  | addDnsServer {b : InterfaceBuilder} (hb : Made b) (dnsServer : IpAddr) :
    Made (b.addDnsServer dnsServer)
  | addDnsSearchDomain {b : InterfaceBuilder} (hb : Made b) (dnsSearchDomain : List Char) :
    Made (b.addDnsSearchDomain dnsSearchDomain)
  | excludeApplication {b : InterfaceBuilder} (hb : Made b) (application : List Char) :
    Made (b.excludeApplication application)
  | includeApplication {b : InterfaceBuilder} (hb : Made b) (application : List Char) :
    Made (b.includeApplication application)
  | setKeyPair {b : InterfaceBuilder} (hb : Made b) (privateKey : Key) :
    Made (b.setKeyPair (KeyPair.ofPrivateKey generatePublicKey privateKey))
  | setListenPort {b b' : InterfaceBuilder} (hb : Made b) (listenPort : ℤ)
    (h : b.setListenPort listenPort = some b') : Made b'
  | setMtu {b b' : InterfaceBuilder} (hb : Made b) {mtu : ℤ} (hint : mtu < 2 ^ 31)
    (h : b.setMtu mtu = some b') : Made b'
  | setNekoKey {b : InterfaceBuilder} (hb : Made b) (nekoKey : Option (List Char)) :
    Made (b.setNekoKey nekoKey)

/-- What every setter keeps. -/
structure Sound (b : InterfaceBuilder) : Prop where
  addresses : b.addresses.Nodup
  network : ∀ n ∈ b.addresses, ∃ s, InetNetwork.parse P s = some n
  dnsServers : b.dnsServers.Nodup
  dnsSearchDomains : b.dnsSearchDomains.Nodup
  excluded : b.excludedApplications.Nodup
  included : b.includedApplications.Nodup
  keyPair : ∀ kp ∈ b.keyPair, kp = KeyPair.ofPrivateKey generatePublicKey kp.privateKey
  listenPort : ∀ p ∈ b.listenPort, 0 < p ∧ p ≤ 65535
  mtu : ∀ m ∈ b.mtu, 0 < m ∧ m < 2 ^ 31
  nekoKey : ∀ k ∈ b.nekoKey, k ≠ []

variable {P generatePublicKey}

/-- **The setters keep a builder sound.** -/
theorem Made.sound {b : InterfaceBuilder} (h : Made P generatePublicKey b) :
    Sound P generatePublicKey b := by
  induction h with
  | new =>
    have hnone : ∀ {α : Type} {p : α → Prop}, ∀ x ∈ (none : Option α), p x :=
      fun x hx => absurd hx (Option.not_mem_none x)
    exact ⟨List.nodup_nil, fun _ h => absurd h List.not_mem_nil, List.nodup_nil, List.nodup_nil,
      List.nodup_nil, List.nodup_nil, hnone, hnone, hnone, hnone⟩
  | addAddress _ hn ih =>
    refine { ih with addresses := nodup_addTo ih.addresses, network := fun m hm => ?_ }
    rcases mem_addTo.mp hm with hm | rfl
    · exact ih.network m hm
    · exact hn
  | addDnsServer _ _ ih => exact { ih with dnsServers := nodup_addTo ih.dnsServers }
  | addDnsSearchDomain _ _ ih =>
    exact { ih with dnsSearchDomains := nodup_addTo ih.dnsSearchDomains }
  | excludeApplication _ _ ih => exact { ih with excluded := nodup_addTo ih.excluded }
  | includeApplication _ _ ih => exact { ih with included := nodup_addTo ih.included }
  | setKeyPair _ privateKey ih =>
    refine { ih with keyPair := fun kp hkp => ?_ }
    cases hkp
    rfl
  | setListenPort _ _ h ih =>
    obtain ⟨listenPort, rfl, hport⟩ := setListenPort_eq_some h
    exact { ih with listenPort := hport }
  | setMtu _ hint h ih =>
    obtain ⟨mtu, rfl, hmtu⟩ := setMtu_eq_some h
    refine { ih with mtu := fun m hm => ?_ }
    obtain ⟨hpos, heq⟩ := hmtu m hm
    exact ⟨hpos, by omega⟩
  | setNekoKey _ nekoKey ih =>
    exact { ih with nekoKey := fun k hk => (mem_setNekoKey.mp hk).2 }

end InterfaceBuilder

/-! ## Attributes that are written -/

theorem listable_of_token {P : Platform} {values : List (List Char)}
    (h : ∀ a ∈ values, Token P a) : Listable P.classes values where
  item a ha := (h a ha).item
  inner a ha c hc := ((h a (List.mem_of_mem_dropLast ha)).chars c (List.mem_of_getLast? hc)).2.1
  closed a ha :=
    have hmem := List.mem_of_getLast? ha
    ⟨(h a hmem).ne_nil, (h a hmem).lineText.last⟩

theorem not_mem_join {values : List (List Char)} {c : Char} (hc : c ≠ ',' ∧ c ≠ ' ')
    (h : ∀ a ∈ values, c ∉ a) : c ∉ join values := by
  intro hmem
  obtain heq | heq | ⟨a, ha, hmem⟩ := of_mem_join hmem
  · exact hc.1 heq
  · exact hc.2 heq
  · exact h a ha hmem

theorem hash_join {values : List (List Char)} (h : ∀ a ∈ values, '#' ∉ a) : '#' ∉ join values :=
  not_mem_join (by decide) h

theorem oneLine_join {values : List (List Char)} (h : ∀ a ∈ values, OneLine a) :
    OneLine (join values) :=
  ⟨not_mem_join (by decide) fun a ha => (h a ha).1,
    not_mem_join (by decide) fun a ha => (h a ha).2⟩

namespace InterfaceBuilder

section

variable {P : Platform} {generatePublicKey : Key → Key} {b : InterfaceBuilder}
  {as as' : List (List Char × List Char)} {key value : List Char} {values : List (List Char)}

variable (P generatePublicKey) in
/-- Attributes that are written, read one after the other. -/
def readAttributes (as : List (List Char × List Char)) (b : InterfaceBuilder) :
    Option InterfaceBuilder :=
  ((as.map fun a => Attribute.line a.1 a.2).map trim).foldlM (parseLine P generatePublicKey) b

theorem readAttributes_append_some {b₁ b₂ : InterfaceBuilder}
    (h : readAttributes P generatePublicKey as b = some b₁)
    (h' : readAttributes P generatePublicKey as' b₁ = some b₂) :
    readAttributes P generatePublicKey (as ++ as') b = some b₂ := by
  rw [readAttributes] at h h'
  rw [readAttributes, List.map_append, List.map_append, List.foldlM_append, h]
  exact h'

/-- One attribute, whatever its value is. -/
theorem readAttributes_singleton (hkey : Attribute.Key key) (hne : settle P.classes value ≠ [])
    (hhash : '#' ∉ settle P.classes value) :
    readAttributes P generatePublicKey [(key, value)] b =
      b.parseAttribute P generatePublicKey (toLowerCase key) (settle P.classes value) := by
  have hparse := (Attribute.parse_trim_line (K := P.classes) hkey value).2.2
  rw [if_neg (not_or.mpr ⟨hne, hhash⟩)] at hparse
  rw [readAttributes, List.map_singleton, List.map_singleton, List.foldlM_cons, parseLine, hparse]
  exact bind_pure _

/-- A list that is read back. -/
theorem readAttributes_list {b' : InterfaceBuilder} (hkey : Attribute.Key key)
    (h : Listable P.classes values) (hvalues : values ≠ []) (hhash : ∀ a ∈ values, '#' ∉ a)
    (hparse : ∀ v, split P.classes v = values →
      b.parseAttribute P generatePublicKey (toLowerCase key) v = some b') :
    readAttributes P generatePublicKey [(key, join values)] b = some b' := by
  obtain ⟨hsplit, hne⟩ := h.split_eq hvalues
  rw [readAttributes_singleton hkey hne fun hmem => hash_join hhash (mem_of_mem_settle hmem)]
  exact hparse _ hsplit

/-! The keys as they are written. -/

theorem parseAttribute_address :
    b.parseAttribute P generatePublicKey (toLowerCase "Address".toList) value =
      b.parseAddresses P value := rfl

theorem parseAttribute_dns :
    b.parseAttribute P generatePublicKey (toLowerCase "DNS".toList) value =
      b.parseDnsServers P value := rfl

theorem parseAttribute_excludedApplications :
    b.parseAttribute P generatePublicKey (toLowerCase "ExcludedApplications".toList) value =
      some (b.parseExcludedApplications P value) := rfl

theorem parseAttribute_includedApplications :
    b.parseAttribute P generatePublicKey (toLowerCase "IncludedApplications".toList) value =
      some (b.parseIncludedApplications P value) := rfl

theorem parseAttribute_listenPort :
    b.parseAttribute P generatePublicKey (toLowerCase "ListenPort".toList) value =
      b.parseListenPort value := rfl

theorem parseAttribute_mtu :
    b.parseAttribute P generatePublicKey (toLowerCase "MTU".toList) value =
      b.parseMtu value := rfl

theorem parseAttribute_privateKey :
    b.parseAttribute P generatePublicKey (toLowerCase "PrivateKey".toList) value =
      b.parsePrivateKey generatePublicKey value := rfl

theorem parseAttribute_nekoLinkKey :
    b.parseAttribute P generatePublicKey (toLowerCase "NekoLinkKey".toList) value =
      some (b.parseNekoKey value) := rfl

/-- A list that is left out when it is empty. -/
theorem readAttributes_optional {α : Type} {elements : List α} {text : List Char}
    {f : InterfaceBuilder} (hempty : elements = [] → b = f)
    (h : elements ≠ [] → readAttributes P generatePublicKey [(key, text)] b = some f) :
    readAttributes P generatePublicKey (if elements = [] then [] else [(key, text)]) b =
      some f := by
  by_cases hnil : elements = []
  · rw [if_pos hnil, hempty hnil]
    rfl
  · rw [if_neg hnil, h hnil]

theorem readAttributes_addresses (hP : LawfulText P) {ns : List InetNetwork} (hnodup : ns.Nodup)
    (hns : ∀ n ∈ ns, ∃ s, InetNetwork.parse P s = some n) (hb : b.addresses = []) :
    readAttributes P generatePublicKey (if ns = [] then [] else
      [("Address".toList, join (ns.map (InetNetwork.toString P)))]) b =
      some { b with addresses := ns } := by
  refine readAttributes_optional (fun hnil => by rw [hnil, ← hb]) fun hne => ?_
  have htoken : ∀ a ∈ ns.map (InetNetwork.toString P), Token P a :=
    fun a ha => InetNetwork.token_of_mem hP ha
  have hfold : (ns.map (InetNetwork.toString P)).foldlM
      (fun b address => (InetNetwork.parse P address).map b.addAddress) b =
      some { b with addresses := ns.foldl addTo b.addresses } := by
    refine foldlM_addTo addresses (fun b addresses => { b with addresses }) (fun _ => rfl)
      (fun _ _ => rfl) (fun _ _ _ => rfl) (fun b n hn => ?_) b
    rw [InetNetwork.parse_toString hP (hns n hn)]
    rfl
  refine readAttributes_list (.of_all (by decide) (by decide)) (listable_of_token htoken)
    (by simpa using hne) (fun a ha => (htoken a ha).lineText.hash) fun v hsplit => ?_
  rw [parseAttribute_address, parseAddresses, hsplit, hfold, hb, foldl_addTo (s := []) hnodup,
    List.nil_append]

theorem readAttributes_dns (hP : LawfulText P) {servers : List IpAddr}
    {domains : List (List Char)} (hservers : servers.Nodup) (hdomains : domains.Nodup)
    (hparse : ∀ a ∈ servers, P.parseNumericAddress (P.hostAddress a) = some a)
    (hname : ∀ d ∈ domains, InetAddresses.isHostname d = true ∧ P.parseNumericAddress d = none)
    (hboth : domains ≠ [] → servers ≠ []) (hb : b.dnsServers = []) (hb' : b.dnsSearchDomains = []) :
    readAttributes P generatePublicKey (if servers = [] then [] else
      [("DNS".toList, join (servers.map P.hostAddress ++ domains))]) b =
      some { b with dnsServers := servers, dnsSearchDomains := domains } := by
  refine readAttributes_optional (fun hnil => ?_) fun hne => ?_
  · have hdomains : domains = [] := by
      by_contra hne
      exact hboth hne hnil
    rw [hnil, hdomains, ← hb, ← hb']
  have htoken : ∀ a ∈ servers.map P.hostAddress ++ domains, Token P a := by
    intro a ha
    rcases List.mem_append.mp ha with ha | ha
    · obtain ⟨address, -, rfl⟩ := List.mem_map.mp ha
      exact hP.hostAddress address
    · exact InetAddresses.token_of_isHostname (hname a ha).1
  have hserver : (servers.map P.hostAddress).foldlM (parseDnsServer P) b =
      some { b with dnsServers := servers.foldl addTo b.dnsServers } := by
    refine foldlM_addTo dnsServers (fun b dnsServers => { b with dnsServers }) (fun _ => rfl)
      (fun _ _ => rfl) (fun _ _ _ => rfl) (fun b a ha => ?_) b
    have haddress : InetAddresses.parse P (P.hostAddress a) = some a := by
      rw [InetAddresses.parse, if_neg (hP.hostAddress a).ne_nil, hparse a ha]
    rw [parseDnsServer, haddress]
    rfl
  have hdomain : ∀ b : InterfaceBuilder, (domains.map id).foldlM (parseDnsServer P) b =
      some { b with dnsSearchDomains := domains.foldl addTo b.dnsSearchDomains } := by
    refine foldlM_addTo dnsSearchDomains (fun b dnsSearchDomains => { b with dnsSearchDomains })
      (fun _ => rfl) (fun _ _ => rfl) (fun _ _ _ => rfl) fun b d hd => ?_
    obtain ⟨hhostname, hnone⟩ := hname d hd
    have haddress : InetAddresses.parse P d = none := by
      rw [InetAddresses.parse, hnone, ite_self]
    rw [id, parseDnsServer, haddress]
    simp only [hhostname, if_true]
    rfl
  rw [List.map_id] at hdomain
  refine readAttributes_list (.of_all (by decide) (by decide)) (listable_of_token htoken)
    (by simp [hne]) (fun a ha => (htoken a ha).lineText.hash) fun v hsplit => ?_
  rw [parseAttribute_dns, parseDnsServers, hsplit, List.foldlM_append, hserver]
  refine (hdomain _).trans ?_
  dsimp only
  rw [hb, hb', foldl_addTo (s := []) hservers, foldl_addTo (s := []) hdomains]
  rfl

theorem readAttributes_excluded {apps : List (List Char)} (h : Listable P.classes apps)
    (hhash : ∀ a ∈ apps, '#' ∉ a) (hnodup : apps.Nodup) (hb : b.excludedApplications = []) :
    readAttributes P generatePublicKey (if apps = [] then [] else
      [("ExcludedApplications".toList, join apps)]) b =
      some { b with excludedApplications := apps } := by
  refine readAttributes_optional (fun hnil => by rw [hnil, ← hb]) fun hne => ?_
  refine readAttributes_list (.of_all (by decide) (by decide)) h hne hhash fun v hsplit => ?_
  rw [parseAttribute_excludedApplications, parseExcludedApplications, hsplit,
    excludeApplications_eq, hb, foldl_addTo (s := []) hnodup, List.nil_append]

theorem readAttributes_included {apps : List (List Char)} (h : Listable P.classes apps)
    (hhash : ∀ a ∈ apps, '#' ∉ a) (hnodup : apps.Nodup) (hb : b.includedApplications = []) :
    readAttributes P generatePublicKey (if apps = [] then [] else
      [("IncludedApplications".toList, join apps)]) b =
      some { b with includedApplications := apps } := by
  refine readAttributes_optional (fun hnil => by rw [hnil, ← hb]) fun hne => ?_
  refine readAttributes_list (.of_all (by decide) (by decide)) h hne hhash fun v hsplit => ?_
  rw [parseAttribute_includedApplications, parseIncludedApplications, hsplit,
    includeApplications_eq, hb, foldl_addTo (s := []) hnodup, List.nil_append]

/-- A value that stands in its line as it is. -/
theorem readAttributes_value (hkey : Attribute.Key key) (hne : value ≠ []) (h : LineText P value) :
    readAttributes P generatePublicKey [(key, value)] b =
      b.parseAttribute P generatePublicKey (toLowerCase key) value := by
  rw [readAttributes_singleton hkey, h.settle_eq]
  · rwa [h.settle_eq]
  · rw [h.settle_eq]
    exact h.hash

/-- A value without blanks. -/
theorem readAttributes_token (hkey : Attribute.Key key) (h : Token P value) :
    readAttributes P generatePublicKey [(key, value)] b =
      b.parseAttribute P generatePublicKey (toLowerCase key) value :=
  readAttributes_value hkey h.ne_nil h.lineText

theorem readAttributes_listenPort {listenPort : Option ℕ}
    (h : ∀ p ∈ listenPort, 0 < p ∧ p ≤ 65535) (hb : b.listenPort = none) :
    readAttributes P generatePublicKey
      (listenPort.toList.map fun lp => ("ListenPort".toList, writeUnsigned lp)) b =
      some { b with listenPort } := by
  cases listenPort with
  | none =>
    have hsame : b = { b with listenPort := none } := by rw [← hb]
    exact congrArg some hsame
  | some p =>
    obtain ⟨hpos, hle⟩ := h p rfl
    rw [Option.toList_some, List.map_singleton,
      readAttributes_token (.of_all (by decide) (by decide)) (token_writeUnsigned p),
      parseAttribute_listenPort, parseListenPort, parseInt_writeUnsigned (by omega),
      Option.bind_some, setListenPort, if_neg (by omega), if_neg (by omega)]
    rfl

theorem readAttributes_mtu {mtu : Option ℕ} (h : ∀ m ∈ mtu, 0 < m ∧ m < 2 ^ 31)
    (hb : b.mtu = none) :
    readAttributes P generatePublicKey
      (mtu.toList.map fun m => ("MTU".toList, writeUnsigned m)) b = some { b with mtu } := by
  cases mtu with
  | none =>
    have hsame : b = { b with mtu := none } := by rw [← hb]
    exact congrArg some hsame
  | some m =>
    obtain ⟨hpos, hlt⟩ := h m rfl
    rw [Option.toList_some, List.map_singleton,
      readAttributes_token (.of_all (by decide) (by decide)) (token_writeUnsigned m),
      parseAttribute_mtu, parseMtu, parseInt_writeUnsigned hlt, Option.bind_some, setMtu,
      if_neg (by omega), if_neg (by omega)]
    rfl

theorem readAttributes_privateKey (privateKey : Key) :
    readAttributes P generatePublicKey [("PrivateKey".toList, privateKey.toBase64)] b =
      some (b.setKeyPair (KeyPair.ofPrivateKey generatePublicKey privateKey)) := by
  rw [readAttributes_token (.of_all (by decide) (by decide)) (Key.token_toBase64 privateKey),
    parseAttribute_privateKey, parsePrivateKey, Key.fromBase64_toBase64, Option.map_some]

theorem readAttributes_nekoKey {nekoKey : Option (List Char)} (hne : ∀ k ∈ nekoKey, k ≠ [])
    (h : ∀ k ∈ nekoKey, LineText P k) (hb : b.nekoKey = none) :
    readAttributes P generatePublicKey
      (nekoKey.toList.map fun nk => ("NekoLinkKey".toList, nk)) b = some { b with nekoKey } := by
  cases nekoKey with
  | none =>
    have hsame : b = { b with nekoKey := none } := by rw [← hb]
    exact congrArg some hsame
  | some k =>
    rw [Option.toList_some, List.map_singleton,
      readAttributes_value (.of_all (by decide) (by decide)) (hne k rfl) (h k rfl),
      parseAttribute_nekoLinkKey, parseNekoKey, setNekoKey]
    simp [hne k rfl]

end

end InterfaceBuilder

/-! ## Peers -/

namespace Peer

/-- A peer with networks and an endpoint that their classes make. -/
structure Valid (P : Platform) (p : Peer) : Prop where
  allowedIps : ∀ n ∈ p.allowedIps, ∃ s, InetNetwork.parse P s = some n
  endpoint : ∀ e ∈ p.endpoint, Constructed P e

variable {P : Platform} {p : Peer} {key value : List Char}

theorem mem_attributes {a : List Char × List Char} (h : a ∈ p.attributes P) :
    (p.allowedIps ≠ [] ∧
        a = ("AllowedIPs".toList, join (p.allowedIps.map (InetNetwork.toString P)))) ∨
      (∃ e ∈ p.endpoint, a = ("Endpoint".toList, e.toString)) ∨
      (∃ k ∈ p.persistentKeepalive, a = ("PersistentKeepalive".toList, writeUnsigned k)) ∨
      (∃ psk ∈ p.preSharedKey, a = ("PreSharedKey".toList, psk.toBase64)) ∨
      a = ("PublicKey".toList, p.publicKey.toBase64) := by
  simp only [attributes, List.mem_append, List.mem_ite_nil_left, List.mem_map, Option.mem_toList,
    List.mem_singleton] at h
  obtain (((⟨hne, rfl⟩ | ⟨e, he, rfl⟩) | ⟨k, hk, rfl⟩) | ⟨psk, hpsk, rfl⟩) | rfl := h
  · exact .inl ⟨hne, rfl⟩
  · exact .inr (.inl ⟨e, he, rfl⟩)
  · exact .inr (.inr (.inl ⟨k, hk, rfl⟩))
  · exact .inr (.inr (.inr (.inl ⟨psk, hpsk, rfl⟩)))
  · exact .inr (.inr (.inr (.inr rfl)))

end Peer

/-- The text of an endpoint stands in its line as it is. -/
theorem InetEndpoint.lineText_toString {P : Platform} (hP : LawfulText P) {e : InetEndpoint}
    (he : Constructed P e) : LineText P e.toString ∧ e.toString ≠ [] := by
  obtain ⟨shown, hshown⟩ := he.shown hP.toLawfulUri
  have hhost := hP.host _ _ _ (hshown.uriHost 0 (Nat.zero_le _))
  rw [hshown.toString_eq]
  refine ⟨.of_chars fun c hc => ?_, by simp⟩
  rcases List.mem_append.mp hc with hc | hc
  · exact ⟨(hhost c hc).1, (hhost c hc).2, fun heq => hshown.plain.2.2 (heq ▸ hc)⟩
  · rcases List.mem_cons.mp hc with rfl | hc
    · exact ⟨rfl, P.classes.graphic _ (by decide) (by decide), by decide⟩
    · have hchars := (token_writeUnsigned (P := P) e.port).chars c hc
      exact ⟨hchars.1, hchars.2.1, hchars.2.2.2⟩

namespace PeerBuilder

variable {P : Platform} {b : PeerBuilder} {key value : List Char}

theorem parseLine_trim_line (hkey : Attribute.Key key) (hne : settle P.classes value ≠ [])
    (hhash : '#' ∉ settle P.classes value) :
    b.parseLine P (trim (Attribute.line key value)) =
      b.parseAttribute P (toLowerCase key) (settle P.classes value) := by
  rw [parseLine, (Attribute.parse_trim_line hkey value).2.2, if_neg (not_or.mpr ⟨hne, hhash⟩),
    Option.bind_some]

theorem parseLine_value (hkey : Attribute.Key key) (hne : value ≠ []) (h : LineText P value) :
    b.parseLine P (trim (Attribute.line key value)) =
      b.parseAttribute P (toLowerCase key) value := by
  rw [parseLine_trim_line hkey, h.settle_eq]
  · rwa [h.settle_eq]
  · rw [h.settle_eq]
    exact h.hash

theorem parseAttribute_allowedIPs :
    b.parseAttribute P (toLowerCase "AllowedIPs".toList) value =
      b.parseAllowedIPs P (split P.classes value) := rfl

theorem parseAttribute_endpoint :
    b.parseAttribute P (toLowerCase "Endpoint".toList) value =
      b.parseEndpoint P value := rfl

theorem parseAttribute_persistentKeepalive :
    b.parseAttribute P (toLowerCase "PersistentKeepalive".toList) value =
      b.parsePersistentKeepalive value := rfl

theorem parseAttribute_preSharedKey :
    b.parseAttribute P (toLowerCase "PreSharedKey".toList) value =
      b.parsePreSharedKey value := rfl

theorem parseAttribute_publicKey :
    b.parseAttribute P (toLowerCase "PublicKey".toList) value =
      b.parsePublicKey value := rfl

theorem parseLine_publicKey (publicKey : Key) :
    b.parseLine P (trim (Attribute.line "PublicKey".toList publicKey.toBase64)) =
      some { b with publicKey := some publicKey } := by
  rw [parseLine_value (.of_all (by decide) (by decide)) (Key.token_toBase64 (P := P) publicKey).ne_nil
    (Key.token_toBase64 publicKey).lineText,
    parseAttribute_publicKey, parsePublicKey, Key.fromBase64_toBase64]
  rfl

/-- **Every attribute of a peer** can be read. -/
theorem exists_parseLine (hP : LawfulText P) {p : Peer} (hp : p.Valid P)
    {a : List Char × List Char} (ha : a ∈ p.attributes P) (b : PeerBuilder) :
    ∃ b', b.parseLine P (trim (Attribute.line a.1 a.2)) = some b' := by
  obtain ⟨hne, rfl⟩ | ⟨e, he, rfl⟩ | ⟨k, -, rfl⟩ | ⟨psk, -, rfl⟩ | rfl := Peer.mem_attributes ha
  · dsimp only
    have htoken : ∀ t ∈ p.allowedIps.map (InetNetwork.toString P), Token P t :=
      fun t ht => InetNetwork.token_of_mem hP ht
    obtain ⟨hsplit, hsettle⟩ := (listable_of_token htoken).split_eq (by simpa using hne)
    rw [parseLine_trim_line (.of_all (by decide) (by decide)) hsettle fun hmem =>
      hash_join (fun t ht => (htoken t ht).lineText.hash) (mem_of_mem_settle hmem),
      parseAttribute_allowedIPs, hsplit, parseAllowedIPs]
    obtain ⟨b', hfold, -⟩ := Machine.exists_foldlM (p := fun _ => True) (b := b)
      (f := fun b element => (InetNetwork.parse P element).map b.addAllowedIp)
      (l := p.allowedIps.map (InetNetwork.toString P)) (fun b t ht _ => by
        obtain ⟨n, hn, rfl⟩ := List.mem_map.mp ht
        rw [InetNetwork.parse_toString hP (hp.allowedIps n hn)]
        exact ⟨_, rfl, trivial⟩) trivial
    exact ⟨b', hfold⟩
  · dsimp only
    obtain ⟨hline, hne⟩ := InetEndpoint.lineText_toString hP (hp.endpoint e he)
    obtain ⟨shown, hshown⟩ := (hp.endpoint e he).shown hP.toLawfulUri
    obtain ⟨e', hparse, -⟩ := hshown.means hP.toLawfulUri hshown.port_le
    rw [← hshown.toString_eq] at hparse
    rw [parseLine_value (.of_all (by decide) (by decide)) hne hline,
      parseAttribute_endpoint, parseEndpoint, hparse]
    exact ⟨_, rfl⟩
  · dsimp only
    have hmax : (k : ℕ) ≤ 65535 := k.2.2
    rw [parseLine_value (.of_all (by decide) (by decide)) (token_writeUnsigned (P := P) k).ne_nil
      (token_writeUnsigned k).lineText,
      parseAttribute_persistentKeepalive, parsePersistentKeepalive,
      parseInt_writeUnsigned (by omega), Option.bind_some, if_neg (by omega), Int.toNat_natCast,
      setPersistentKeepalive_val]
    exact ⟨_, rfl⟩
  · dsimp only
    rw [parseLine_value (.of_all (by decide) (by decide)) (Key.token_toBase64 (P := P) psk).ne_nil
      (Key.token_toBase64 psk).lineText,
      parseAttribute_preSharedKey, parsePreSharedKey, Key.fromBase64_toBase64]
    exact ⟨_, rfl⟩
  · rw [parseLine_publicKey]
    exact ⟨_, rfl⟩

end PeerBuilder

theorem Attribute.within {key value : List Char} (hkey : Attribute.Key key)
    (h : OneLine value ∧ '#' ∉ value) : Attribute.Within (key, value) := ⟨hkey, h.1, h.2⟩

theorem Attribute.within_join {key : List Char} {values : List (List Char)}
    (hkey : Attribute.Key key) (h : ∀ a ∈ values, OneLine a ∧ '#' ∉ a) :
    Attribute.Within (key, join values) :=
  ⟨hkey, oneLine_join fun a ha => (h a ha).1, hash_join fun a ha => (h a ha).2⟩

/-- **A peer that is written is read.** -/
theorem Peer.Valid.readable {P : Platform} (hP : LawfulText P) {p : Peer} (hp : p.Valid P) :
    p.Readable P := by
  constructor
  · intro a ha
    obtain ⟨-, rfl⟩ | ⟨e, he, rfl⟩ | ⟨k, -, rfl⟩ | ⟨psk, -, rfl⟩ | rfl := Peer.mem_attributes ha
    · refine Attribute.within_join (.of_all (by decide) (by decide)) fun t ht => ?_
      exact (InetNetwork.token_of_mem hP ht).lineText.plain
    · exact Attribute.within (.of_all (by decide) (by decide))
        (InetEndpoint.lineText_toString hP (hp.endpoint e he)).1.plain
    · exact Attribute.within (.of_all (by decide) (by decide))
        (token_writeUnsigned (P := P) k).lineText.plain
    · exact Attribute.within (.of_all (by decide) (by decide))
        (Key.token_toBase64 (P := P) psk).lineText.plain
    · exact Attribute.within (.of_all (by decide) (by decide))
        (Key.token_toBase64 (P := P) p.publicKey).lineText.plain
  · obtain ⟨front, hfront⟩ : ∃ front, p.attributes P =
        front ++ [("PublicKey".toList, p.publicKey.toBase64)] := ⟨_, rfl⟩
    obtain ⟨b, hfold, -⟩ := Machine.exists_foldlM (p := fun _ => True) (b := PeerBuilder.new)
      (f := PeerBuilder.parseLine P)
      (l := (front.map fun a => Attribute.line a.1 a.2).map trim) (fun b line hline _ => by
        obtain ⟨l, hl, rfl⟩ := List.mem_map.mp hline
        obtain ⟨a, ha, rfl⟩ := List.mem_map.mp hl
        obtain ⟨b', hb'⟩ := PeerBuilder.exists_parseLine hP hp
          (hfront ▸ List.mem_append_left _ ha) b
        exact ⟨b', hb', trivial⟩) trivial
    refine ⟨⟨b.allowedIps, b.endpoint, b.persistentKeepalive, b.preSharedKey, p.publicKey⟩, ?_⟩
    have hread : ((p.wgQuickLines P).map trim).foldlM (PeerBuilder.parseLine P) .new =
        some { b with publicKey := some p.publicKey } := by
      rw [Peer.wgQuickLines, hfront, List.map_append, List.map_append, List.foldlM_append, hfold]
      exact (bind_pure _).trans (PeerBuilder.parseLine_publicKey p.publicKey)
    rw [Peer.parse, hread]
    rfl

/-! ## Interfaces -/

namespace Interface

variable (P : Platform) (generatePublicKey : Key → Key)

/-- An interface that the builder accepts. -/
def Accepted (i : Interface) : Prop :=
  ∃ b, InterfaceBuilder.Made P generatePublicKey b ∧ b.build = some i

/-- Two interfaces have equal values; the order of a set does not matter. -/
structure Same (i j : Interface) : Prop where
  addresses : ∀ n, n ∈ i.addresses ↔ n ∈ j.addresses
  dnsServers : ∀ a, a ∈ i.dnsServers ↔ a ∈ j.dnsServers
  dnsSearchDomains : ∀ d, d ∈ i.dnsSearchDomains ↔ d ∈ j.dnsSearchDomains
  excluded : ∀ a, a ∈ i.excludedApplications ↔ a ∈ j.excludedApplications
  included : ∀ a, a ∈ i.includedApplications ↔ a ∈ j.includedApplications
  keyPair : i.keyPair = j.keyPair
  listenPort : i.listenPort = j.listenPort
  mtu : i.mtu = j.mtu
  nekoKey : i.nekoKey = j.nekoKey

/-- Applications that stand in one line between commas as they are. -/
structure AppList (apps : List (List Char)) : Prop where
  listable : Listable P.classes apps
  line : ∀ a ∈ apps, OneLine a
  hash : ∀ a ∈ apps, '#' ∉ a

/-- What can be written: a key without a line break, a hash, a blank at its end or a space in
front; applications without these, without commas, and with no space in front of a comma; search
domains that are host names, and only together with servers; servers with a text of their own. -/
structure Writable (i : Interface) : Prop where
  servers : ∀ a ∈ i.dnsServers, P.parseNumericAddress (P.hostAddress a) = some a
  together : i.dnsSearchDomains ≠ [] → i.dnsServers ≠ []
  domains : ∀ d ∈ i.dnsSearchDomains,
    InetAddresses.isHostname d = true ∧ P.parseNumericAddress d = none
  excluded : AppList P i.excludedApplications
  included : AppList P i.includedApplications
  nekoKey : ∀ k ∈ i.nekoKey, LineText P k

variable {P generatePublicKey} {i : Interface}

/-- **An interface that can be written is read back.** -/
theorem Writable.parse_eq (hP : LawfulText P) (hi : i.Accepted P generatePublicKey)
    (h : i.Writable P) :
    Interface.parse P generatePublicKey ((i.wgQuickLines P).map trim) = some i := by
  obtain ⟨b, hmade, hbuild⟩ := hi
  have hsound := hmade.sound
  obtain ⟨rfl, -⟩ := InterfaceBuilder.build_eq_some hbuild
  have hread : InterfaceBuilder.readAttributes P generatePublicKey (i.attributes P) .new =
      some ⟨i.addresses, i.dnsServers, i.dnsSearchDomains, i.excludedApplications,
        i.includedApplications, some i.keyPair, i.listenPort, i.mtu, i.nekoKey⟩ := by
    have hkey : (InterfaceBuilder.setKeyPair ⟨i.addresses, i.dnsServers, i.dnsSearchDomains,
        i.excludedApplications, i.includedApplications, none, i.listenPort, i.mtu, none⟩
        (KeyPair.ofPrivateKey generatePublicKey i.keyPair.privateKey)) =
        ⟨i.addresses, i.dnsServers, i.dnsSearchDomains, i.excludedApplications,
          i.includedApplications, some i.keyPair, i.listenPort, i.mtu, none⟩ := by
      rw [InterfaceBuilder.setKeyPair, ← hsound.keyPair _ rfl]
    have haddresses : InterfaceBuilder.readAttributes P generatePublicKey _ .new = _ :=
      InterfaceBuilder.readAttributes_addresses hP hsound.addresses hsound.network rfl
    have hdns := InterfaceBuilder.readAttributes_append_some haddresses
      (InterfaceBuilder.readAttributes_dns hP hsound.dnsServers hsound.dnsSearchDomains h.servers
        h.domains h.together rfl rfl)
    have hexcluded := InterfaceBuilder.readAttributes_append_some hdns
      (InterfaceBuilder.readAttributes_excluded h.excluded.listable h.excluded.hash
        hsound.excluded rfl)
    have hincluded := InterfaceBuilder.readAttributes_append_some hexcluded
      (InterfaceBuilder.readAttributes_included h.included.listable h.included.hash
        hsound.included rfl)
    have hport := InterfaceBuilder.readAttributes_append_some hincluded
      (InterfaceBuilder.readAttributes_listenPort hsound.listenPort rfl)
    have hmtu := InterfaceBuilder.readAttributes_append_some hport
      (InterfaceBuilder.readAttributes_mtu hsound.mtu rfl)
    have hprivate := InterfaceBuilder.readAttributes_append_some hmtu
      ((InterfaceBuilder.readAttributes_privateKey i.keyPair.privateKey).trans
        (congrArg some hkey))
    exact InterfaceBuilder.readAttributes_append_some hprivate
      (InterfaceBuilder.readAttributes_nekoKey hsound.nekoKey h.nekoKey rfl)
  exact (congrArg (Option.bind · InterfaceBuilder.build) hread).trans hbuild

theorem mem_attributes {a : List Char × List Char} (h : a ∈ i.attributes P) :
    a = ("Address".toList, join (i.addresses.map (InetNetwork.toString P))) ∨
      (i.dnsServers ≠ [] ∧
        a = ("DNS".toList, join (i.dnsServers.map P.hostAddress ++ i.dnsSearchDomains))) ∨
      a = ("ExcludedApplications".toList, join i.excludedApplications) ∨
      a = ("IncludedApplications".toList, join i.includedApplications) ∨
      (∃ p ∈ i.listenPort, a = ("ListenPort".toList, writeUnsigned p)) ∨
      (∃ m ∈ i.mtu, a = ("MTU".toList, writeUnsigned m)) ∨
      a = ("PrivateKey".toList, i.keyPair.privateKey.toBase64) ∨
      ∃ k ∈ i.nekoKey, a = ("NekoLinkKey".toList, k) := by
  simp only [attributes, List.mem_append, List.mem_ite_nil_left, List.mem_map, Option.mem_toList,
    List.mem_singleton] at h
  obtain ((((((⟨-, rfl⟩ | ⟨hne, rfl⟩) | ⟨-, rfl⟩) | ⟨-, rfl⟩) | ⟨p, hp, rfl⟩) | ⟨m, hm, rfl⟩) |
    rfl) | ⟨k, hk, rfl⟩ := h
  · exact .inl rfl
  · exact .inr (.inl ⟨hne, rfl⟩)
  · exact .inr (.inr (.inl rfl))
  · exact .inr (.inr (.inr (.inl rfl)))
  · exact .inr (.inr (.inr (.inr (.inl ⟨p, hp, rfl⟩))))
  · exact .inr (.inr (.inr (.inr (.inr (.inl ⟨m, hm, rfl⟩)))))
  · exact .inr (.inr (.inr (.inr (.inr (.inr (.inl rfl))))))
  · exact .inr (.inr (.inr (.inr (.inr (.inr (.inr ⟨k, hk, rfl⟩))))))

/-- An interface whose texts have no end of a line and no comment. -/
structure Clean (i : Interface) : Prop where
  domains : ∀ d ∈ i.dnsSearchDomains, OneLine d ∧ '#' ∉ d
  excluded : ∀ a ∈ i.excludedApplications, OneLine a ∧ '#' ∉ a
  included : ∀ a ∈ i.includedApplications, OneLine a ∧ '#' ∉ a
  nekoKey : ∀ k ∈ i.nekoKey, OneLine k ∧ '#' ∉ k

theorem Writable.clean (h : i.Writable P) : i.Clean where
  domains d hd :=
    (InetAddresses.token_of_isHostname (P := P) (h.domains d hd).1).lineText.plain
  excluded a ha := ⟨h.excluded.line a ha, h.excluded.hash a ha⟩
  included a ha := ⟨h.included.line a ha, h.included.hash a ha⟩
  nekoKey k hk := (h.nekoKey k hk).plain

theorem Clean.within (hP : LawfulText P) (h : i.Clean) {a : List Char × List Char}
    (ha : a ∈ i.attributes P) : Attribute.Within a := by
  obtain rfl | ⟨-, rfl⟩ | rfl | rfl | ⟨p, -, rfl⟩ | ⟨m, -, rfl⟩ | rfl | ⟨k, hk, rfl⟩ :=
    mem_attributes ha
  · refine Attribute.within_join (.of_all (by decide) (by decide)) fun t ht => ?_
    exact (InetNetwork.token_of_mem hP ht).lineText.plain
  · refine Attribute.within_join (.of_all (by decide) (by decide)) fun t ht => ?_
    rcases List.mem_append.mp ht with ht | ht
    · obtain ⟨address, -, rfl⟩ := List.mem_map.mp ht
      exact (hP.hostAddress address).lineText.plain
    · exact h.domains t ht
  · exact Attribute.within_join (.of_all (by decide) (by decide)) h.excluded
  · exact Attribute.within_join (.of_all (by decide) (by decide)) h.included
  · exact Attribute.within (.of_all (by decide) (by decide))
      (token_writeUnsigned (P := P) p).lineText.plain
  · exact Attribute.within (.of_all (by decide) (by decide))
      (token_writeUnsigned (P := P) m).lineText.plain
  · exact Attribute.within (.of_all (by decide) (by decide))
      (Key.token_toBase64 (P := P) i.keyPair.privateKey).lineText.plain
  · exact Attribute.within (.of_all (by decide) (by decide)) (h.nekoKey k hk)

/-- Where the lists are among the attributes. -/
theorem of_key {a : List Char × List Char} (h : a ∈ i.attributes P) :
    (toLowerCase a.1 = "dns".toList → i.dnsServers ≠ []) ∧
      (toLowerCase a.1 = "excludedapplications".toList → a.2 = join i.excludedApplications) ∧
      (toLowerCase a.1 = "includedapplications".toList →
        a.2 = join i.includedApplications) := by
  obtain rfl | ⟨hne, rfl⟩ | rfl | rfl | ⟨p, -, rfl⟩ | ⟨m, -, rfl⟩ | rfl | ⟨k, -, rfl⟩ :=
    mem_attributes h <;> dsimp only
  · exact ⟨fun h => absurd h (by decide), fun h => absurd h (by decide),
      fun h => absurd h (by decide)⟩
  · exact ⟨fun _ => hne, fun h => absurd h (by decide), fun h => absurd h (by decide)⟩
  · exact ⟨fun h => absurd h (by decide), fun _ => rfl, fun h => absurd h (by decide)⟩
  · exact ⟨fun h => absurd h (by decide), fun h => absurd h (by decide), fun _ => rfl⟩
  all_goals
    exact ⟨fun h => absurd h (by decide), fun h => absurd h (by decide),
      fun h => absurd h (by decide)⟩

end Interface

/-! ## What can be read -/

namespace InterfaceBuilder

variable {P : Platform} {lines : List (List Char)} {name value a : List Char}

/-- A value that comes from a text stands in its line as it is. -/
theorem Given.lineText {text : List Char}
    (hlines : ∀ line ∈ lines, ∃ l ∈ readLines text, line = ConfigReader.withoutComment l)
    (h : Given P lines name value) : LineText P value := by
  obtain ⟨line, hline, key, hparse, -⟩ := h
  obtain ⟨hne, hhash, hhead, front, hsuffix⟩ := Attribute.parse_eq_some hparse
  obtain ⟨l, hl, rfl⟩ := hlines line hline
  have hsub : value ⊆ l := fun c hc => (List.takeWhile_prefix _).subset
    (mem_of_mem_trim (hsuffix ▸ List.mem_append_right front hc))
  obtain ⟨hnewline, hreturn⟩ := of_mem_readLines hl
  refine ⟨⟨fun h => hnewline (hsub h), fun h => hreturn (hsub h)⟩, hhash, hhead, fun c hc => ?_⟩
  have hlast : c ∈ (ConfigReader.withoutComment l).getLast? := by
    rw [← hsuffix, List.getLast?_append, Option.mem_def.mp hc]
    rfl
  exact getLast_rdropWhile _ c hlast

/-- An element of a list that comes from a text. -/
theorem Listed.item {text : List Char}
    (hlines : ∀ line ∈ lines, ∃ l ∈ readLines text, line = ConfigReader.withoutComment l)
    (h : Listed P lines name a) : Item P.classes a ∧ OneLine a ∧ '#' ∉ a := by
  obtain ⟨value, hgiven, ha⟩ := h
  have hvalue := hgiven.lineText hlines
  obtain ⟨hitem, hsub⟩ := item_of_mem_split hvalue.head ha
  exact ⟨hitem, ⟨fun h => hvalue.line.1 (hsub h), fun h => hvalue.line.2 (hsub h)⟩,
    fun h => hvalue.hash (hsub h)⟩

/-- An element of a list that comes from an interface that is written. -/
theorem Listed.attribute {i : Interface} (hkeys : ∀ a ∈ i.attributes P, Attribute.Key a.1)
    (h : Listed P ((i.wgQuickLines P).map trim) name a) :
    ∃ e ∈ i.attributes P, toLowerCase e.1 = name ∧ settle P.classes e.2 ≠ [] ∧
      a ∈ split P.classes (settle P.classes e.2) := by
  obtain ⟨value, ⟨line, hline, key, hparse, rfl⟩, ha⟩ := h
  obtain ⟨l, hl, rfl⟩ := List.mem_map.mp hline
  obtain ⟨e, hmem, rfl⟩ := List.mem_map.mp hl
  rw [(Attribute.parse_trim_line (hkeys e hmem) e.2).2.2] at hparse
  split_ifs at hparse with hform
  cases hparse
  exact ⟨e, hmem, rfl, fun hnil => hform (.inl hnil), ha⟩

end InterfaceBuilder

namespace Interface

variable {P : Platform} {generatePublicKey : Key → Key} {i i' : Interface} {text : List Char}

/-- **What is read of any text is clean**, and so is what has the same values. -/
theorem Same.clean {lines : List (List Char)} (hsame : i'.Same i)
    (hparse : Interface.parse P generatePublicKey lines = some i')
    (hlines : ∀ line ∈ lines, ∃ l ∈ readLines text, line = ConfigReader.withoutComment l) :
    i.Clean ∧ (∀ k ∈ i.nekoKey, LineText P k) ∧ (∀ a ∈ i.excludedApplications, Item P.classes a) ∧
      ∀ a ∈ i.includedApplications, Item P.classes a := by
  obtain ⟨b, hbuild, hprov⟩ := Interface.provenance hparse
  obtain ⟨rfl, -⟩ := InterfaceBuilder.build_eq_some hbuild
  have hneko : ∀ k ∈ i.nekoKey, LineText P k := fun k hk =>
    (hprov.nekoKey k (hsame.nekoKey ▸ hk)).lineText hlines
  have hexcluded := fun a ha => (hprov.excluded a ((hsame.excluded a).mpr ha)).item hlines
  have hincluded := fun a ha => (hprov.included a ((hsame.included a).mpr ha)).item hlines
  refine ⟨⟨fun d hd => ?_, fun a ha => (hexcluded a ha).2, fun a ha => (hincluded a ha).2,
    fun k hk => (hneko k hk).plain⟩, hneko, fun a ha => (hexcluded a ha).1,
    fun a ha => (hincluded a ha).1⟩
  exact ((hprov.domains d ((hsame.dnsSearchDomains d).mpr hd)).1.item hlines).2

/-- **What is read of the attributes that are written** can be written. -/
theorem Same.writable (hP : LawfulText P) (hi : i.Accepted P generatePublicKey)
    (hsame : i'.Same i)
    (hparse : Interface.parse P generatePublicKey ((i.wgQuickLines P).map trim) = some i')
    (hkeys : ∀ a ∈ i.attributes P, Attribute.Key a.1) (hclean : i.Clean)
    (hneko : ∀ k ∈ i.nekoKey, LineText P k)
    (hexcluded : ∀ a ∈ i.excludedApplications, Item P.classes a)
    (hincluded : ∀ a ∈ i.includedApplications, Item P.classes a) : i.Writable P := by
  obtain ⟨b₀, hmade, hbuild₀⟩ := hi
  have hsound := hmade.sound
  obtain ⟨rfl, -⟩ := InterfaceBuilder.build_eq_some hbuild₀
  obtain ⟨b, hbuild, hprov⟩ := Interface.provenance hparse
  obtain ⟨rfl, -⟩ := InterfaceBuilder.build_eq_some hbuild
  have hdomains := fun d hd => hprov.domains d ((hsame.dnsSearchDomains d).mpr hd)
  refine ⟨fun a ha => ?_, fun hne => ?_, fun d hd => ?_, ⟨listable_of_split hexcluded
    hsound.excluded fun a ha => ?_, fun a ha => (hclean.excluded a ha).1, fun a ha =>
    (hclean.excluded a ha).2⟩, ⟨listable_of_split hincluded hsound.included fun a ha => ?_,
    fun a ha => (hclean.included a ha).1, fun a ha => (hclean.included a ha).2⟩, hneko⟩
  · obtain ⟨s, hs⟩ := hprov.servers a ((hsame.dnsServers a).mpr ha)
    rw [InetAddresses.parse] at hs
    split_ifs at hs
    exact hP.parse_hostAddress s a hs
  · obtain ⟨d, hd⟩ := List.exists_mem_of_ne_nil _ hne
    obtain ⟨e, he, hname, -⟩ := (hdomains d hd).1.attribute hkeys
    exact (of_key he).1 hname
  · obtain ⟨-, hhostname, hnone⟩ := hdomains d hd
    rw [InetAddresses.parse, if_neg (InetAddresses.token_of_isHostname (P := P) hhostname).ne_nil]
      at hnone
    exact ⟨hhostname, hnone⟩
  · obtain ⟨e, he, hname, hsplit⟩ :=
      (hprov.excluded a ((hsame.excluded a).mpr ha)).attribute hkeys
    rwa [(of_key he).2.1 hname] at hsplit
  · obtain ⟨e, he, hname, hsplit⟩ :=
      (hprov.included a ((hsame.included a).mpr ha)).attribute hkeys
    rwa [(of_key he).2.2 hname] at hsplit

end Interface

/-- **Which interfaces are read back** unchanged, with any peers. -/
theorem Config.reads_back_iff {P : Platform} {generatePublicKey : Key → Key} (hP : LawfulText P)
    {c : Config} (hi : c.interface.Accepted P generatePublicKey)
    (hpeers : ∀ p ∈ c.peers, p.Valid P) :
    (∃ c', Config.parse P generatePublicKey (c.toWgQuickString P) = some c' ∧
      c'.interface.Same c.interface) ↔ c.interface.Writable P := by
  have hreadable : ∀ p ∈ c.peers, p.Readable P := fun p hp => (hpeers p hp).readable hP
  constructor
  · rintro ⟨c', hparse, hsame⟩
    obtain ⟨lines, hinterface, hlines⟩ := Config.parse_eq_some hparse
    obtain ⟨hclean, hneko, hexcluded, hincluded⟩ := hsame.clean hinterface hlines
    -- no text ends a line, so that the lines read are those that are written
    have hwithin : ∀ a ∈ c.interface.attributes P, Attribute.Within a :=
      fun a ha => hclean.within hP ha
    obtain ⟨peers, hread⟩ := Config.parse_toWgQuickString hwithin hreadable generatePublicKey
    rw [hread] at hparse
    obtain ⟨i', hi', rfl⟩ := Option.map_eq_some_iff.mp hparse
    exact hsame.writable hP hi hi' (fun a ha => (hwithin a ha).key) hclean hneko hexcluded
      hincluded
  · intro h
    obtain ⟨peers, hread⟩ := Config.parse_toWgQuickString (fun a ha => h.clean.within hP ha)
      hreadable generatePublicKey
    refine ⟨⟨c.interface, peers⟩, ?_, ?_⟩
    · rw [hread, h.parse_eq hP hi]
      rfl
    · exact ⟨fun _ => .rfl, fun _ => .rfl, fun _ => .rfl, fun _ => .rfl, fun _ => .rfl, rfl, rfl,
        rfl, rfl⟩

/-! ## A configuration -/

/-- A platform that parses IPv4 addresses. -/
def textPlatform : Platform where
  isWhitespace := Char.isWhitespace
  isDigit := Char.isDigit
  classes := sampleClasses
  uri := sampleUri
  parseNumericAddress s :=
    match Text.readIpv4 s with
    | some (octets, []) => some (.v4 octets)
    | _ => none
  hostAddress := sampleHostAddress
  getAllByName _ _ := []
  nekoSignal _ _ _ := none

theorem parse_writeIpv4 (octets : Bytes 4) :
    textPlatform.parseNumericAddress (Text.writeIpv4 octets) = some (.v4 octets) := by
  have hread : Text.readIpv4 (Text.writeIpv4 octets ++ []) = some (octets, []) :=
    Text.readIpv4_append octets fun c hc => by cases hc
  rw [List.append_nil] at hread
  change (match Text.readIpv4 (Text.writeIpv4 octets) with
    | some (octets, []) => some (IpAddr.v4 octets)
    | _ => none) = _
  rw [hread]

theorem of_isNameChar {P : Platform} {c : Char} (h : isNameChar c = true ∨ c = ':') :
    isBlank c = false ∧ P.classes.isSpace c = false ∧ c ≠ ',' ∧ c ≠ '#' := by
  have hchar : c.isAlphanum = true ∨ c ∈ ['.', '-', ':', '/', '+', '=', '[', ']'] := by
    rcases h with h | rfl
    · simp only [isNameChar, Bool.or_eq_true, decide_eq_true_eq] at h
      rcases h with (h | rfl) | rfl
      · exact .inl h
      · exact .inr (by decide)
      · exact .inr (by decide)
    · exact .inr (by decide)
  exact (token_of_alphanum (s := [c]) (List.cons_ne_nil _ _) fun d hd => by
    rwa [List.mem_singleton.mp hd]).chars c (List.mem_singleton_self c)

theorem textPlatform_lawful : LawfulText textPlatform where
  uriHost := uriPlatform_lawful.uriHost
  plain := uriPlatform_lawful.plain
  literal := uriPlatform_lawful.literal
  v4 := uriPlatform_lawful.v4
  v6 := uriPlatform_lawful.v6
  parse_hostAddress s a h := by
    change (match Text.readIpv4 s with
      | some (octets, []) => some (IpAddr.v4 octets)
      | _ => none) = some a at h
    split at h
    · cases h
      exact parse_writeIpv4 _
    · cases h
  hostAddress a := by
    cases a with
    | v4 octets =>
      refine ⟨fun hnil => ?_, fun c hc => of_isNameChar (.inl ?_)⟩
      · have hparse := parse_writeIpv4 octets
        rw [show Text.writeIpv4 octets = [] from hnil] at hparse
        cases hparse
      · exact isNameChar_of_mem_writeIpv4 hc
    | v6 octets =>
      refine ⟨List.ne_nil_of_mem (uriPlatform_lawful.v6 octets).2.1, fun c hc =>
        of_isNameChar (of_mem_writeSegments hc)⟩
  host s host port h c hc := by
    have hbracket : ∀ d ∈ ['[', ']'], isBlank d = false ∧ sampleClasses.isSpace d = false := by
      simp [isBlank, sampleClasses, whiteSpace]
    have hname : ∀ d, isNameChar d = true ∨ d = ':' →
        isBlank d = false ∧ sampleClasses.isSpace d = false := fun d hd =>
      ⟨(of_isNameChar (P := textPlatform) hd).1, (of_isNameChar (P := textPlatform) hd).2.1⟩
    obtain ⟨-, hall⟩ | ⟨inner, rfl, hall⟩ := isUriHost_cases (isUriHost_of_sampleUri h)
    · exact hname c (.inl (hall c hc))
    · rw [List.mem_cons, List.mem_append, List.mem_singleton] at hc
      obtain rfl | hc | rfl := hc
      · exact hbracket _ (by decide)
      · exact hname c (hall c hc)
      · exact hbracket _ (by decide)

/-- The address of a resolver, and of the interface. -/
def sampleDns : Bytes 4 := ofList [9, 9, 9, 9]

def sampleNetwork : InetNetwork := ⟨.v4 (ofList [10, 0, 0, 2]), 24⟩

/-- An interface with these texts, and with a key. -/
def savedInterface (nekoKey : List Char) : Interface where
  addresses := [sampleNetwork]
  dnsServers := [.v4 sampleDns]
  dnsSearchDomains := ["corp.example".toList]
  excludedApplications := ["org.example.app".toList]
  includedApplications := []
  keyPair := .ofPrivateKey checksumPrims.publicKey (fill 32 3)
  listenPort := some 51820
  mtu := some 1420
  nekoKey := some nekoKey

/-- With one peer. -/
def savedConfig (nekoKey : List Char) : Config where
  interface := savedInterface nekoKey
  peers := [⟨[sampleNetwork], some sampleEndpoint, none, none, fill 32 1⟩]

theorem parse_sampleNetwork :
    InetNetwork.parse textPlatform "10.0.0.2/24".toList = some sampleNetwork := by
  decide +kernel

theorem accepted_savedInterface {nekoKey : List Char} (hne : nekoKey ≠ []) :
    (savedInterface nekoKey).Accepted textPlatform checksumPrims.publicKey := by
  have hmade : InterfaceBuilder.Made textPlatform checksumPrims.publicKey _ :=
    .setNekoKey (.setMtu (.setListenPort (.setKeyPair (.excludeApplication
      (.addDnsSearchDomain (.addDnsServer (.addAddress .new ⟨_, parse_sampleNetwork⟩)
        (.v4 sampleDns)) "corp.example".toList) "org.example.app".toList) (fill 32 3)) 51820 rfl)
      (show (1420 : ℤ) < 2 ^ 31 by decide) rfl) (some nekoKey)
  refine ⟨_, hmade, ?_⟩
  cases nekoKey with
  | nil => exact absurd rfl hne
  | cons c nekoKey => rfl

theorem valid_peers {nekoKey : List Char} :
    ∀ p ∈ (savedConfig nekoKey).peers, p.Valid textPlatform := by
  intro p hp
  rw [savedConfig, List.mem_singleton] at hp
  subst hp
  refine ⟨fun n hn => ?_, fun e he => ?_⟩
  · rw [List.mem_singleton.mp hn]
    exact ⟨_, parse_sampleNetwork⟩
  · cases he
    have hparse : InetEndpoint.parse textPlatform "vpn.example.org:51820".toList =
        some sampleEndpoint := by decide +kernel
    exact .parse hparse

theorem Config.reads_back_iff_sample :
    ∃ c', Config.parse textPlatform checksumPrims.publicKey
        ((savedConfig "horse, battery = staple".toList).toWgQuickString textPlatform) = some c' ∧
      c'.interface.Same (savedInterface "horse, battery = staple".toList) := by
  refine (Config.reads_back_iff textPlatform_lawful (accepted_savedInterface (by decide))
    valid_peers).mpr ⟨fun a ha => ?_, fun _ => List.cons_ne_nil _ _, by decide +kernel, ?_,
      ⟨listable_of_token fun a ha => absurd ha List.not_mem_nil,
        fun a ha => absurd ha List.not_mem_nil, fun a ha => absurd ha List.not_mem_nil⟩, ?_⟩
  · rw [List.mem_singleton.mp ha]
    exact parse_writeIpv4 sampleDns
  · have happ : ∀ a ∈ (savedConfig "horse, battery = staple".toList).interface.excludedApplications,
        Token textPlatform a := by
      intro a ha
      rw [List.mem_singleton.mp ha]
      have hall : "org.example.app".toList.all fun c => c.isAlphanum || c = '.' := by decide
      refine token_of_alphanum (by decide) fun c hc => ?_
      have hc := List.all_eq_true.mp hall c hc
      rw [Bool.or_eq_true, decide_eq_true_eq] at hc
      refine hc.imp_right fun heq => ?_
      rw [heq]
      exact List.mem_cons_self
    exact ⟨listable_of_token happ, fun a ha => (happ a ha).lineText.line,
      fun a ha => (happ a ha).lineText.hash⟩
  · intro k hk
    cases hk
    refine ⟨⟨by decide, by decide⟩, by decide, fun c hc => ?_, fun c hc => ?_⟩
    · cases hc
      rfl
    · cases hc
      rfl

/-- **A hash in the key** is taken for a comment: what is read back is another key. -/
theorem Config.hash_lost :
    ¬ ∀ c : Config, c.interface.Accepted textPlatform checksumPrims.publicKey →
      (∀ p ∈ c.peers, p.Valid textPlatform) →
      ∃ c', Config.parse textPlatform checksumPrims.publicKey (c.toWgQuickString textPlatform) =
        some c' ∧ c'.interface.Same c.interface := by
  intro hclaim
  obtain ⟨c', hparse, hsame⟩ := hclaim (savedConfig "meow#1".toList)
    (accepted_savedInterface (by decide)) valid_peers
  obtain ⟨lines, hinterface, hlines⟩ := Config.parse_eq_some hparse
  obtain ⟨-, hneko, -⟩ := hsame.clean hinterface hlines
  exact absurd (hneko _ rfl).hash (by decide)

end NekoLink.Android
