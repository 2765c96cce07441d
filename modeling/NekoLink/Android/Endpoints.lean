import NekoLink.Android.Config
import NekoLink.Android.Signaling
import NekoLink.Foundations.IpText

/-!
# Endpoints through the native client

The text of an `InetEndpoint` is passed to `perform_handshake_internal` of `nekolink-android`, which
sends to it from an IPv4 socket, cuts it at its first colon and puts the negotiated port behind what
is left. The answer is parsed by `InetEndpoint.parse` again, which reads a `URI`. What `URI` and the
address classes do is a parameter, with laws, and so are the sockets and the resolver.

* `Constructed.shown`: the text of an endpoint is a host that a URI has, and the port.
* `error_of_colon`: to an IPv6 address nothing can be sent.
* **`keeps_host`**: every endpoint in a result has the host of the endpoint that was contacted.
-/

namespace NekoLink.Android

open Wire Noise Device Ctl Text

/-! ## The platform -/

section

variable (P : Platform)

/-- A host as it stands in a URI, in front of any port. -/
def UriHost (host : List Char) : Prop :=
  ∀ port ≤ 65535, P.uri ("wg://".toList ++ (host ++ ':' :: writeUnsigned port)) =
    some (some host, (port : ℤ))

/-- What is documented of `URI` and of `getHostAddress`. -/
structure LawfulUri : Prop where
  /-- The host of a URI is the host of another URI with any port. -/
  uriHost : ∀ s host port, P.uri s = some (some host, port) → UriHost P host
  /-- The characters that end an authority are not in a host. -/
  plain : ∀ s host port, P.uri s = some (some host, port) →
    '/' ∉ host ∧ '?' ∉ host ∧ '#' ∉ host
  /-- A host has colons only in an IPv6 literal, which is given with its brackets. -/
  literal : ∀ s host port, P.uri s = some (some host, port) → ':' ∈ host →
    ∃ inner, host = '[' :: (inner ++ [']']) ∧ '[' ∉ inner ∧ ']' ∉ inner
  v4 : ∀ octets, UriHost P (P.hostAddress (.v4 octets)) ∧ ':' ∉ P.hostAddress (.v4 octets)
  v6 : ∀ octets, UriHost P ('[' :: (P.hostAddress (.v6 octets) ++ [']'])) ∧
    ':' ∈ P.hostAddress (.v6 octets) ∧ '[' ∉ P.hostAddress (.v6 octets) ∧
    ']' ∉ P.hostAddress (.v6 octets)

/-- An endpoint that the class makes: its constructor is private. -/
inductive Constructed : InetEndpoint → Prop
  | parse {text : List Char} {e : InetEndpoint} (h : InetEndpoint.parse P text = some e) :
    Constructed e
  | getResolved {e e' : InetEndpoint} {round : ℕ} (he : Constructed e)
    (h : e.getResolved P round = some e') : Constructed e'

/-- A text stands for the host of an endpoint and a port. A bare IPv6 address has brackets once it
is parsed. -/
def Means (text : List Char) (e : InetEndpoint) (port : ℕ) : Prop :=
  ∃ e', InetEndpoint.parse P text = some e' ∧ e'.port = port ∧
    (e'.host = e.host ∨ e'.host = '[' :: (e.host ++ [']']))

/-- How the host of an endpoint is shown in its text. -/
structure Shown (e : InetEndpoint) (shown : List Char) : Prop where
  toString_eq : e.toString = shown ++ ':' :: writeUnsigned e.port
  port_le : e.port ≤ 65535
  uriHost : UriHost P shown
  plain : '/' ∉ shown ∧ '?' ∉ shown ∧ '#' ∉ shown
  host : shown = e.host ∨ shown = '[' :: (e.host ++ [']'])
  literal : ':' ∈ e.host → ∃ inner, shown = '[' :: (inner ++ [']']) ∧ ':' ∈ inner ∧ ']' ∉ inner
  no_colon : ':' ∉ e.host → shown = e.host

end

variable {P : Platform}

theorem uriHost_plain (hP : LawfulUri P) {host : List Char} (h : UriHost P host) :
    '/' ∉ host ∧ '?' ∉ host ∧ '#' ∉ host := hP.plain _ _ _ (h 0 (Nat.zero_le _))

/-- A host of a URI is shown as it is. -/
theorem shown_of_uriHost (hP : LawfulUri P) {e : InetEndpoint} (hport : e.port ≤ 65535)
    (hhost : UriHost P e.host) : Shown P e e.host := by
  have hliteral := hP.literal _ _ _ (hhost 0 (Nat.zero_le _))
  refine ⟨?_, hport, hhost, uriHost_plain hP hhost, .inl rfl, fun hcolon => ?_, fun _ => rfl⟩
  · have hbare : InetEndpoint.isBareIpv6 e.host = false := by
      rw [InetEndpoint.isBareIpv6]
      by_cases hcolon : ':' ∈ e.host
      · obtain ⟨inner, heq, -⟩ := hliteral hcolon
        simp [heq]
      · simp [hcolon]
    rw [InetEndpoint.toString, hbare, Bool.and_false]
    rfl
  · obtain ⟨inner, heq, -, hclose⟩ := hliteral hcolon
    rw [heq] at hcolon
    refine ⟨inner, heq, ?_, hclose⟩
    simpa using hcolon

/-- A bare IPv6 address is shown in brackets. -/
theorem shown_v6 (hP : LawfulUri P) (octets : Bytes 16) {port : ℕ} (hport : port ≤ 65535) :
    Shown P ⟨P.hostAddress (.v6 octets), true, port⟩
      ('[' :: (P.hostAddress (.v6 octets) ++ [']'])) := by
  obtain ⟨hhost, hcolon, hopen, hclose⟩ := hP.v6 octets
  have hbare : InetEndpoint.isBareIpv6 (P.hostAddress (.v6 octets)) = true := by
    simp [InetEndpoint.isBareIpv6, hcolon, hopen, hclose]
  refine ⟨?_, hport, hhost, uriHost_plain hP hhost, .inr rfl, fun _ => ⟨_, rfl, hcolon, hclose⟩,
    fun h => absurd hcolon h⟩
  rw [InetEndpoint.toString, hbare]
  rfl

/-- **The text of every endpoint** is a host that a URI has, and the port. -/
theorem Constructed.shown (hP : LawfulUri P) {e : InetEndpoint} (he : Constructed P e) :
    ∃ shown, Shown P e shown := by
  induction he with
  | parse h =>
    rename_i text e
    rw [InetEndpoint.parse] at h
    simp only [Option.bind_eq_bind] at h
    split_ifs at h with hforbidden
    obtain ⟨⟨host, port⟩, huri, h⟩ := Option.bind_eq_some_iff.mp h
    dsimp only at h
    split_ifs at h with hport
    obtain ⟨host, rfl, h⟩ := Option.bind_eq_some_iff.mp h
    cases h
    refine ⟨host, shown_of_uriHost hP ?_ (hP.uriHost _ _ _ huri)⟩
    dsimp only
    omega
  | getResolved he h ih =>
    rename_i e e' round
    obtain ⟨shown, hshown⟩ := ih
    rw [InetEndpoint.getResolved] at h
    split_ifs at h
    · cases h
      exact ⟨shown, hshown⟩
    · obtain ⟨address, -, rfl⟩ := Option.map_eq_some_iff.mp h
      cases address with
      | v4 octets =>
        exact ⟨_, shown_of_uriHost hP hshown.port_le (hP.v4 octets).1⟩
      | v6 octets => exact ⟨_, shown_v6 hP octets hshown.port_le⟩

/-- A host of a URI and a port are parsed back. -/
theorem parse_uriHost (hP : LawfulUri P) {host : List Char} (hhost : UriHost P host) {port : ℕ}
    (hport : port ≤ 65535) :
    ∃ isResolved, InetEndpoint.parse P (host ++ ':' :: writeUnsigned port) =
      some ⟨host, isResolved, port⟩ := by
  obtain ⟨hslash, hquestion, hhash⟩ := uriHost_plain hP hhost
  have hdigits : ∀ c : Char, c.isDigit = false → c ≠ ':' → c ∉ host →
      c ∉ host ++ ':' :: writeUnsigned port := by
    intro c hc hcolon hmem
    simp only [List.mem_append, List.mem_cons, not_or]
    exact ⟨hmem, hcolon, fun hdigit => by simp [isDigit_of_mem_writeUnsigned hdigit] at hc⟩
  have hrange : ¬ ((port : ℤ) < 0 ∨ 65535 < (port : ℤ)) := by omega
  rw [InetEndpoint.parse, if_neg (not_or.mpr ⟨hdigits _ rfl (by decide) hslash,
    not_or.mpr ⟨hdigits _ rfl (by decide) hquestion, hdigits _ rfl (by decide) hhash⟩⟩),
    hhost port hport]
  simp only [Option.bind_eq_bind, Option.bind_some, if_neg hrange]
  exact ⟨_, rfl⟩

theorem Shown.means (hP : LawfulUri P) {e : InetEndpoint} {shown : List Char}
    (h : Shown P e shown) {port : ℕ} (hport : port ≤ 65535) :
    Means P (shown ++ ':' :: writeUnsigned port) e port := by
  obtain ⟨isResolved, hparse⟩ := parse_uriHost hP h.uriHost hport
  exact ⟨_, hparse, rfl, h.host⟩

/-! ## The native client -/

theorem hostOf_append {host : List Char} (h : ':' ∉ host) (rest : List Char) :
    hostOf (host ++ ':' :: rest) = host := by
  have hall : ∀ c ∈ host, decide (c ≠ ':') = true :=
    fun c hc => decide_eq_true fun heq => h (heq ▸ hc)
  rw [hostOf, List.takeWhile_append_of_pos hall, List.takeWhile_cons_of_neg (by simp),
    List.append_nil]

/-- The answer names the host of the target and the port of the server. -/
theorem endpoint_of_readResponse {J : Codec} {C : Prims} {psk : String} {target : List Char}
    {response : List UInt8} {result : HandshakeResult}
    (h : readResponse J C psk target response = .ok result) :
    ∃ offer, (openSignal C (deriveCipher C psk) (response.take 2048)).bind readSignal = some offer ∧
      result.endpoint = hostOf target ++ ':' :: writeUnsigned offer.port.toNat := by
  rw [readResponse] at h
  split_ifs at h with hshort
  rcases hopen : openSignal C (deriveCipher C psk) (response.take 2048) with _ | decrypted
  · rw [hopen] at h
    cases h
  · rw [hopen] at h
    dsimp only at h
    rcases hread : readSignal decrypted with _ | offer
    · rw [hread] at h
      cases h
    · rw [hread] at h
      cases h
      exact ⟨offer, hread, rfl⟩

/-- What is documented of `ToSocketAddrs` and of the sockets. -/
structure LawfulNet (N : Net) : Prop where
  /-- A host in brackets is an IPv6 address. -/
  literal : ∀ text addrs, N.resolve ('[' :: text) = .ok addrs → ∀ addr ∈ addrs,
    ∃ octets port flowinfo scopeId, addr = .v6 octets port flowinfo scopeId
  /-- A socket of one family does not send to an address of the other. -/
  family : ∀ octets port octets' port' flowinfo scopeId packet,
    ∃ e, N.sendTo (.v4 octets port) (.v6 octets' port' flowinfo scopeId) packet = .error e

section

variable {N : Net} {J : Codec} {C : Prims} {e : InetEndpoint} {shown : List Char}
  {nonce : Bytes 12} {psk : String} {myPubKey : List Char} {result : HandshakeResult}

theorem Shown.signalingTarget_eq (h : Shown P e shown) :
    signalingTarget e.toString = shown ++ ':' :: writeUnsigned e.port := by
  rw [signalingTarget, if_pos (by simp [h.toString_eq]), h.toString_eq]

/-- To an IPv6 address nothing can be sent, from a socket bound to `0.0.0.0`. -/
theorem Shown.error_of_colon (hN : LawfulNet N) (h : Shown P e shown) (hcolon : ':' ∈ e.host) :
    ∀ result, performHandshakeInternal J C N nonce e.toString psk myPubKey ≠ .ok result := by
  intro result hok
  obtain ⟨-, pkt, addr, addrs, -, -, hresolve, hsend, -⟩ := performHandshakeInternal_eq_ok.mp hok
  obtain ⟨inner, heq, -⟩ := h.literal hcolon
  rw [h.signalingTarget_eq, heq] at hresolve
  obtain ⟨octets, port, flowinfo, scopeId, rfl⟩ := hN.literal _ _ hresolve addr List.mem_cons_self
  obtain ⟨error, herror⟩ := hN.family (zeros 4) 0 octets port flowinfo scopeId pkt
  rw [unspecified, herror] at hsend
  cases hsend

/-- **The client keeps the host.** The target of the signalling is the host and the port of the
endpoint. The endpoint in a result is the same host with the port that the answer says. There is a
result exactly when the host is no IPv6 address, the message can be sent to the first address of the
target, and the answer can be read. -/
theorem keeps_host (hP : LawfulUri P) (hN : LawfulNet N) (he : Constructed P e) (J : Codec)
    (C : Prims) (nonce : Bytes 12) (psk : String) (myPubKey : List Char) :
    Means P (signalingTarget e.toString) e e.port ∧
      (∀ result, performHandshakeInternal J C N nonce e.toString psk myPubKey = .ok result →
        ∃ response offer, N.recvFrom = .ok response ∧
          (openSignal C (deriveCipher C psk) (response.take 2048)).bind readSignal = some offer ∧
          Means P result.endpoint e offer.port.toNat) ∧
      ((∃ result, performHandshakeInternal J C N nonce e.toString psk myPubKey = .ok result) ↔
        ':' ∉ e.host ∧ N.bind unspecified = .ok () ∧ ∃ pkt addr addrs response,
          handshakeRequest J C nonce psk myPubKey = .ok pkt ∧
          N.resolve (signalingTarget e.toString) = .ok (addr :: addrs) ∧
          N.sendTo unspecified addr pkt = .ok () ∧ N.recvFrom = .ok response ∧
          ∃ result, readResponse J C psk (signalingTarget e.toString) response = .ok result) := by
  obtain ⟨shown, hshown⟩ := he.shown hP
  have htarget := hshown.signalingTarget_eq
  have hcolon : ∀ result, performHandshakeInternal J C N nonce e.toString psk myPubKey =
      .ok result → ':' ∉ e.host :=
    fun result hok hcolon => hshown.error_of_colon hN hcolon result hok
  refine ⟨?_, fun result hok => ?_, fun ⟨result, hok⟩ => ?_, ?_⟩
  · rw [htarget]
    exact hshown.means hP hshown.port_le
  · obtain ⟨-, -, -, -, response, -, -, -, hrecv, hread⟩ := performHandshakeInternal_eq_ok.mp hok
    obtain ⟨offer, hoffer, hendpoint⟩ := endpoint_of_readResponse hread
    refine ⟨response, offer, hrecv, hoffer, ?_⟩
    have hhost := hcolon result hok
    obtain rfl := hshown.no_colon hhost
    rw [hendpoint, htarget, hostOf_append hhost]
    exact hshown.means hP (Nat.le_of_lt_succ offer.port.toNat_lt)
  · obtain ⟨hbind, pkt, addr, addrs, response, hrequest, hresolve, hsend, hrecv, hread⟩ :=
      performHandshakeInternal_eq_ok.mp hok
    exact ⟨hcolon result hok, hbind, pkt, addr, addrs, response, hrequest, hresolve, hsend, hrecv,
      result, hread⟩
  · rintro ⟨-, hbind, pkt, addr, addrs, response, hrequest, hresolve, hsend, hrecv, result, hread⟩
    exact ⟨result, performHandshakeInternal_eq_ok.mpr
      ⟨hbind, pkt, addr, addrs, response, hrequest, hresolve, hsend, hrecv, hread⟩⟩

end

/-! ## A platform -/

/-- The characters of a name and of an IPv4 address. -/
def isNameChar (c : Char) : Bool := c.isAlphanum || c = '-' || c = '.'

/-- A name or an IPv4 address, or an IPv6 address in brackets. -/
def isUriHost (host : List Char) : Bool :=
  host ≠ [] && host.all isNameChar ||
    host = '[' :: (host.tail.dropLast ++ [']']) &&
      host.tail.dropLast.all fun c => isNameChar c || c = ':'

/-- The URIs with such a host and a port. -/
def sampleUri (s : List Char) : Option (Option (List Char) × ℤ) :=
  (stripPrefix "wg://".toList s).bind fun authority =>
    (rsplitOnce ':' authority).bind fun (host, port) =>
      if isUriHost host then (parseUnsigned 65535 port).map fun port => (some host, (port : ℤ))
      else none

/-- An address, which may stand in brackets when it is an IPv6 address. -/
def sampleNumericAddress (s : List Char) : Option IpAddr :=
  match readIpv4 s with
  | some (octets, []) => some (.v4 octets)
  | _ =>
    match readIpv6 (if s.head? = some '[' then s.tail.dropLast else s) with
    | some (octets, []) => some (.v6 octets)
    | _ => none

def sampleHostAddress : IpAddr → List Char
  | .v4 octets => writeIpv4 octets
  | .v6 octets => writeSegments (segments octets)

/-- A platform without a resolver. -/
def uriPlatform : Platform where
  isWhitespace := Char.isWhitespace
  isDigit := Char.isDigit
  classes := sampleClasses
  uri := sampleUri
  parseNumericAddress := sampleNumericAddress
  hostAddress := sampleHostAddress
  getAllByName _ _ := []
  nekoSignal _ _ _ := none

theorem isUriHost_of_sampleUri {s host : List Char} {port : ℤ}
    (h : sampleUri s = some (some host, port)) : isUriHost host = true := by
  obtain ⟨authority, -, h⟩ := Option.bind_eq_some_iff.mp h
  obtain ⟨⟨host', port'⟩, -, h⟩ := Option.bind_eq_some_iff.mp h
  dsimp only at h
  split_ifs at h with hhost
  obtain ⟨n, -, heq⟩ := Option.map_eq_some_iff.mp h
  cases heq
  exact hhost

theorem uriHost_of_isUriHost {host : List Char} (h : isUriHost host = true) :
    UriHost uriPlatform host := by
  intro port hport
  have hstrip : stripPrefix "wg://".toList ("wg://".toList ++ (host ++ ':' :: writeUnsigned port)) =
      some (host ++ ':' :: writeUnsigned port) := rfl
  have hcolon : ':' ∉ writeUnsigned port := fun hmem =>
    absurd (isDigit_of_mem_writeUnsigned hmem) (by decide)
  have hsplit := rsplitOnce_append hcolon host
  rw [show uriPlatform.uri = sampleUri from rfl, sampleUri, hstrip, Option.bind_some, hsplit,
    Option.bind_some]
  dsimp only
  rw [if_pos h, parseUnsigned_writeUnsigned, if_pos hport]
  rfl

/-- What a host on this platform is. -/
theorem isUriHost_cases {host : List Char} (h : isUriHost host = true) :
    (host ≠ [] ∧ ∀ c ∈ host, isNameChar c = true) ∨
      ∃ inner, host = '[' :: (inner ++ [']']) ∧ ∀ c ∈ inner, isNameChar c = true ∨ c = ':' := by
  simp only [isUriHost, Bool.or_eq_true, Bool.and_eq_true, decide_eq_true_eq, List.all_eq_true]
    at h
  obtain ⟨hne, hall⟩ | ⟨heq, hall⟩ := h
  · exact .inl ⟨hne, hall⟩
  · exact .inr ⟨_, heq, hall⟩

theorem isUriHost_name {host : List Char} (hne : host ≠ [])
    (h : ∀ c ∈ host, isNameChar c = true) : isUriHost host = true := by
  simp only [isUriHost, hne, ne_eq, not_false_eq_true, decide_true, Bool.true_and, Bool.or_eq_true]
  exact .inl (List.all_eq_true.mpr h)

theorem isUriHost_literal {inner : List Char} (h : ∀ c ∈ inner, isNameChar c = true ∨ c = ':') :
    isUriHost ('[' :: (inner ++ [']'])) = true := by
  have hinner : ('[' :: (inner ++ [']'])).tail.dropLast = inner := by simp
  simp only [isUriHost, hinner, decide_true, Bool.true_and, Bool.or_eq_true]
  exact .inr (List.all_eq_true.mpr fun c hc => by simpa using h c hc)

/-- The digits of a group. -/
theorem isNameChar_of_mem_toDigits {b n : ℕ} (hb : 1 < b) (hb' : b ≤ 16) {c : Char}
    (h : c ∈ Nat.toDigits b n) : isNameChar c = true := by
  have hdigit : ∀ d < 16, isNameChar (Nat.digitChar d) = true := by decide
  induction n using Nat.strong_induction_on with
  | h n ih =>
    rw [Nat.toDigits_eq_if hb] at h
    split_ifs at h with hn
    · rw [List.mem_singleton.mp h]
      exact hdigit n (by omega)
    · rcases List.mem_append.mp h with h | h
      · exact ih (n / b) (Nat.div_lt_self (by omega) hb) h
      · rw [List.mem_singleton.mp h]
        exact hdigit _ (Nat.lt_of_lt_of_le (Nat.mod_lt n (by omega)) hb')

theorem isNameChar_of_mem_writeIpv4 {octets : Bytes 4} {c : Char} (h : c ∈ writeIpv4 octets) :
    isNameChar c = true := by
  obtain rfl | ⟨part, hpart, hc⟩ := of_mem_intercalate h
  · rfl
  · obtain ⟨b, -, rfl⟩ := List.mem_map.mp hpart
    exact isNameChar_of_mem_toDigits (by decide) (by decide) hc

theorem of_mem_writeSegments {groups : List ℕ} {c : Char} (h : c ∈ writeSegments groups) :
    isNameChar c = true ∨ c = ':' := by
  obtain rfl | ⟨part, hpart, hc⟩ := of_mem_intercalate h
  · exact .inr rfl
  · obtain ⟨n, -, rfl⟩ := List.mem_map.mp hpart
    exact .inl (isNameChar_of_mem_toDigits (by decide) (by decide) hc)

theorem not_mem_of_nameChars {host : List Char} (h : ∀ c ∈ host, isNameChar c = true ∨ c = ':')
    {c : Char} (hc : isNameChar c = false) (hcolon : c ≠ ':') : c ∉ host := by
  intro hmem
  obtain hname | heq := h c hmem
  · rw [hc] at hname
    cases hname
  · exact hcolon heq

theorem uriPlatform_lawful : LawfulUri uriPlatform where
  uriHost _ _ _ h := uriHost_of_isUriHost (isUriHost_of_sampleUri h)
  plain s host port h := by
    obtain ⟨-, hall⟩ | ⟨inner, rfl, hall⟩ := isUriHost_cases (isUriHost_of_sampleUri h)
    · have hchars : ∀ c ∈ host, isNameChar c = true ∨ c = ':' := fun c hc => .inl (hall c hc)
      exact ⟨not_mem_of_nameChars hchars rfl (by decide),
        not_mem_of_nameChars hchars rfl (by decide), not_mem_of_nameChars hchars rfl (by decide)⟩
    · have hout : ∀ c : Char, isNameChar c = false → c ≠ ':' → c ≠ '[' → c ≠ ']' →
          c ∉ '[' :: (inner ++ [']']) := by
        intro c hc hcolon hopen hclose hmem
        rcases List.mem_cons.mp hmem with heq | hmem
        · exact hopen heq
        · rcases List.mem_append.mp hmem with hmem | hmem
          · exact not_mem_of_nameChars hall hc hcolon hmem
          · exact hclose (List.mem_singleton.mp hmem)
      exact ⟨hout _ rfl (by decide) (by decide) (by decide),
        hout _ rfl (by decide) (by decide) (by decide),
        hout _ rfl (by decide) (by decide) (by decide)⟩
  literal s host port h hcolon := by
    obtain ⟨-, hall⟩ | ⟨inner, rfl, hall⟩ := isUriHost_cases (isUriHost_of_sampleUri h)
    · exact absurd (hall _ hcolon) (by decide)
    · exact ⟨inner, rfl, not_mem_of_nameChars hall rfl (by decide),
        not_mem_of_nameChars hall rfl (by decide)⟩
  v4 octets := by
    have hall : ∀ c ∈ writeIpv4 octets, isNameChar c = true := fun _ => isNameChar_of_mem_writeIpv4
    refine ⟨uriHost_of_isUriHost (isUriHost_name ?_ hall),
      fun hcolon => absurd (hall _ hcolon) (by decide)⟩
    have hlen : octets.toList.length = 4 := octets.toList_length
    change [_].intercalate _ ≠ []
    generalize octets.toList = l at hlen
    match l, hlen with
    | [a, b, c, d], _ => simp [List.intercalate_cons_cons]
  v6 octets := by
    have hall : ∀ c ∈ writeSegments (segments octets), isNameChar c = true ∨ c = ':' :=
      fun _ => of_mem_writeSegments
    refine ⟨uriHost_of_isUriHost (isUriHost_literal hall), ?_,
      not_mem_of_nameChars hall rfl (by decide), not_mem_of_nameChars hall rfl (by decide)⟩
    have hlen : (segments octets).length = 8 := by simp [segments]
    change ':' ∈ writeSegments (segments octets)
    generalize segments octets = groups at hlen
    match groups, hlen with
    | a :: b :: rest, _ => simp [writeSegments, List.intercalate_cons_cons]

/-- An answer of the server with an MTU of 1420 and the port 51821. -/
def sampleAnswer : List UInt8 :=
  sealSignal checksumPrims (deriveCipher checksumPrims "meow") (zeros 12)
    (signal (fill 32 1) 1420 (some 51821))

/-- The result for this answer. -/
theorem readResponse_sampleAnswer (target : List Char) :
    readResponse sampleCodec checksumPrims "meow" target sampleAnswer =
      .ok ⟨sampleKey, hostOf target ++ ":51821".toList, 1420⟩ :=
  readResponse_sealSignal target

theorem offer_sampleAnswer :
    (openSignal checksumPrims (deriveCipher checksumPrims "meow") (sampleAnswer.take 2048)).bind
      readSignal = some ⟨fill 32 1, 1420, 51821⟩ := by
  have hlen : sampleAnswer.length = 64 := length_clientSignal
  rw [List.take_of_length_le (by omega), sampleAnswer, openSignal_sealSignal, Option.bind_some,
    readSignal_signal]

def sampleEndpoint : InetEndpoint := ⟨"vpn.example.org".toList, false, 51820⟩

theorem parse_sampleEndpoint :
    InetEndpoint.parse uriPlatform "vpn.example.org:51820".toList = some sampleEndpoint := by
  decide +kernel

/-- A network that knows the name, and IPv6 addresses in brackets. -/
def sampleNet : Net where
  bind _ := .ok ()
  resolve s :=
    if s = "vpn.example.org:51820".toList then .ok [.new (sampleIp 2) 51820]
    else if s.head? = some '[' then .ok [.v6 (zeros 16) 51820 0 0]
    else .error "failed to lookup address information"
  sendTo
    | .v4 _ _, .v4 _ _, _ => .ok ()
    | .v6 _ _ _ _, .v6 _ _ _ _, _ => .ok ()
    | _, _, _ => .error "Address family not supported by protocol"
  recvFrom := .ok sampleAnswer

theorem sampleNet_lawful : LawfulNet sampleNet where
  literal text addrs h addr haddr := by
    have hname : '[' :: text ≠ "vpn.example.org:51820".toList := by
      intro heq
      exact absurd (List.cons.inj heq).1 (by decide)
    have hresolve : sampleNet.resolve ('[' :: text) = .ok [.v6 (zeros 16) 51820 0 0] := by
      rw [sampleNet]
      dsimp only
      exact (if_neg hname).trans (if_pos rfl)
    cases h.symm.trans hresolve
    exact ⟨_, _, _, _, List.mem_singleton.mp haddr⟩
  family _ _ _ _ _ _ _ := ⟨_, rfl⟩

/-- A name keeps its host. To an IPv6 address nothing is sent. -/
theorem keeps_host_sample :
    (∃ result, performHandshakeInternal sampleCodec checksumPrims sampleNet (zeros 12)
        sampleEndpoint.toString "meow" sampleKey = .ok result ∧
      Means uriPlatform result.endpoint sampleEndpoint 51821) ∧
    ∀ result, performHandshakeInternal sampleCodec checksumPrims sampleNet (zeros 12)
      "[2001:db8::1]:51820".toList "meow" sampleKey ≠ .ok result := by
  have hparse : InetEndpoint.parse uriPlatform "[2001:db8::1]:51820".toList =
      some ⟨"[2001:db8::1]".toList, true, 51820⟩ := by
    decide +kernel
  obtain ⟨-, hmeans, hok⟩ := keeps_host uriPlatform_lawful sampleNet_lawful
    (.parse parse_sampleEndpoint) sampleCodec checksumPrims (zeros 12) "meow" sampleKey
  obtain ⟨-, -, hliteral⟩ := keeps_host uriPlatform_lawful sampleNet_lawful
    (.parse hparse) sampleCodec checksumPrims (zeros 12) "meow" sampleKey
  constructor
  · obtain ⟨result, hresult⟩ := hok.mpr ⟨by decide, rfl, _, _, _, _,
      handshakeRequest_of_decode decode_sampleKey, rfl, rfl, rfl, _, readResponse_sampleAnswer _⟩
    obtain ⟨response, offer, hrecv, hoffer, hendpoint⟩ := hmeans result hresult
    cases hrecv
    rw [offer_sampleAnswer] at hoffer
    obtain rfl := Option.some.inj hoffer
    exact ⟨result, hresult, hendpoint⟩
  · intro result hresult
    exact absurd (show ':' ∈ "[2001:db8::1]".toList by decide) (hliteral.mp ⟨result, hresult⟩).1

end NekoLink.Android
