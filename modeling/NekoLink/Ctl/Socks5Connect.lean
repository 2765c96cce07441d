import NekoLink.Device.ApiGet
import NekoLink.Foundations.IpText
import NekoLink.Foundations.Utf8

/-!
# Targets of CONNECT requests

`handle_socks5` of `nekolink-ctl/src/main.rs` reads a request and writes its target as text, and
`connect_via_interface` takes the text apart again: what is behind the last colon is the port, and
what is before it is an address or a name to resolve.

* `targetOf_hostPort`: the text is split into the host and the port that it was made of.
* `reaches_iff`: which targets reach the connector unchanged.
* `ipv6_looked_up`: an address of the other kind is looked up with its brackets.
-/

namespace NekoLink.Ctl

open Wire Noise Device Routing Text

/-! ## The request -/

/-- An I/O error of a stream that ends, or one with a text. -/
inductive Socks5Error
  | unexpectedEof
  | other (text : List Char)

/-- The bytes that the client has sent and that have not been read. -/
def readExact (n : ℕ) (stream : List UInt8) : Except Socks5Error (Bytes n × List UInt8) :=
  if h : n ≤ stream.length then .ok (⟨stream.take n, by simp [h]⟩, stream.drop n)
  else .error .unexpectedEof

def readPort (stream : List UInt8) : Except Socks5Error UInt16 := do
  let (port, _) ← readExact 2 stream
  return UInt16.ofNat (beValue port.toList)

/-- `format!("{}:{}", host, port)` -/
def hostPort (host : List Char) (port : UInt16) : List Char :=
  host ++ ':' :: writeUnsigned port.toNat

/-- The text of an IPv6 address in brackets. -/
def bracketed (octets : Bytes 16) : List Char := '[' :: (writeIpv6 octets ++ [']'])

/-- `target_addr`, from the address type and what follows it. -/
def targetAddr (atyp : UInt8) (stream : List UInt8) : Except Socks5Error (List Char) :=
  if atyp = 0x01 then do
    let (octets, stream) ← readExact 4 stream
    return hostPort (writeIpv4 octets) (← readPort stream)
  else if atyp = 0x03 then do
    let (len, stream) ← readExact 1 stream
    let (domain, stream) ← readExact (len.toList.getD 0 0).toNat stream
    return hostPort (decodeLossy domain.toList) (← readPort stream)
  else if atyp = 0x04 then do
    let (octets, stream) ← readExact 16 stream
    return hostPort (bracketed octets) (← readPort stream)
  else .error (.other "Unsupported address type".toList)

inductive Socks5Request
  | connect (targetAddr : List Char)
  | udpAssociate

/-- The handshake and the request; what is answered in between is left out. -/
def readRequest (stream : List UInt8) : Except Socks5Error Socks5Request := do
  let (hello, stream) ← readExact 2 stream
  if hello.toList.getD 0 0 ≠ 0x05 then .error (.other "Not SOCKS5".toList)
  else
    let (_, stream) ← readExact (hello.toList.getD 1 0).toNat stream
    let (request, stream) ← readExact 4 stream
    if request.toList.getD 1 0 = 0x01 then
      return .connect (← targetAddr (request.toList.getD 3 0) stream)
    else if request.toList.getD 1 0 = 0x03 then return .udpAssociate
    else .error (.other "Only CONNECT and UDP ASSOCIATE supported".toList)

/-! ## The connector -/

/-- `IpAddr::from_str` -/
def parseIpAddr (s : List Char) : Option IpAddr :=
  match readIpv4 s with
  | some (octets, rest) => if rest = [] then some (.v4 octets) else none
  | none =>
    match readIpv6 s with
    | some (octets, rest) => if rest = [] then some (.v6 octets) else none
    | none => none

/-- Where a connection goes: to an address, or to what `resolve_dns(host, Some(interface), false)`
finds. -/
inductive Host
  | ip (addr : IpAddr)
  | name (host : List Char)
  deriving DecidableEq

inductive TargetError
  | notAllowed (text : List Char)
  | parseInt

/-- `connect_via_interface`, up to the resolution. -/
def targetOf (target : List Char) : Except TargetError (Host × UInt16) :=
  match rsplitOnce ':' target with
  | none => .error (.notAllowed ("不合法的目标地址: ".toList ++ target))
  | some (host, portStr) =>
    match parseUnsigned 65535 portStr with
    | none => .error .parseInt
    | some port =>
      .ok (match parseIpAddr host with
        | some ip => .ip ip
        | none => .name host, UInt16.ofNat port)

/-! ## Targets -/

/-- A name whose length fits a byte, and that is not the text of an address. -/
structure DomainName where
  chars : List Char
  short : (chars.flatMap String.utf8EncodeChar).length < 256
  not_ip : parseIpAddr chars = none

/-- What a client asks for. -/
inductive Target
  | v4 (octets : Bytes 4) (port : UInt16)
  | v6 (octets : Bytes 16) (port : UInt16)
  | domain (name : DomainName) (port : UInt16)

/-- What a client sends around a target: the methods of its handshake, a version and a reserved byte
that nobody looks at, and what follows the request. -/
structure Greeting where
  methods : List UInt8
  length_lt : methods.length < 256
  version : UInt8
  reserved : UInt8
  rest : List UInt8

namespace Target

def host : Target → Host
  | v4 octets _ => .ip (.v4 octets)
  | v6 octets _ => .ip (.v6 octets)
  | domain name _ => .name name.chars

def port : Target → UInt16
  | v4 _ port | v6 _ port | domain _ port => port

def atyp : Target → UInt8
  | v4 .. => 0x01
  | domain .. => 0x03
  | v6 .. => 0x04

def addressBytes : Target → List UInt8
  | v4 octets _ => octets.toList
  | v6 octets _ => octets.toList
  | domain name _ =>
    let bytes := name.chars.flatMap String.utf8EncodeChar
    UInt8.ofNat bytes.length :: bytes

/-- A CONNECT request behind a handshake. -/
def request (g : Greeting) (t : Target) : List UInt8 :=
  0x05 :: UInt8.ofNat g.methods.length :: (g.methods ++
    (g.version :: 0x01 :: g.reserved :: t.atyp ::
      (t.addressBytes ++ (beBytes 2 t.port.toNat ++ g.rest))))

/-- The text that stands for the target. -/
def text : Target → List Char
  | v4 octets port => hostPort (writeIpv4 octets) port
  | v6 octets port => hostPort (bracketed octets) port
  | domain name port => hostPort name.chars port

end Target

/-! ## Reading the request -/

section Request

variable {n : ℕ} {rest : List UInt8}

theorem ok_bind {ε α β : Type} (a : α) (f : α → Except ε β) : (Except.ok a >>= f) = f a := rfl

theorem readExact_append (bytes : Bytes n) (rest : List UInt8) :
    readExact n (bytes.toList ++ rest) = .ok (bytes, rest) := by
  have hlen := bytes.toList_length
  rw [readExact, dif_pos (by simp)]
  congr 2
  · exact Subtype.ext (List.take_left' hlen)
  · exact List.drop_left' hlen

/-- Some bytes whose number is given. -/
theorem readExact_list {bytes : List UInt8} (h : bytes.length = n) (rest : List UInt8) :
    ∃ v : Bytes n, v.toList = bytes ∧ readExact n (bytes ++ rest) = .ok (v, rest) :=
  ⟨⟨bytes, h⟩, rfl, readExact_append ⟨bytes, h⟩ rest⟩

theorem readPort_append (port : UInt16) (rest : List UInt8) :
    readPort (beBytes 2 port.toNat ++ rest) = .ok port := by
  obtain ⟨v, hv, hread⟩ := readExact_list (length_beBytes 2 port.toNat) rest
  rw [readPort, hread, ok_bind]
  dsimp only
  rw [hv, beValue_beBytes_of_lt port.toNat_lt, UInt16.ofNat_toNat]
  rfl

/-- The text of a target. -/
theorem targetAddr_append (t : Target) (rest : List UInt8) :
    targetAddr t.atyp (t.addressBytes ++ (beBytes 2 t.port.toNat ++ rest)) = .ok t.text := by
  cases t with
  | v4 octets port =>
    have hport := readPort_append port rest
    simp [targetAddr, Target.atyp, Target.addressBytes, Target.port, Target.text, readExact_append,
      hport, ok_bind, pure, Except.pure]
  | v6 octets port =>
    have hport := readPort_append port rest
    simp [targetAddr, Target.atyp, Target.addressBytes, Target.port, Target.text, readExact_append,
      hport, ok_bind, pure, Except.pure]
  | domain name port =>
    have hlen : (UInt8.ofNat (name.chars.flatMap String.utf8EncodeChar).length).toNat =
        (name.chars.flatMap String.utf8EncodeChar).length := UInt8.toNat_ofNat_of_lt' name.short
    have htext : decodeLossy (name.chars.flatMap String.utf8EncodeChar) = name.chars :=
      decodeLossy_encode name.chars
    rw [Target.addressBytes]
    generalize name.chars.flatMap String.utf8EncodeChar = bytes at *
    obtain ⟨len, hfirst, hread⟩ := readExact_list
      (show [UInt8.ofNat bytes.length].length = 1 from rfl)
      (bytes ++ (beBytes 2 port.toNat ++ rest))
    obtain ⟨domain, hdomain, hbytes⟩ := readExact_list hlen.symm (beBytes 2 port.toNat ++ rest)
    change targetAddr 0x03 ([UInt8.ofNat bytes.length] ++ (bytes ++ (beBytes 2 port.toNat ++ rest)))
      = _
    rw [targetAddr, if_neg (by decide), if_pos rfl, hread, ok_bind]
    dsimp only
    rw [hfirst, List.getD_cons_zero, hbytes, ok_bind]
    dsimp only
    rw [readPort_append, ok_bind, hdomain, htext]
    rfl

/-- **The text that the request parser makes** of a request. -/
theorem readRequest_request (g : Greeting) (t : Target) :
    readRequest (t.request g) = .ok (.connect t.text) := by
  have hlen : (UInt8.ofNat g.methods.length).toNat = g.methods.length :=
    UInt8.toNat_ofNat_of_lt' g.length_lt
  set target := t.addressBytes ++ (beBytes 2 t.port.toNat ++ g.rest) with htarget
  obtain ⟨hello, hhello, hread⟩ := readExact_list
    (show [0x05, UInt8.ofNat g.methods.length].length = 2 from rfl)
    (g.methods ++ ([g.version, 0x01, g.reserved, t.atyp] ++ target))
  obtain ⟨skipped, -, hmethods⟩ :=
    readExact_list hlen.symm ([g.version, 0x01, g.reserved, t.atyp] ++ target)
  obtain ⟨request, hrequest, hread'⟩ := readExact_list
    (show [g.version, 0x01, g.reserved, t.atyp].length = 4 from rfl) target
  change readRequest ([0x05, UInt8.ofNat g.methods.length] ++
    (g.methods ++ ([g.version, 0x01, g.reserved, t.atyp] ++ target))) = _
  rw [readRequest, hread, ok_bind]
  dsimp only
  rw [hhello, if_neg (by simp), List.getD_cons_succ, List.getD_cons_zero, hmethods, ok_bind]
  dsimp only
  rw [hread', ok_bind]
  dsimp only
  rw [hrequest, if_pos (by simp)]
  change (targetAddr t.atyp target >>= _) = _
  rw [htarget, targetAddr_append, ok_bind]
  rfl

end Request

/-! ## Splitting the text -/

/-- **A host and a port are split again**; what is no address is a name. -/
theorem targetOf_hostPort (host : List Char) (port : UInt16) :
    targetOf (hostPort host port) =
      .ok (match parseIpAddr host with
        | some ip => .ip ip
        | none => .name host, port) := by
  have hcolon : ':' ∉ writeUnsigned port.toNat := fun hmem =>
    absurd (isDigit_of_mem_writeUnsigned hmem) (by decide)
  have hport : parseUnsigned 65535 (writeUnsigned port.toNat) = some port.toNat := by
    rw [parseUnsigned_writeUnsigned, if_pos (Nat.le_of_lt_succ port.toNat_lt)]
  rw [targetOf, hostPort, rsplitOnce_append hcolon]
  dsimp only
  rw [hport]
  dsimp only
  rw [UInt16.ofNat_toNat]

theorem parseIpAddr_writeIpv4 (octets : Bytes 4) :
    parseIpAddr (writeIpv4 octets) = some (.v4 octets) := by
  have hread : readIpv4 (writeIpv4 octets ++ []) = some (octets, []) :=
    readIpv4_append octets (by simp)
  rw [List.append_nil] at hread
  rw [parseIpAddr, hread]
  exact if_pos rfl

/-- No address has brackets. -/
theorem parseIpAddr_bracketed (octets : Bytes 16) : parseIpAddr (bracketed octets) = none := by
  rw [parseIpAddr, bracketed, readIpv4_cons (by decide),
    readIpv6_cons (by decide) (by decide) (by decide)]

/-! ## From the request to the connector -/

/-- The text of a request is split into the host and the port that were asked for. -/
def Reaches (g : Greeting) (t : Target) : Prop :=
  ∃ text, readRequest (t.request g) = .ok (.connect text) ∧ targetOf text = .ok (t.host, t.port)

theorem reaches_eq (g : Greeting) (t : Target) :
    Reaches g t ↔ targetOf t.text = .ok (t.host, t.port) := by
  rw [Reaches, readRequest_request]
  exact ⟨fun ⟨text, htext, h⟩ => by cases htext; exact h, fun h => ⟨_, rfl, h⟩⟩

/-- What becomes of an address of sixteen bytes: a name with brackets. -/
theorem targetOf_v6 (octets : Bytes 16) (port : UInt16) :
    targetOf (Target.text (.v6 octets port)) = .ok (.name (bracketed octets), port) := by
  rw [Target.text, targetOf_hostPort, parseIpAddr_bracketed]

/-- **Which targets reach the connector unchanged**: all but IPv6 addresses. -/
theorem reaches_iff (g : Greeting) (t : Target) :
    Reaches g t ↔ ∀ octets port, t ≠ .v6 octets port := by
  rw [reaches_eq]
  cases t with
  | v4 octets port =>
    refine iff_of_true ?_ fun _ _ => Target.noConfusion
    rw [Target.text, targetOf_hostPort, parseIpAddr_writeIpv4]
    rfl
  | v6 octets port =>
    refine iff_of_false (fun h => ?_) fun h => h octets port rfl
    rw [targetOf_v6] at h
    cases h
  | domain name port =>
    refine iff_of_true ?_ fun _ _ => Target.noConfusion
    rw [Target.text, targetOf_hostPort, name.not_ip]
    rfl

/-- A handshake without authentication. -/
def sampleGreeting : Greeting := ⟨[0x00], by decide, 0x05, 0x00, []⟩

/-- The address `::1`. -/
def loopback : Bytes 16 := ⟨List.replicate 15 0 ++ [1], rfl⟩

/-- A request for it and port 80, and the name that is looked up. -/
theorem ipv6_looked_up :
    ¬ Reaches sampleGreeting (.v6 loopback 80) ∧
      readRequest (Target.request sampleGreeting (.v6 loopback 80)) =
        .ok (.connect "[::1]:80".toList) ∧
      targetOf "[::1]:80".toList = .ok (.name "[::1]".toList, 80) := by
  have hhost : bracketed loopback = "[::1]".toList := by decide +kernel
  have htext : Target.text (.v6 loopback 80) = "[::1]:80".toList := by decide +kernel
  have htarget := targetOf_v6 loopback 80
  have hrequest := readRequest_request sampleGreeting (.v6 loopback 80)
  refine ⟨fun h => ?_, ?_, ?_⟩
  · rw [reaches_eq, htarget] at h
    cases h
  · rwa [htext] at hrequest
  · rwa [htext, hhost] at htarget

end NekoLink.Ctl
