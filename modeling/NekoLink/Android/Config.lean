import NekoLink.Device.ApiGet
import NekoLink.Foundations.JavaText
import NekoLink.Noise.Prims

/-!
# The configuration of the Android client

`Config`, `Interface`, `Peer`, `InetEndpoint`, `InetNetwork` and `Key` of
`wireguard-android/tunnel`, as far as the backend uses them. Text is a list of characters, and a
set that keeps the order of insertion is a list. What Android and the Java library do is a
parameter, `Platform`. A configuration for the userspace API is the list of its lines.

* `Key.toHex_injective`: different keys are written differently.
* `PeerBuilder.setPersistentKeepalive_val`: the interval of a peer can be set again.
-/

namespace NekoLink.Android

open Wire Noise Device

/-! ## Keys -/

/-- A key of 32 bytes. -/
abbrev Key := Bytes 32

namespace Key

/-- A character as an `int`. -/
def int (c : Char) : BitVec 32 := BitVec.ofNat 32 c.toNat

/-- Four characters in base64 as a 24-bit number, which is negative if one of them is invalid. -/
def decodeBase64 (c₀ c₁ c₂ c₃ : Char) : BitVec 32 :=
  let value (c : BitVec 32) : BitVec 32 :=
    -1
      + ((((int 'A' - 1 - c) &&& (c - (int 'Z' + 1))) >>> 8) &&& (c - 64))
      + ((((int 'a' - 1 - c) &&& (c - (int 'z' + 1))) >>> 8) &&& (c - 70))
      + ((((int '0' - 1 - c) &&& (c - (int '9' + 1))) >>> 8) &&& (c + 5))
      + ((((int '+' - 1 - c) &&& (c - (int '+' + 1))) >>> 8) &&& 63)
      + ((((int '/' - 1 - c) &&& (c - (int '/' + 1))) >>> 8) &&& 64)
  value (int c₀) <<< 18 ||| value (int c₁) <<< 12 ||| value (int c₂) <<< 6 ||| value (int c₃)

/-- The low byte of an `int` once it is shifted. -/
def byteAt (val : BitVec 32) (shift : ℕ) : UInt8 := UInt8.ofNat ((val >>> shift).toNat % 256)

/-- The bytes of chunks of four characters, with the signs of their numbers; the last chunk has two
bytes, and its last character stands for an `A`. -/
def decodeChunks : List Char → List UInt8 × BitVec 32
  | [c₀, c₁, c₂, _] =>
    let val := decodeBase64 c₀ c₁ c₂ 'A'
    ([byteAt val 16, byteAt val 8], val >>> 31 ||| (val &&& 0xff))
  | c₀ :: c₁ :: c₂ :: c₃ :: rest =>
    let val := decodeBase64 c₀ c₁ c₂ c₃
    let (bytes, ret) := decodeChunks rest
    (byteAt val 16 :: byteAt val 8 :: byteAt val 0 :: bytes, val >>> 31 ||| ret)
  | _ => ([], 0)

def fromBase64 (str : List Char) : Option Key :=
  if str.length ≠ 44 ∨ str.getD 43 'A' ≠ '=' then none
  else
    let (bytes, ret) := decodeChunks str
    if h : bytes.length = 32 then if ret ≠ 0 then none else some ⟨bytes, h⟩ else none

/-- A digit of base64. -/
def base64Char (input : BitVec 32) : Char :=
  Char.ofNat (input + int 'A' + (((25 - input) >>> 8) &&& 6) - (((51 - input) >>> 8) &&& 75)
    - (((61 - input) >>> 8) &&& 15) + (((62 - input) >>> 8) &&& 3)).toNat

/-- Three bytes as four characters. -/
def encodeBase64 (b₀ b₁ b₂ : UInt8) : List Char :=
  [b₀.toNat / 4, b₀.toNat % 4 * 16 + b₁.toNat / 16, b₁.toNat % 16 * 4 + b₂.toNat / 64,
    b₂.toNat % 64].map fun n => base64Char (BitVec.ofNat 32 n)

def encodeChunks : List UInt8 → List Char
  | b₀ :: b₁ :: b₂ :: rest => encodeBase64 b₀ b₁ b₂ ++ encodeChunks rest
  | [b₀, b₁] => (encodeBase64 b₀ b₁ 0).take 3 ++ ['=']
  | _ => []

def toBase64 (key : Key) : List Char := encodeChunks key.toList

/-- A digit in base 16. -/
def hexChar (n : BitVec 32) : Char := Char.ofNat (87 + n + ((n - 10).sshiftRight 8 &&& ~~~38)).toNat

def hexByte (b : UInt8) : List Char :=
  [hexChar (BitVec.ofNat 32 (b.toNat / 16)), hexChar (BitVec.ofNat 32 (b.toNat % 16))]

def toHex (key : Key) : List Char := key.toList.flatMap hexByte

theorem hexChar_digits :
    (List.range 16).map (fun n => hexChar (BitVec.ofNat 32 n)) =
      ['0', '1', '2', '3', '4', '5', '6', '7', '8', '9', 'a', 'b', 'c', 'd', 'e', 'f'] := by
  decide +kernel

theorem hexChar_nodup : ((List.range 16).map fun n => hexChar (BitVec.ofNat 32 n)).Nodup := by
  rw [hexChar_digits]
  decide

theorem hexChar_injective {m n : ℕ} (hm : m < 16) (hn : n < 16)
    (h : hexChar (BitVec.ofNat 32 m) = hexChar (BitVec.ofNat 32 n)) : m = n :=
  List.inj_on_of_nodup_map hexChar_nodup (List.mem_range.mpr hm) (List.mem_range.mpr hn) h

theorem length_hexByte (b : UInt8) : (hexByte b).length = 2 := rfl

theorem hexByte_injective {b b' : UInt8} (h : hexByte b = hexByte b') : b = b' := by
  simp only [hexByte, List.cons.injEq, and_true] at h
  have hlt := b.toNat_lt
  have hlt' := b'.toNat_lt
  have hhigh := hexChar_injective (by omega) (by omega) h.1
  have hlow := hexChar_injective (by omega) (by omega) h.2
  exact UInt8.toNat_inj.mp (by omega)

theorem toHex_injective {key key' : Key} (h : key.toHex = key'.toHex) : key = key' := by
  have hlists : ∀ l l' : List UInt8, l.flatMap hexByte = l'.flatMap hexByte → l = l' := by
    intro l
    induction l with
    | nil =>
      rintro (_ | ⟨b', l'⟩) heq
      · rfl
      · cases heq
    | cons b l ih =>
      rintro (_ | ⟨b', l'⟩) heq
      · cases heq
      · rw [List.flatMap_cons, List.flatMap_cons] at heq
        obtain ⟨hbyte, hrest⟩ := List.append_inj heq
          ((length_hexByte b).trans (length_hexByte b').symm)
        rw [hexByte_injective hbyte, ih l' hrest]
  exact List.Vector.toList_injective (hlists _ _ h)

end Key

/-! ## Addresses -/

/-- What is not in the repository. A round is a time at which the resolver is asked. -/
structure Platform where
  /-- `Character.isWhitespace` -/
  isWhitespace : Char → Bool
  /-- `Character.isDigit` -/
  isDigit : Char → Bool
  /-- The classes of `java.util.regex`. On Android they are those of Unicode. -/
  classes : JavaText.CharClasses
  /-- The host and the port of `new URI(..)` -/
  uri : List Char → Option (Option (List Char) × ℤ)
  /-- `InetAddresses.parseNumericAddress` -/
  parseNumericAddress : List Char → Option IpAddr
  /-- `InetAddress.getHostAddress` -/
  hostAddress : IpAddr → List Char
  /-- `InetAddress.getAllByName`; no address is an unknown host. -/
  getAllByName : ℕ → List Char → List IpAddr
  /-- The native `nekoSignal` -/
  nekoSignal : (serverAddr psk myPubKey : List Char) → Option (List Char)

/-- `White_Space` of Unicode -/
def whiteSpace : List Char :=
  ['\t', '\n', '\x0b', '\x0c', '\r', ' ', '\u0085', '\u00a0', '\u1680', '\u2000', '\u2001', '\u2002',
    '\u2003', '\u2004', '\u2005', '\u2006', '\u2007', '\u2008', '\u2009', '\u200a', '\u2028', '\u2029',
    '\u202f', '\u205f', '\u3000']

/-- Classes for words of ASCII. -/
def sampleClasses : JavaText.CharClasses where
  isSpace c := c ∈ whiteSpace
  isWord c := c.isAlphanum || c = '_'
  space := by decide
  graphic c hlow hhigh := by
    have hends : ∀ d ∈ whiteSpace, d ≤ ' ' ∨ '\x7f' ≤ d := by simp [whiteSpace]
    rw [decide_eq_false_iff_not]
    intro hmem
    rcases hends c hmem with hle | hle
    · exact Char.not_le.mpr hlow hle
    · exact Char.not_le.mpr hhigh hle
  alphanum c h := by rw [h, Bool.true_or]
  word c h := by
    rw [Bool.or_eq_true, decide_eq_true_eq] at h
    exact h.imp_right .inl

section

variable (P : Platform)

/-- `Integer.parseInt` in base 10 -/
def parseInt (s : List Char) : Option ℤ :=
  let digits := if s.head? = some '-' ∨ s.head? = some '+' then s.tail else s
  if digits = [] ∨ ¬ digits.all Char.isDigit then none
  else
    let n : ℤ := digits.foldl (fun acc c => acc * 10 + (c.toNat - '0'.toNat)) 0
    let value := if s.head? = some '-' then -n else n
    if -2 ^ 31 ≤ value ∧ value < 2 ^ 31 then some value else none

structure InetNetwork where
  address : IpAddr
  mask : ℕ
  deriving DecidableEq

/-- The number of bits of an address. -/
def maxMask : IpAddr → ℕ
  | .v4 _ => 32
  | .v6 _ => 128

namespace InetNetwork

/-- The text in front of the last slash, and what is behind it. -/
def splitMask (network : List Char) : List Char × Option (List Char) :=
  match network.reverse.span (· ≠ '/') with
  | (_, []) => (network, none)
  | (mask, _ :: address) => (address.reverse, some mask.reverse)

def parse (network : List Char) : Option InetNetwork := do
  let (rawAddress, maskString) := splitMask network
  let rawMask ← match maskString with
    | none => some (-1)
    | some maskString => parseInt maskString
  if rawAddress = [] then none
  else
    let address ← P.parseNumericAddress rawAddress
    if maxMask address < rawMask then none
    else some ⟨address, if 0 ≤ rawMask then rawMask.toNat else maxMask address⟩

def toString (n : InetNetwork) : List Char := P.hostAddress n.address ++ '/' :: writeUnsigned n.mask

end InetNetwork

/-- The name of a host or its address, and a port. -/
structure InetEndpoint where
  host : List Char
  isResolved : Bool
  port : ℕ
  deriving DecidableEq

namespace InetEndpoint

def parse (endpoint : List Char) : Option InetEndpoint := do
  if '/' ∈ endpoint ∨ '?' ∈ endpoint ∨ '#' ∈ endpoint then none
  else
    let (host, port) ← P.uri ("wg://".toList ++ endpoint)
    if port < 0 ∨ 65535 < port then none
    else
      -- without a host the address parser fails with an exception that is not its own
      let host ← host
      some ⟨host, host ≠ [] && (P.parseNumericAddress host).isSome, port.toNat⟩

def isV4 : IpAddr → Bool
  | .v4 _ => true
  | .v6 _ => false

/-- The endpoint with an address for its host; an IPv4 address is preferred. -/
def getResolved (round : ℕ) (e : InetEndpoint) : Option InetEndpoint :=
  if e.isResolved then some e
  else
    let candidates := P.getAllByName round e.host
    ((candidates.find? isV4).or candidates.head?).map fun address =>
      ⟨P.hostAddress address, true, e.port⟩

/-- The pattern `BARE_IPV6` -/
def isBareIpv6 (host : List Char) : Bool := ':' ∈ host && '[' ∉ host && ']' ∉ host

def toString (e : InetEndpoint) : List Char :=
  (if e.isResolved && isBareIpv6 e.host then '[' :: e.host ++ [']'] else e.host) ++
    ':' :: writeUnsigned e.port

end InetEndpoint

end

/-! ## Peers -/

def maxPersistentKeepalive : ℕ := 65535

/-- An interval that a peer can have. -/
abbrev Keepalive := { k : ℕ // 0 < k ∧ k ≤ maxPersistentKeepalive }

structure Peer where
  allowedIps : List InetNetwork
  endpoint : Option InetEndpoint
  persistentKeepalive : Option Keepalive
  preSharedKey : Option Key
  publicKey : Key

/-- `Peer.Builder` -/
structure PeerBuilder where
  allowedIps : List InetNetwork
  endpoint : Option InetEndpoint
  persistentKeepalive : Option Keepalive
  preSharedKey : Option Key
  publicKey : Option Key

namespace PeerBuilder

def new : PeerBuilder := ⟨[], none, none, none, none⟩

variable (P : Platform) (b : PeerBuilder)

/-- A set keeps an element where it was inserted first. -/
def addAllowedIp (n : InetNetwork) : PeerBuilder :=
  if n ∈ b.allowedIps then b else { b with allowedIps := b.allowedIps ++ [n] }

def addAllowedIps (ns : List InetNetwork) : PeerBuilder := ns.foldl addAllowedIp b

/-- The elements of the list, which is split already. -/
def parseAllowedIPs (elements : List (List Char)) : Option PeerBuilder :=
  elements.foldlM (fun b element => (InetNetwork.parse P element).map b.addAllowedIp) b

def parseEndpoint (endpoint : List Char) : Option PeerBuilder :=
  (InetEndpoint.parse P endpoint).map fun e => { b with endpoint := some e }

def parsePublicKey (publicKey : List Char) : Option PeerBuilder :=
  (Key.fromBase64 publicKey).map fun key => { b with publicKey := some key }

def setPersistentKeepalive (k : ℕ) : Option PeerBuilder :=
  if h : k ≤ maxPersistentKeepalive then
    some { b with
      persistentKeepalive := if h0 : 0 < k then some ⟨k, h0, h⟩ else none }
  else none

def setPreSharedKey (key : Key) : PeerBuilder := { b with preSharedKey := some key }

def build : Option Peer :=
  b.publicKey.map fun publicKey =>
    ⟨b.allowedIps, b.endpoint, b.persistentKeepalive, b.preSharedKey, publicKey⟩

theorem setPersistentKeepalive_val (k : Keepalive) :
    b.setPersistentKeepalive k = some { b with persistentKeepalive := some k } := by
  rw [setPersistentKeepalive, dif_pos k.2.2, dif_pos k.2.1]

/-- The builder with another set of allowed addresses. -/
theorem addAllowedIps_eq (ns : List InetNetwork) :
    ∃ allowedIps, b.addAllowedIps ns = { b with allowedIps } := by
  induction ns generalizing b with
  | nil => exact ⟨_, rfl⟩
  | cons n ns ih =>
    obtain ⟨allowedIps, heq⟩ := ih (b.addAllowedIp n)
    refine ⟨allowedIps, heq.trans ?_⟩
    rw [addAllowedIp]
    split_ifs <;> rfl

theorem parseAllowedIPs_eq_some {elements : List (List Char)} {b' : PeerBuilder}
    (h : b.parseAllowedIPs P elements = some b') : ∃ allowedIps, b' = { b with allowedIps } := by
  induction elements generalizing b with
  | nil =>
    cases h
    exact ⟨_, rfl⟩
  | cons element elements ih =>
    rw [parseAllowedIPs, List.foldlM_cons] at h
    obtain ⟨b₁, hparse, hrest⟩ := Option.bind_eq_some_iff.mp h
    obtain ⟨n, -, rfl⟩ := Option.map_eq_some_iff.mp hparse
    obtain ⟨allowedIps, rfl⟩ := ih _ hrest
    refine ⟨allowedIps, ?_⟩
    rw [addAllowedIp]
    split_ifs <;> rfl

end PeerBuilder

namespace Peer

variable (P : Platform) (round : ℕ) (p : Peer)

/-- The line of the endpoint once it is resolved. -/
def endpointText : Option (List Char) :=
  (p.endpoint.bind (InetEndpoint.getResolved P round)).map InetEndpoint.toString

/-- The lines of a peer; the order is important, `public_key` is the beginning of a peer. -/
def toWgUserspaceString : List (List Char) :=
  ["public_key=".toList ++ p.publicKey.toHex] ++
    p.allowedIps.map (fun n => "allowed_ip=".toList ++ n.toString P) ++
    (p.endpointText P round).toList.map ("endpoint=".toList ++ ·) ++
    (p.persistentKeepalive.toList.map fun k =>
      "persistent_keepalive_interval=".toList ++ writeUnsigned k) ++
    p.preSharedKey.toList.map fun psk => "preshared_key=".toList ++ psk.toHex

variable {P round p} {q : Peer}

theorem toWgUserspaceString_congr (hkey : p.publicKey = q.publicKey)
    (hallowed : p.allowedIps = q.allowedIps)
    (hendpoint : p.endpointText P round = q.endpointText P round)
    (hkeepalive : p.persistentKeepalive = q.persistentKeepalive)
    (hpsk : p.preSharedKey = q.preSharedKey) :
    p.toWgUserspaceString P round = q.toWgUserspaceString P round := by
  rw [toWgUserspaceString, toWgUserspaceString, hkey, hallowed, hendpoint, hkeepalive, hpsk]

/-- Lists of lines of two kinds, of which the second has at most one line. -/
theorem eq_of_append_map {α : Type*} {f g : List Char → List Char} (hg : g.Injective)
    (hfg : ∀ x y, f x ≠ g y) {a b : List α} {h : α → List Char} {x : Option (List Char)}
    {y : List Char} (heq : a.map (fun n => f (h n)) ++ x.toList.map g =
      b.map (fun n => f (h n)) ++ [g y]) : x = some y := by
  cases x with
  | none =>
    have hmem : g y ∈ a.map (fun n => f (h n)) := by
      rw [Option.toList_none, List.map_nil, List.append_nil] at heq
      rw [heq]
      exact List.mem_append_right _ (List.mem_singleton_self _)
    obtain ⟨n, -, hn⟩ := List.mem_map.mp hmem
    exact absurd hn (hfg _ _)
  | some x =>
    have hlast := (List.append_inj' heq rfl).2
    rw [hg (List.singleton_inj.mp hlast)]

/-- **What the lines of a peer tell** about another one with the same keepalive and preshared key:
the public key and the endpoint. -/
theorem of_toWgUserspaceString {endpoint : List Char}
    (h : p.toWgUserspaceString P round = q.toWgUserspaceString P round)
    (hkeepalive : p.persistentKeepalive = q.persistentKeepalive)
    (hpsk : p.preSharedKey = q.preSharedKey) (hendpoint : q.endpointText P round = some endpoint) :
    p.publicKey = q.publicKey ∧ p.endpointText P round = some endpoint := by
  rw [toWgUserspaceString, toWgUserspaceString, hkeepalive, hpsk] at h
  have hfront := List.append_cancel_right (List.append_cancel_right h)
  rw [List.append_assoc, List.append_assoc] at hfront
  obtain ⟨hkey, hrest⟩ := List.append_inj hfront rfl
  constructor
  · exact Key.toHex_injective (List.append_cancel_left (List.singleton_inj.mp hkey))
  · rw [hendpoint] at hrest
    refine eq_of_append_map (f := ("allowed_ip=".toList ++ ·)) (g := ("endpoint=".toList ++ ·))
      (fun x y hxy => List.append_cancel_left hxy) (fun x y hxy => ?_) hrest
    exact absurd (List.head_eq_of_cons_eq hxy) (by decide)

end Peer

/-! ## Configurations -/

structure KeyPair where
  privateKey : Key
  publicKey : Key

structure Interface where
  addresses : List InetNetwork
  dnsServers : List IpAddr
  dnsSearchDomains : List (List Char)
  excludedApplications : List (List Char)
  includedApplications : List (List Char)
  keyPair : KeyPair
  listenPort : Option ℕ
  mtu : Option ℕ
  nekoKey : Option (List Char)

def Interface.toWgUserspaceString (i : Interface) : List (List Char) :=
  ["private_key=".toList ++ i.keyPair.privateKey.toHex] ++
    i.listenPort.toList.map fun port => "listen_port=".toList ++ writeUnsigned port

structure Config where
  interface : Interface
  peers : List Peer

def Config.toWgUserspaceString (P : Platform) (round : ℕ) (c : Config) : List (List Char) :=
  c.interface.toWgUserspaceString ++ ["replace_peers=true".toList] ++
    c.peers.flatMap (Peer.toWgUserspaceString P round)

end NekoLink.Android
