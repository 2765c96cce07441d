import NekoLink.Android.Endpoints
import NekoLink.Android.KeyText
import NekoLink.Foundations.JavaText

/-!
# Configurations as text

`Config.parse` and `toWgQuickString` of `Config`, `Interface` and `Peer`, with the attributes they
are made of. A set that keeps the order of insertion is a list, an exception is `none`, and the
derivation of a public key is a parameter.

* `Attribute.parse_eq_some`: what the value of an attribute looks like.
* `Attribute.parse_trim_line`: what is read of an attribute that is written and trimmed.
-/

namespace NekoLink.Android

open Wire Noise Device JavaText
open Text (unlines)

/-! ## Attributes -/

namespace Attribute

/-- A line `key = value`. -/
def line (key value : List Char) : List Char := key ++ " = ".toList ++ value

/-- The pattern `(\w+)\s*=\s*([^\s#][^#]*)`, which matches a line in one way at most. -/
def parse (K : CharClasses) (line : List Char) : Option (List Char × List Char) :=
  match (line.dropWhile K.isWord).dropWhile K.isSpace with
  | [] => none
  | c :: rest =>
    let key := line.takeWhile K.isWord
    let value := rest.dropWhile K.isSpace
    if c ≠ '=' ∨ key = [] ∨ value = [] ∨ '#' ∈ value then none else some (key, value)

/-- What stands in front of the equals sign in every line that is written. -/
structure Key (key : List Char) : Prop where
  ne_nil : key ≠ []
  alphanum : ∀ c ∈ key, c.isAlphanum = true

theorem Key.of_all {key : List Char} (hne : key ≠ []) (h : key.all Char.isAlphanum = true) :
    Key key := ⟨hne, List.all_eq_true.mp h⟩

section

variable {K : CharClasses} {key value : List Char}

/-- What a value looks like. -/
theorem parse_eq_some {line : List Char} (h : parse K line = some (key, value)) :
    value ≠ [] ∧ '#' ∉ value ∧ (∀ c ∈ value.head?, K.isSpace c = false) ∧ value <:+ line := by
  rw [parse] at h
  split at h
  · cases h
  · rename_i c rest heq
    dsimp only at h
    split_ifs at h with hform
    cases h
    rw [not_or, not_or, not_or] at hform
    obtain ⟨-, -, hne, hhash⟩ := hform
    have hrest : rest <:+ line := by
      have hsuffix :=
        (List.dropWhile_suffix K.isSpace).trans (List.dropWhile_suffix (l := line) K.isWord)
      rw [heq] at hsuffix
      exact (List.suffix_cons c rest).trans hsuffix
    exact ⟨hne, hhash, head_dropWhile _, (List.dropWhile_suffix _).trans hrest⟩

theorem parse_append (hkey : Key key) (text : List Char) :
    parse K (key ++ " =".toList ++ text) =
      if text.dropWhile K.isSpace = [] ∨ '#' ∈ text.dropWhile K.isSpace then none
      else some (key, text.dropWhile K.isSpace) := by
  have hword : ∀ c ∈ key, K.isWord c = true := fun c hc => K.alphanum c (hkey.alphanum c hc)
  have hspace : K.isWord ' ' = false := K.not_isWord rfl (by decide) (by decide)
  have hsplit : key ++ " =".toList ++ text = key ++ ' ' :: '=' :: text := List.append_assoc ..
  have hdrop : (key ++ ' ' :: '=' :: text).dropWhile K.isWord = ' ' :: '=' :: text := by
    rw [List.dropWhile_append_of_pos hword, List.dropWhile_cons_of_neg (by simp [hspace])]
  have htake : (key ++ ' ' :: '=' :: text).takeWhile K.isWord = key := by
    rw [List.takeWhile_append_of_pos hword, List.takeWhile_cons_of_neg (by simp [hspace]),
      List.append_nil]
  have hequals : (' ' :: '=' :: text).dropWhile K.isSpace = '=' :: text := by
    rw [List.dropWhile_cons_of_pos K.space, List.dropWhile_cons_of_neg]
    simp [K.graphic '=' (by decide) (by decide)]
  rw [hsplit, parse, hdrop, htake, hequals]
  simp only [ne_eq, not_true_eq_false, hkey.ne_nil, false_or]

/-- **A line that is trimmed**, whatever its value is. -/
theorem parse_trim_line (hkey : Key key) (value : List Char) :
    trim (line key value) ≠ [] ∧ (trim (line key value)).head? ≠ some '[' ∧
      parse K (trim (line key value)) =
        if settle K value = [] ∨ '#' ∈ settle K value then none
        else some (key, settle K value) := by
  obtain ⟨c, cs, rfl⟩ := List.exists_cons_of_ne_nil hkey.ne_nil
  have halphanum : c.isAlphanum = true := hkey.alphanum c List.mem_cons_self
  have hstart : (line (c :: cs) value).dropWhile isBlank = line (c :: cs) value := by
    refine dropWhile_of_head fun d hd => ?_
    cases hd
    exact CharClasses.not_isBlank_of_isWord (K.alphanum c halphanum)
  have hend : (c :: cs ++ " =".toList).rdropWhile isBlank = c :: cs ++ " =".toList := by
    refine rdropWhile_of_getLast fun d hd => ?_
    rw [List.getLast?_append] at hd
    cases hd
    rfl
  have htrim : trim (line (c :: cs) value) =
      c :: cs ++ " =".toList ++ (' ' :: value).rdropWhile isBlank := by
    have hsplit : line (c :: cs) value = c :: cs ++ " =".toList ++ (' ' :: value) := by simp [line]
    rw [trim, hstart, hsplit, rdropWhile_append]
    split_ifs with hblank
    · rw [hend, hblank, List.append_nil]
    · rfl
  rw [htrim]
  refine ⟨List.cons_ne_nil _ _, ?_, ?_⟩
  · rintro ⟨⟩
    cases halphanum
  · rw [parse_append hkey]
    exact congrArg (fun v => if v = [] ∨ '#' ∈ v then none else some (c :: cs, v))
      (settle_space value)

end

end Attribute

/-! ## Interfaces -/

namespace InetAddresses

/-- `[0-9A-Za-z](?:(?:[0-9A-Za-z]|-){0,61}[0-9A-Za-z])?` -/
def isLabel (label : List Char) : Bool :=
  label ≠ [] && label.length ≤ 63 && label.all (fun c => c.isAlphanum || c = '-') &&
    label.head? ≠ some '-' && label.getLast? ≠ some '-'

/-- The pattern `VALID_HOSTNAME`: labels between dots, with a dot at the end or without one. -/
def isHostname (s : List Char) : Bool :=
  s.length ≤ 255 &&
    ((if s.getLast? = some '.' then s.dropLast else s).splitOn '.').all isLabel

def parse (P : Platform) (address : List Char) : Option IpAddr :=
  if address = [] then none else P.parseNumericAddress address

end InetAddresses

def KeyPair.ofPrivateKey (generatePublicKey : Key → Key) (privateKey : Key) : KeyPair :=
  ⟨privateKey, generatePublicKey privateKey⟩

/-- A set keeps an element where it was inserted first. -/
def addTo {α : Type} [DecidableEq α] (s : List α) (a : α) : List α := if a ∈ s then s else s ++ [a]

/-- `Interface.Builder` -/
structure InterfaceBuilder where
  addresses : List InetNetwork
  dnsServers : List IpAddr
  dnsSearchDomains : List (List Char)
  excludedApplications : List (List Char)
  includedApplications : List (List Char)
  keyPair : Option KeyPair
  listenPort : Option ℕ
  mtu : Option ℕ
  nekoKey : Option (List Char)

namespace InterfaceBuilder

def new : InterfaceBuilder := ⟨[], [], [], [], [], none, none, none, none⟩

variable (P : Platform) (generatePublicKey : Key → Key) (b : InterfaceBuilder)

def addAddress (address : InetNetwork) : InterfaceBuilder :=
  { b with addresses := addTo b.addresses address }

def addDnsServer (dnsServer : IpAddr) : InterfaceBuilder :=
  { b with dnsServers := addTo b.dnsServers dnsServer }

def addDnsSearchDomain (dnsSearchDomain : List Char) : InterfaceBuilder :=
  { b with dnsSearchDomains := addTo b.dnsSearchDomains dnsSearchDomain }

def excludeApplication (application : List Char) : InterfaceBuilder :=
  { b with excludedApplications := addTo b.excludedApplications application }

def includeApplication (application : List Char) : InterfaceBuilder :=
  { b with includedApplications := addTo b.includedApplications application }

def excludeApplications (applications : List (List Char)) : InterfaceBuilder :=
  applications.foldl excludeApplication b

def includeApplications (applications : List (List Char)) : InterfaceBuilder :=
  applications.foldl includeApplication b

def setKeyPair (keyPair : KeyPair) : InterfaceBuilder := { b with keyPair := some keyPair }

def setListenPort (listenPort : ℤ) : Option InterfaceBuilder :=
  if listenPort < 0 ∨ 65535 < listenPort then none
  else some { b with listenPort := if listenPort = 0 then none else some listenPort.toNat }

def setMtu (mtu : ℤ) : Option InterfaceBuilder :=
  if mtu < 0 then none
  else some { b with mtu := if mtu = 0 then none else some mtu.toNat }

/-- The key may be `null`. -/
def setNekoKey (nekoKey : Option (List Char)) : InterfaceBuilder :=
  { b with nekoKey := nekoKey.filter (· ≠ []) }

def parseAddresses (addresses : List Char) : Option InterfaceBuilder :=
  (split P.classes addresses).foldlM (fun b address => (InetNetwork.parse P address).map b.addAddress) b

/-- An element that is no address has to be the name of a search domain. -/
def parseDnsServer (dnsServer : List Char) : Option InterfaceBuilder :=
  match InetAddresses.parse P dnsServer with
  | some address => some (b.addDnsServer address)
  | none =>
    if InetAddresses.isHostname dnsServer then some (b.addDnsSearchDomain dnsServer) else none

def parseDnsServers (dnsServers : List Char) : Option InterfaceBuilder :=
  (split P.classes dnsServers).foldlM (parseDnsServer P) b

def parseExcludedApplications (apps : List Char) : InterfaceBuilder :=
  b.excludeApplications (split P.classes apps)

def parseIncludedApplications (apps : List Char) : InterfaceBuilder :=
  b.includeApplications (split P.classes apps)

def parseListenPort (listenPort : List Char) : Option InterfaceBuilder :=
  (parseInt listenPort).bind b.setListenPort

def parseMtu (mtu : List Char) : Option InterfaceBuilder := (parseInt mtu).bind b.setMtu

def parseNekoKey (nekoKey : List Char) : InterfaceBuilder := b.setNekoKey (some nekoKey)

def parsePrivateKey (privateKey : List Char) : Option InterfaceBuilder :=
  (Key.fromBase64 privateKey).map fun key =>
    b.setKeyPair (KeyPair.ofPrivateKey generatePublicKey key)

/-- There has to be a key, and not both applications that are included and excluded ones. -/
def build : Option Interface :=
  b.keyPair.bind fun keyPair =>
    if b.includedApplications ≠ [] ∧ b.excludedApplications ≠ [] then none
    else some
      { addresses := b.addresses
        dnsServers := b.dnsServers
        dnsSearchDomains := b.dnsSearchDomains
        excludedApplications := b.excludedApplications
        includedApplications := b.includedApplications
        keyPair
        listenPort := b.listenPort
        mtu := b.mtu
        nekoKey := b.nekoKey }

/-- An attribute of an interface, by its key in lower case. -/
def parseAttribute (key value : List Char) : Option InterfaceBuilder :=
  if key = "address".toList then b.parseAddresses P value
  else if key = "dns".toList then b.parseDnsServers P value
  else if key = "excludedapplications".toList then some (b.parseExcludedApplications P value)
  else if key = "includedapplications".toList then some (b.parseIncludedApplications P value)
  else if key = "listenport".toList then b.parseListenPort value
  else if key = "mtu".toList then b.parseMtu value
  else if key = "privatekey".toList then b.parsePrivateKey generatePublicKey value
  else if key = "nekolinkkey".toList then some (b.parseNekoKey value)
  else none

/-- One line of an interface. -/
def parseLine (line : List Char) : Option InterfaceBuilder :=
  (Attribute.parse P.classes line).bind fun (key, value) =>
    b.parseAttribute P generatePublicKey (toLowerCase key) value

end InterfaceBuilder

namespace Interface

variable (P : Platform) (generatePublicKey : Key → Key)

def parse (lines : List (List Char)) : Option Interface :=
  (lines.foldlM (InterfaceBuilder.parseLine P generatePublicKey) .new).bind InterfaceBuilder.build

/-- The attributes of an interface. The search domains go with the servers. -/
def attributes (i : Interface) : List (List Char × List Char) :=
  (if i.addresses = [] then [] else
    [("Address".toList, join (i.addresses.map (InetNetwork.toString P)))]) ++
  (if i.dnsServers = [] then [] else
    [("DNS".toList, join (i.dnsServers.map P.hostAddress ++ i.dnsSearchDomains))]) ++
  (if i.excludedApplications = [] then [] else
    [("ExcludedApplications".toList, join i.excludedApplications)]) ++
  (if i.includedApplications = [] then [] else
    [("IncludedApplications".toList, join i.includedApplications)]) ++
  (i.listenPort.toList.map fun lp => ("ListenPort".toList, writeUnsigned lp)) ++
  (i.mtu.toList.map fun m => ("MTU".toList, writeUnsigned m)) ++
  [("PrivateKey".toList, i.keyPair.privateKey.toBase64)] ++
  i.nekoKey.toList.map fun nk => ("NekoLinkKey".toList, nk)

/-- The lines of an interface, without their ends. -/
def wgQuickLines (i : Interface) : List (List Char) :=
  (i.attributes P).map fun a => Attribute.line a.1 a.2

def toWgQuickString (i : Interface) : List Char := unlines (i.wgQuickLines P)

end Interface

/-! ## Peers -/

namespace PeerBuilder

variable (P : Platform) (b : PeerBuilder)

def parsePersistentKeepalive (persistentKeepalive : List Char) : Option PeerBuilder :=
  (parseInt persistentKeepalive).bind fun k =>
    if k < 0 then none else b.setPersistentKeepalive k.toNat

def parsePreSharedKey (preSharedKey : List Char) : Option PeerBuilder :=
  (Key.fromBase64 preSharedKey).map b.setPreSharedKey

/-- An attribute of a peer, by its key in lower case. -/
def parseAttribute (key value : List Char) : Option PeerBuilder :=
  if key = "allowedips".toList then b.parseAllowedIPs P (split P.classes value)
  else if key = "endpoint".toList then b.parseEndpoint P value
  else if key = "persistentkeepalive".toList then b.parsePersistentKeepalive value
  else if key = "presharedkey".toList then b.parsePreSharedKey value
  else if key = "publickey".toList then b.parsePublicKey value
  else none

/-- One line of a peer. -/
def parseLine (line : List Char) : Option PeerBuilder :=
  (Attribute.parse P.classes line).bind fun (key, value) => b.parseAttribute P (toLowerCase key) value

end PeerBuilder

namespace Peer

variable (P : Platform)

def parse (lines : List (List Char)) : Option Peer :=
  (lines.foldlM (PeerBuilder.parseLine P) .new).bind PeerBuilder.build

def attributes (p : Peer) : List (List Char × List Char) :=
  (if p.allowedIps = [] then [] else
    [("AllowedIPs".toList, join (p.allowedIps.map (InetNetwork.toString P)))]) ++
  (p.endpoint.toList.map fun ep => ("Endpoint".toList, ep.toString)) ++
  (p.persistentKeepalive.toList.map fun (pk : Keepalive) =>
    ("PersistentKeepalive".toList, writeUnsigned pk)) ++
  (p.preSharedKey.toList.map fun psk => ("PreSharedKey".toList, psk.toBase64)) ++
  [("PublicKey".toList, p.publicKey.toBase64)]

def wgQuickLines (p : Peer) : List (List Char) :=
  (p.attributes P).map fun a => Attribute.line a.1 a.2

def toWgQuickString (p : Peer) : List Char := unlines (p.wgQuickLines P)

end Peer

/-! ## Configurations -/

/-- The local variables of `Config.parse` -/
structure ConfigReader where
  peers : List Peer
  interfaceLines : List (List Char)
  peerLines : List (List Char)
  inInterfaceSection : Bool
  inPeerSection : Bool
  seenInterfaceSection : Bool

namespace ConfigReader

variable (P : Platform) (generatePublicKey : Key → Key) (r : ConfigReader)

def new : ConfigReader := ⟨[], [], [], false, false, false⟩

/-- The peer whose lines have been read, when there is one. -/
def parsePeer : Option ConfigReader :=
  if r.inPeerSection then
    (Peer.parse P r.peerLines).map fun peer =>
      { r with peers := r.peers ++ [peer], peerLines := [] }
  else some r

/-- A line without its comment. -/
def withoutComment (line : List Char) : List Char := trim (line.takeWhile (· ≠ '#'))

/-- A line that is trimmed and not empty. -/
def parseLine (line : List Char) : Option ConfigReader :=
  if line.head? = some '[' then
    (r.parsePeer P).bind fun r =>
      if equalsIgnoreCase "[Interface]".toList line then
        some { r with
          inInterfaceSection := true, inPeerSection := false, seenInterfaceSection := true }
      else if equalsIgnoreCase "[Peer]".toList line then
        some { r with inInterfaceSection := false, inPeerSection := true }
      else none
  else if r.inInterfaceSection then some { r with interfaceLines := r.interfaceLines ++ [line] }
  else if r.inPeerSection then some { r with peerLines := r.peerLines ++ [line] }
  else none

def readLine (line : List Char) : Option ConfigReader :=
  if withoutComment line = [] then some r else r.parseLine P (withoutComment line)

/-- The end of the text. -/
def finish : Option Config :=
  (r.parsePeer P).bind fun r =>
    if r.seenInterfaceSection then
      (Interface.parse P generatePublicKey r.interfaceLines).map fun interface =>
        ⟨interface, r.peers⟩
    else none

end ConfigReader

namespace Config

variable (P : Platform) (generatePublicKey : Key → Key)

def parse (text : List Char) : Option Config :=
  ((readLines text).foldlM (ConfigReader.readLine P) .new).bind
    (ConfigReader.finish P generatePublicKey)

def toWgQuickString (c : Config) : List Char :=
  "[Interface]\n".toList ++ c.interface.toWgQuickString P ++
    c.peers.flatMap fun peer => "\n[Peer]\n".toList ++ peer.toWgQuickString P

end Config

end NekoLink.Android
