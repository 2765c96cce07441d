import NekoLink.Device.Serialization
import NekoLink.Foundations.Lines

/-!
# The configuration of the control plane

The records of `nekolink-ctl/src/main.rs` that are read from `/etc/neko-link`, `load_configs`,
`decode_base64`, and the two ways in which an instance gets its keys. The crates' readers are
parameters: `Codec` adds to the `Parsers` of the data plane.
-/

namespace NekoLink.Ctl

open Wire Noise

structure PeerConfig where
  endpoint : String
  publicKey : Option String
  presharedKey : Option String
  allowedIps : Option String
  persistentKeepalive : Option UInt16
  signalPort : Option UInt16
  deriving DecidableEq

structure GlobalConfig where
  signalPort : UInt16
  loopbackInterface : Option String
  loopbackAddress : Option String
  deviceId : Option String
  deriving DecidableEq

/-- `GlobalConfig::default` -/
def GlobalConfig.default : GlobalConfig where
  signalPort := 12580
  loopbackInterface := none
  loopbackAddress := none
  deviceId := none

structure NekoConfig where
  interface : String
  mode : String
  ipProtocol : Option UInt8
  localAddress : String
  psk : String
  peers : List PeerConfig
  listenPort : Option UInt16
  autoRoute : Bool
  persistentKeepalive : Option UInt16
  mtu : Option UInt16
  clampMss : Bool
  mullvadTcpPort : UInt16
  nativeWgCompat : Bool
  privateKey : Option String
  useMultiQueue : Bool
  socks5Port : Option UInt16
  enableUdpGro : Bool
  signalPort : Option UInt16
  preferIpv6 : Bool
  socks5ListenLocal : Bool
  socks5ListenLoopback : Bool
  socks5BindAddr : Option String
  deriving DecidableEq

namespace NekoConfig

/-- A file that has only the required fields. -/
def default (interface localAddress psk : String) (peers : List PeerConfig) : NekoConfig where
  interface := interface
  mode := "udp"
  ipProtocol := none
  localAddress := localAddress
  psk := psk
  peers := peers
  listenPort := none
  autoRoute := false
  persistentKeepalive := none
  mtu := none
  clampMss := false
  mullvadTcpPort := 12581
  nativeWgCompat := false
  privateKey := none
  useMultiQueue := false
  socks5Port := none
  enableUdpGro := true
  signalPort := none
  preferIpv6 := false
  socks5ListenLocal := true
  socks5ListenLoopback := false
  socks5BindAddr := none

/-- No peer has an endpoint, so this end waits for the others. -/
def isServer (config : NekoConfig) : Bool :=
  config.peers.isEmpty || config.peers.all fun p => p.endpoint.isEmpty

/-- The protocol number of the raw signalling. -/
def rawProtocol (config : NekoConfig) : UInt8 := config.ipProtocol.getD 141

end NekoConfig

/-- `NekoState`, without the process it may own. -/
structure NekoState where
  config : NekoConfig
  privB64 : String
  pubKey : Bytes 32
  globalConfig : GlobalConfig
  deriving DecidableEq

/-! ## The files -/

/-- The crates' readers and writers. -/
structure Codec extends Parsers where
  /-- `BASE64.encode` -/
  base64Encode : List UInt8 → List Char
  /-- `serde_json::from_str` -/
  globalConfig : String → Option GlobalConfig
  nekoConfig : String → Option NekoConfig

/-- The directory as a pass reads it. -/
structure ConfigDir where
  /-- The names that match `*.json`, in the order of the glob, with the texts that can be read -/
  jsonFiles : List (String × Option String)
  /-- The text of the key file of an interface -/
  keyFile : String → Option String
  /-- The secret drawn when there is none, and whether it can be written -/
  newKey : String → Bytes 32 × Bool

/-- Read all configurations. A file that cannot be read ends the pass, and one that cannot be
parsed is skipped. -/
def loadConfigs (J : Codec) (dir : ConfigDir) : Option (GlobalConfig × List NekoConfig) :=
  let globalConfig :=
    ((dir.jsonFiles.lookup "global.json").bind fun content =>
      content.bind J.globalConfig).getD GlobalConfig.default
  let others := dir.jsonFiles.filter fun file => file.1 != "global.json"
  (others.mapM Prod.snd).map fun texts =>
    (globalConfig, texts.filterMap J.nekoConfig)

/-! ## Keys -/

/-- Standard base64; when it is refused, once more with the padding corrected. -/
def decodeBase64 (J : Codec) (s : List Char) : Option (List UInt8) :=
  match J.base64Decode (Text.trim s) with
  | some bytes => some bytes
  | none =>
    let padded := (Text.trim s).rdropWhile (· == '=')
    let len := (padded.flatMap String.utf8EncodeChar).length
    J.base64Decode (padded ++ List.replicate ((4 - len % 4) % 4) '=')

/-- The private key as text, and the public key. -/
abbrev Keys := String × Bytes 32

section

variable (J : Codec) (C : Prims) (dir : ConfigDir)

/-- The keys of the key file of an interface, which is written when there is none. -/
def loadOrGenerateKeys (interface : String) : Option Keys :=
  let secret : Option (Bytes 32) :=
    match dir.keyFile interface with
    | some text => (J.base64Decode (Text.trim text.toList)).bind KeyBytes.ofList
    | none => if (dir.newKey interface).2 then some (dir.newKey interface).1 else none
  secret.map fun key => (String.ofList (J.base64Encode key.toList), C.publicKey key)

/-- The keys of a configuration at the start, where a key that cannot be read is an error. -/
def initialKeys (config : NekoConfig) : Option Keys :=
  match config.privateKey with
  | some pk =>
    ((decodeBase64 J pk.toList).bind KeyBytes.ofList).map fun key => (pk, C.publicKey key)
  | none => loadOrGenerateKeys J C dir config.interface

/-- The keys of a configuration at a reload. A key that cannot be read is replaced by that of the
key file, and that by no key. -/
def reloadKeys (config : NekoConfig) : Keys :=
  let keyFile :=
    (loadOrGenerateKeys J C dir config.interface).getD ("", zeros 32)
  match config.privateKey with
  | some pk =>
    match (decodeBase64 J pk.toList).bind KeyBytes.ofList with
    | some key => (pk, C.publicKey key)
    | none => keyFile
  | none => keyFile

end

end NekoLink.Ctl
