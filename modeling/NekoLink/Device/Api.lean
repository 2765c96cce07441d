import NekoLink.Device.Serialization
import NekoLink.Foundations.Lines

/-!
# Set requests

`api_set` and `api_set_peer` of `device/api.rs`: a request is read line by line, first the device's
settings and then peer sections, whose variables are committed by `update_peer` at the next section
and at the end. The lines come from a `Text.Reader`; what a line draws when it commits a peer or
sets a key comes with its number. The functions that open and mark sockets are parameters.
-/

namespace NekoLink.Device

open Wire Noise Routing

/-- The answer of a request. -/
inductive Status
  | ok
  | eproto
  | einval
  | eaddrinuse
  deriving DecidableEq

/-- A line of a peer section, once its value is read. -/
inductive Directive
  | remove (b : Bool)
  | presharedKey (key : Bytes 32)
  | endpoint (addr : SocketAddr)
  | persistentKeepaliveInterval (interval : ℕ)
  | replaceAllowedIps (b : Bool)
  | allowedIp (ip : AllowedIP)
  | protocolVersion

/-- The variables of `api_set_peer`. -/
structure PeerSection where
  publicKey : Bytes 32
  remove : Bool
  replaceIps : Bool
  endpoint : Option SocketAddr
  keepalive : Option ℕ
  presharedKey : Option (Bytes 32)
  allowedIps : List AllowedIP

namespace PeerSection

def new (publicKey : Bytes 32) : PeerSection where
  publicKey := publicKey
  remove := false
  replaceIps := false
  endpoint := none
  keepalive := none
  presharedKey := none
  allowedIps := []

def set (s : PeerSection) : Directive → PeerSection
  | .remove b => { s with remove := b }
  | .presharedKey key => { s with presharedKey := some key }
  | .endpoint addr => { s with endpoint := some addr }
  | .persistentKeepaliveInterval interval => { s with keepalive := some interval }
  | .replaceAllowedIps b => { s with replaceIps := b }
  | .allowedIp ip => { s with allowedIps := s.allowedIps ++ [ip] }
  | .protocolVersion => s

end PeerSection

section Lines

variable (P : Parsers)

def parseEndpoint (val : List Char) : Option SocketAddr :=
  match P.socketAddr val with
  | some addr => some addr
  | none => (P.ipAddr val).map fun ip => .new ip 0

/-- A line of a peer section other than `public_key`. `none` is a panic, and `some none` stands for
`EINVAL`. -/
def parseDirective (key val : List Char) : Option (Option Directive) :=
  if key = "remove".toList then some ((parseBool val).map .remove)
  else if key = "preshared_key".toList then
    (KeyBytes.fromStr P val).map fun key => key.map .presharedKey
  else if key = "endpoint".toList then some ((parseEndpoint P val).map .endpoint)
  else if key = "persistent_keepalive_interval".toList then
    some ((parseUnsigned 65535 val).map .persistentKeepaliveInterval)
  else if key = "replace_allowed_ips".toList then some ((parseBool val).map .replaceAllowedIps)
  else if key = "allowed_ip".toList then some ((AllowedIP.fromStr P val).map .allowedIp)
  else if key = "protocol_version".toList then
    -- Only version 1 is legal
    some (if parseUnsigned (2 ^ 32 - 1) val = some 1 then some .protocolVersion else none)
  else some none

end Lines

variable {C : Prims} {T : Type → Type} [Table T IpNetwork IpAddr]

/-- Commit the variables of a section. -/
def commit (d : Device C T) (seed : TunnSeed) (s : PeerSection) : Option (Device C T) :=
  d.updatePeer seed s.publicKey s.remove s.replaceIps s.endpoint s.allowedIps s.keepalive
    s.presharedKey

/-- Read the lines of peer sections, from within the section with these variables. -/
def apiSetPeer (P : Parsers) (seeds : ℕ → TunnSeed) (d : Device C T) (s : PeerSection) :
    List (List Char) → Option (Device C T × Status)
  | [] => some (d, .ok)
  | cmd :: cmds =>
    if cmd = [] then (d.commit (seeds 0) s).map fun d => (d, .ok)
    else
      match Text.splitOnce '=' cmd with
      | none => some (d, .eproto)
      | some (key, val) =>
        if key = "public_key".toList then
          -- Commit changes for current peer, and continue to next peer
          (d.commit (seeds 0) s).bind fun d =>
            (KeyBytes.fromStr P val).bind fun publicKey =>
              match publicKey with
              | none => some (d, .einval)
              | some publicKey =>
                apiSetPeer P (fun n => seeds (n + 1)) d { s with publicKey, allowedIps := [] } cmds
        else
          (parseDirective P key val).bind fun directive =>
            match directive with
            | none => some (d, .einval)
            | some directive =>
              apiSetPeer P (fun n => seeds (n + 1)) d (s.set directive) cmds

/-- The functions of the device that work on its sockets, and whether they succeed. -/
structure Sockets (C : Prims) (T : Type → Type) where
  openListenSocket : Device C T → ℕ → Device C T × Bool
  setFwmark : Device C T → ℕ → Device C T × Bool

/-- Read a set request. -/
def apiSetLines (P : Parsers) (S : Sockets C T) (seeds : ℕ → TunnSeed) (d : Device C T) :
    List (List Char) → Option (Device C T × Status)
  | [] => some (d, .ok)
  | cmd :: cmds =>
    if cmd = [] then some (d, .ok)
    else
      match Text.splitOnce '=' cmd with
      | none => some (d, .eproto)
      | some (key, val) =>
        if key = "private_key".toList then
          (KeyBytes.fromStr P val).bind fun privateKey =>
            match privateKey with
            | none => some (d, .einval)
            | some privateKey =>
              (d.setKey (seeds 0).env privateKey).bind fun d =>
                apiSetLines P S (fun n => seeds (n + 1)) d cmds
        else if key = "listen_port".toList then
          match parseUnsigned 65535 val with
          | none => some (d, .einval)
          | some port =>
            match S.openListenSocket d port with
            | (d, true) => apiSetLines P S (fun n => seeds (n + 1)) d cmds
            | (d, false) => some (d, .eaddrinuse)
        else if key = "fwmark".toList then
          match parseUnsigned (2 ^ 32 - 1) val with
          | none => some (d, .einval)
          | some mark =>
            match S.setFwmark d mark with
            | (d, true) => apiSetLines P S (fun n => seeds (n + 1)) d cmds
            | (d, false) => some (d, .eaddrinuse)
        else if key = "replace_peers".toList then
          match parseBool val with
          | none => some (d, .einval)
          | some true => apiSetLines P S (fun n => seeds (n + 1)) d.clearPeers cmds
          | some false => apiSetLines P S (fun n => seeds (n + 1)) d cmds
        else if key = "public_key".toList then
          -- Indicates a new peer section
          (KeyBytes.fromStr P val).bind fun publicKey =>
            match publicKey with
            | none => some (d, .einval)
            | some publicKey => apiSetPeer P (fun n => seeds (n + 1)) d (.new publicKey) cmds
        else some (d, .einval)

/-- `api_set` on what a connection delivers after the line `set=1`. -/
def apiSet (P : Parsers) (S : Sockets C T) (seeds : ℕ → TunnSeed) (d : Device C T)
    (reader : Text.Reader) : Option (Device C T × Status) :=
  apiSetLines P S seeds d reader.commands

end NekoLink.Device
