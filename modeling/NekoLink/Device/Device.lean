import NekoLink.Device.AllowedIps
import NekoLink.Device.IndexLfsr
import NekoLink.Noise.Tunn

/-!
# The device and its peers

`Peer` of `device/peer.rs`, and the tables of `Device` of `device/mod.rs` with the functions that
change them. Peers are shared and mutable, so they live in a heap and the tables hold positions in
it. Sockets, log messages and the interface are left out. `Device.step` is one call on the device.
-/

namespace NekoLink.Device

open Wire Noise Routing

inductive TransportMode
  | udp
  | rawIp
  | tcp
  deriving DecidableEq

inductive SocketAddr
  | v4 (octets : Bytes 4) (port : UInt16)
  | v6 (octets : Bytes 16) (port : UInt16) (flowinfo scopeId : UInt32)
  deriving DecidableEq

namespace SocketAddr

/-- `SocketAddr::new` -/
def new (ip : IpAddr) (port : UInt16) : SocketAddr :=
  match ip with
  | .v4 octets => .v4 octets port
  | .v6 octets => .v6 octets port 0 0

def ip : SocketAddr → IpAddr
  | .v4 octets _ => .v4 octets
  | .v6 octets _ _ _ => .v6 octets

end SocketAddr

/-! ## Peers -/

structure Peer (C : Prims) (T : Type → Type) where
  /-- The associated tunnel struct -/
  tunnel : Tunn C
  /-- The index the tunnel uses -/
  index : UInt32
  endpoint : Option SocketAddr
  allowedIps : AllowedIps T Unit
  presharedKey : Option (Bytes 32)
  transportMode : TransportMode

/-- A call on one peer: on its tunnel, or when a packet has come from an address. -/
inductive PeerCall
  | tunnel (env : Env) (call : Tunn.Call)
  | handleVerifiedPacket (env : Env) (packet : Packet) (dstLen : ℕ)
  | setEndpoint (addr : SocketAddr)

namespace Peer

variable {C : Prims} {T : Type → Type} [Table T IpNetwork IpAddr]

def new (tunnel : Tunn C) (index : UInt32) (endpoint : Option SocketAddr)
    (allowedIps : List AllowedIP) (presharedKey : Option (Bytes 32))
    (transportMode : TransportMode) : Peer C T where
  tunnel := tunnel
  index := index
  endpoint := endpoint
  allowedIps := .fromIter (allowedIps.map fun ip => (ip, ()))
  presharedKey := presharedKey
  transportMode := transportMode

variable (p : Peer C T)

def isAllowedIp (addr : IpAddr) : Bool := (p.allowedIps.find addr).isSome

def setEndpoint (addr : SocketAddr) : Peer C T := { p with endpoint := some addr }

def persistentKeepalive : Option ℕ :=
  if 0 < p.tunnel.timers.persistentKeepalive then some p.tunnel.timers.persistentKeepalive else none

/-- One call, with the result of the tunnel. -/
def step : PeerCall → Option (Peer C T × TunnResult)
  | .tunnel env call => (p.tunnel.step (env, call)).map fun (tunnel, r) => ({ p with tunnel }, r)
  | .handleVerifiedPacket env packet dstLen =>
    (p.tunnel.handleVerifiedPacket env packet dstLen).map fun (tunnel, r) => ({ p with tunnel }, r)
  | .setEndpoint addr => some (p.setEndpoint addr, .done)

end Peer

/-! ## The device -/

/-- The number of handshakes per second we can tolerate before using cookies -/
def handshakeRateLimit : ℕ := 100

/-- The size of a thread's buffers. -/
def maxUdpSize : ℕ := 2 ^ 16 - 1

/-- A position in the heap, for `Arc<Mutex<Peer>>`. -/
abbrev PeerRef := ℕ

abbrev HashMap (K V : Type) := AList fun _ : K => V

theorem publicKey_self (C : Prims) (privateKey : Bytes 32) :
    C.publicKey privateKey = C.publicKey privateKey := rfl

/-- A static key with its public key. -/
structure KeyPair (C : Prims) where
  privateKey : Bytes 32
  publicKey : Bytes 32
  public_eq : C.publicKey privateKey = publicKey

/-- What the creation of a tunnel draws and reads. -/
structure TunnSeed where
  env : Env
  stamper : TimeStamper

end NekoLink.Device

namespace NekoLink

open Wire Device Noise

structure Device (C : Prims) (T : Type → Type) where
  /-- Every peer created so far. -/
  heap : List (Peer C T)
  keyPair : Option (KeyPair C)
  peers : HashMap (Bytes 32) PeerRef
  peersByIp : AllowedIps T PeerRef
  peersByIdx : HashMap UInt32 PeerRef
  nextIndex : IndexLfsr
  transportMode : TransportMode
  rateLimiter : Option RateLimiter

end NekoLink

namespace NekoLink.Device

open Wire Noise Routing

variable {C : Prims} {T : Type → Type} [Table T IpNetwork IpAddr]

/-- The tables of `Device::new`. -/
def new (nextIndex : IndexLfsr) (transportMode : TransportMode) : Device C T where
  heap := []
  keyPair := none
  peers := ∅
  peersByIp := .new
  peersByIdx := ∅
  nextIndex := nextIndex
  transportMode := transportMode
  rateLimiter := none

variable (d : Device C T)

/-- The peer behind a position. -/
def lock (peer : PeerRef) : Option (Peer C T) := d.heap[peer]?

/-- Purge all references to a peer. -/
def removePeer (pubKey : Bytes 32) : Device C T :=
  match d.peers.lookup pubKey with
  | none => d
  | some peer =>
    { d with
      peers := d.peers.erase pubKey
      peersByIdx :=
        match d.lock peer with
        | some p => d.peersByIdx.erase p.index
        | none => d.peersByIdx
      peersByIp := d.peersByIp.remove fun p => p == peer }

/-- Put a new peer into the tables. -/
def addPeer (nextIndex : IndexLfsr) (pubKey : Bytes 32) (p : Peer C T)
    (allowedIps : List AllowedIP) : Device C T :=
  let peer := d.heap.length
  { d with
    heap := d.heap ++ [p]
    nextIndex := nextIndex
    peers := d.peers.insert pubKey peer
    peersByIdx := d.peersByIdx.insert p.index peer
    peersByIp := d.peersByIp.insertAll (allowedIps.map fun ip => (ip, peer)) }

/-- `none` is the assertion of `next_index`. -/
def updatePeer (seed : TunnSeed) (pubKey : Bytes 32) (remove _replaceIps : Bool)
    (endpoint : Option SocketAddr) (allowedIps : List AllowedIP) (keepalive : Option ℕ)
    (presharedKey : Option (Bytes 32)) : Option (Device C T) :=
  if remove then some (d.removePeer pubKey)
  else if (d.peers.lookup pubKey).isSome then some d -- Modifying existing peers is not supported
  else
    d.nextIndex.next.map fun (lfsr, nextIndex) =>
      match d.keyPair with
      | none => { d with nextIndex := lfsr } -- Private key must be set before adding peers
      | some deviceKeyPair =>
        let tunn := Tunn.new C deviceKeyPair.privateKey pubKey presharedKey keepalive nextIndex none
          seed.stamper seed.env
        let peer := Peer.new tunn nextIndex endpoint allowedIps presharedKey d.transportMode
        d.addPeer lfsr pubKey peer allowedIps

def clearPeers : Device C T := { d with peers := ∅, peersByIdx := ∅, peersByIp := .new }

/-- The tunnel of the peer at a position gets a new private key. -/
def setStaticPrivateAt (env : Env) (privateKey publicKey : Bytes 32) (rateLimiter : RateLimiter)
    (heap : List (Peer C T)) (peer : PeerRef) : Option (List (Peer C T)) := do
  let p ← heap[peer]?
  let tunnel ← p.tunnel.setStaticPrivate env privateKey publicKey (some rateLimiter)
  return heap.set peer { p with tunnel }

/-- If the public keys are the same, then the private keys are the same. -/
def setKey (env : Env) (privateKey : Bytes 32) : Option (Device C T) :=
  let publicKey := C.publicKey privateKey
  if some publicKey = d.keyPair.map KeyPair.publicKey then some d
  else
    let rateLimiter := RateLimiter.new C publicKey handshakeRateLimit env.limiter
    let refs := d.peers.entries.map Sigma.snd
    (refs.foldlM (setStaticPrivateAt env privateKey publicKey rateLimiter) d.heap).map fun heap =>
      { d with
        heap
        keyPair := some ⟨privateKey, publicKey, publicKey_self C privateKey⟩
        rateLimiter := some rateLimiter }

/-! ## Runs -/

/-- The calls on a device. -/
inductive Op
  | updatePeer (seed : TunnSeed) (pubKey : Bytes 32) (remove replaceIps : Bool)
    (endpoint : Option SocketAddr) (allowedIps : List AllowedIP) (keepalive : Option ℕ)
    (presharedKey : Option (Bytes 32))
  | removePeer (pubKey : Bytes 32)
  | clearPeers
  | setKey (env : Env) (privateKey : Bytes 32)
  /-- A handler, which holds a reference to the peer. -/
  | peer (peer : PeerRef) (call : PeerCall)

/-- One call, with the result of a tunnel. -/
def step (d : Device C T) : Op → Option (Device C T × TunnResult)
  | .updatePeer seed pubKey remove replaceIps endpoint allowedIps keepalive presharedKey =>
    (d.updatePeer seed pubKey remove replaceIps endpoint allowedIps keepalive presharedKey).map
      fun d => (d, .done)
  | .removePeer pubKey => some (d.removePeer pubKey, .done)
  | .clearPeers => some (d.clearPeers, .done)
  | .setKey env privateKey => (d.setKey env privateKey).map fun d => (d, .done)
  | .peer peer call =>
    (d.lock peer).bind fun p =>
      (p.step call).map fun (p, r) => ({ d with heap := d.heap.set peer p }, r)

/-! ## A concrete device -/

/-- A device of the concrete instance, with no peers. -/
def sampleDevice : Device checksumPrims (PrefixMap IpNetwork) :=
  new (.new 5 9 ⟨by decide, by decide⟩ ⟨by decide, by decide⟩) .tcp

/-- An IPv4 network of the concrete instance. -/
def sampleIp (octets : Bytes 4) (cidr : ℕ) (h : cidr ≤ 32) : AllowedIP := ⟨.v4 octets, cidr, h⟩

def sampleNet : AllowedIP := sampleIp ⟨[10, 0, 0, 0], rfl⟩ 24 (by decide)

def sampleSetKey : Op := .setKey (Tunn.sampleEnv 0 0) (fill 32 1)

/-- A peer with nothing but its allowed IPs. -/
def sampleAdd (pubKey : UInt8) (allowedIps : List AllowedIP) : Op :=
  .updatePeer ⟨Tunn.sampleEnv 0 0, ⟨10 ^ 18, 0⟩⟩ (fill 32 pubKey) false false none allowedIps none
    none

end NekoLink.Device
