import NekoLink.Foundations.Bytes

/-!
# Cryptographic primitives and their wrappers

What the `noise` module takes from its crates and its target is a parameter `C : Prims`: X25519,
BLAKE2s plain, keyed and under HMAC, the two AEADs, and the width of `usize`. `Prims.Lawful` states
what the code relies on. The wrappers `b2s_hash`, `b2s_hmac`, … of `handshake.rs` are defined over
it. A computation that can panic returns an `Option`, and `none` is the panic.
-/

namespace NekoLink.Noise

open Wire

/-- The crates' functions and the target's word size. -/
structure Prims where
  /-- `x25519::PublicKey::from(&secret)` -/
  publicKey : Bytes 32 → Bytes 32
  /-- `secret.diffie_hellman(&public)` -/
  diffieHellman : Bytes 32 → Bytes 32 → Bytes 32
  /-- BLAKE2s-256 of the concatenated updates -/
  blake2s : List UInt8 → Bytes 32
  /-- HMAC over BLAKE2s-256: key, then the concatenated updates -/
  hmacBlake2s : List UInt8 → List UInt8 → Bytes 32
  /-- Keyed BLAKE2s with an output of `n` bytes -/
  blake2sMac : (n : ℕ) → List UInt8 → List UInt8 → Bytes n
  /-- ring's `CHACHA20_POLY1305`: key, nonce, associated data, plaintext; the tag is appended -/
  aeadSeal : Bytes 32 → Bytes 12 → List UInt8 → {n : ℕ} → Bytes n → Bytes (n + 16)
  aeadOpen : Bytes 32 → Bytes 12 → List UInt8 → {n : ℕ} → Bytes (n + 16) → Option (Bytes n)
  /-- `XChaCha20Poly1305`, for cookie replies -/
  xaeadSeal : Bytes 32 → Bytes 24 → List UInt8 → {n : ℕ} → Bytes n → Bytes (n + 16)
  xaeadOpen : Bytes 32 → Bytes 24 → List UInt8 → {n : ℕ} → Bytes (n + 16) → Option (Bytes n)
  /-- The width of `usize` -/
  usizeBits : ℕ

/-- What the code relies on: Diffie-Hellman commutes and opening undoes sealing. -/
class Prims.Lawful (C : Prims) : Prop where
  dh_comm : ∀ a b, C.diffieHellman a (C.publicKey b) = C.diffieHellman b (C.publicKey a)
  open_seal : ∀ k nonce aad {n : ℕ} (p : Bytes n),
    C.aeadOpen k nonce aad (C.aeadSeal k nonce aad p) = some p
  xopen_xseal : ∀ k nonce aad {n : ℕ} (p : Bytes n),
    C.xaeadOpen k nonce aad (C.xaeadSeal k nonce aad p) = some p

inductive WireGuardError
  | destinationBufferTooSmall
  | incorrectPacketLength
  | unexpectedPacket
  | wrongPacketType
  | wrongIndex
  | wrongKey
  | invalidTai64nTimestamp
  | wrongTai64nTimestamp
  | invalidMac
  | invalidAeadTag
  | invalidCounter
  | duplicateCounter
  | invalidPacket
  | noCurrentSession
  | lockFailed
  | connectionExpired
  | underLoad
  deriving DecidableEq

/-- An address of either family, by its octets. -/
inductive IpAddr
  | v4 (octets : Bytes 4)
  | v6 (octets : Bytes 16)
  deriving DecidableEq

inductive TunnResult
  | done
  | err (e : WireGuardError)
  | writeToNetwork (packet : List UInt8)
  | writeToTunnelV4 (packet : List UInt8) (addr : Bytes 4)
  | writeToTunnelV6 (packet : List UInt8) (addr : Bytes 16)
  deriving DecidableEq

/-! ## The wrappers of `handshake.rs` -/

section Wrappers

variable (C : Prims)

def b2sHash (data1 data2 : List UInt8) : Bytes 32 := C.blake2s (data1 ++ data2)

def b2sHmac (key data1 : List UInt8) : Bytes 32 := C.hmacBlake2s key data1

/-- Like `b2sHmac`, but chain `data1` and `data2` together. -/
def b2sHmac2 (key data1 data2 : List UInt8) : Bytes 32 := C.hmacBlake2s key (data1 ++ data2)

def b2sKeyedMac16 (key data1 : List UInt8) : Bytes 16 := C.blake2sMac 16 key data1

def b2sKeyedMac16₂ (key data1 data2 : List UInt8) : Bytes 16 := C.blake2sMac 16 key (data1 ++ data2)

def b2sMac24 (key data1 : List UInt8) : Bytes 24 := C.blake2sMac 24 key data1

/-- The nonce of a counter: four zeros and the counter. -/
def counterNonce (counter : ℕ) : Bytes 12 :=
  ⟨List.replicate 4 0 ++ leBytes 8 counter, by simp⟩

def aeadChacha20Seal (key : Bytes 32) (counter : ℕ) {n : ℕ} (data : Bytes n) (aad : List UInt8) :
    Bytes (n + 16) :=
  C.aeadSeal key (counterNonce counter) aad data

def aeadChacha20Open (key : Bytes 32) (counter : ℕ) {n : ℕ} (data : Bytes (n + 16))
    (aad : List UInt8) : Except WireGuardError (Bytes n) :=
  match C.aeadOpen key (counterNonce counter) aad data with
  | some plaintext => .ok plaintext
  | none => .error .invalidAeadTag

variable {C}

theorem aeadChacha20Open_seal [C.Lawful] (key : Bytes 32) (counter : ℕ) {n : ℕ} (data : Bytes n)
    (aad : List UInt8) :
    aeadChacha20Open C key counter (aeadChacha20Seal C key counter data aad) aad = .ok data := by
  rw [aeadChacha20Open, aeadChacha20Seal, Prims.Lawful.open_seal]

end Wrappers

/-! ## A concrete instance

Diffie-Hellman over the bytes with generator `3`, a checksum for the hashes and an AEAD that only
appends the checksum of everything it authenticates. It satisfies the laws and is cheap to
evaluate; nothing else is claimed of it. -/

section Checksum

/-- A checksum of a byte string, below `251`. -/
def checksum (l : List UInt8) : ℕ := l.foldl (fun acc b => (acc * 31 + b.toNat + 7) % 251) 0

/-- `n` copies of a byte. -/
def fill (n : ℕ) (b : UInt8) : Bytes n := ⟨List.replicate n b, List.length_replicate⟩

/-- `n` copies of the checksum. -/
def spread (n : ℕ) (l : List UInt8) : Bytes n := fill n (UInt8.ofNat (checksum l))

def checksumSeal {k : ℕ} (key : Bytes 32) (nonce : Bytes k) (aad : List UInt8) {n : ℕ}
    (p : Bytes n) : Bytes (n + 16) :=
  p ++ spread 16 (key.toList ++ nonce.toList ++ aad ++ p.toList)

def checksumOpen {k : ℕ} (key : Bytes 32) (nonce : Bytes k) (aad : List UInt8) {n : ℕ}
    (c : Bytes (n + 16)) : Option (Bytes n) :=
  let p : Bytes n := ⟨c.toList.take n, by simp⟩
  if c = checksumSeal key nonce aad p then some p else none

theorem checksumOpen_seal {k : ℕ} (key : Bytes 32) (nonce : Bytes k) (aad : List UInt8) {n : ℕ}
    (p : Bytes n) : checksumOpen key nonce aad (checksumSeal key nonce aad p) = some p := by
  have h : (⟨(checksumSeal key nonce aad p).toList.take n, by simp⟩ : Bytes n) = p := by
    apply List.Vector.toList_injective
    simp [checksumSeal]
  simp only [checksumOpen]
  rw [h, if_pos rfl]

/-- The checksum instance, on a 64-bit target. -/
def checksumPrims : Prims where
  publicKey b := b.map (3 * ·)
  diffieHellman a b := List.Vector.map₂ (· * ·) a b
  blake2s l := spread 32 l
  hmacBlake2s key l := spread 32 (key ++ l)
  blake2sMac n key l := spread n (key ++ l)
  aeadSeal := checksumSeal
  aeadOpen := checksumOpen
  xaeadSeal := checksumSeal
  xaeadOpen := checksumOpen
  usizeBits := 64

instance : checksumPrims.Lawful where
  dh_comm a b := by
    apply List.Vector.ext
    intro i
    simp only [checksumPrims, List.Vector.get_map₂, List.Vector.get_map]
    rw [UInt8.mul_comm, UInt8.mul_comm 3, UInt8.mul_assoc, UInt8.mul_comm 3]
  open_seal := checksumOpen_seal
  xopen_xseal := checksumOpen_seal

end Checksum

end NekoLink.Noise
