import NekoLink.Device.Device

/-!
# Reading values

`KeyBytes::from_str` of `serialization.rs`, `AllowedIP::from_str` of `device/peer.rs`, and the
`FromStr` of the booleans and the unsigned integers. Base64 and the text of addresses are
parameters.
-/

namespace NekoLink

open Wire Noise

/-- The readers that are used as they are. -/
structure Parsers where
  /-- `base64::decode` -/
  base64Decode : List Char → Option (List UInt8)
  /-- `IpAddr::from_str` -/
  ipAddr : List Char → Option IpAddr
  /-- `SocketAddr::from_str` -/
  socketAddr : List Char → Option Device.SocketAddr

/-! ## Numbers -/

/-- A nonempty string of decimal digits. -/
def decimal (s : List Char) : Option ℕ :=
  if s = [] then none
  else s.foldlM (fun n c => if c.isDigit then some (10 * n + (c.toNat - '0'.toNat)) else none) 0

/-- An unsigned integer; one leading plus sign is skipped. -/
def parseUnsigned (max : ℕ) (s : List Char) : Option ℕ :=
  let digits :=
    match s with
    | '+' :: digits => digits
    | _ => s
  (decimal digits).filter (· ≤ max)

def parseBool (s : List Char) : Option Bool :=
  if s = "true".toList then some true
  else if s = "false".toList then some false
  else none

/-! ## Keys -/

namespace KeyBytes

/-- A byte that goes on with a character. -/
def isContinuation (b : UInt8) : Bool := b &&& 0xc0 == 0x80

def hexDigit (b : UInt8) : Option UInt8 :=
  if 0x30 ≤ b ∧ b ≤ 0x39 then some (b - 0x30)
  else if 0x61 ≤ b ∧ b ≤ 0x66 then some (b - 0x61 + 10)
  else if 0x41 ≤ b ∧ b ≤ 0x46 then some (b - 0x41 + 10)
  else none

/-- `u8::from_str_radix` on two bytes; it skips a leading plus sign. -/
def fromHex (a b : UInt8) : Option UInt8 :=
  if a = 0x2b then hexDigit b
  else
    match hexDigit a, hexDigit b with
    | some x, some y => some (16 * x + y)
    | _, _ => none

/-- The bytes two by two. `none` is a slice that cuts a character, and `some none` the error. -/
def hexKey : List UInt8 → Option (Option (List UInt8))
  | a :: b :: rest =>
    if isContinuation a || (rest.head?.any isContinuation) then none
    else
      match fromHex a b with
      | none => some none
      | some x => (hexKey rest).map fun key => key.map (x :: ·)
  | _ => some (some [])

/-- The bytes of a key, when there are thirty-two. -/
def ofList (key : List UInt8) : Option (Bytes 32) :=
  if h : key.length = 32 then some ⟨key, h⟩ else none

/-- Can parse a secret key from a hex or base64 encoded string. `none` is a panic, and `some none`
an error. -/
def fromStr (P : Parsers) (s : List Char) : Option (Option (Bytes 32)) :=
  let bytes := s.flatMap String.utf8EncodeChar
  if bytes.length = 64 then (hexKey bytes).map fun key => key.bind ofList
  else if bytes.length = 43 then some ((P.base64Decode (s ++ ['='])).bind ofList)
  else if bytes.length = 44 then some ((P.base64Decode s).bind ofList)
  else some none

end KeyBytes

/-! ## Prefixes -/

/-- `AllowedIP::from_str` -/
def Device.AllowedIP.fromStr (P : Parsers) (s : List Char) : Option AllowedIP :=
  match s.splitOn '/' with
  | [addr, cidr] =>
    match P.ipAddr addr, parseUnsigned 255 cidr with
    | some addr, some cidr => if h : cidr ≤ addr.bits then some ⟨addr, cidr, h⟩ else none
    | _, _ => none
  | _ => none

end NekoLink
