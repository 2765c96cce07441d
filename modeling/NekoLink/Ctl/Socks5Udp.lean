import NekoLink.Device.UdpHandler
import NekoLink.Foundations.Utf8

/-!
# Headers of relayed datagrams

The UDP relay of `handle_socks5` of `nekolink-ctl/src/main.rs`: `parse_socks5_udp_header` takes the
target from the front of a client's datagram, and the relay and `append_socks5_udp_header` write
such headers. `none` is a panic, and ends the task of the relay.

* `readIp_append`, `eq_of_readIp`: a numeric address is read exactly as it is written.
* `parse_domain`: the name of a whole domain header is the one that is resolved.
* `exact_iff`: every datagram is parsed exactly, but for the four bytes whose fifth is read unseen.
* `short_domain_panics`: such a datagram.
-/

namespace NekoLink.Ctl

open Wire Noise Device Routing Text

/-! ## Parsing -/

/-- An address of `n` bytes and its port behind the first four bytes. -/
def readIp {n : ℕ} (ip : Bytes n → IpAddr) (short : String) (buf : List UInt8) :
    Except String (ℕ × SocketAddr) :=
  if h : buf.length < 4 + n + 2 then .error short
  else
    let port := UInt16.ofNat (beValue (slice buf (4 + n) (4 + n + 2)))
    .ok (4 + n + 2, .new (ip (fieldAt buf 4 n (by omega))) port)

/-- What `resolve_dns(&domain, Some(interface), false)` answers is `resolveDns`. -/
def parseSocks5UdpHeader (resolveDns : List Char → Except String IpAddr) (buf : List UInt8) :
    Option (Except String (ℕ × SocketAddr)) :=
  if buf.length < 4 then some (.error "UDP header too short")
  else if buf.getD 2 0 ≠ 0x00 then some (.error "Fragments not supported")
  else if buf.getD 3 0 = 0x01 then some (readIp .v4 "UDP header too short for IPv4" buf)
  else if buf.getD 3 0 = 0x03 then
    buf[4]?.bind fun len => -- the index is not checked
      let len := len.toNat
      if buf.length < 5 + len + 2 then some (.error "UDP header too short for Domain")
      else
        let domain := decodeLossy (slice buf 5 (5 + len))
        let port := UInt16.ofNat (beValue (slice buf (5 + len) (5 + len + 2)))
        some ((resolveDns domain).map fun ip => (5 + len + 2, .new ip port))
  else if buf.getD 3 0 = 0x04 then some (readIp .v6 "UDP header too short for IPv6" buf)
  else some (.error "Unsupported address type in UDP header")

/-! ## Writing -/

def appendSocks5UdpHeader (buf : List UInt8) (addr : SocketAddr) : List UInt8 :=
  buf ++ [0x00, 0x00, 0x00] ++
    match addr with
    | .v4 octets port => 0x01 :: (octets.toList ++ beBytes 2 port.toNat)
    | .v6 octets port _ _ => 0x04 :: (octets.toList ++ beBytes 2 port.toNat)

/-- What the relay sends to the client for a datagram from an address. -/
def relayResponse (addr : SocketAddr) (data : List UInt8) : List UInt8 :=
  [0x00, 0x00, 0x00] ++
    (match addr with
    | .v4 octets _ => 0x01 :: octets.toList
    | .v6 octets _ _ _ => 0x04 :: octets.toList) ++
    beBytes 2 addr.port.toNat ++ data

/-! ## Headers -/

/-- The address type and the bytes of an address. -/
def ipBytes : IpAddr → List UInt8
  | .v4 octets => 0x01 :: octets.toList
  | .v6 octets => 0x04 :: octets.toList

/-- A complete header with any reserved bytes. -/
def udpHeader (r r' : UInt8) (addr : SocketAddr) : List UInt8 :=
  r :: r' :: 0x00 :: (ipBytes addr.ip ++ beBytes 2 addr.port.toNat)

theorem appendSocks5UdpHeader_eq (buf : List UInt8) (addr : SocketAddr) :
    appendSocks5UdpHeader buf addr = buf ++ udpHeader 0 0 addr := by
  cases addr <;> simp [appendSocks5UdpHeader, udpHeader, ipBytes, SocketAddr.ip, SocketAddr.port]

theorem relayResponse_eq (addr : SocketAddr) (data : List UInt8) :
    relayResponse addr data = udpHeader 0 0 addr ++ data := by
  cases addr <;> simp [relayResponse, udpHeader, ipBytes, SocketAddr.ip, SocketAddr.port]

theorem port_beBytes (port : UInt16) : UInt16.ofNat (beValue (beBytes 2 port.toNat)) = port := by
  rw [beValue_beBytes_of_lt port.toNat_lt, UInt16.ofNat_toNat]

section ReadIp

variable {n : ℕ} {ip : Bytes n → IpAddr} {short : String}

/-- An address that is written is read. -/
theorem readIp_append {front : List UInt8} (hfront : front.length = 4) (octets : Bytes n)
    (port : UInt16) (rest : List UInt8) :
    readIp ip short (front ++ (octets.toList ++ (beBytes 2 port.toNat ++ rest))) =
      .ok (4 + n + 2, .new (ip octets) port) := by
  have hoctets : octets.toList.length = n := octets.toList_length
  have hfield : slice (front ++ (octets.toList ++ (beBytes 2 port.toNat ++ rest))) 4 (4 + n) =
      octets.toList := by
    rw [slice_append_right hfront.le, hfront, Nat.sub_self, Nat.add_sub_cancel_left,
      slice_append_zero hoctets]
  have hport : slice (front ++ (octets.toList ++ (beBytes 2 port.toNat ++ rest))) (4 + n)
      (4 + n + 2) = beBytes 2 port.toNat := by
    rw [← List.append_assoc, slice_append_right (by simp [hfront]), List.length_append, hfront,
      hoctets, Nat.sub_self, Nat.add_sub_cancel_left, slice_append_zero (by simp)]
  rw [readIp, dif_neg (by simp [hfront]; omega)]
  dsimp only
  rw [hport, port_beBytes, fieldAt_eq _ hfield]

/-- An address that is read was written there. -/
theorem eq_of_readIp {buf : List UInt8} {m : ℕ} {addr : SocketAddr}
    (h : readIp ip short buf = .ok (m, addr)) :
    ∃ octets port rest, addr = .new (ip octets) port ∧ m = 4 + n + 2 ∧
      buf = buf.take 4 ++ (octets.toList ++ (beBytes 2 port.toNat ++ rest)) := by
  rw [readIp] at h
  split_ifs at h with hshort
  cases h
  have hport : (slice buf (4 + n) (4 + n + 2)).length = 2 := by
    rw [length_slice (by omega), Nat.add_sub_cancel_left]
  refine ⟨fieldAt buf 4 n (by omega), _, buf.drop (4 + n + 2), rfl, rfl, ?_⟩
  have hlt : beValue (slice buf (4 + n) (4 + n + 2)) < 2 ^ 16 := by
    have hlt := beValue_lt (slice buf (4 + n) (4 + n + 2))
    rwa [hport] at hlt
  have hbytes : beBytes 2 (beValue (slice buf (4 + n) (4 + n + 2))) =
      slice buf (4 + n) (4 + n + 2) := by
    have hbytes := beBytes_beValue (slice buf (4 + n) (4 + n + 2))
    rwa [hport] at hbytes
  rw [UInt16.toNat_ofNat_of_lt' hlt, hbytes]
  have hfield : (fieldAt buf 4 n (by omega)).toList = slice buf 4 (4 + n) := rfl
  have hrest : buf.drop (4 + n + 2) = ((buf.drop 4).drop n).drop 2 := by
    rw [List.drop_drop, List.drop_drop, Nat.add_assoc]
  rw [hfield, hrest, slice, slice, Nat.add_sub_cancel_left, Nat.add_sub_cancel_left,
    ← List.drop_drop, List.take_append_drop, List.take_append_drop, List.take_append_drop]

end ReadIp

/-! ## Datagrams -/

section Datagrams

variable {resolveDns : List Char → Except String IpAddr} {buf : List UInt8} {r r' : UInt8}

/-- Four bytes are there, and the third is zero. -/
theorem exists_cons_of_not_error (hlen : ¬ buf.length < 4) (hfrag : ¬ buf.getD 2 0 ≠ 0x00) :
    ∃ r r' rest, buf = r :: r' :: 0x00 :: buf.getD 3 0 :: rest := by
  match buf with
  | r :: r' :: frag :: atyp :: rest =>
    obtain rfl : frag = 0x00 := not_not.mp hfrag
    exact ⟨r, r', rest, rfl⟩
  | [] | [_] | [_, _] | [_, _, _] => simp at hlen

theorem parse_v4 (resolveDns : List Char → Except String IpAddr) (r r' : UInt8)
    (rest : List UInt8) :
    parseSocks5UdpHeader resolveDns (r :: r' :: 0x00 :: 0x01 :: rest) =
      some (readIp .v4 "UDP header too short for IPv4" (r :: r' :: 0x00 :: 0x01 :: rest)) := by
  rw [parseSocks5UdpHeader, if_neg (by simp), if_neg (by simp)]
  exact if_pos rfl

theorem parse_v6 (resolveDns : List Char → Except String IpAddr) (r r' : UInt8)
    (rest : List UInt8) :
    parseSocks5UdpHeader resolveDns (r :: r' :: 0x00 :: 0x04 :: rest) =
      some (readIp .v6 "UDP header too short for IPv6" (r :: r' :: 0x00 :: 0x04 :: rest)) := by
  rw [parseSocks5UdpHeader, if_neg (by simp), if_neg (by simp)]
  rfl

/-- Which datagrams make the parser panic. -/
theorem parse_eq_none_iff :
    parseSocks5UdpHeader resolveDns buf = none ↔ ∃ r r', buf = [r, r', 0x00, 0x03] := by
  constructor
  · intro h
    rw [parseSocks5UdpHeader] at h
    split_ifs at h with hlen hfrag hv4 hdomain
    obtain ⟨r, r', rest, hbuf⟩ := exists_cons_of_not_error hlen hfrag
    rw [hdomain] at hbuf
    rcases rest with _ | ⟨len, tail⟩
    · exact ⟨r, r', hbuf⟩
    · -- there is a fifth byte
      rw [hbuf] at h
      dsimp only [List.getElem?_cons_succ, List.getElem?_cons_zero, Option.bind_some] at h
      split_ifs at h
  · rintro ⟨r, r', rfl⟩
    rfl

/-- A header with a numeric address and what follows it. -/
theorem parse_udpHeader (r r' : UInt8) (addr : SocketAddr) (rest : List UInt8) :
    parseSocks5UdpHeader resolveDns (udpHeader r r' addr ++ rest) =
      some (.ok ((udpHeader r r' addr).length, addr.finalAddr)) := by
  have hfront : ∀ atyp : UInt8, [r, r', 0x00, atyp].length = 4 := fun _ => rfl
  cases addr with
  | v4 octets port =>
    have hread : readIp IpAddr.v4 "UDP header too short for IPv4" _ = .ok _ :=
      readIp_append (hfront 0x01) octets port rest
    simpa [udpHeader, ipBytes, SocketAddr.ip, SocketAddr.port, parse_v4, SocketAddr.finalAddr]
      using hread
  | v6 octets port flowinfo scopeId =>
    have hread : readIp IpAddr.v6 "UDP header too short for IPv6" _ = .ok _ :=
      readIp_append (hfront 0x04) octets port rest
    simpa [udpHeader, ipBytes, SocketAddr.ip, SocketAddr.port, parse_v6, SocketAddr.finalAddr]
      using hread

/-- The name of a whole domain header is resolved, and the rest is left. -/
theorem parse_domain {name : List Char} {len : UInt8}
    (hlen : (name.flatMap String.utf8EncodeChar).length = len.toNat) (r r' : UInt8)
    (port : UInt16) (rest : List UInt8) :
    parseSocks5UdpHeader resolveDns (r :: r' :: 0x00 :: 0x03 :: len ::
        (name.flatMap String.utf8EncodeChar ++ (beBytes 2 port.toNat ++ rest))) =
      some ((resolveDns name).map fun ip => (5 + len.toNat + 2, .new ip port)) := by
  set bytes := name.flatMap String.utf8EncodeChar with hbytes
  have hfront : [r, r', 0x00, 0x03, len].length = 5 := rfl
  have hname : slice ([r, r', 0x00, 0x03, len] ++ (bytes ++ (beBytes 2 port.toNat ++ rest))) 5
      (5 + len.toNat) = bytes := by
    rw [slice_append_right hfront.le, hfront, Nat.sub_self, Nat.add_sub_cancel_left,
      slice_append_zero hlen]
  have hport : slice ([r, r', 0x00, 0x03, len] ++ (bytes ++ (beBytes 2 port.toNat ++ rest)))
      (5 + len.toNat) (5 + len.toNat + 2) = beBytes 2 port.toNat := by
    rw [← List.append_assoc, slice_append_right (by simp [hlen]; omega), List.length_append, hfront,
      hlen, Nat.sub_self, Nat.add_sub_cancel_left, slice_append_zero (by simp)]
  have hlong : ¬ (r :: r' :: 0x00 :: 0x03 :: len ::
      (bytes ++ (beBytes 2 port.toNat ++ rest))).length < 5 + len.toNat + 2 := by
    simp only [List.length_cons, List.length_append, hlen, length_beBytes]
    omega
  have hatyp : (r :: r' :: 0x00 :: 0x03 :: len ::
      (bytes ++ (beBytes 2 port.toNat ++ rest))).getD 3 0 = 0x03 := rfl
  rw [parseSocks5UdpHeader, if_neg (by simp), if_neg (by simp), hatyp, if_neg (by decide),
    if_pos rfl]
  dsimp only [List.getElem?_cons_succ, List.getElem?_cons_zero, Option.bind_some]
  rw [if_neg hlong]
  simp only [List.cons_append, List.nil_append] at hname hport
  rw [hname, hport, port_beBytes, hbytes, decodeLossy_encode]

/-- The address type is a numeric one. -/
def Numeric (buf : List UInt8) : Prop := buf[3]? = some 0x01 ∨ buf[3]? = some 0x04

/-- What is parsed of a numeric type was a complete header. -/
theorem eq_of_parse {n : ℕ} {addr : SocketAddr} (hnumeric : Numeric buf)
    (h : parseSocks5UdpHeader resolveDns buf = some (.ok (n, addr))) :
    ∃ r r' ip port rest, addr = .new ip port ∧ buf = udpHeader r r' addr ++ rest ∧
      n = (udpHeader r r' addr).length := by
  have hshape : ¬ buf.length < 4 ∧ ¬ buf.getD 2 0 ≠ 0x00 := by
    rw [parseSocks5UdpHeader] at h
    constructor
    · intro hlen
      rw [if_pos hlen] at h
      cases h
    · intro hfrag
      rw [if_pos hfrag] at h
      split_ifs at h <;> cases h
  obtain ⟨r, r', rest, hbuf⟩ := exists_cons_of_not_error hshape.1 hshape.2
  rcases hnumeric with htype | htype
  · have hatyp : buf.getD 3 0 = 0x01 := by rw [List.getD_eq_getElem?_getD, htype]; rfl
    rw [hatyp] at hbuf
    subst hbuf
    rw [parse_v4] at h
    obtain ⟨octets, port, rest', rfl, rfl, hsplit⟩ := eq_of_readIp (Option.some.inj h)
    refine ⟨r, r', _, port, rest', rfl, hsplit.trans ?_, ?_⟩
    · simp [udpHeader, ipBytes, SocketAddr.new, SocketAddr.ip, SocketAddr.port]
    · simp [udpHeader, ipBytes, SocketAddr.new, SocketAddr.ip, SocketAddr.port]
  · have hatyp : buf.getD 3 0 = 0x04 := by rw [List.getD_eq_getElem?_getD, htype]; rfl
    rw [hatyp] at hbuf
    subst hbuf
    rw [parse_v6] at h
    obtain ⟨octets, port, rest', rfl, rfl, hsplit⟩ := eq_of_readIp (Option.some.inj h)
    refine ⟨r, r', _, port, rest', rfl, hsplit.trans ?_, ?_⟩
    · simp [udpHeader, ipBytes, SocketAddr.new, SocketAddr.ip, SocketAddr.port]
    · simp [udpHeader, ipBytes, SocketAddr.new, SocketAddr.ip, SocketAddr.port]

/-- The header of a domain, as far as it goes, ends before the port. -/
def TruncatedDomain (buf : List UInt8) : Prop :=
  ∃ r r' rest, buf = r :: r' :: 0x00 :: 0x03 :: rest ∧
    ∀ len tail, rest = len :: tail → tail.length < len.toNat + 2

/-- A datagram is parsed exactly. -/
structure Exact (resolveDns : List Char → Except String IpAddr) (buf : List UInt8) : Prop where
  returns : parseSocks5UdpHeader resolveDns buf ≠ none
  numeric : Numeric buf → ∀ n addr,
    parseSocks5UdpHeader resolveDns buf = some (.ok (n, addr)) ↔
      ∃ r r' ip port rest, addr = .new ip port ∧ buf = udpHeader r r' addr ++ rest ∧
        n = (udpHeader r r' addr).length
  truncated : TruncatedDomain buf → ∃ e, parseSocks5UdpHeader resolveDns buf = some (.error e)

theorem error_of_truncatedDomain (h : TruncatedDomain buf)
    (hreturns : parseSocks5UdpHeader resolveDns buf ≠ none) :
    ∃ e, parseSocks5UdpHeader resolveDns buf = some (.error e) := by
  obtain ⟨r, r', rest, rfl, hshort⟩ := h
  rcases rest with _ | ⟨len, tail⟩
  · exact absurd rfl hreturns
  · refine ⟨"UDP header too short for Domain", ?_⟩
    have htail := hshort len tail rfl
    have hatyp : (r :: r' :: 0x00 :: 0x03 :: len :: tail).getD 3 0 = 0x03 := rfl
    have hlen : (r :: r' :: 0x00 :: 0x03 :: len :: tail).length < 5 + len.toNat + 2 := by
      simp only [List.length_cons]
      omega
    rw [parseSocks5UdpHeader, if_neg (by simp), if_neg (by simp), hatyp, if_neg (by decide),
      if_pos rfl]
    exact if_pos hlen

/-- A payload behind a header is read back with the address of the header. -/
def ReadsBack (resolveDns : List Char → Except String IpAddr) (buf : List UInt8)
    (addr : SocketAddr) (payload : List UInt8) : Prop :=
  ∃ n, parseSocks5UdpHeader resolveDns buf = some (.ok (n, addr.finalAddr)) ∧
    buf.drop n = payload

/-- **Every datagram is parsed exactly**, but for the one of four bytes that says that a domain
follows; and what either writer puts before a payload is parsed back, up to the payload. -/
theorem exact_iff (resolveDns : List Char → Except String IpAddr) :
    (∀ buf, Exact resolveDns buf ↔ ¬ ∃ r r', buf = [r, r', 0x00, 0x03]) ∧
      ∀ addr payload,
        ReadsBack resolveDns (appendSocks5UdpHeader [] addr ++ payload) addr payload ∧
          ReadsBack resolveDns (relayResponse addr payload) addr payload := by
  refine ⟨fun buf => ⟨fun h => ?_, fun h => ?_⟩, fun addr payload => ?_⟩
  · exact fun hshort => h.returns (parse_eq_none_iff.mpr hshort)
  · have hreturns : parseSocks5UdpHeader resolveDns buf ≠ none :=
      fun hnone => h (parse_eq_none_iff.mp hnone)
    refine ⟨hreturns, fun hnumeric n addr => ⟨eq_of_parse hnumeric, ?_⟩,
      fun htruncated => error_of_truncatedDomain htruncated hreturns⟩
    rintro ⟨r, r', ip, port, rest, haddr, rfl, rfl⟩
    have hfinal : addr.finalAddr = addr := by
      rw [haddr]
      cases ip <;> rfl
    rw [parse_udpHeader, hfinal]
  · have hreads : ReadsBack resolveDns (udpHeader 0 0 addr ++ payload) addr payload :=
      ⟨_, parse_udpHeader 0 0 addr payload, List.drop_left⟩
    rw [appendSocks5UdpHeader_eq, relayResponse_eq]
    exact ⟨hreads, hreads⟩

/-- A domain's header without the byte of its length. -/
theorem short_domain_panics :
    TruncatedDomain [0x00, 0x00, 0x00, 0x03] ∧
      parseSocks5UdpHeader (fun _ => .error "no records") [0x00, 0x00, 0x00, 0x03] = none :=
  ⟨⟨0, 0, [], rfl, fun _ _ h => by cases h⟩, rfl⟩

end Datagrams

end NekoLink.Ctl
