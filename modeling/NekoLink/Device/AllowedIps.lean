import NekoLink.Foundations.LongestMatch
import NekoLink.Noise.Prims

/-!
# Allowed IPs

`AllowedIps` of `device/allowed_ips.rs` over a table of IP networks, and `AllowedIP` of
`device/peer.rs`, which keeps the check of its parser: a prefix is no longer than its address.

* `exactMatch_insertAll`: what a table holds once a list of prefixes has been given one value.
* `find_eq_some`, `find_isSome_fromIter`: what an address is looked up as.
-/

namespace NekoLink.Noise.IpAddr

open Wire

def bits : IpAddr → ℕ
  | .v4 _ => 32
  | .v6 _ => 128

/-- A number of `w` bits with all but its first `n` bits cleared. -/
def clearHost (w n value : ℕ) : ℕ := value / 2 ^ (w - n) * 2 ^ (w - n)

theorem clearHost_le (w n value : ℕ) : clearHost w n value ≤ value := Nat.div_mul_le_self _ _

theorem clearHost_clearHost (w n value : ℕ) :
    clearHost w n (clearHost w n value) = clearHost w n value := by
  rw [clearHost, clearHost, Nat.mul_div_cancel _ (by positivity)]

/-- The octets with all but the first `n` bits cleared. -/
def truncateOctets (w n : ℕ) (octets : Bytes w) : Bytes w :=
  ⟨beBytes w (clearHost (8 * w) n (beValue octets.toList)), length_beBytes _ _⟩

theorem truncateOctets_truncateOctets (w n : ℕ) (octets : Bytes w) :
    truncateOctets w n (truncateOctets w n octets) = truncateOctets w n octets := by
  have hlt : clearHost (8 * w) n (beValue octets.toList) < 256 ^ w := by
    have hvalue := beValue_lt octets.toList
    rw [octets.toList_length] at hvalue
    exact (clearHost_le _ _ _).trans_lt hvalue
  apply List.Vector.toList_injective
  change beBytes w (clearHost (8 * w) n (beValue (beBytes w _))) = beBytes w _
  rw [beValue_beBytes_of_lt hlt, clearHost_clearHost]

/-- The address without the bits after the prefix. -/
def truncate (n : ℕ) : IpAddr → IpAddr
  | .v4 octets => .v4 (truncateOctets 4 n octets)
  | .v6 octets => .v6 (truncateOctets 16 n octets)

@[simp] theorem bits_truncate (n : ℕ) (addr : IpAddr) : (addr.truncate n).bits = addr.bits := by
  cases addr <;> rfl

@[simp] theorem truncate_truncate (n : ℕ) (addr : IpAddr) :
    (addr.truncate n).truncate n = addr.truncate n := by
  cases addr with
  | v4 octets => rw [truncate, truncate, truncateOctets_truncateOctets]
  | v6 octets => rw [truncate, truncate, truncateOctets_truncateOctets]

end NekoLink.Noise.IpAddr

namespace NekoLink.Device

open Noise Routing

/-- An address and the length of its prefix, which the parser has checked. -/
structure AllowedIP where
  addr : IpAddr
  cidr : ℕ
  cidr_le : cidr ≤ addr.bits
  deriving DecidableEq

/-- An IP network, without host bits. -/
structure IpNetwork where
  networkAddress : IpAddr
  netmask : ℕ
  netmask_le : netmask ≤ networkAddress.bits
  truncate_eq : networkAddress.truncate netmask = networkAddress
  deriving DecidableEq

namespace IpNetwork

/-- `IpNetwork::new_truncate`; its check of the length is `AllowedIP.cidr_le`. -/
def newTruncate (ip : AllowedIP) : IpNetwork :=
  ⟨ip.addr.truncate ip.cidr, ip.cidr, by rw [IpAddr.bits_truncate]; exact ip.cidr_le,
    IpAddr.truncate_truncate _ _⟩

/-- The prefix of the address is the network's. -/
def Contains (n : IpNetwork) (addr : IpAddr) : Prop := addr.truncate n.netmask = n.networkAddress

instance (n : IpNetwork) (addr : IpAddr) : Decidable (n.Contains addr) :=
  inferInstanceAs (Decidable (_ = _))

instance : Prefix IpNetwork IpAddr where
  Contains := Contains
  length := netmask
  eq_of_contains := by
    intro m n addr hm hn hlength
    obtain ⟨maddr, mmask, _, _⟩ := m
    obtain ⟨naddr, nmask, _, _⟩ := n
    obtain rfl : mmask = nmask := hlength
    obtain rfl : maddr = naddr := hm.symm.trans hn
    rfl

instance (n : IpNetwork) (addr : IpAddr) : Decidable (Prefix.Contains n addr) :=
  inferInstanceAs (Decidable (n.Contains addr))

end IpNetwork

variable {T : Type → Type} [Table T IpNetwork IpAddr] {D : Type}

/-- A trie of IP/cidr addresses -/
structure AllowedIps (T : Type → Type) (D : Type) where
  ips : T D

namespace AllowedIps

def new : AllowedIps T D := ⟨Table.new⟩

/-- The new trie, and the data that an equal prefix had. -/
def insert (t : AllowedIps T D) (key : AllowedIP) (data : D) : AllowedIps T D × Option D :=
  let (ips, old) := Table.insert t.ips (IpNetwork.newTruncate key) data
  (⟨ips⟩, old)

def find (t : AllowedIps T D) (key : IpAddr) : Option D :=
  (Table.longestMatch t.ips key).map Prod.snd

def remove (t : AllowedIps T D) (predicate : D → Bool) : AllowedIps T D :=
  ⟨Table.retain t.ips fun _ v => !predicate v⟩

def iter (t : AllowedIps T D) : List (D × IpAddr × ℕ) :=
  (Table.iter t.ips).map fun (ipa, d) => (d, ipa.networkAddress, ipa.netmask)

/-- A list of prefixes with data, inserted one after the other. -/
def insertAll (t : AllowedIps T D) (list : List (AllowedIP × D)) : AllowedIps T D :=
  list.foldl (fun t e => (t.insert e.1 e.2).1) t

def fromIter (list : List (AllowedIP × D)) : AllowedIps T D := insertAll new list

/-- The data of a prefix. -/
def exactMatch (t : AllowedIps T D) (n : IpNetwork) : Option D := Table.exactMatch t.ips n

/-! ## What a trie holds -/

variable [LawfulTable T IpNetwork IpAddr] {t : AllowedIps T D} {n : IpNetwork} {d : D}
  {addr : IpAddr}

@[simp] theorem exactMatch_new (n : IpNetwork) : (new : AllowedIps T D).exactMatch n = none :=
  LawfulTable.exactMatch_new n

theorem exactMatch_insert (t : AllowedIps T D) (key : AllowedIP) (d : D) (n : IpNetwork) :
    (t.insert key d).1.exactMatch n =
      if n = IpNetwork.newTruncate key then some d else t.exactMatch n := by
  split_ifs with hn
  · rw [hn]
    exact LawfulTable.exactMatch_insert_self _ _ _
  · exact LawfulTable.exactMatch_insert_of_ne _ _ hn

theorem exactMatch_remove (t : AllowedIps T D) (predicate : D → Bool) (n : IpNetwork) :
    (t.remove predicate).exactMatch n = (t.exactMatch n).filter fun d => !predicate d :=
  LawfulTable.exactMatch_retain _ _ _

/-- One value for a list of prefixes. -/
theorem exactMatch_insertAll (keys : List AllowedIP) (d : D) (n : IpNetwork) :
    (t.insertAll (keys.map fun key => (key, d))).exactMatch n =
      if n ∈ keys.map IpNetwork.newTruncate then some d else t.exactMatch n := by
  induction keys generalizing t with
  | nil => rfl
  | cons key keys ih =>
    have hcons : t.insertAll ((key :: keys).map fun key => (key, d)) =
        (t.insert key d).1.insertAll (keys.map fun key => (key, d)) := rfl
    rw [hcons, ih, exactMatch_insert, List.map_cons]
    by_cases hmem : n ∈ keys.map IpNetwork.newTruncate
    · rw [if_pos hmem, if_pos (List.mem_cons_of_mem _ hmem)]
    · rw [if_neg hmem]
      by_cases hn : n = IpNetwork.newTruncate key
      · rw [if_pos hn, if_pos (List.mem_cons.mpr (Or.inl hn))]
      · rw [if_neg hn, if_neg fun hcons => (List.mem_cons.mp hcons).elim hn hmem]

theorem find_eq_some :
    t.find addr = some d ↔ ∃ n, IsLongest t.exactMatch addr n d :=
  Routing.find_eq_some

theorem find_isSome : (t.find addr).isSome ↔ ∃ n, n.Contains addr ∧ (t.exactMatch n).isSome :=
  Routing.find_isSome

/-- A list of prefixes allows the addresses in one of them. -/
theorem find_isSome_fromIter (keys : List AllowedIP) (d : D) :
    ((fromIter (keys.map fun key => (key, d)) : AllowedIps T D).find addr).isSome ↔
      ∃ key ∈ keys, (IpNetwork.newTruncate key).Contains addr := by
  rw [find_isSome]
  constructor
  · rintro ⟨n, hn, hsome⟩
    rw [fromIter, exactMatch_insertAll] at hsome
    by_cases hmem : n ∈ keys.map IpNetwork.newTruncate
    · obtain ⟨key, hkey, rfl⟩ := List.mem_map.mp hmem
      exact ⟨key, hkey, hn⟩
    · rw [if_neg hmem, exactMatch_new] at hsome
      cases hsome
  · rintro ⟨key, hkey, hn⟩
    refine ⟨_, hn, ?_⟩
    rw [fromIter, exactMatch_insertAll, if_pos (List.mem_map_of_mem hkey)]
    rfl

end AllowedIps

end NekoLink.Device
