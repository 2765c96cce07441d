import NekoLink.Ctl.Peering
import NekoLink.Device.TcpFraming
import NekoLink.Foundations.Runs

/-!
# Probing the MTU

`get_auto_mtu` with its cache, `probe_mtu_cmd` and the probes of `nekolink-ctl/src/main.rs`. What
the sockets, `ping` and the clock answer is given with each call, and so is the address family in
which packets to its endpoint travel. Numbers are `u16`; a subtraction below zero wraps around, as
in the release build.

* `performMtuProbe_bounds`, `tcp_probe_of_lt`: which probes give a number that is too small.
* `length_frame_formatPacketData`: the bytes that the data plane adds to a packet.
* `recommended_mtu_fits_iff`: when every MTU that is recommended in a sequence of calls fits the
  path.
-/

namespace NekoLink.Ctl

open Wire Noise Device Text

/-! ## The probes -/

/-- What the system answers to the probes of a call. -/
structure Probes where
  /-- `IP_MTU` of a TCP socket to an address, when it can be read -/
  tcpMtu : SocketAddr → Option ℤ
  udpMtu : SocketAddr → Option ℤ
  /-- An answer to a `ping` of this size that may not be fragmented -/
  ping : List Char → ℕ → Bool

/-- The number that `getsockopt` has written, `as u16`. -/
def socketMtu (answer : Option ℤ) : Option UInt16 :=
  answer.bind fun mtu => if 0 < mtu then some (UInt16.ofNat mtu.toNat) else none

/-- The search among the sizes from `low` to `high`. -/
def bisect (fits : ℕ → Bool) (low high best : ℕ) (hlow : 0 < low) : ℕ :=
  if low ≤ high then
    let mid := (low + high) / 2
    if fits mid then bisect fits (mid + 1) high mid mid.succ_pos
    else bisect fits low (mid - 1) best hlow
  else best
termination_by high + 1 - low
decreasing_by all_goals omega

section

variable (P : Parsers) (probes : Probes)

def signalAddr (host : List Char) : List Char := host ++ ":12580".toList

/-- `perform_tcp_mtu_probe`. A host that is not an address is replaced by `0.0.0.0`. -/
def performTcpMtuProbe (host : List Char) : Option UInt16 :=
  socketMtu (probes.tcpMtu ((P.socketAddr (signalAddr host)).getD (.v4 (zeros 4) 12580)))

/-- `perform_udp_mtu_probe` on the signalling port. A host that is not an address is parsed once
more, and then the `unwrap` panics. -/
def performUdpMtuProbe (host : List Char) : Option (Option UInt16) :=
  (P.socketAddr (signalAddr host)).map fun addr => socketMtu (probes.udpMtu addr)

/-- `perform_mtu_probe` -/
def performMtuProbe (host : List Char) : Option UInt16 :=
  (performUdpMtuProbe P probes host).map fun answer =>
    match answer.filter fun mtu => decide (576 ≤ mtu ∧ mtu ≤ 1500) with
    | some mtu => mtu
    | none =>
      if probes.ping host (1500 - 28) then 1500
      else UInt16.ofNat (bisect (fun size => probes.ping host (size - 28)) 576 1500 1280 (by decide))

/-- The path MTU to a host. `none` is a panic. -/
def probe (host : List Char) (mode : String) : Option UInt16 :=
  if mode = "tcp" ∨ mode = "mullvad-tcp" then
    (performTcpMtuProbe P probes host).or (performMtuProbe P probes host)
  else performMtuProbe P probes host

end

/-! ## The recommendations -/

/-- The text up to the last colon, without brackets around it. -/
def beforePort (endpoint : List Char) : List Char :=
  (((endpoint.rdropWhile (· != ':')).dropLast.dropWhile (· == '[')).rdropWhile (· == ']'))

section

variable (P : Parsers) (R : Printers)

/-- The host that `get_auto_mtu` probes. -/
def autoHost (endpoint : List Char) : List Char :=
  match P.socketAddr endpoint with
  | some addr => R.ipAddr addr.ip
  | none => if ':' ∈ endpoint then beforePort endpoint else endpoint

/-- A host is taken for an IPv6 address. -/
def looksV6 (host : List Char) : Bool :=
  decide (':' ∈ host) ||
    match P.ipAddr host with
    | some (.v6 _) => true
    | _ => false

end

/-- What `get_auto_mtu` subtracts. -/
def autoOverhead (mode : String) (isV6 : Bool) : UInt16 :=
  let ipHeaderSize : UInt16 := if isV6 then 40 else 20
  match mode with
  | "ip" => ipHeaderSize + 32
  | "tcp" => ipHeaderSize + 20 + 2 + 32
  | "mullvad-tcp" => ipHeaderSize + 20 + 2 + 32
  | "fake-tcp" => 84
  | _ => ipHeaderSize + 8 + 32

/-- What `probe_mtu_cmd` subtracts. -/
def cmdOverhead (mode : String) : UInt16 :=
  match mode with
  | "ip" => 20
  | "tcp" => 20 + 20 + 2
  | _ => 20 + 8

/-- `PROBED_MTU_CACHE`: the MTU of an endpoint and when it was put there, in nanoseconds. -/
abbrev MtuCache := HashMap (List Char) (UInt16 × ℕ)

/-- An entry that is younger than an hour. -/
def cachedMtu (now : ℕ) (endpoint : List Char) (cache : MtuCache) : Option UInt16 :=
  (cache.lookup endpoint).bind fun e => if now - e.2 < 3600 * 10 ^ 9 then some e.1 else none

/-- A call of one of the two functions, in a mode that the data plane has. -/
structure MtuCall where
  endpoint : List Char
  mode : String
  mode_mem : mode ∈ ["udp", "ip", "tcp", "mullvad-tcp"]
  /-- It is `probe_mtu_cmd`. -/
  isCmd : Bool
  /-- Packets to the endpoint travel over IPv6. -/
  isV6 : Bool
  probes : Probes
  /-- When the cache is read, and when it is written -/
  start : ℕ
  stop : ℕ

section

variable (P : Parsers) (R : Printers)

/-- `get_auto_mtu` -/
def getAutoMtu (call : MtuCall) (cache : MtuCache) : Option (UInt16 × MtuCache) :=
  match cachedMtu call.start call.endpoint cache with
  | some mtu => some (mtu, cache)
  | none =>
    let host := autoHost P R call.endpoint
    (probe P call.probes host call.mode).map fun pmtu =>
      let recommended := pmtu - autoOverhead call.mode (looksV6 P host)
      (recommended, cache.insert call.endpoint (recommended, call.stop))

/-- The host that `probe_mtu_cmd` probes. -/
def cmdHost (endpoint : List Char) : List Char :=
  if ':' ∈ endpoint then endpoint.takeWhile (· != ':') else endpoint

/-- `probe_mtu_cmd`: the path MTU and the recommended one, which it prints. -/
def probeMtuCmd (call : MtuCall) : Option (UInt16 × UInt16) :=
  (probe P call.probes (cmdHost call.endpoint) call.mode).map fun pmtu =>
    (pmtu, pmtu - cmdOverhead call.mode)

/-! ## What the data plane adds -/

/-- The IP header, that of UDP or of TCP with the length of the packet, and what a data packet adds
to its contents. -/
def wireOverhead (isV6 : Bool) (mode : String) : ℕ :=
  (if isV6 then 40 else 20) +
    (if mode = "ip" then 0
      else if mode = "tcp" ∨ mode = "mullvad-tcp" then 20 + headerLen
      else 8) +
    dataOverheadSz

/-! ## A sequence of calls -/

/-- The cache, and for each endpoint the last path MTU that was probed for the cache, with the mode
of that call. -/
structure MtuLog where
  cache : MtuCache
  paths : List Char → Option (UInt16 × String)

namespace MtuLog

def start : MtuLog := ⟨∅, fun _ => none⟩

/-- One call. -/
def next (s : MtuLog) (call : MtuCall) : MtuLog :=
  if call.isCmd then s
  else
    { cache := (getAutoMtu P R call s.cache).elim s.cache Prod.snd
      paths :=
        if (cachedMtu call.start call.endpoint s.cache).isSome then s.paths
        else
          (probe P call.probes (autoHost P R call.endpoint) call.mode).elim s.paths fun pmtu =>
            Function.update s.paths call.endpoint (some (pmtu, call.mode)) }

/-- A subtraction does not go below zero, and a packet of the recommended size fits the path with
what is added to it. -/
structure Fits (call : MtuCall) (pmtu overhead recommended : UInt16) : Prop where
  exact : overhead ≤ pmtu
  fits : recommended.toNat + wireOverhead call.isV6 call.mode ≤ pmtu.toNat

/-- A call recommends an MTU that fits, or panics in a probe. -/
def Recommends (s : MtuLog) (call : MtuCall) : Prop :=
  if call.isCmd then
    ∀ r, probeMtuCmd P call = some r → Fits call r.1 (cmdOverhead call.mode) r.2
  else
    ∀ r, getAutoMtu P R call s.cache = some r →
      ∃ path, (s.next P R call).paths call.endpoint = some path ∧
        Fits call path.1 (autoOverhead path.2 (looksV6 P (autoHost P R call.endpoint))) r.1

/-- `probe_mtu_cmd` gets no path MTU. When `get_auto_mtu` finds an entry, the mode adds no more than
was subtracted for the mode of the entry. When it probes, the path MTU is not below what is
subtracted, and it does not take IPv6 for IPv4. -/
def Safe (s : MtuLog) (call : MtuCall) : Prop :=
  let host := autoHost P R call.endpoint
  if call.isCmd then probe P call.probes (cmdHost call.endpoint) call.mode = none
  else if (cachedMtu call.start call.endpoint s.cache).isSome then
    ∀ path, s.paths call.endpoint = some path →
      wireOverhead call.isV6 call.mode ≤ (autoOverhead path.2 (looksV6 P host)).toNat
  else
    ∀ pmtu, probe P call.probes host call.mode = some pmtu →
      autoOverhead call.mode (looksV6 P host) ≤ pmtu ∧
        (call.isV6 = true → looksV6 P host = true)

/-- Every entry of the cache is what was left of the path MTU. -/
def Recorded (s : MtuLog) : Prop :=
  ∀ endpoint e, s.cache.lookup endpoint = some e →
    ∃ path, s.paths endpoint = some path ∧
      autoOverhead path.2 (looksV6 P (autoHost P R endpoint)) ≤ path.1 ∧
      e.1 = path.1 - autoOverhead path.2 (looksV6 P (autoHost P R endpoint))

end MtuLog

end

/-! ## What is probed -/

section

variable {P : Parsers} {probes : Probes} {host : List Char} {mode : String} {pmtu : UInt16}

/-- The search stays in its range. -/
theorem bisect_bounds {fits : ℕ → Bool} {low high best lo hi : ℕ} {hlow : 0 < low}
    (hlo : lo ≤ low) (hhi : high ≤ hi) (hbest : lo ≤ best ∧ best ≤ hi) :
    lo ≤ bisect fits low high best hlow ∧ bisect fits low high best hlow ≤ hi := by
  fun_induction bisect fits low high best hlow with
  | case1 low high best hlow hle mid hfits ih => exact ih (by omega) hhi ⟨by omega, by omega⟩
  | case2 low high best hlow hle mid hfits ih => exact ih hlo (by omega) hbest
  | case3 => exact hbest

/-- Without a TCP socket, the path MTU is that of an IP network. -/
theorem performMtuProbe_bounds (h : performMtuProbe P probes host = some pmtu) :
    576 ≤ pmtu.toNat ∧ pmtu.toNat ≤ 1500 := by
  obtain ⟨answer, -, heq⟩ := Option.map_eq_some_iff.mp h
  split at heq
  · rename_i mtu hanswer
    obtain ⟨-, hbounds⟩ := Option.filter_eq_some_iff.mp hanswer
    rw [decide_eq_true_eq, UInt16.le_iff_toNat_le, UInt16.le_iff_toNat_le] at hbounds
    rw [← heq]
    exact hbounds
  · split_ifs at heq
    · rw [← heq]
      decide
    · obtain ⟨hlow, hhigh⟩ : 576 ≤ bisect (fun size => probes.ping host (size - 28)) 576 1500 1280
            (by decide) ∧
          bisect (fun size => probes.ping host (size - 28)) 576 1500 1280 (by decide) ≤ 1500 :=
        bisect_bounds le_rfl le_rfl ⟨by decide, by decide⟩
      have hsize : UInt16.size = 65536 := rfl
      rw [← heq, UInt16.toNat_ofNat_of_lt' (by omega)]
      exact ⟨hlow, hhigh⟩

theorem autoOverhead_le (mode : String) (isV6 : Bool) : (autoOverhead mode isV6).toNat ≤ 94 := by
  cases isV6 <;> simp only [autoOverhead, if_true, Bool.false_eq_true, if_false] <;> split <;>
    decide

/-- Only what a TCP socket says can be less than what is subtracted. -/
theorem tcp_probe_of_lt {isV6 : Bool} (h : probe P probes host mode = some pmtu)
    (hlt : pmtu < autoOverhead mode isV6) :
    (mode = "tcp" ∨ mode = "mullvad-tcp") ∧ performTcpMtuProbe P probes host = some pmtu := by
  have hsmall : ¬ performMtuProbe P probes host = some pmtu := by
    intro hprobe
    have hbounds := (performMtuProbe_bounds hprobe).1
    have hle := autoOverhead_le mode isV6
    rw [UInt16.lt_iff_toNat_lt] at hlt
    omega
  unfold probe at h
  split_ifs at h with hmode
  · rw [Option.or_eq_some_iff] at h
    exact ⟨hmode, h.resolve_right fun hboth => hsmall hboth.2⟩
  · exact absurd h hsmall

end

/-! ## What is added -/

/-- **The bytes that the data plane adds to a packet**, on a stream with the length before it. -/
theorem length_frame_formatPacketData {C : Prims} {s s' : Session} {src datagram : List UInt8}
    {dstLen : ℕ} (h : s.formatPacketData C src dstLen = some (s', datagram)) :
    datagram.length = src.length + dataOverheadSz ∧
      (frame headerLen datagram).length = headerLen + (src.length + dataOverheadSz) := by
  obtain ⟨-, rfl⟩ := Session.formatPacketData_eq_some h
  have hlen : (s.dataPacket C s.sendingKeyCounter src).bytes.length =
      src.length + dataOverheadSz := by
    rw [PacketData.length_bytes, Session.dataPacket, List.Vector.toList_length]
    simp only [dataOverheadSz]
    omega
  refine ⟨hlen, ?_⟩
  rw [frame, List.length_append, length_beBytes, hlen]

/-! ## One call -/

section

variable {P : Parsers} {R : Printers} {s : MtuLog} {call : MtuCall} {isV6 looks : Bool}
  {mode : String}

/-- For one mode, both sides count the same, unless the family is mistaken. -/
theorem wireOverhead_le_autoOverhead_iff (h : mode ∈ ["udp", "ip", "tcp", "mullvad-tcp"]) :
    wireOverhead isV6 mode ≤ (autoOverhead mode looks).toNat ↔ (isV6 = true → looks = true) := by
  simp only [List.mem_cons, List.not_mem_nil, or_false] at h
  rcases h with rfl | rfl | rfl | rfl <;> cases isV6 <;> cases looks <;> decide

/-- `probe_mtu_cmd` leaves out what a data packet adds. -/
theorem cmdOverhead_lt_wireOverhead (h : mode ∈ ["udp", "ip", "tcp", "mullvad-tcp"]) :
    (cmdOverhead mode).toNat < wireOverhead isV6 mode := by
  simp only [List.mem_cons, List.not_mem_nil, or_false] at h
  rcases h with rfl | rfl | rfl | rfl <;> cases isV6 <;> decide

namespace MtuLog

/-- When what is left of a path MTU fits. -/
theorem fits_sub_iff {pmtu overhead : UInt16} :
    Fits call pmtu overhead (pmtu - overhead) ↔
      overhead ≤ pmtu ∧ wireOverhead call.isV6 call.mode ≤ overhead.toNat := by
  refine ⟨fun ⟨hexact, hfits⟩ => ⟨hexact, ?_⟩, fun ⟨hexact, hle⟩ => ⟨hexact, ?_⟩⟩
  all_goals
    have hsub := UInt16.toNat_sub_of_le _ _ hexact
    rw [UInt16.le_iff_toNat_le] at hexact
  · rw [hsub] at hfits
    omega
  · rw [hsub]
    omega

theorem cachedMtu_eq_some {now : ℕ} {endpoint : List Char} {cache : MtuCache} {mtu : UInt16}
    (h : cachedMtu now endpoint cache = some mtu) :
    ∃ e, cache.lookup endpoint = some e ∧ e.1 = mtu := by
  obtain ⟨e, he, hage⟩ := Option.bind_eq_some_iff.mp h
  split_ifs at hage
  exact ⟨e, he, Option.some.inj hage⟩

/-- What a call of `get_auto_mtu` leaves. -/
theorem next_cases (h : call.isCmd = false) :
    (∃ mtu, cachedMtu call.start call.endpoint s.cache = some mtu ∧
      getAutoMtu P R call s.cache = some (mtu, s.cache) ∧ s.next P R call = s) ∨
    (cachedMtu call.start call.endpoint s.cache = none ∧
      probe P call.probes (autoHost P R call.endpoint) call.mode = none ∧
      getAutoMtu P R call s.cache = none ∧ s.next P R call = s) ∨
    (∃ pmtu recommended, cachedMtu call.start call.endpoint s.cache = none ∧
      probe P call.probes (autoHost P R call.endpoint) call.mode = some pmtu ∧
      recommended = pmtu - autoOverhead call.mode (looksV6 P (autoHost P R call.endpoint)) ∧
      getAutoMtu P R call s.cache =
        some (recommended, s.cache.insert call.endpoint (recommended, call.stop)) ∧
      s.next P R call =
        ⟨s.cache.insert call.endpoint (recommended, call.stop),
          Function.update s.paths call.endpoint (some (pmtu, call.mode))⟩) := by
  unfold next getAutoMtu
  simp only [h, Bool.false_eq_true, if_false]
  rcases hcached : cachedMtu call.start call.endpoint s.cache with _ | mtu
  · rcases hprobe : probe P call.probes (autoHost P R call.endpoint) call.mode with _ | pmtu
    · exact .inr (.inl ⟨rfl, rfl, rfl, rfl⟩)
    · exact .inr (.inr ⟨pmtu, _, rfl, rfl, rfl, rfl, rfl⟩)
  · exact .inl ⟨mtu, rfl, rfl, rfl⟩

theorem next_of_isCmd (h : call.isCmd = true) : s.next P R call = s := if_pos h

/-- **When the MTU of one call fits.** -/
theorem recommends_iff (hs : s.Recorded P R) : s.Recommends P R call ↔ s.Safe P R call := by
  unfold Recommends Safe
  cases hcmd : call.isCmd with
  | true =>
    simp only [if_true]
    refine ⟨fun hall => ?_, fun hnone r hr => ?_⟩
    · by_contra hsome
      obtain ⟨pmtu, hprobe⟩ := Option.ne_none_iff_exists'.mp hsome
      have hfits := hall (pmtu, pmtu - cmdOverhead call.mode) (by rw [probeMtuCmd, hprobe]; rfl)
      have hle := (fits_sub_iff.mp hfits).2
      exact absurd hle (not_le.mpr (cmdOverhead_lt_wireOverhead call.mode_mem))
    · rw [probeMtuCmd, hnone] at hr
      cases hr
  | false =>
    simp only [Bool.false_eq_true, if_false]
    obtain ⟨mtu, hcached, hauto, hnext⟩ | ⟨hcached, hprobe, hauto, hnext⟩ |
      ⟨pmtu, recommended, hcached, hprobe, hrec, hauto, hnext⟩ :=
      next_cases (P := P) (R := R) (s := s) hcmd
    · -- The entry is what was left of the path MTU for the mode of another call.
      obtain ⟨e, he, rfl⟩ := cachedMtu_eq_some hcached
      obtain ⟨path, hpath, hexact, hleft⟩ := hs call.endpoint e he
      simp only [hcached, hauto, hnext, hpath, Option.isSome_some, if_true]
      constructor
      · rintro hall path' hpath'
        obtain ⟨path'', hpath'', hfits⟩ := hall _ rfl
        cases hpath'
        cases hpath''
        rw [hleft] at hfits
        exact (fits_sub_iff.mp hfits).2
      · rintro hall r hr
        cases hr
        refine ⟨path, rfl, ?_⟩
        rw [hleft]
        exact fits_sub_iff.mpr ⟨hexact, hall path rfl⟩
    · simp only [hcached, hauto, hprobe, Option.isSome_none, Bool.false_eq_true, if_false]
      exact ⟨fun _ pmtu hpmtu => absurd hpmtu.symm (Option.some_ne_none _),
        fun _ r hr => absurd hr.symm (Option.some_ne_none _)⟩
    · simp only [hcached, hauto, hprobe, hnext, Function.update_self, Option.isSome_none,
        Bool.false_eq_true, if_false]
      constructor
      · rintro hall pmtu' hpmtu'
        cases hpmtu'
        obtain ⟨path, hpath, hfits⟩ := hall _ rfl
        cases hpath
        rw [hrec] at hfits
        obtain ⟨hexact, hle⟩ := fits_sub_iff.mp hfits
        exact ⟨hexact, (wireOverhead_le_autoOverhead_iff call.mode_mem).mp hle⟩
      · rintro hall r hr
        cases hr
        obtain ⟨hexact, hfamily⟩ := hall pmtu rfl
        refine ⟨_, rfl, ?_⟩
        rw [hrec]
        exact fits_sub_iff.mpr
          ⟨hexact, (wireOverhead_le_autoOverhead_iff call.mode_mem).mpr hfamily⟩

/-- A call whose MTU fits leaves a cache of what was left of path MTUs. -/
theorem recorded_next (hs : s.Recorded P R) (h : s.Recommends P R call) :
    (s.next P R call).Recorded P R := by
  cases hcmd : call.isCmd with
  | true =>
    rw [next_of_isCmd hcmd]
    exact hs
  | false =>
    obtain ⟨mtu, -, -, hnext⟩ | ⟨-, -, -, hnext⟩ |
      ⟨pmtu, recommended, hcached, hprobe, hrec, hauto, hnext⟩ :=
      next_cases (P := P) (R := R) (s := s) hcmd
    · rw [hnext]
      exact hs
    · rw [hnext]
      exact hs
    · simp only [Recommends, hcmd, hauto, hnext, Function.update_self, Bool.false_eq_true,
        if_false] at h
      obtain ⟨path, hpath, hfits⟩ := h _ rfl
      cases hpath
      rw [hnext]
      intro endpoint e he
      dsimp only at he ⊢
      by_cases hendpoint : endpoint = call.endpoint
      · subst hendpoint
        rw [AList.lookup_insert] at he
        cases he
        exact ⟨_, Function.update_self _ _ _, hfits.exact, hrec⟩
      · rw [AList.lookup_insert_ne hendpoint] at he
        rw [Function.update_of_ne hendpoint]
        exact hs endpoint e he

theorem recorded_start (P : Parsers) (R : Printers) : MtuLog.start.Recorded P R := by
  intro endpoint e he
  cases (AList.lookup_empty endpoint).symm.trans he

/-- **When every MTU that is recommended in a sequence of calls fits the path**, with an empty cache
at first. -/
theorem recommended_mtu_fits_iff (P : Parsers) (R : Printers) (calls : List MtuCall) :
    Machine.Along (MtuLog.next P R) (MtuLog.Recommends P R) MtuLog.start calls ↔
      Machine.Along (MtuLog.next P R) (MtuLog.Safe P R) MtuLog.start calls :=
  Machine.along_congr (recorded_start P R) (fun _ _ hs => recommends_iff hs)
    fun _ _ hs h => recorded_next hs h

end MtuLog

end

/-! ## A path of 1500 bytes -/

/-- The system on a path of 1500 bytes. -/
def sampleProbes : Probes where
  tcpMtu _ := some 1500
  udpMtu _ := some 1500
  ping _ size := decide (size ≤ 1472)

/-- The crates read 10.0.0.2 with the signalling port. -/
def probeNames : Parsers where
  base64Decode _ := none
  ipAddr _ := none
  socketAddr s :=
    if s = "10.0.0.2:12580".toList then some (.v4 ⟨[10, 0, 0, 2], rfl⟩ 12580) else none

/-- A call for 10.0.0.2. -/
def sampleMtuCall (mode : String) (h : mode ∈ ["udp", "ip", "tcp", "mullvad-tcp"]) : MtuCall where
  endpoint := "10.0.0.2".toList
  mode := mode
  mode_mem := h
  isCmd := false
  isV6 := false
  probes := sampleProbes
  start := 0
  stop := 0

/-- **The MTU of one mode is recommended for another.** What is left for UDP is too much for TCP. -/
theorem cached_mtu_too_large :
    ¬ Machine.Along (MtuLog.next probeNames samplePrinters)
      (MtuLog.Recommends probeNames samplePrinters) MtuLog.start
      [sampleMtuCall "udp" (by decide), sampleMtuCall "tcp" (by decide)] := by
  rintro ⟨-, hsecond, -⟩
  have hrecommended : (getAutoMtu probeNames samplePrinters (sampleMtuCall "tcp" (by decide))
      (MtuLog.start.next probeNames samplePrinters (sampleMtuCall "udp" (by decide))).cache).map
        Prod.fst = some 1440 := by decide +kernel
  have hpaths : ((MtuLog.start.next probeNames samplePrinters
      (sampleMtuCall "udp" (by decide))).next probeNames samplePrinters
        (sampleMtuCall "tcp" (by decide))).paths "10.0.0.2".toList = some (1500, "udp") := by
    decide +kernel
  obtain ⟨r, hr, hvalue⟩ := Option.map_eq_some_iff.mp hrecommended
  obtain ⟨path, hpath, -, hfits⟩ := hsecond r hr
  cases hpaths.symm.trans hpath
  rw [hvalue] at hfits
  exact absurd hfits (by decide)

end NekoLink.Ctl
