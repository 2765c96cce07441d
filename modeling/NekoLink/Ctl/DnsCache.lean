import NekoLink.Ctl.Socks5Connect
import NekoLink.Foundations.Runs

/-!
# The cache of resolved names

`resolve_dns` of `nekolink-ctl/src/main.rs`. A call looks for its host in `DNS_CACHE`, and when
there is no fresh entry it resolves the host, through a tunnel if it has one and else by the system,
and puts what it finds in the cache. The calls of the SOCKS proxy and of the signalling share the
cache, and a call that resolves does not hold it.

* `Tracks.step`: an entry is what the last resolution of its host gave.
* `dns_transparent`: what is returned was resolved for the same arguments, as long as no fresh entry
  is from others.
* `reaches_of_fixed`: so it is when a host is only ever asked for with the same arguments.
* `entry_of_another`: an address resolved through a tunnel, taken as the endpoint of the tunnel.
-/

namespace NekoLink.Ctl

open Wire Noise Device Routing

/-! ## Resolution -/

/-- The arguments of a call. -/
structure DnsQuery where
  host : List Char
  interface : Option (List Char)
  preferIpv6 : Bool
  deriving DecidableEq

/-- What the resolvers answer to a call: `resolve_via_tunnel` and `lookup_host`. -/
structure DnsAnswers where
  viaTunnel : Except String IpAddr
  lookupHost : Except String (List IpAddr)

def isIpv6 : IpAddr → Bool
  | .v4 _ => false
  | .v6 _ => true

def resolveWithPreference (lookupHost : Except String (List IpAddr)) (preferIpv6 : Bool) :
    Except String IpAddr :=
  lookupHost.bind fun addrs =>
    if addrs = [] then .error "DNS 解析结果为空喵"
    else
      match (addrs.find? fun ip => isIpv6 ip == preferIpv6).or addrs.head? with
      | some ip => .ok ip
      | none => .error "未找到合适的 IP 地址喵"

/-- The resolution procedure; the system is asked too when the tunnel fails. -/
def resolution (q : DnsQuery) (answers : DnsAnswers) : Except String IpAddr :=
  match q.interface with
  | some _ =>
    match answers.viaTunnel with
    | .ok ip => .ok ip
    | .error _ => resolveWithPreference answers.lookupHost q.preferIpv6
  | none => resolveWithPreference answers.lookupHost q.preferIpv6

/-- What `connect_via_interface` asks for. -/
def connectQuery (interface : List Char) : Host → Option DnsQuery
  | .ip _ => none
  | .name host => some ⟨host, some interface, false⟩

/-- What `resolve_endpoint_with_port` asks for, when the endpoint is a name. -/
def endpointQuery (endpoint : List Char) (preferIpv6 : Bool) : DnsQuery :=
  ⟨endpoint, none, preferIpv6⟩

/-! ## The cache -/

/-- How long an entry is fresh, in nanoseconds. -/
def dnsTtl : ℕ := 300 * 10 ^ 9

structure DnsCache where
  /-- The clock at the last step. -/
  now : ℕ
  entries : HashMap (List Char) (IpAddr × ℕ)
  /-- The calls that are resolving. -/
  resolving : ℕ → Option DnsQuery

namespace DnsCache

def start : DnsCache := ⟨0, ∅, fun _ => none⟩

inductive Op
  /-- A call begins. -/
  | lookup (call : ℕ) (q : DnsQuery)
  /-- The resolution of a call ends. What it gives is stored at once: others only ever hold the
  cache for a lookup or an insertion. -/
  | finish (call : ℕ) (answers : DnsAnswers)

structure Input where
  now : ℕ
  op : Op

variable (s : DnsCache)

/-- An entry that is younger than 300 seconds. -/
def fresh (now : ℕ) (host : List Char) : Option IpAddr :=
  (s.entries.lookup host).bind fun e => if now - e.2 < dnsTtl then some e.1 else none

/-- One step, with the call that returns in it and its result. The clock does not go back. -/
def step (i : Input) : Option (DnsCache × Option (DnsQuery × Except String IpAddr)) :=
  if i.now < s.now then none
  else
    match i.op with
    | .lookup call q =>
      if (s.resolving call).isSome then none
      else
        match s.fresh i.now q.host with
        | some ip => some ({ s with now := i.now }, some (q, .ok ip))
        | none =>
          let resolving := Function.update s.resolving call (some q)
          some ({ s with now := i.now, resolving }, none)
    | .finish call answers =>
      (s.resolving call).map fun q =>
        let resolving := Function.update s.resolving call none
        match resolution q answers with
        | .error e => ({ s with now := i.now, resolving }, some (q, .error e))
        | .ok ip =>
          let entries := s.entries.insert q.host (ip, i.now)
          ({ now := i.now, entries, resolving }, some (q, .ok ip))

/-- An address that the resolution procedure has returned. -/
structure Resolved where
  query : DnsQuery
  ip : IpAddr
  time : ℕ

/-- What the procedure returns in a step. -/
def resolved (i : Input) : Option Resolved :=
  match i.op with
  | .lookup _ _ => none
  | .finish call answers =>
    (s.resolving call).bind fun q => (resolution q answers).toOption.map fun ip => ⟨q, ip, i.now⟩

/-- The last resolution of a host. -/
def lastResolved (log : List Resolved) (host : List Char) : Option Resolved :=
  log.reverse.find? fun e => e.query.host = host

end DnsCache

/-- A cache with all that has been resolved before. -/
abbrev DnsRun := DnsCache × List DnsCache.Resolved

namespace DnsRun

def start : DnsRun := (.start, [])

def step : DnsRun → DnsCache.Input →
    Option (DnsRun × Option (DnsQuery × Except String IpAddr)) :=
  Machine.logged DnsCache.step DnsCache.resolved

/-- A call does not find a fresh entry of a resolution with other arguments. -/
def OwnEntry (r : DnsRun) (i : DnsCache.Input) : Prop :=
  ∀ call q, i.op = .lookup call q → ∀ e, DnsCache.lastResolved r.2 q.host = some e →
    i.now - e.time < dnsTtl → e.query = q

/-- The cache holds the last resolutions. -/
structure Tracks (r : DnsRun) : Prop where
  entries : ∀ host ip time, r.1.entries.lookup host = some (ip, time) →
    ∃ e, DnsCache.lastResolved r.2 host = some e ∧ e.ip = ip ∧ e.time = time
  times : ∀ e ∈ r.2, e.time ≤ r.1.now

end DnsRun

/-! ## Steps -/

section Steps

variable {s s' : DnsCache} {i : DnsCache.Input} {o : Option (DnsQuery × Except String IpAddr)}
  {call : ℕ} {q : DnsQuery} {answers : DnsAnswers}

/-- A lookup leaves the entries, and returns when there is a fresh one. -/
theorem step_lookup (hop : i.op = .lookup call q) (h : s.step i = some (s', o)) :
    s.now ≤ i.now ∧ s'.now = i.now ∧ s'.entries = s.entries ∧
      s'.resolving = (if o = none then Function.update s.resolving call (some q)
        else s.resolving) ∧
      o = (s.fresh i.now q.host).map fun ip => (q, .ok ip) := by
  rw [DnsCache.step, hop] at h
  split_ifs at h with hback
  dsimp only at h
  split_ifs at h with hresolving
  rcases hfresh : s.fresh i.now q.host with _ | ip
  · rw [hfresh] at h
    cases h
    exact ⟨Nat.le_of_not_lt hback, rfl, rfl, rfl, rfl⟩
  · rw [hfresh] at h
    cases h
    exact ⟨Nat.le_of_not_lt hback, rfl, rfl, rfl, rfl⟩

/-- The end of a resolution returns what it gave, and stores an address. -/
theorem step_finish (hop : i.op = .finish call answers) (h : s.step i = some (s', o)) :
    s.now ≤ i.now ∧ s'.now = i.now ∧ ∃ q, s.resolving call = some q ∧
      s'.resolving = Function.update s.resolving call none ∧
      o = some (q, resolution q answers) ∧
      s'.entries = match resolution q answers with
        | .ok ip => s.entries.insert q.host (ip, i.now)
        | .error _ => s.entries := by
  rw [DnsCache.step, hop] at h
  split_ifs at h with hback
  obtain ⟨q, hq, heq⟩ := Option.map_eq_some_iff.mp h
  rcases hres : resolution q answers with e | ip
  · simp only [hres] at heq
    cases heq
    exact ⟨Nat.le_of_not_lt hback, rfl, q, hq, rfl, by rw [hres], by rw [hres]⟩
  · simp only [hres] at heq
    cases heq
    exact ⟨Nat.le_of_not_lt hback, rfl, q, hq, rfl, by rw [hres], by rw [hres]⟩

theorem resolved_lookup (hop : i.op = .lookup call q) : s.resolved i = none := by
  rw [DnsCache.resolved, hop]

theorem resolved_finish (hop : i.op = .finish call answers) (hq : s.resolving call = some q) :
    s.resolved i = (resolution q answers).toOption.map fun ip => ⟨q, ip, i.now⟩ := by
  rw [DnsCache.resolved, hop]
  dsimp only
  rw [hq, Option.bind_some]

end Steps

namespace DnsRun

variable {r r' : DnsRun} {i : DnsCache.Input} {o : Option (DnsQuery × Except String IpAddr)}
  {q : DnsQuery} {ip : IpAddr}

theorem tracks_start : Tracks start := by
  refine ⟨fun host ip time h => ?_, fun e he => absurd he List.not_mem_nil⟩
  cases h

/-- **An entry is what the last resolution of its host gave**, whoever asked for it. -/
theorem Tracks.step (h : Tracks r) (hstep : DnsRun.step r i = some (r', o)) : Tracks r' := by
  obtain ⟨hcache, hlog⟩ := Machine.logged_eq_some.mp hstep
  rcases hop : i.op with ⟨call, q⟩ | ⟨call, answers⟩
  · obtain ⟨hback, hnow, hentries, -, -⟩ := step_lookup hop hcache
    rw [resolved_lookup hop, Option.toList_none, List.append_nil] at hlog
    refine ⟨?_, fun e he => ?_⟩
    · rw [hentries, hlog]
      exact h.entries
    · rw [hlog] at he
      rw [hnow]
      exact (h.times e he).trans hback
  · obtain ⟨hback, hnow, q, hq, -, -, hentries⟩ := step_finish hop hcache
    rw [resolved_finish hop hq] at hlog
    rcases hres : resolution q answers with e | ip
    · rw [hres] at hlog hentries
      have hlog' : r'.2 = r.2 := hlog.trans (List.append_nil _)
      refine ⟨?_, fun e he => ?_⟩
      · rw [hentries, hlog']
        exact h.entries
      · rw [hlog'] at he
        rw [hnow]
        exact (h.times e he).trans hback
    · rw [hres] at hlog hentries
      have hlog' : r'.2 = r.2 ++ [⟨q, ip, i.now⟩] := hlog
      refine ⟨fun host ip' time hlookup => ?_, fun e he => ?_⟩
      · rw [DnsCache.lastResolved, hlog', Machine.find?_reverse_append]
        rw [hentries] at hlookup
        by_cases hhost : host = q.host
        · subst hhost
          rw [AList.lookup_insert] at hlookup
          cases hlookup
          exact ⟨_, if_pos (by simp), rfl, rfl⟩
        · rw [AList.lookup_insert_ne hhost] at hlookup
          rw [if_neg (by simpa using fun heq => hhost heq.symm)]
          exact h.entries host ip' time hlookup
      · rw [hnow]
        rw [hlog', List.mem_append, List.mem_singleton] at he
        rcases he with he | rfl
        · exact (h.times e he).trans hback
        · exact le_rfl

/-- **One return.** An address is returned by a resolution or from an entry that is fresh. -/
theorem returned_cases (h : Tracks r) (hstep : DnsRun.step r i = some (r', some (q, .ok ip))) :
    (∃ e ∈ r'.2, e.query = q ∧ e.ip = ip ∧ e.time = i.now) ∨
      ∃ call e, i.op = .lookup call q ∧ DnsCache.lastResolved r.2 q.host = some e ∧
        i.now - e.time < dnsTtl ∧ e.ip = ip ∧ e ∈ r'.2 ∧ e.time ≤ i.now := by
  obtain ⟨hcache, hlog⟩ := Machine.logged_eq_some.mp hstep
  rcases hop : i.op with ⟨call, q'⟩ | ⟨call, answers⟩
  · obtain ⟨hback, -, -, -, ho⟩ := step_lookup hop hcache
    obtain ⟨ip', hfresh, heq⟩ := Option.map_eq_some_iff.mp ho.symm
    cases heq
    obtain ⟨⟨ip'', time⟩, hlookup, hif⟩ := Option.bind_eq_some_iff.mp hfresh
    dsimp only at hif
    split_ifs at hif with hyoung
    cases hif
    obtain ⟨e, hlast, rfl, rfl⟩ := h.entries _ _ _ hlookup
    have hmem : e ∈ r.2 := List.mem_reverse.mp (List.mem_of_find?_eq_some hlast)
    refine Or.inr ⟨call, e, rfl, hlast, hyoung, rfl, ?_, (h.times e hmem).trans hback⟩
    rw [hlog]
    exact List.mem_append_left _ hmem
  · obtain ⟨-, -, q', hq, -, ho, -⟩ := step_finish hop hcache
    obtain ⟨rfl, hres⟩ := Prod.mk.inj (Option.some.inj ho)
    refine Or.inl ⟨⟨q, ip, i.now⟩, ?_, rfl, rfl, rfl⟩
    rw [hlog, resolved_finish hop hq, ← hres]
    exact List.mem_append_right _ List.mem_cons_self

/-- **The cache is transparent** in every run whose calls do not find a fresh entry of others: each
address returned is one that the resolution procedure has returned for the same arguments, at most
300 seconds before. -/
theorem dns_transparent (h : Machine.Reaches DnsRun.step OwnEntry start r) (hown : OwnEntry r i)
    (hstep : DnsRun.step r i = some (r', some (q, .ok ip))) :
    ∃ e ∈ r'.2, e.query = q ∧ e.ip = ip ∧ e.time ≤ i.now ∧ i.now ≤ e.time + dnsTtl := by
  have htracks : Tracks r := h.invariant tracks_start fun _ _ _ _ hI _ hstep => hI.step hstep
  obtain ⟨e, hmem, hq, hip, htime⟩ | ⟨call, e, hop, hlast, hyoung, hip, hmem, htime⟩ :=
    returned_cases htracks hstep
  · exact ⟨e, hmem, hq, hip, htime.le, htime.ge.trans (Nat.le_add_right _ _)⟩
  · exact ⟨e, hmem, hown call q hop e hlast hyoung, hip, htime, by omega⟩

/-- A host, a tunnel and what is resolved through it. -/
def sampleQuery : DnsQuery := ⟨"vpn.example".toList, some "neko0".toList, false⟩

def sampleIp : IpAddr := .v4 (ofList [10, 0, 0, 1])

def sampleAnswers : DnsAnswers := ⟨.ok sampleIp, .error "no network"⟩

/-- A name that is looked up again two seconds after it has been resolved. -/
theorem dns_transparent_sample :
    ∃ r r' o, Machine.run DnsRun.step start
        [⟨0, .lookup 0 sampleQuery⟩, ⟨1, .finish 0 sampleAnswers⟩] = some (r, o) ∧
      DnsRun.step r ⟨2 * 10 ^ 9, .lookup 1 sampleQuery⟩ =
        some (r', some (sampleQuery, .ok sampleIp)) ∧
      ∃ e ∈ r'.2, e.query = sampleQuery ∧ e.ip = sampleIp ∧ e.time ≤ 2 * 10 ^ 9 ∧
        2 * 10 ^ 9 ≤ e.time + dnsTtl := by
  have hfirst : OwnEntry start ⟨0, .lookup 0 sampleQuery⟩ := by
    intro call q hop e hlast
    cases hlast
  have hfinish : ∀ r, OwnEntry r ⟨1, .finish 0 sampleAnswers⟩ := fun r call q hop => by cases hop
  have hagain : ∀ s, OwnEntry (s, [⟨sampleQuery, sampleIp, 1⟩])
      ⟨2 * 10 ^ 9, .lookup 1 sampleQuery⟩ := by
    intro s call q hop e hlast hyoung
    cases hop
    cases hlast
    rfl
  refine ⟨_, _, _, rfl, rfl, ?_⟩
  exact dns_transparent (.tail (.tail .refl hfirst rfl) (hfinish _) rfl) (hagain _) rfl

/-! ## Fixed arguments -/

/-- A call has the arguments that are fixed for its host. -/
def FixedArguments (f : List Char → DnsQuery) (_ : DnsRun) (i : DnsCache.Input) : Prop :=
  ∀ call q, i.op = .lookup call q → q = f q.host

/-- So has every call that is resolving or has been resolved. -/
structure Fixed (f : List Char → DnsQuery) (r : DnsRun) : Prop where
  resolving : ∀ call q, r.1.resolving call = some q → q = f q.host
  log : ∀ e ∈ r.2, e.query = f e.query.host

variable {f : List Char → DnsQuery}

theorem fixed_start : Fixed f start := by
  refine ⟨fun call q h => ?_, fun e he => absurd he List.not_mem_nil⟩
  cases h

theorem Fixed.step (h : Fixed f r) (hfixed : FixedArguments f r i)
    (hstep : DnsRun.step r i = some (r', o)) : Fixed f r' := by
  obtain ⟨hcache, hlog⟩ := Machine.logged_eq_some.mp hstep
  rcases hop : i.op with ⟨call, q⟩ | ⟨call, answers⟩
  · obtain ⟨-, -, -, hresolving, -⟩ := step_lookup hop hcache
    rw [resolved_lookup hop, Option.toList_none, List.append_nil] at hlog
    refine ⟨fun call' q' hq' => ?_, fun e he => h.log e (hlog ▸ he)⟩
    rw [hresolving] at hq'
    split_ifs at hq'
    · by_cases hcall : call' = call
      · rw [hcall, Function.update_self] at hq'
        cases hq'
        exact hfixed call q hop
      · rw [Function.update_of_ne hcall] at hq'
        exact h.resolving call' q' hq'
    · exact h.resolving call' q' hq'
  · obtain ⟨-, -, q, hq, hresolving, -, -⟩ := step_finish hop hcache
    refine ⟨fun call' q' hq' => ?_, fun e he => ?_⟩
    · rw [hresolving] at hq'
      by_cases hcall : call' = call
      · rw [hcall, Function.update_self] at hq'
        cases hq'
      · rw [Function.update_of_ne hcall] at hq'
        exact h.resolving call' q' hq'
    · rw [hlog, resolved_finish hop hq, List.mem_append, Option.mem_toList] at he
      rcases he with he | he
      · exact h.log e he
      · obtain ⟨ip, -, rfl⟩ := Option.map_eq_some_iff.mp he
        exact h.resolving call q hq

/-- **With fixed arguments for each host** no call finds an entry of others. -/
theorem reaches_of_fixed (h : Machine.Reaches DnsRun.step (FixedArguments f) start r) :
    Machine.Reaches DnsRun.step OwnEntry start r := by
  induction h with
  | refl => exact .refl
  | tail h hfixed hstep ih =>
    have hinv : Fixed f _ := h.invariant fixed_start fun _ _ _ _ hI hQ hstep => hI.step hQ hstep
    refine ih.tail (fun call q hop e hlast _ => ?_) hstep
    have hmem := List.mem_reverse.mp (List.mem_of_find?_eq_some hlast)
    have hhost : e.query.host = q.host := by simpa using List.find?_some hlast
    rw [hinv.log e hmem, hfixed call q hop, hhost]

/-! ## Two callers -/

/-- The SOCKS proxy resolves a name through a tunnel, and a second later the signalling asks for the
endpoint of that name: it gets the address that only the tunnel gave. -/
theorem entry_of_another :
    connectQuery "neko0".toList (.name "vpn.example".toList) = some sampleQuery ∧
      ∃ r o₁ o₂, Machine.run DnsRun.step start
          [⟨0, .lookup 0 sampleQuery⟩, ⟨1, .finish 0 sampleAnswers⟩,
            ⟨10 ^ 9, .lookup 1 (endpointQuery "vpn.example".toList true)⟩] =
        some (r, [o₁, o₂, some (endpointQuery "vpn.example".toList true, .ok sampleIp)]) ∧
        ∀ e ∈ r.2, e.query ≠ endpointQuery "vpn.example".toList true := by
  refine ⟨rfl, _, _, _, rfl, fun e he => ?_⟩
  obtain rfl : e = ⟨sampleQuery, sampleIp, 1⟩ := List.mem_singleton.mp he
  decide

end DnsRun

end NekoLink.Ctl
