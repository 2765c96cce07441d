import NekoLink.Device.TruncatedRequests

/-!
# What a successful set request has applied

`errno=0` is compared with what the device has become. The sockets that a device listens on are
kept by the port they were bound with, and `open_listen_socket` reads what the system answers.

* `boundTo_iff`: when a device that has opened its sockets is bound to the port.
* `peers_commit`: what a section does to the peers.
* `performAll_settings`, `performAll_sections`: what the two parts of a request do.
* `applied_iff`: when a request that is answered with `errno=0` has been applied.
-/

namespace NekoLink.Device

open Wire Noise Routing

/-! ## Listening -/

/-- What the system answers while a socket is opened. -/
structure SocketReply where
  created : Bool
  reuseAddress : Bool
  bound : Bool
  nonblocking : Bool
  cloned : Bool
  registered : Bool

/-- The steps before the handler is registered. -/
def SocketReply.opened (r : SocketReply) : Bool :=
  r.created && r.reuseAddress && r.bound && r.nonblocking

structure OpenReply where
  /-- Whether `clear_event_by_fd` finds the sockets that are closed. -/
  cleared : Bool
  tcp : SocketReply
  udp4 : SocketReply
  udp6 : SocketReply
  /-- The port that was assigned for port 0. -/
  localPort : Option ℕ

/-- The ports that the sockets of a device were bound with. -/
structure Listening where
  udp4 : Option ℕ
  udp6 : Option ℕ
  tcpListener : Option ℕ
  listenPort : ℕ

namespace Listening

variable (l : Listening)

/-- TCP Server Mode; a failure is only logged. `none` is a panic, as below. -/
def openTcp (port : ℕ) (r : SocketReply) : Option Listening :=
  if r.created && r.bound then
    if r.cloned then some { l with tcpListener := some port } else none
  else some l

def openUdp (port : ℕ) (r : OpenReply) : Option (Listening × Bool) :=
  if !r.udp4.opened then some (l, false)
  else
    -- Random port was assigned
    match if port = 0 then r.localPort else some port with
    | none => some (l, false)
    | some port =>
      if !r.udp6.opened then some (l, false)
      else if !r.udp4.cloned then none
      else if !r.udp4.registered then some (l, false)
      else if !r.udp6.cloned then none
      else if !r.udp6.registered then some (l, false)
      else some ({ l with udp4 := some port, udp6 := some port, listenPort := port }, true)

/-- `open_listen_socket`, and whether it succeeds. -/
def openListenSocket (mode : TransportMode) (port : ℕ) (r : OpenReply) :
    Option (Listening × Bool) :=
  if r.cleared then
    let closed := { l with udp4 := none, udp6 := none, tcpListener := none }
    match mode with
    | .tcp => if port = 0 then some (closed, true) else (closed.openTcp port r.tcp).map (·, true)
    | .udp | .rawIp => closed.openUdp port r
  else none

/-- The device is bound to the port; port 0 is any. -/
def BoundTo (mode : TransportMode) (port : ℕ) : Prop :=
  match mode with
  | .tcp => ∃ p, l.tcpListener = some p ∧ (port = 0 ∨ p = port)
  | .udp | .rawIp => ∃ p, l.udp4 = some p ∧ l.udp6 = some p ∧ l.listenPort = p ∧
      (port = 0 ∨ p = port)

end Listening

/-- In TCP mode there is a port, and the listener is created and bound. -/
def OpenReply.Binds (r : OpenReply) (mode : TransportMode) (port : ℕ) : Prop :=
  mode = .tcp → port ≠ 0 ∧ r.tcp.created = true ∧ r.tcp.bound = true

section Opening

variable {l l' : Listening} {mode : TransportMode} {port : ℕ} {r : OpenReply}

theorem boundTo_openUdp (h : l.openUdp port r = some (l', true)) :
    ∃ p, l'.udp4 = some p ∧ l'.udp6 = some p ∧ l'.listenPort = p ∧ (port = 0 ∨ p = port) := by
  rw [Listening.openUdp] at h
  by_cases hopened : (!r.udp4.opened) = true
  · rw [if_pos hopened] at h
    cases h
  rw [if_neg hopened] at h
  split at h
  · cases h
  · next p hport =>
    split_ifs at h
    all_goals cases h
    refine ⟨p, rfl, rfl, rfl, ?_⟩
    by_cases hzero : port = 0
    · exact Or.inl hzero
    · rw [if_neg hzero] at hport
      exact Or.inr (Option.some.inj hport).symm

/-- **When sockets that were opened are bound**: in TCP mode a failure is no error. -/
theorem boundTo_iff (h : l.openListenSocket mode port r = some (l', true)) :
    l'.BoundTo mode port ↔ r.Binds mode port := by
  rw [Listening.openListenSocket] at h
  by_cases hcleared : r.cleared = true
  · rw [if_pos hcleared] at h
    cases mode with
    | udp => exact iff_of_true (boundTo_openUdp h) nofun
    | rawIp => exact iff_of_true (boundTo_openUdp h) nofun
    | tcp =>
      rw [Listening.BoundTo, OpenReply.Binds]
      dsimp only at h ⊢
      by_cases hzero : port = 0
      · rw [if_pos hzero] at h
        cases h
        exact iff_of_false (fun ⟨p, hp, _⟩ => by cases hp) fun hbinds => (hbinds rfl).1 hzero
      rw [if_neg hzero] at h
      obtain ⟨l₁, hopen, heq⟩ := Option.map_eq_some_iff.mp h
      cases heq
      rw [Listening.openTcp] at hopen
      by_cases hbound : (r.tcp.created && r.tcp.bound) = true
      · rw [if_pos hbound] at hopen
        split_ifs at hopen
        cases hopen
        rw [Bool.and_eq_true] at hbound
        exact iff_of_true ⟨port, rfl, Or.inr rfl⟩ fun _ => ⟨hzero, hbound⟩
      · rw [if_neg hbound] at hopen
        cases hopen
        rw [Bool.and_eq_true] at hbound
        exact iff_of_false (fun ⟨p, hp, _⟩ => by cases hp) fun hbinds => hbound (hbinds rfl).2
  · rw [if_neg hcleared] at h
    cases h

end Opening

/-! ## Requests -/

/-- A device with its sockets. -/
structure Serving (C : Prims) (T : Type → Type) where
  device : Device C T
  listening : Listening

/-- What a line draws and what the system answers to it. -/
structure Reply where
  seed : TunnSeed
  opening : OpenReply
  marked : Bool

namespace Serving

variable {C : Prims} {T : Type → Type} [Table T IpNetwork IpAddr] (s : Serving C T)

/-- One commit, and its failure. `none` is a panic. -/
def perform (reply : Reply) : Commit → Option (Serving C T × Option Status)
  | .privateKey key =>
    (s.device.setKey reply.seed.env key).map fun device => ({ s with device }, none)
  | .listenPort port =>
    (s.listening.openListenSocket s.device.transportMode port reply.opening).map
      fun (listening, opened) => ({ s with listening }, if opened then none else some .eaddrinuse)
  | .fwmark _ => some (s, if reply.marked then none else some .eaddrinuse)
  | .clearPeers => some ({ s with device := s.device.clearPeers }, none)
  | .peer sec =>
    (s.device.commit reply.seed sec).map fun device => ({ s with device }, none)

/-- The commits of the lines, up to a failure. -/
def carryOut (replies : ℕ → Reply) (s : Serving C T) (ending : Option Status) :
    List (Option Commit) → Option (Serving C T × Status)
  | [] => ending.map fun status => (s, status)
  | none :: cs => carryOut (fun n => replies (n + 1)) s ending cs
  | some c :: cs =>
    (s.perform (replies 0) c).bind fun
      | (s, none) => carryOut (fun n => replies (n + 1)) s ending cs
      | (s, some status) => some (s, status)

/-- `api_set` on what a connection delivers after the line `set=1`. -/
def apiSet (P : Parsers) (replies : ℕ → Reply) (reader : Text.Reader) :
    Option (Serving C T × Status) :=
  s.carryOut replies (decode P .settings reader.commands).2 (decode P .settings reader.commands).1

/-- The commits, when none of them fails. -/
def performAll (replies : ℕ → Reply) (s : Serving C T) : List (Option Commit) → Option (Serving C T)
  | [] => some s
  | none :: cs => performAll (fun n => replies (n + 1)) s cs
  | some c :: cs =>
    match s.perform (replies 0) c with
    | some (s, none) => performAll (fun n => replies (n + 1)) s cs
    | _ => none

variable {s} {s' : Serving C T} {replies : ℕ → Reply} {ending : Option Status}
  {cs : List (Option Commit)}

theorem status_of_perform {reply : Reply} {c : Commit} {status : Status}
    (h : s.perform reply c = some (s', some status)) : status = .eaddrinuse := by
  cases c with
  | privateKey key =>
    obtain ⟨d, -, heq⟩ := Option.map_eq_some_iff.mp h
    cases heq
  | listenPort port =>
    obtain ⟨⟨l, opened⟩, -, heq⟩ := Option.map_eq_some_iff.mp h
    cases opened with
    | false =>
      cases heq
      rfl
    | true => cases heq
  | fwmark mark =>
    rw [perform] at h
    split_ifs at h
    · cases h
    · cases h
      rfl
  | clearPeers => cases h
  | peer sec =>
    obtain ⟨d, -, heq⟩ := Option.map_eq_some_iff.mp h
    cases heq

/-- A request that succeeds has performed all its commits. -/
theorem performAll_of_carryOut (h : s.carryOut replies ending cs = some (s', .ok)) :
    s.performAll replies cs = some s' := by
  induction cs generalizing s replies with
  | nil =>
    obtain ⟨status, -, heq⟩ := Option.map_eq_some_iff.mp h
    cases heq
    rfl
  | cons c cs ih =>
    cases c with
    | none => exact ih h
    | some c =>
      obtain ⟨⟨s₁, _ | status⟩, hperform, hrest⟩ := Option.bind_eq_some_iff.mp h
      · rw [performAll, hperform]
        exact ih hrest
      · cases hrest
        cases status_of_perform hperform

/-- Sockets that are always opened and marked. -/
def accepting : Sockets C T := ⟨fun d _ => (d, true), fun d _ => (d, true)⟩

theorem perform_device {reply : Reply} {c : Commit} (h : s.perform reply c = some (s', none)) :
    Device.perform accepting reply.seed s.device c = some (s'.device, none) := by
  cases c with
  | privateKey key =>
    obtain ⟨d, hset, heq⟩ := Option.map_eq_some_iff.mp h
    cases heq
    rw [Device.perform, hset, Option.map_some]
  | listenPort port =>
    obtain ⟨⟨l, opened⟩, -, heq⟩ := Option.map_eq_some_iff.mp h
    cases opened with
    | false => cases heq
    | true =>
      cases heq
      rfl
  | fwmark mark =>
    rw [perform] at h
    split_ifs at h
    · cases h
      rfl
    · cases h
  | clearPeers =>
    cases h
    rfl
  | peer sec =>
    obtain ⟨d, hcommit, heq⟩ := Option.map_eq_some_iff.mp h
    cases heq
    rw [Device.perform, hcommit, Option.map_some]

/-- **The device of a request that succeeds** is that of `Device.apiSet`. -/
theorem apiSet_device {P : Parsers} {reader : Text.Reader}
    (h : s.apiSet P replies reader = some (s', .ok)) :
    Device.apiSet P accepting (fun n => (replies n).seed) s.device reader =
      some (s'.device, .ok) := by
  rw [Device.apiSet, apiSetLines_eq]
  rw [apiSet] at h
  generalize (decode P .settings reader.commands).2 = ending at h ⊢
  generalize (decode P .settings reader.commands).1 = cs at h ⊢
  induction cs generalizing s replies with
  | nil =>
    obtain ⟨status, hstatus, heq⟩ := Option.map_eq_some_iff.mp h
    cases heq
    rw [Device.carryOut, hstatus, Option.map_some]
  | cons c cs ih =>
    cases c with
    | none => exact ih h
    | some c =>
      obtain ⟨⟨s₁, _ | status⟩, hperform, hrest⟩ := Option.bind_eq_some_iff.mp h
      · rw [Device.carryOut, perform_device hperform]
        exact ih hrest
      · cases hrest
        cases status_of_perform hperform

theorem performAll_nones {α : Type*} (ls : List α) (cs : List (Option Commit)) :
    s.performAll replies (ls.map (fun _ => none) ++ cs) =
      s.performAll (fun n => replies (n + ls.length)) cs := by
  induction ls generalizing replies with
  | nil => rfl
  | cons a ls ih => exact ih.trans (by simp only [List.length_cons, Nat.add_assoc])

theorem performAll_some {c : Commit} (h : s.performAll replies (some c :: cs) = some s') :
    ∃ s₁, s.perform (replies 0) c = some (s₁, none) ∧
      s₁.performAll (fun n => replies (n + 1)) cs = some s' := by
  rw [performAll] at h
  split at h
  · next s₁ hperform => exact ⟨s₁, hperform, h⟩
  · cases h

end Serving

/-! ## What a section does to the peers -/

/-- The peers after a section, on a device with or without a private key. -/
def after (keyed : Bool) (peers : Bytes 32 → Option PeerConfig) (s : PeerSection) :
    Bytes 32 → Option PeerConfig :=
  if s.remove then Function.update peers s.publicKey none
  else if (peers s.publicKey).isSome || !keyed then peers
  else Function.update peers s.publicKey (some s.config)

section Peers

variable {C : Prims} {T : Type → Type} [Table T IpNetwork IpAddr] {d d' : Device C T}

/-- The settings and the index of every peer stay. -/
theorem setStaticPrivateAt_settings {env : Env} {privateKey publicKey : Bytes 32}
    {rateLimiter : RateLimiter} {heap heap' : List (Peer C T)} {peer : PeerRef}
    (h : setStaticPrivateAt env privateKey publicKey rateLimiter heap peer = some heap') :
    heap'.map Peer.config = heap.map Peer.config := by
  simp only [setStaticPrivateAt, Option.bind_eq_bind, Option.bind_eq_some_iff, Option.pure_def,
    Option.some.injEq] at h
  obtain ⟨p, hp, tunnel, htunnel, rfl⟩ := h
  obtain ⟨handshake, -, rfl⟩ := Option.map_eq_some_iff.mp htunnel
  refine List.ext_getElem? fun i => ?_
  rw [List.map_set, List.getElem?_set]
  split_ifs with hi hlt
  · subst hi
    rw [List.getElem?_map, hp]
    rfl
  · rw [List.getElem?_eq_none (not_lt.mp (hi ▸ hlt))]
  · rfl

theorem config_setKey (h : Consistent d) [LawfulTable T IpNetwork IpAddr] {env : Env}
    {key : Bytes 32} (hset : d.setKey env key = some d') :
    Consistent d' ∧ d'.transportMode = d.transportMode ∧ d'.keyPair.isSome = true ∧
      d'.config.peers = d.config.peers := by
  have hstep : d.step (.setKey env key) = some (d', .done) := by
    rw [step, hset, Option.map_some]
  have h' := h.change (step_change hstep)
  refine ⟨h', transportMode_step hstep, ?_⟩
  rw [setKey] at hset
  dsimp only at hset
  split_ifs at hset with hsame
  · cases hset
    refine ⟨?_, rfl⟩
    rw [← Option.isSome_map (f := KeyPair.publicKey), ← hsame]
    rfl
  · obtain ⟨heap, hfold, rfl⟩ := Option.map_eq_some_iff.mp hset
    refine ⟨rfl, funext fun k => ?_⟩
    have hheap : heap.map Peer.config = d.heap.map Peer.config := by
      generalize d.peers.entries.map Sigma.snd = refs at hfold
      generalize d.heap = heap₀ at hfold ⊢
      clear hstep h' hsame h
      induction refs generalizing heap₀ with
      | nil =>
        cases hfold
        rfl
      | cons peer refs ih =>
        rw [List.foldlM_cons] at hfold
        obtain ⟨heap₁, hfirst, hrest⟩ := Option.bind_eq_some_iff.mp hfold
        exact (ih _ hrest).trans (setStaticPrivateAt_settings hfirst)
    rw [config_peers h', config_peers h, peerAt, peerAt]
    dsimp only
    rcases d.peers.lookup k with _ | i
    · rfl
    · rw [Option.bind_some, Option.bind_some, lock, lock, ← List.getElem?_map,
        ← List.getElem?_map, hheap]

theorem transportMode_commit {seed : TunnSeed} {s : PeerSection}
    (hcommit : d.commit seed s = some d') : d'.transportMode = d.transportMode :=
  transportMode_step (step_commit hcommit)

variable [LawfulTable T IpNetwork IpAddr]

/-- **What a section does** to the peers. -/
theorem peers_commit (h : Consistent d) {seed : TunnSeed} {s : PeerSection}
    (hcommit : d.commit seed s = some d') :
    d'.config.peers = after d.keyPair.isSome d.config.peers s := by
  rcases hkey : d.keyPair.isSome with _ | _
  · obtain ⟨hremove, rfl⟩ | ⟨hremove, hpresent, rfl⟩ | ⟨hremove, habsent, lfsr, idx, hnext, hadd⟩ :=
      updatePeer_cases hcommit
    · rw [config_removePeer h, after, if_pos hremove]
      rfl
    · rw [after, hremove, if_neg Bool.false_ne_true, Bool.not_false, Bool.or_true, if_pos rfl]
    · rw [after, hremove, if_neg Bool.false_ne_true, Bool.not_false, Bool.or_true, if_pos rfl]
      obtain ⟨-, rfl⟩ | ⟨kp, hkp, -⟩ := hadd
      · rfl
      · rw [hkp] at hkey
        cases hkey
  · have hplan := plan_commit h hkey seed s
    rw [hcommit, Option.map_some, plan, plan, planned] at hplan
    dsimp only at hplan
    rw [after, Bool.not_true, Bool.or_false]
    split_ifs at hplan ⊢
    · exact congrArg (fun a : Config × IndexLfsr => a.1.peers) (Option.some.inj hplan)
    · exact congrArg (fun a : Config × IndexLfsr => a.1.peers) (Option.some.inj hplan)
    · obtain ⟨⟨lfsr, idx⟩, -, heq⟩ := Option.map_eq_some_iff.mp hplan.symm
      exact congrArg (fun a : Config × IndexLfsr => a.1.peers) heq.symm

end Peers

/-! ## What the settings do -/

namespace Setting

def isPrivateKey : Setting → Bool
  | .privateKey _ => true
  | _ => false

def clears : Setting → Bool
  | .replacePeers b => b
  | _ => false

def port : Setting → Option ℕ
  | .listenPort port => some port
  | _ => none

end Setting

section Settings

variable {P : Parsers} {C : Prims} {T : Type → Type} [Table T IpNetwork IpAddr]
  {s s₁ s' : Serving C T} {replies : ℕ → Reply}

/-- The port of the last `listen_port` line, and what the system answers to it. -/
def lastOpening (replies : ℕ → Reply) : List (SettingText P) → Option (ℕ × OpenReply)
  | [] => none
  | l :: ls =>
    match lastOpening (fun n => replies (n + 1)) ls with
    | some o => some o
    | none => l.setting.port.map fun port => (port, (replies 0).opening)

/-- What the settings do to a device and to its sockets. -/
structure Settled (ls : List (SettingText P)) (replies : ℕ → Reply) (s s₁ : Serving C T) :
    Prop where
  consistent : Consistent s₁.device
  transportMode : s₁.device.transportMode = s.device.transportMode
  keyed : s₁.device.keyPair.isSome =
    (s.device.keyPair.isSome || ls.any fun l => l.setting.isPrivateKey)
  peers : s₁.device.config.peers =
    if ls.any fun l => l.setting.clears then fun _ => none else s.device.config.peers
  opened : ∀ port opening, lastOpening replies ls = some (port, opening) →
    (s₁.listening.BoundTo s.device.transportMode port ↔
      opening.Binds s.device.transportMode port)
  unopened : lastOpening replies ls = none → s₁.listening = s.listening

theorem Settled.nil (h : Consistent s.device) :
    Settled ([] : List (SettingText P)) replies s s := by
  refine ⟨h, rfl, ?_, ?_, fun port opening hlast => ?_, fun _ => rfl⟩
  · rw [List.any_nil, Bool.or_false]
  · rw [List.any_nil, if_neg Bool.false_ne_true]
  · cases hlast

theorem lastOpening_singleton (l : SettingText P) :
    lastOpening replies [l] = l.setting.port.map fun port => (port, (replies 0).opening) := rfl

/-- One line, and the others after it. -/
theorem Settled.cons {l : SettingText P} {ls : List (SettingText P)}
    (h : Settled [l] replies s s₁) (h' : Settled ls (fun n => replies (n + 1)) s₁ s') :
    Settled (l :: ls) replies s s' := by
  have hmode := h.transportMode
  refine ⟨h'.consistent, h'.transportMode.trans hmode, ?_, ?_, fun port opening hlast => ?_,
    fun hlast => ?_⟩
  · rw [h'.keyed, h.keyed, List.any_cons, List.any_cons, List.any_nil, Bool.or_false, Bool.or_assoc]
  · rw [h'.peers, h.peers, List.any_cons, List.any_cons, List.any_nil, Bool.or_false]
    rcases l.setting.clears with _ | _
    · rw [Bool.false_or, if_neg Bool.false_ne_true]
    · rw [Bool.true_or, if_pos rfl, ite_self]
  · rw [lastOpening] at hlast
    rcases hrest : lastOpening (fun n => replies (n + 1)) ls with _ | o
    · rw [hrest] at hlast
      rw [h'.unopened hrest]
      exact h.opened port opening hlast
    · rw [hrest] at hlast
      obtain rfl := Option.some.inj hlast
      rw [← hmode]
      exact h'.opened port opening hrest
  · rw [lastOpening] at hlast
    rcases hrest : lastOpening (fun n => replies (n + 1)) ls with _ | o
    · rw [hrest] at hlast
      rw [h'.unopened hrest]
      exact h.unopened hlast
    · rw [hrest] at hlast
      cases hlast

variable [LawfulTable T IpNetwork IpAddr]

/-- **What one line does.** -/
theorem settled_of_perform (h : Consistent s.device) {l : SettingText P} {c : Commit}
    (hc : l.setting.commit = some c) (hperform : s.perform (replies 0) c = some (s₁, none)) :
    Settled [l] replies s s₁ := by
  rcases hl : l.setting with key | port | mark | _ | _ <;> rw [hl] at hc <;> cases hc
  · -- the private key
    obtain ⟨d, hset, heq⟩ := Option.map_eq_some_iff.mp hperform
    cases heq
    obtain ⟨hd, hmode, hkey, hpeers⟩ := config_setKey h hset
    refine ⟨hd, hmode, ?_, ?_, ?_, fun _ => rfl⟩
    · simp [hl, hkey, Setting.isPrivateKey]
    · simp [hl, hpeers, Setting.clears]
    · simp [lastOpening_singleton, hl, Setting.port]
  · -- the port
    obtain ⟨⟨listening, opened⟩, hopen, heq⟩ := Option.map_eq_some_iff.mp hperform
    cases opened with
    | false => cases heq
    | true =>
      cases heq
      refine ⟨h, rfl, ?_, ?_, fun port' opening hlast => ?_, ?_⟩
      · simp [hl, Setting.isPrivateKey]
      · simp [hl, Setting.clears]
      · rw [lastOpening_singleton, hl] at hlast
        cases hlast
        exact boundTo_iff hopen
      · simp [lastOpening_singleton, hl, Setting.port]
  · -- the mark
    rw [Serving.perform] at hperform
    split_ifs at hperform
    · cases hperform
      refine ⟨h, rfl, ?_, ?_, ?_, fun _ => rfl⟩
      · simp [hl, Setting.isPrivateKey]
      · simp [hl, Setting.clears]
      · simp [lastOpening_singleton, hl, Setting.port]
    · cases hperform
  · -- all peers are removed
    cases hperform
    refine ⟨h.change .clear, rfl, ?_, ?_, ?_, fun _ => rfl⟩
    · simp [hl, Setting.isPrivateKey, clearPeers]
    · simp [hl, Setting.clears]
      rfl
    · simp [lastOpening_singleton, hl, Setting.port]

omit [LawfulTable T IpNetwork IpAddr] in
theorem settled_of_none (h : Consistent s.device) {l : SettingText P}
    (hc : l.setting.commit = none) : Settled [l] replies s s := by
  rcases hl : l.setting with key | port | mark | _ | _ <;> rw [hl] at hc <;> cases hc
  refine ⟨h, rfl, ?_, ?_, ?_, fun _ => rfl⟩
  · simp [hl, Setting.isPrivateKey]
  · simp [hl, Setting.clears]
  · simp [lastOpening_singleton, hl, Setting.port]

/-- **What the settings do.** -/
theorem performAll_settings (h : Consistent s.device) {ls : List (SettingText P)}
    {cs : List (Option Commit)}
    (hall : s.performAll replies ((ls.map fun l => l.setting.commit) ++ cs) = some s') :
    ∃ s₁ replies', s₁.performAll replies' cs = some s' ∧ Settled ls replies s s₁ := by
  induction ls generalizing s replies with
  | nil => exact ⟨s, replies, hall, .nil h⟩
  | cons l ls ih =>
    rw [List.map_cons, List.cons_append] at hall
    rcases hc : l.setting.commit with _ | c
    · rw [hc] at hall
      have hfirst : Settled [l] replies s s := settled_of_none h hc
      obtain ⟨s₁, replies', hrest, hsettled⟩ := ih h hall
      exact ⟨s₁, replies', hrest, hfirst.cons hsettled⟩
    · rw [hc] at hall
      obtain ⟨s₀, hperform, hall⟩ := Serving.performAll_some hall
      have hfirst := settled_of_perform h hc hperform
      obtain ⟨s₁, replies', hrest, hsettled⟩ := ih hfirst.consistent hall
      exact ⟨s₁, replies', hrest, hfirst.cons hsettled⟩

end Settings

/-! ## What the sections do -/

section Sections

variable {P : Parsers} {C : Prims} {T : Type → Type} [Table T IpNetwork IpAddr]
  [LawfulTable T IpNetwork IpAddr] {s s' : Serving C T} {replies : ℕ → Reply}

/-- **What sections do**, from within one. -/
theorem performAll_sections (h : Consistent s.device) {body : List (DirectiveText P)}
    {sec : PeerSection} {ts : List (SectionText P)} {rest : List (List Char)}
    (hall : s.performAll replies (decode P (.peer sec) (body.map DirectiveText.line ++
      (ts.flatMap SectionText.lines ++ [] :: rest))).1 = some s') :
    s'.listening = s.listening ∧ s'.device.transportMode = s.device.transportMode ∧
      s'.device.config.peers =
        ((body.map DirectiveText.directive).foldl PeerSection.set sec ::
          effectives ((body.map DirectiveText.directive).foldl PeerSection.set sec) ts).foldl
            (after s.device.keyPair.isSome) s.device.config.peers := by
  induction ts generalizing body sec s replies with
  | nil =>
    rw [decode_append (reads_body body sec), Serving.performAll_nones, List.flatMap_nil,
      List.nil_append, decode, readLine, if_pos rfl] at hall
    obtain ⟨s₁, hperform, hend⟩ := Serving.performAll_some hall
    obtain ⟨d, hcommit, heq⟩ := Option.map_eq_some_iff.mp hperform
    cases heq
    cases hend
    exact ⟨rfl, (transportMode_commit hcommit), peers_commit h hcommit⟩
  | cons t ts ih =>
    rw [decode_append (reads_body body sec), Serving.performAll_nones, List.flatMap_cons,
      SectionText.lines, List.append_assoc, List.cons_append, decode, readLine_next] at hall
    obtain ⟨s₁, hperform, hrest⟩ := Serving.performAll_some hall
    obtain ⟨d, hcommit, heq⟩ := Option.map_eq_some_iff.mp hperform
    cases heq
    obtain ⟨hd, hkey⟩ := commit_consistent h hcommit
    obtain ⟨hlistening, hmode, hpeers⟩ := ih hd hrest
    refine ⟨hlistening, hmode.trans (transportMode_commit hcommit), hpeers.trans ?_⟩
    rw [hkey, peers_commit h hcommit]
    rfl

end Sections

/-! ## What has been applied -/

section Applied

variable {P : Parsers}

/-- What a section asks for: its peer is absent, or has the settings of the section. -/
def SectionText.asked (t : SectionText P) : Option PeerConfig :=
  if t.own.remove then none else some t.own.config

/-- The section leaves its peer as it says: it takes over no `remove` from the sections before, and
when the peer is there, it has these settings already, or else there is a private key and what the
section takes over changes no setting. -/
def SectionText.Lands (t : SectionText P) (keyed : Bool) (found : Option PeerConfig)
    (carried : PeerSection) : Prop :=
  t.own.remove = false → (t.effective carried).remove = false ∧
    match found with
    | some config => config = t.own.config
    | none => keyed = true ∧ (t.effective carried).SameSettings t.own

/-- Every section that is the last of its peer leaves it as it says. -/
def AllLand (keyed : Bool) (peers : Bytes 32 → Option PeerConfig) (carried : PeerSection) :
    List (SectionText P) → Prop
  | [] => True
  | t :: ts => ((∀ u ∈ ts, u.pubKey ≠ t.pubKey) → t.Lands keyed (peers t.pubKey) carried) ∧
      AllLand keyed (after keyed peers (t.effective carried)) (t.effective carried) ts

theorem SectionText.publicKey_effective (t : SectionText P) (carried : PeerSection) :
    (t.effective carried).publicKey = t.pubKey :=
  (t.carries carried).publicKey.trans t.publicKey_own

/-- What one section leaves. -/
theorem after_eq_asked_iff (t : SectionText P) (keyed : Bool)
    (peers : Bytes 32 → Option PeerConfig) (carried : PeerSection) :
    after keyed peers (t.effective carried) t.pubKey = t.asked ↔
      t.Lands keyed (peers t.pubKey) carried := by
  have hcarries := t.carries carried
  rw [after, SectionText.asked, SectionText.Lands.eq_def, t.publicKey_effective]
  rcases hown : t.own.remove with _ | _
  · rw [if_neg Bool.false_ne_true]
    rcases heff : (t.effective carried).remove with _ | _
    · rw [if_neg Bool.false_ne_true]
      rcases hfound : peers t.pubKey with _ | config
      · cases keyed with
        | false =>
          rw [Option.isSome_none, Bool.not_false, Bool.or_true, if_pos rfl, hfound]
          exact iff_of_false nofun fun h => Bool.false_ne_true (h rfl).2.1
        | true =>
          rw [Option.isSome_none, Bool.not_true, Bool.or_false, if_neg Bool.false_ne_true,
            Function.update_self, Option.some.injEq]
          refine ⟨fun h _ => ⟨rfl, rfl, sameSettings_of_config_eq h⟩, fun h => ?_⟩
          exact config_eq_of_sameSettings hcarries (h rfl).2.2
      · rw [Option.isSome_some, Bool.true_or, if_pos rfl, hfound, Option.some.injEq]
        exact ⟨fun h _ => ⟨rfl, h⟩, fun h => (h rfl).2⟩
    · rw [if_pos rfl, Function.update_self]
      exact iff_of_false nofun fun h => Bool.false_ne_true (h rfl).1.symm
  · rw [hcarries.remove hown, if_pos rfl, if_pos rfl, Function.update_self]
    exact iff_of_true rfl nofun

/-- Sections of other peers leave a peer as it is. -/
theorem foldl_after_of_ne (keyed : Bool) {peers : Bytes 32 → Option PeerConfig}
    {carried : PeerSection} {ts : List (SectionText P)} {k : Bytes 32}
    (h : ∀ u ∈ ts, u.pubKey ≠ k) :
    (effectives carried ts).foldl (after keyed) peers k = peers k := by
  induction ts generalizing peers carried with
  | nil => rfl
  | cons t ts ih =>
    have hk : k ≠ (t.effective carried).publicKey := by
      rw [t.publicKey_effective]
      exact (h t List.mem_cons_self).symm
    rw [effectives, List.foldl_cons, ih fun u hu => h u (List.mem_cons_of_mem _ hu), after]
    split_ifs
    · rw [Function.update_of_ne hk]
    · rfl
    · rw [Function.update_of_ne hk]

/-- **When sections leave their peers as they say.** -/
theorem allLand_iff (keyed : Bool) (peers : Bytes 32 → Option PeerConfig) (carried : PeerSection)
    (ss : List (SectionText P)) :
    (∀ ts t ts', ss = ts ++ t :: ts' → (∀ u ∈ ts', u.pubKey ≠ t.pubKey) →
      (effectives carried ss).foldl (after keyed) peers t.pubKey = t.asked) ↔
      AllLand keyed peers carried ss := by
  induction ss generalizing peers carried with
  | nil =>
    refine ⟨fun _ => trivial, fun _ ts t ts' heq => ?_⟩
    cases ts <;> cases heq
  | cons t₀ ss ih =>
    rw [AllLand, ← ih, effectives, List.foldl_cons]
    constructor
    · intro hleaves
      refine ⟨fun hlast => ?_, fun ts t ts' heq hlast => ?_⟩
      · rw [← after_eq_asked_iff]
        exact (foldl_after_of_ne keyed hlast).symm.trans (hleaves [] t₀ ss rfl hlast)
      · exact hleaves (t₀ :: ts) t ts' (by rw [heq, List.cons_append]) hlast
    · rintro ⟨hfirst, hrest⟩ (_ | ⟨t₁, ts⟩) t ts' heq hlast
      · cases heq
        rw [foldl_after_of_ne keyed hlast, after_eq_asked_iff]
        exact hfirst hlast
      · cases heq
        exact hrest ts t ts' rfl hlast

variable {C : Prims} {T : Type → Type} [Table T IpNetwork IpAddr]

/-- The port of the last `listen_port` line. -/
def RequestText.lastPort (req : RequestText P) : Option ℕ :=
  (req.settings.filterMap fun l => l.setting.port).getLast?

/-- What a request that is answered with `errno=0` should have done: the last section of each peer
counts, and the last `listen_port` line. -/
structure RequestText.Applied (req : RequestText P) (s' : Serving C T) : Prop where
  peers : ∀ ts t ts', req.sections = ts ++ t :: ts' → (∀ u ∈ ts', u.pubKey ≠ t.pubKey) →
    s'.device.config.peers t.pubKey = t.asked
  listening : ∀ port, req.lastPort = some port →
    s'.listening.BoundTo s'.device.transportMode port

/-- The request meets a device that does what it says. -/
structure RequestText.Suits (req : RequestText P) (replies : ℕ → Reply) (s : Serving C T) :
    Prop where
  peers : AllLand
    (s.device.keyPair.isSome || req.settings.any fun l => l.setting.isPrivateKey)
    (if req.settings.any fun l => l.setting.clears then fun _ => none else s.device.config.peers)
    (.new (zeros 32)) req.sections
  listening : ∀ port opening, lastOpening replies req.settings = some (port, opening) →
    opening.Binds s.device.transportMode port

theorem map_fst_lastOpening (replies : ℕ → Reply) (ls : List (SettingText P)) :
    (lastOpening replies ls).map Prod.fst = (ls.filterMap fun l => l.setting.port).getLast? := by
  induction ls generalizing replies with
  | nil => rfl
  | cons l ls ih =>
    have hrest := ih fun n => replies (n + 1)
    rw [lastOpening]
    rcases hport : l.setting.port with _ | port
    · rw [List.filterMap_cons, hport, ← hrest]
      rcases lastOpening (fun n => replies (n + 1)) ls with _ | o
      · rfl
      · rfl
    · rw [List.filterMap_cons, hport, List.getLast?_cons, ← hrest]
      rcases lastOpening (fun n => replies (n + 1)) ls with _ | o
      · rfl
      · rfl

/-- What a connection delivers after the line `set=1`, with what comes after the request. -/
def RequestText.reader (req : RequestText P) (rest : List Char) (failing : Bool) : Text.Reader :=
  ⟨Text.unlines (req.body ++ [[]]) ++ rest, failing⟩

theorem RequestText.commands_reader (req : RequestText P) (rest : List Char) (failing : Bool) :
    (req.reader rest failing).commands =
      req.settings.map SettingText.line ++ (req.sections.flatMap SectionText.lines ++
        [] :: Text.Reader.commands ⟨rest, failing⟩) := by
  rw [RequestText.reader, Text.Reader.commands_lines rest fun line hline =>
    req.newline_notMem line (List.mem_cons_of_mem _ hline), RequestText.body, List.append_assoc,
    List.append_assoc, List.singleton_append]

variable [LawfulTable T IpNetwork IpAddr] {s s' : Serving C T} {replies : ℕ → Reply}
  {req : RequestText P} {rest : List Char} {failing : Bool}

/-- **What a request that succeeds does.** -/
theorem performs_request (h : Consistent s.device)
    (hset : s.apiSet P replies (req.reader rest failing) = some (s', .ok)) :
    s'.device.transportMode = s.device.transportMode ∧
      s'.device.config.peers = (effectives (.new (zeros 32)) req.sections).foldl
        (after (s.device.keyPair.isSome || req.settings.any fun l => l.setting.isPrivateKey))
        (if req.settings.any fun l => l.setting.clears then fun _ => none
          else s.device.config.peers) ∧
      ∀ port opening, lastOpening replies req.settings = some (port, opening) →
        (s'.listening.BoundTo s.device.transportMode port ↔
          opening.Binds s.device.transportMode port) := by
  have hall := Serving.performAll_of_carryOut hset
  rw [req.commands_reader, decode_append (reads_settings req.settings)] at hall
  obtain ⟨s₁, replies', hrest, hsettled⟩ := performAll_settings h hall
  rw [← hsettled.keyed, ← hsettled.peers]
  generalize req.sections = ss at hrest ⊢
  rcases ss with _ | ⟨t, ts⟩
  · rw [List.flatMap_nil, List.nil_append, decode, readLine, if_pos rfl] at hrest
    cases hrest
    exact ⟨hsettled.transportMode, rfl, hsettled.opened⟩
  · rw [List.flatMap_cons, SectionText.lines, List.append_assoc, List.cons_append, decode,
      readLine_first] at hrest
    obtain ⟨hlistening, hmode, hpeers⟩ := performAll_sections hsettled.consistent hrest
    rw [hlistening]
    exact ⟨hmode.trans hsettled.transportMode, hpeers, hsettled.opened⟩

/-- **`errno=0` means applied** exactly when the request suits the device. -/
theorem applied_iff (h : Reached s.device)
    (hset : s.apiSet P replies (req.reader rest failing) = some (s', .ok)) :
    req.Applied s' ↔ req.Suits replies s := by
  obtain ⟨hmode, hpeers, hlistening⟩ := performs_request (consistent_of_reached h) hset
  have hland := allLand_iff
    (s.device.keyPair.isSome || req.settings.any fun l => l.setting.isPrivateKey)
    (if req.settings.any fun l => l.setting.clears then fun _ => none else s.device.config.peers)
    (.new (zeros 32)) req.sections
  rw [← hpeers] at hland
  have hport : ∀ port, req.lastPort = some port ↔
      ∃ opening, lastOpening replies req.settings = some (port, opening) := by
    intro port
    rw [RequestText.lastPort, ← map_fst_lastOpening replies, Option.map_eq_some_iff]
    exact ⟨fun ⟨⟨p, o⟩, hlast, heq⟩ => ⟨o, by rw [hlast, ← heq]⟩,
      fun ⟨o, hlast⟩ => ⟨(port, o), hlast, rfl⟩⟩
  constructor
  · intro happlied
    refine ⟨hland.mp happlied.peers, fun port opening hlast => ?_⟩
    have hbound := happlied.listening port ((hport port).mpr ⟨opening, hlast⟩)
    rw [hmode] at hbound
    exact (hlistening port opening hlast).mp hbound
  · intro hsuits
    refine ⟨hland.mpr hsuits.peers, fun port hlast => ?_⟩
    obtain ⟨opening, hopening⟩ := (hport port).mp hlast
    rw [hmode]
    exact (hlistening port opening hopening).mpr (hsuits.listening port opening hopening)

end Applied

/-! ## A peer that is there already -/

/-- Every call of the system succeeds. -/
def goodSocket : SocketReply := ⟨true, true, true, true, true, true⟩

def goodReply : Reply where
  seed := sampleSeed
  opening := ⟨true, goodSocket, goodSocket, goodSocket, none⟩
  marked := true

/-- No sockets. -/
def deaf : Listening := ⟨none, none, none, 0⟩

/-- The port, and a new peer with a keepalive interval. -/
def sampleRequest : RequestText sampleParsers := ⟨[samplePort], [sampleFirst [sampleKeepalive]]⟩

/-- The device is in TCP mode. -/
theorem applied_sample :
    ∃ s s' : Serving checksumPrims (PrefixMap IpNetwork), Reached s.device ∧
      s.apiSet sampleParsers (fun _ => goodReply) (sampleRequest.reader [] false) =
        some (s', .ok) ∧ sampleRequest.Applied s' := by
  obtain ⟨d, hd, hreached, hkey⟩ := exists_keyedDevice
  have hrun : (keyedDevice.bind fun d => Serving.apiSet ⟨d, deaf⟩ sampleParsers
      (fun _ => goodReply) (sampleRequest.reader [] false)).map Prod.snd = some .ok := by
    decide +kernel
  have habsent : (keyedDevice.map fun d => (d.config.peers (fill 32 0x11)).isNone) =
      some true := by decide +kernel
  rw [hd, Option.bind_some] at hrun
  rw [hd, Option.map_some, Option.some.injEq] at habsent
  obtain ⟨⟨s', status⟩, hset, rfl⟩ := Option.map_eq_some_iff.mp hrun
  refine ⟨⟨d, deaf⟩, s', hreached, hset, (applied_iff hreached hset).mpr ⟨?_, ?_⟩⟩
  · refine ⟨fun _ _ => ⟨rfl, ?_⟩, trivial⟩
    have hnone : d.config.peers (fill 32 0x11) = none := Option.isNone_iff_eq_none.mp habsent
    change match d.config.peers (fill 32 0x11) with
      | some config => config = (sampleFirst [sampleKeepalive]).own.config
      | none => (d.keyPair.isSome || false) = true ∧ _
    rw [hnone]
    exact ⟨by rw [hkey, Bool.true_or], rfl, rfl, rfl⟩
  · intro port opening hlast
    cases hlast
    exact fun _ => ⟨by decide, rfl, rfl⟩

/-- **A second section of a peer is dropped**, and the answer is `errno=0`. -/
theorem not_applied :
    ¬ ∀ (s s' : Serving checksumPrims (PrefixMap IpNetwork)) (req : RequestText sampleParsers),
      Reached s.device →
      s.apiSet sampleParsers (fun _ => goodReply) (req.reader [] false) = some (s', .ok) →
      req.Applied s' := by
  intro hclaim
  obtain ⟨d, hd, hreached, -⟩ := exists_keyedDevice
  let req : RequestText sampleParsers := ⟨[], [sampleFirst [], sampleFirst [sampleKeepalive]]⟩
  have hrun : (keyedDevice.bind fun d => Serving.apiSet ⟨d, deaf⟩ sampleParsers
      (fun _ => goodReply) (req.reader [] false)).map
        (fun r => (r.2, (r.1.device.config.peers (fill 32 0x11)).map PeerConfig.keepalive)) =
      some (.ok, some none) := by decide +kernel
  rw [hd, Option.bind_some] at hrun
  obtain ⟨⟨s', status⟩, hset, heq⟩ := Option.map_eq_some_iff.mp hrun
  obtain ⟨rfl, hkeepalive⟩ := Prod.mk.inj heq
  have happlied := (hclaim ⟨d, deaf⟩ s' req hreached hset).peers [sampleFirst []]
    (sampleFirst [sampleKeepalive]) [] rfl nofun
  have hasked : (s'.device.config.peers (fill 32 0x11)).map PeerConfig.keepalive =
      some (some 25) := congrArg (Option.map PeerConfig.keepalive) happlied
  rw [hkeepalive] at hasked
  exact absurd (Option.some.inj hasked) (by decide)

end NekoLink.Device
