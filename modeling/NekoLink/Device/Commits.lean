import NekoLink.Device.Api
import Mathlib.Data.List.ReduceOption

/-!
# What a request asks for

A set request is taken apart: `decode` reads its lines, without the device, into what each of them
commits, and `carryOut` commits it to a device, up to a failure.

* `apiSetLines_eq`: the two together are `api_set`.
* `decode_append`: lines that are read to their end are read one part after the other.
* `carriedOut_prefix`: what a device commits is a beginning of what the lines ask for.
-/

namespace NekoLink.Device

open Wire Noise Routing

inductive Commit
  | privateKey (key : Bytes 32)
  | listenPort (port : ℕ)
  | fwmark (mark : ℕ)
  | clearPeers
  /-- `update_peer` with the variables of a section. -/
  | peer (s : PeerSection)

/-! ## Reading -/

/-- A line before the first peer section, once its value is read. -/
inductive Setting
  | privateKey (key : Bytes 32)
  | listenPort (port : ℕ)
  | fwmark (mark : ℕ)
  | replacePeers (b : Bool)

def Setting.commit : Setting → Option Commit
  | .privateKey key => some (.privateKey key)
  | .listenPort port => some (.listenPort port)
  | .fwmark mark => some (.fwmark mark)
  | .replacePeers true => some .clearPeers
  | .replacePeers false => none

/-- `none` is a panic, and `some none` stands for `EINVAL`. -/
def parseSetting (P : Parsers) (key val : List Char) : Option (Option Setting) :=
  if key = "private_key".toList then
    (KeyBytes.fromStr P val).map fun key => key.map .privateKey
  else if key = "listen_port".toList then some ((parseUnsigned 65535 val).map .listenPort)
  else if key = "fwmark".toList then some ((parseUnsigned (2 ^ 32 - 1) val).map .fwmark)
  else if key = "replace_peers".toList then some ((parseBool val).map .replacePeers)
  else some none

/-- Where the request is read: before the first section, or within one. -/
inductive Mode
  | settings
  | peer (s : PeerSection)

/-- What becomes of a line: it commits something, or nothing, and the next line is read, or the
request ends with a status, or with a panic. -/
inductive Reading
  | next (commit : Option Commit) (mode : Mode)
  | stop (commit : Option Commit) (ending : Option Status)

/-- A value that is read, or is not. -/
def Reading.ofValue {α : Type} (commit : Option Commit) (value : Option (Option α))
    (next : α → Reading) : Reading :=
  match value with
  | none => .stop commit none
  | some none => .stop commit (some .einval)
  | some (some a) => next a

def readLine (P : Parsers) : Mode → List Char → Reading
  | .settings, cmd =>
    if cmd = [] then .stop none (some .ok)
    else
      match Text.splitOnce '=' cmd with
      | none => .stop none (some .eproto)
      | some (key, val) =>
        if key = "public_key".toList then
          .ofValue none (KeyBytes.fromStr P val) fun publicKey =>
            .next none (.peer (.new publicKey))
        else
          .ofValue none (parseSetting P key val) fun setting => .next setting.commit .settings
  | .peer s, cmd =>
    if cmd = [] then .stop (some (.peer s)) (some .ok)
    else
      match Text.splitOnce '=' cmd with
      | none => .stop none (some .eproto)
      | some (key, val) =>
        if key = "public_key".toList then
          .ofValue (some (.peer s)) (KeyBytes.fromStr P val) fun publicKey =>
            .next (some (.peer s)) (.peer { s with publicKey, allowedIps := [] })
        else
          .ofValue none (parseDirective P key val) fun directive =>
            .next none (.peer (s.set directive))

/-- What the lines commit, one after the other, and how the request ends. -/
def decode (P : Parsers) : Mode → List (List Char) → List (Option Commit) × Option Status
  | _, [] => ([], some .ok)
  | mode, cmd :: cmds =>
    match readLine P mode cmd with
    | .next commit mode =>
      let r := decode P mode cmds
      (commit :: r.1, r.2)
    | .stop commit ending => ([commit], ending)

/-! ## Committing -/

section CarryOut

variable {C : Prims} {T : Type → Type} [Table T IpNetwork IpAddr] (S : Sockets C T)

/-- One commit, and the failure of a socket. `none` is a panic. -/
def perform (seed : TunnSeed) (d : Device C T) : Commit → Option (Device C T × Option Status)
  | .privateKey key => (d.setKey seed.env key).map fun d => (d, none)
  | .listenPort port =>
    match S.openListenSocket d port with
    | (d, true) => some (d, none)
    | (d, false) => some (d, some .eaddrinuse)
  | .fwmark mark =>
    match S.setFwmark d mark with
    | (d, true) => some (d, none)
    | (d, false) => some (d, some .eaddrinuse)
  | .clearPeers => some (d.clearPeers, none)
  | .peer s => (d.commit seed s).map fun d => (d, none)

/-- The commits of the lines, up to a failure. -/
def carryOut (seeds : ℕ → TunnSeed) (d : Device C T) (ending : Option Status) :
    List (Option Commit) → Option (Device C T × Status)
  | [] => ending.map fun status => (d, status)
  | none :: cs => carryOut (fun n => seeds (n + 1)) d ending cs
  | some c :: cs =>
    (perform S (seeds 0) d c).bind fun
      | (d, none) => carryOut (fun n => seeds (n + 1)) d ending cs
      | (d, some status) => some (d, status)

/-- What the device has committed when it is done. -/
def carriedOut (seeds : ℕ → TunnSeed) (d : Device C T) : List (Option Commit) → List Commit
  | [] => []
  | none :: cs => carriedOut (fun n => seeds (n + 1)) d cs
  | some c :: cs =>
    match perform S (seeds 0) d c with
    | some (d, none) => c :: carriedOut (fun n => seeds (n + 1)) d cs
    | _ => []

end CarryOut

section Equations

variable {P : Parsers} {C : Prims} {T : Type → Type} [Table T IpNetwork IpAddr] (S : Sockets C T)
  (seeds : ℕ → TunnSeed) (d : Device C T) (ending : Option Status) (cs : List (Option Commit))

theorem carryOut_peer (s : PeerSection) :
    carryOut S seeds d ending (some (.peer s) :: cs) =
      (d.commit (seeds 0) s).bind fun d => carryOut S (fun n => seeds (n + 1)) d ending cs := by
  rw [carryOut, perform]
  rcases d.commit (seeds 0) s with _ | d'
  · rfl
  · rfl

theorem carryOut_privateKey (key : Bytes 32) :
    carryOut S seeds d ending (some (.privateKey key) :: cs) =
      (d.setKey (seeds 0).env key).bind fun d =>
        carryOut S (fun n => seeds (n + 1)) d ending cs := by
  rw [carryOut, perform]
  rcases d.setKey (seeds 0).env key with _ | d'
  · rfl
  · rfl

theorem carryOut_listenPort (port : ℕ) :
    carryOut S seeds d ending (some (.listenPort port) :: cs) =
      match S.openListenSocket d port with
      | (d, true) => carryOut S (fun n => seeds (n + 1)) d ending cs
      | (d, false) => some (d, .eaddrinuse) := by
  rw [carryOut, perform]
  rcases S.openListenSocket d port with ⟨d', _ | _⟩
  · rfl
  · rfl

theorem carryOut_fwmark (mark : ℕ) :
    carryOut S seeds d ending (some (.fwmark mark) :: cs) =
      match S.setFwmark d mark with
      | (d, true) => carryOut S (fun n => seeds (n + 1)) d ending cs
      | (d, false) => some (d, .eaddrinuse) := by
  rw [carryOut, perform]
  rcases S.setFwmark d mark with ⟨d', _ | _⟩
  · rfl
  · rfl

/-- The lines of peer sections. -/
theorem apiSetPeer_eq (s : PeerSection) (cmds : List (List Char)) :
    apiSetPeer P seeds d s cmds =
      carryOut S seeds d (decode P (.peer s) cmds).2 (decode P (.peer s) cmds).1 := by
  induction cmds generalizing seeds d s with
  | nil => rfl
  | cons cmd cmds ih =>
    rw [apiSetPeer, decode, readLine]
    by_cases hempty : cmd = []
    · rw [if_pos hempty, if_pos hempty, carryOut_peer]
      rcases d.commit (seeds 0) s with _ | d'
      · rfl
      · rfl
    rw [if_neg hempty, if_neg hempty]
    rcases Text.splitOnce '=' cmd with _ | ⟨key, val⟩
    · rfl
    dsimp only
    by_cases hkey : key = "public_key".toList
    · rw [if_pos hkey, if_pos hkey]
      rcases KeyBytes.fromStr P val with _ | _ | publicKey
      · rw [Reading.ofValue, carryOut_peer]
        rfl
      · rw [Reading.ofValue, carryOut_peer]
        rfl
      · rw [Reading.ofValue, carryOut_peer]
        exact Option.bind_congr fun d' _ => ih ..
    · rw [if_neg hkey, if_neg hkey]
      rcases parseDirective P key val with _ | _ | directive
      · rfl
      · rfl
      · exact ih ..

/-- **A request is what its lines commit**, carried out. -/
theorem apiSetLines_eq (cmds : List (List Char)) :
    apiSetLines P S seeds d cmds =
      carryOut S seeds d (decode P .settings cmds).2 (decode P .settings cmds).1 := by
  induction cmds generalizing seeds d with
  | nil => rfl
  | cons cmd cmds ih =>
    rw [apiSetLines, decode, readLine]
    by_cases hempty : cmd = []
    · rw [if_pos hempty, if_pos hempty]
      rfl
    rw [if_neg hempty, if_neg hempty]
    rcases Text.splitOnce '=' cmd with _ | ⟨key, val⟩
    · rfl
    dsimp only
    by_cases hpublic : key = "public_key".toList
    · subst hpublic
      have h₁ : "public_key".toList ≠ "private_key".toList := by decide
      have h₂ : "public_key".toList ≠ "listen_port".toList := by decide
      have h₃ : "public_key".toList ≠ "fwmark".toList := by decide
      have h₄ : "public_key".toList ≠ "replace_peers".toList := by decide
      simp only [h₁, h₂, h₃, h₄, if_false, if_true]
      rcases KeyBytes.fromStr P val with _ | _ | publicKey
      · rfl
      · rfl
      · exact apiSetPeer_eq ..
    · rw [if_neg hpublic, parseSetting]
      split_ifs with hprivate hlisten hfwmark hreplace
      · rcases KeyBytes.fromStr P val with _ | _ | privateKey
        · rfl
        · rfl
        · refine Eq.trans ?_ (carryOut_privateKey ..).symm
          exact Option.bind_congr fun d' _ => ih ..
      · rcases parseUnsigned 65535 val with _ | port
        · rfl
        · refine Eq.trans ?_ (carryOut_listenPort ..).symm
          dsimp only
          rcases S.openListenSocket d port with ⟨d', _ | _⟩
          · rfl
          · exact ih ..
      · rcases parseUnsigned (2 ^ 32 - 1) val with _ | mark
        · rfl
        · refine Eq.trans ?_ (carryOut_fwmark ..).symm
          dsimp only
          rcases S.setFwmark d mark with ⟨d', _ | _⟩
          · rfl
          · exact ih ..
      · rcases parseBool val with _ | _ | _
        · rfl
        · exact ih ..
        · exact ih ..
      · rfl

end Equations

/-! ## Parts of a request -/

/-- Lines of which each is read and the request goes on. -/
def reads (P : Parsers) : Mode → List (List Char) → Option (List (Option Commit) × Mode)
  | mode, [] => some ([], mode)
  | mode, cmd :: cmds =>
    match readLine P mode cmd with
    | .next commit mode => (reads P mode cmds).map fun r => (commit :: r.1, r.2)
    | .stop _ _ => none

section Parts

variable {P : Parsers} {mode mode' mode'' : Mode} {ls ls' : List (List Char)} {line : List Char}
  {commit : Option Commit} {cs cs' : List (Option Commit)}

theorem reads_cons (h : readLine P mode line = .next commit mode')
    (h' : reads P mode' ls = some (cs, mode'')) :
    reads P mode (line :: ls) = some (commit :: cs, mode'') := by
  rw [reads, h]
  dsimp only
  rw [h', Option.map_some]

theorem reads_append (h : reads P mode ls = some (cs, mode'))
    (h' : reads P mode' ls' = some (cs', mode'')) :
    reads P mode (ls ++ ls') = some (cs ++ cs', mode'') := by
  induction ls generalizing mode cs with
  | nil =>
    cases h
    exact h'
  | cons line ls ih =>
    rw [reads] at h
    split at h
    · next commit mode₁ hline =>
      obtain ⟨⟨cs₁, mode₂⟩, hrest, heq⟩ := Option.map_eq_some_iff.mp h
      cases heq
      exact reads_cons hline (ih hrest)
    · cases h

/-- After lines that are read, the rest is read. -/
theorem decode_append (h : reads P mode ls = some (cs, mode')) (rest : List (List Char)) :
    decode P mode (ls ++ rest) = (cs ++ (decode P mode' rest).1, (decode P mode' rest).2) := by
  induction ls generalizing mode cs with
  | nil =>
    cases h
    rfl
  | cons line ls ih =>
    rw [reads] at h
    split at h
    · next commit mode₁ hline =>
      obtain ⟨⟨cs₁, mode₂⟩, hrest, heq⟩ := Option.map_eq_some_iff.mp h
      cases heq
      rw [List.cons_append, decode, hline]
      dsimp only
      rw [ih hrest]
      rfl
    · cases h

end Parts

/-- A device carries out some of the commits, from the first one on. -/
theorem carriedOut_prefix {C : Prims} {T : Type → Type} [Table T IpNetwork IpAddr]
    (S : Sockets C T) (seeds : ℕ → TunnSeed) (d : Device C T) (cs : List (Option Commit)) :
    carriedOut S seeds d cs <+: cs.reduceOption := by
  induction cs generalizing seeds d with
  | nil => exact List.prefix_rfl
  | cons c cs ih =>
    rcases c with _ | c
    · exact ih ..
    · rw [carriedOut, List.reduceOption_cons_of_some]
      split
      · exact (List.prefix_cons_inj c).mpr (ih ..)
      · exact List.nil_prefix

end NekoLink.Device
