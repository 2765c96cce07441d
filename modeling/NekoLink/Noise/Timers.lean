import Mathlib.Logic.Function.Basic
import NekoLink.Noise.Session

/-!
# Timers and the session ring

`Timers` of `timers.rs` and the `sessions` array of a tunnel. Durations are in nanoseconds since
the tunnel was created. `SessionRing` carries the ring's invariant: a session is stored in the
slot of its own index, so a session read from its slot is written back to it.
-/

namespace NekoLink.Noise

/-! ## Durations -/

/-- `Duration::from_secs` -/
def fromSecs (secs : ℕ) : ℕ := secs * 10 ^ 9

def rekeyAfterTime : ℕ := fromSecs 120
def rejectAfterTime : ℕ := fromSecs 180
def rekeyAttemptTime : ℕ := fromSecs 90
def rekeyTimeout : ℕ := fromSecs 5
def keepaliveTimeout : ℕ := fromSecs 10
def cookieExpirationTime : ℕ := fromSecs 120

/-- The difference of two durations; a negative one is a panic. -/
def durationSub (a b : ℕ) : Option ℕ := if b ≤ a then some (a - b) else none

/-- `guard && now - since >= limit`: the difference is taken only under the guard. -/
def dueAfter (guard : Bool) (now since limit : ℕ) : Option Bool :=
  if guard then (durationSub now since).map (limit ≤ ·) else some false

/-! ## Timers -/

/-- The number of sessions in the ring. -/
def nSessions : ℕ := 8

/-- The slot of a session index. -/
def slot (idx : ℕ) : Fin nSessions := ⟨idx % nSessions, Nat.mod_lt _ (by decide)⟩

@[simp] theorem slot_mod (idx : ℕ) : slot (idx % nSessions) = slot idx :=
  Fin.ext (Nat.mod_mod _ _)

inductive TimerName
  /-- Current time, updated each call to `update_timers` -/
  | timeCurrent
  | timeSessionEstablished
  | timeLastHandshakeStarted
  | timeLastPacketReceived
  | timeLastPacketSent
  | timeLastDataPacketReceived
  | timeLastDataPacketSent
  | timeCookieReceived
  | timePersistentKeepalive
  deriving DecidableEq

structure Timers where
  /-- Is the owner of the timer the initiator or the responder for the last handshake? -/
  isInitiator : Bool
  timeStarted : ℕ
  timers : TimerName → ℕ
  sessionTimers : Fin nSessions → ℕ
  /-- Did we receive data without sending anything back? -/
  wantKeepalive : Bool
  /-- Did we send data without hearing back? -/
  wantHandshake : Bool
  persistentKeepalive : ℕ
  shouldResetRr : Bool

namespace Timers

def new (persistentKeepalive : Option ℕ) (resetRr : Bool) (now : ℕ) : Timers where
  isInitiator := false
  timeStarted := now
  timers := fun _ => 0
  sessionTimers := fun _ => 0
  wantKeepalive := false
  wantHandshake := false
  persistentKeepalive := persistentKeepalive.getD 0
  shouldResetRr := resetRr

variable (t : Timers)

def set (name : TimerName) (time : ℕ) : Timers :=
  { t with timers := Function.update t.timers name time }

/-- The timers are not cleared but set to the current time. -/
def clear (now : ℕ) : Timers :=
  { t with
    timers := fun _ => now - t.timeStarted
    wantHandshake := false
    wantKeepalive := false }

def tick (name : TimerName) : Timers :=
  let t :=
    match name with
    | .timeLastPacketReceived => { t with wantKeepalive := true, wantHandshake := false }
    | .timeLastPacketSent => { t with wantHandshake := true, wantKeepalive := false }
    | _ => t
  t.set name (t.timers .timeCurrent)

def tickSessionEstablished (isInitiator : Bool) (sessionIdx : ℕ) : Timers :=
  let t := t.tick .timeSessionEstablished
  { t with
    sessionTimers := Function.update t.sessionTimers (slot sessionIdx) (t.timers .timeCurrent)
    isInitiator }

@[simp] theorem sessionTimers_tick (name : TimerName) :
    (t.tick name).sessionTimers = t.sessionTimers := by
  cases name <;> rfl

end Timers

/-! ## The ring -/

/-- The most recent sessions; a session's slot is its index modulo their number. -/
@[ext]
structure SessionRing where
  slots : Fin nSessions → Option Session
  aligned : ∀ i s, slots i = some s → slot s.localIndex = i

namespace SessionRing

def empty : SessionRing := ⟨fun _ => none, fun _ _ h => by cases h⟩

variable (r : SessionRing)

/-- `self.sessions[idx % N_SESSIONS]` -/
def get (idx : ℕ) : Option Session := r.slots (slot idx)

/-- `self.sessions[index % N_SESSIONS] = Some(session)` -/
def store (s : Session) : SessionRing where
  slots := Function.update r.slots (slot s.localIndex) (some s)
  aligned i s' h := by
    by_cases hi : i = slot s.localIndex
    · subst hi
      rw [Function.update_self] at h
      cases h
      rfl
    · rw [Function.update_of_ne hi] at h
      exact r.aligned i s' h

/-- Keep only the sessions of some slots. -/
def filter (p : Fin nSessions → Bool) : SessionRing where
  slots i := if p i then r.slots i else none
  aligned i s h := by
    split_ifs at h
    exact r.aligned i s h

variable {r} {idx : ℕ} {s s' : Session} {p : Fin nSessions → Bool}

@[simp] theorem get_empty : empty.get idx = none := rfl

theorem slot_localIndex (h : r.get idx = some s) : slot s.localIndex = slot idx :=
  r.aligned _ s h

@[simp] theorem get_store_self : (r.store s).get s.localIndex = some s := Function.update_self ..

theorem get_store_of_eq (h : slot idx = slot s.localIndex) : (r.store s).get idx = some s := by
  rw [get, h]
  exact get_store_self

theorem get_store_of_ne (h : slot idx ≠ slot s.localIndex) : (r.store s).get idx = r.get idx :=
  Function.update_of_ne h ..

/-- What is in a ring after a store was stored or was there before. -/
theorem get_store_cases (h : (r.store s).get idx = some s') : s' = s ∨ r.get idx = some s' := by
  by_cases hslot : slot idx = slot s.localIndex
  · rw [get_store_of_eq hslot] at h
    exact Or.inl (Option.some.inj h).symm
  · rw [get_store_of_ne hslot] at h
    exact Or.inr h

theorem get_filter : (r.filter p).get idx = if p (slot idx) then r.get idx else none := rfl

theorem get_of_get_filter (h : (r.filter p).get idx = some s) : r.get idx = some s := by
  rw [get_filter] at h
  split_ifs at h
  exact h

/-- Writing back what was read changes nothing. -/
theorem store_get (h : r.get idx = some s) : r.store s = r := by
  ext1
  funext i
  by_cases hi : i = slot s.localIndex
  · subst hi
    rw [slot_localIndex h]
    exact (get_store_of_eq (slot_localIndex h).symm).trans h.symm
  · exact Function.update_of_ne hi ..

end SessionRing

end NekoLink.Noise
