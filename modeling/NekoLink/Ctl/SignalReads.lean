import NekoLink.Ctl.SignalGrammar

/-!
# Signalling over streams

A message of the TCP pipeline has no length: the receive task, and the send task that waits for the
answer, take what one call of `read` returns for the whole message. A stream may deliver a message
in any pieces, and with more behind it.

* `configures_eq_none_iff`: the messages that an end passes over.
* **`configures_first_iff`**: an end does the same as on the message in one read exactly when its
  first read is the message, or it passes over the message.
-/

namespace NekoLink.Ctl

open Wire Noise Device

/-- What the reads from a stream return until the message is there, and maybe more. -/
structure StreamDelivery (message : List UInt8) where
  reads : List (List UInt8)
  behind : List UInt8
  nonempty : ∀ bytes ∈ reads, bytes ≠ []
  flatten_eq : reads.flatten = message ++ behind

/-- The first read. -/
def StreamDelivery.first {message : List UInt8} (d : StreamDelivery message) : List UInt8 :=
  d.reads.headD []

/-- The end of a stream that reads: the receive task, with its instances, or the task of an instance
that waits for the answer of an address. -/
inductive StreamEnd
  | receiver (src : SocketAddr) (states : List NekoState)
  | pusher (addr : SocketAddr) (state : NekoState)

namespace StreamEnd

def buffer : StreamEnd → ℕ
  | receiver _ _ => 256
  | pusher _ _ => 128

def instances : StreamEnd → List NekoState
  | receiver _ states => states
  | pusher _ state => [state]

section

variable (R : Printers) (C : Prims) (W : World)

/-- The call of `configure_peer` that follows from a read. -/
def configures (e : StreamEnd) (bytes : List UInt8) : Option ConfigureCall :=
  match e with
  | receiver src states => (tcpReceive R C W src states bytes).map Answer.call
  | pusher addr state => tcpAck R C addr state bytes

/-- What an end is told by a message. -/
def heard (e : StreamEnd) (message : List UInt8) : Option Offer :=
  match e with
  | receiver _ states => states.findSome? fun state => Pipeline.tcp.told C state message
  | pusher _ state =>
    ((openSignal C (deriveCipher C state.config.psk) message).bind readSignal).filter
      fun offer => offer.port ≠ 0 ∨ state.config.mode = "ip"

/-- A read that is not the message is no box under the keys of the end. -/
def Unforged (e : StreamEnd) (message bytes : List UInt8) : Prop :=
  bytes ≠ message → ∀ state ∈ e.instances,
    openSignal C (deriveCipher C state.config.psk) (bytes.take e.buffer) = none

end

section

variable {R : Printers} {C : Prims} {W W' : World} {e : StreamEnd} {bytes message : List UInt8}
  {state : NekoState} {addr : List Char} {mode : String} {port : UInt16}

/-- What no instance opens has no effect. -/
theorem configures_of_not_open
    (h : ∀ state ∈ e.instances,
      openSignal C (deriveCipher C state.config.psk) (bytes.take e.buffer) = none) :
    e.configures R C W bytes = none := by
  cases e with
  | receiver src states =>
    have hanswer : ∀ state ∈ states, tcpAnswer R C W src (bytes.take 256) state = none := by
      intro state hstate
      have hnone := h state hstate
      rw [buffer] at hnone
      rw [tcpAnswer, answer, hnone]
      exact ite_self _
    rw [configures, tcpReceive, fits, Option.map_eq_none_iff]
    split_ifs
    · rfl
    · exact List.findSome?_eq_none_iff.mpr hanswer
  | pusher addr state =>
    have hnone := h state List.mem_cons_self
    rw [buffer] at hnone
    rw [configures, tcpAck, fits]
    split_ifs
    · rfl
    · rw [Option.bind_some, hnone]
      rfl

/-- **The messages that an end passes over** are those that tell it nothing. -/
theorem configures_eq_none_iff (hlen : 44 ≤ message.length) (hle : message.length ≤ e.buffer) :
    e.configures R C W message = none ↔ e.heard C message = none := by
  cases e with
  | receiver src states =>
    have htake : message.take 256 = message := List.take_of_length_le hle
    have hcorrect : Pipeline.tcp.Correct R C W src states message := Pipeline.correct_tcp
    obtain ⟨calls, hcalls, hany, -⟩ := hcorrect
    rw [show Pipeline.tcp.buffer = 256 from rfl, htake] at hany
    have hlist : calls = ((tcpReceive R C W src states message).map Answer.call).toList := by
      rw [← Option.some.inj hcalls]
      cases tcpReceive R C W src states message <;> rfl
    rw [configures, heard, List.findSome?_eq_none_iff]
    constructor
    · intro hnone state hstate
      by_contra htold
      refine hany.mpr ⟨state, hstate, Option.isSome_iff_ne_none.mpr htold⟩ ?_
      rw [hlist, hnone]
      rfl
    · intro hall
      by_contra hsome
      obtain ⟨call, hcall⟩ := Option.ne_none_iff_exists'.mp hsome
      obtain ⟨state, hstate, htold⟩ := hany.mp (by
        rw [hlist, hcall]
        exact List.cons_ne_nil _ _)
      rw [hall state hstate] at htold
      cases htold
  | pusher addr state =>
    have htake : message.take 128 = message := List.take_of_length_le hle
    rw [configures, tcpAck, heard, fits, htake, if_neg (by omega), Option.bind_some]
    rcases openSignal C (deriveCipher C state.config.psk) message with _ | decrypted
    · exact iff_of_true rfl rfl
    · rw [Option.bind_some, Option.bind_some]
      rcases readSignal decrypted with _ | offer
      · exact iff_of_true rfl rfl
      · rw [Option.bind_some, Option.filter_some]
        by_cases hport : offer.port = 0 ∧ state.config.mode ≠ "ip"
        · rw [if_pos hport, if_neg (by simpa using hport)]
          exact iff_of_true rfl rfl
        · rw [if_neg hport, if_pos (by simpa [or_iff_not_imp_left] using hport)]
          exact iff_of_false (Option.some_ne_none _) (Option.some_ne_none _)

/-- **Segments**: an end does the same as on the message in one read exactly when its first read is
the message, or it passes over the message anyway. -/
theorem configures_first_iff
    (d : StreamDelivery (ownSignal C W' state addr mode (some port)))
    (hauth : e.Unforged C (ownSignal C W' state addr mode (some port)) d.first) :
    e.configures R C W d.first =
        e.configures R C W (ownSignal C W' state addr mode (some port)) ↔
      d.first = ownSignal C W' state addr mode (some port) ∨
        e.heard C (ownSignal C W' state addr mode (some port)) = none := by
  have hlen : (ownSignal C W' state addr mode (some port)).length = 64 := length_ownSignal
  have hle : (ownSignal C W' state addr mode (some port)).length ≤ e.buffer := by
    rw [hlen]
    cases e with
    | receiver src states => exact Nat.le_of_ble_eq_true rfl
    | pusher addr state => exact Nat.le_of_ble_eq_true rfl
  rw [← configures_eq_none_iff (R := R) (W := W) (by omega) hle]
  by_cases hfirst : d.first = ownSignal C W' state addr mode (some port)
  · exact iff_of_true (by rw [hfirst]) (Or.inl hfirst)
  · rw [configures_of_not_open (hauth hfirst)]
    exact ⟨fun heq => Or.inr heq.symm, fun hnone => (hnone.resolve_left hfirst).symm⟩

end

end StreamEnd

/-! ## A push in two pieces -/

/-- An instance of the TCP pipeline. -/
def tcpInstance (key peer : UInt8) : NekoState :=
  { sampleInstance key peer with config := { (sampleInstance key peer).config with mode := "tcp" } }

/-- A push of the first node to the second. -/
def samplePush : List UInt8 :=
  ownSignal checksumPrims sampleWorld (tcpInstance 7 2) "10.0.0.2".toList "tcp" (some 51820)

theorem length_samplePush : samplePush.length = 64 := length_ownSignal

/-- The push, cut behind its first ten bytes. -/
def samplePieces : StreamDelivery samplePush where
  reads := [samplePush.take 10, samplePush.drop 10]
  behind := []
  nonempty := by
    have hlen := length_samplePush
    intro bytes hbytes heq
    have hzero := congrArg List.length heq
    simp only [List.mem_cons, List.not_mem_nil, or_false] at hbytes
    rcases hbytes with rfl | rfl
    · rw [List.length_take, List.length_nil] at hzero
      omega
    · rw [List.length_drop, List.length_nil] at hzero
      omega
  flatten_eq := by
    rw [List.flatten_cons, List.flatten_cons, List.flatten_nil, List.append_nil, List.append_nil,
      List.take_append_drop]

/-- The second node. -/
def sampleReceiver : StreamEnd := .receiver (.new (sampleIp 1) 40000) [tcpInstance 8 1]

/-- A piece is too short for a box. -/
theorem unforged_samplePieces :
    sampleReceiver.Unforged checksumPrims samplePush samplePieces.first := by
  intro _ state _
  refine dif_neg fun hlen => ?_
  have hpiece : (samplePieces.first.take sampleReceiver.buffer).length ≤ 10 := by
    refine (List.length_take_le' _ _).trans ?_
    exact List.length_take_le 10 samplePush
  omega

theorem heard_samplePush : (sampleReceiver.heard checksumPrims samplePush).isSome := by
  have htakes : Pipeline.tcp.takes (tcpInstance 8 1).config = true := by decide
  have htold : Pipeline.tcp.told checksumPrims (tcpInstance 8 1) samplePush =
      some (ownOffer sampleWorld (tcpInstance 7 2) "10.0.0.2".toList "tcp" 51820) := by
    have hread : (openSignal checksumPrims
        (deriveCipher checksumPrims (tcpInstance 7 2).config.psk)
        (ownSignal checksumPrims sampleWorld (tcpInstance 7 2) "10.0.0.2".toList "tcp"
          (some 51820))).bind readSignal =
        some (ownOffer sampleWorld (tcpInstance 7 2) "10.0.0.2".toList "tcp" 51820) :=
      readSignal_ownSignal
    obtain ⟨decrypted, hopen, hoffer⟩ := Option.bind_eq_some_iff.mp hread
    have hpsk : (tcpInstance 8 1).config.psk = (tcpInstance 7 2).config.psk := rfl
    have hpacket : Pipeline.tcp.packet samplePush = some samplePush := rfl
    rw [Pipeline.told, if_pos htakes, hpacket, Option.bind_some, hpsk, samplePush, hopen,
      Option.bind_some, Pipeline.read, hoffer]
    · rfl
    · intro proto h
      cases h
  rw [sampleReceiver, StreamEnd.heard, List.findSome?_cons, htold]
  rfl

/-- The push in one read, and more behind it. -/
def sampleWhole : StreamDelivery samplePush where
  reads := [samplePush, [1, 2, 3]]
  behind := [1, 2, 3]
  nonempty := by
    have hlen := length_samplePush
    intro bytes hbytes heq
    simp only [List.mem_cons, List.not_mem_nil, or_false] at hbytes
    rcases hbytes with rfl | rfl
    · rw [heq] at hlen
      cases hlen
    · cases heq
  flatten_eq := by
    rw [List.flatten_cons, List.flatten_cons, List.flatten_nil, List.append_nil]

/-- The equivalence for the push in two pieces; in one read it is taken, and a node without an
instance for it passes over the pieces as over the whole. -/
theorem configures_first_iff_sample :
    (sampleReceiver.configures samplePrinters checksumPrims sampleWorld samplePieces.first =
        sampleReceiver.configures samplePrinters checksumPrims sampleWorld samplePush ↔
      samplePieces.first = samplePush ∨ sampleReceiver.heard checksumPrims samplePush = none) ∧
    sampleReceiver.configures samplePrinters checksumPrims sampleWorld sampleWhole.first =
      sampleReceiver.configures samplePrinters checksumPrims sampleWorld samplePush ∧
    (StreamEnd.receiver (.new (sampleIp 1) 40000) []).configures samplePrinters checksumPrims
        sampleWorld samplePieces.first =
      (StreamEnd.receiver (.new (sampleIp 1) 40000) []).configures samplePrinters checksumPrims
        sampleWorld samplePush := by
  refine ⟨StreamEnd.configures_first_iff samplePieces unforged_samplePieces, ?_, ?_⟩
  · exact (StreamEnd.configures_first_iff sampleWhole fun hne => absurd rfl hne).mpr (.inl rfl)
  · exact (StreamEnd.configures_first_iff samplePieces fun _ _ hstate =>
      absurd hstate List.not_mem_nil).mpr (.inr rfl)

/-- **A push in two pieces** configures nothing. -/
theorem pieces_lost :
    ¬ ∀ (e : StreamEnd) (state : NekoState) (addr : List Char) (port : UInt16)
      (d : StreamDelivery (ownSignal checksumPrims sampleWorld state addr "tcp" (some port))),
      e.configures samplePrinters checksumPrims sampleWorld d.first =
        e.configures samplePrinters checksumPrims sampleWorld
          (ownSignal checksumPrims sampleWorld state addr "tcp" (some port)) := by
  intro hall
  have hsame := hall sampleReceiver (tcpInstance 7 2) "10.0.0.2".toList 51820 samplePieces
  have hnone : sampleReceiver.configures samplePrinters checksumPrims sampleWorld
      samplePieces.first = none := by
    refine StreamEnd.configures_of_not_open (unforged_samplePieces fun heq => ?_)
    have hpiece : samplePieces.first.length ≤ 10 := List.length_take_le 10 samplePush
    rw [heq, length_samplePush] at hpiece
    omega
  have hlen : 44 ≤ samplePush.length := by
    rw [length_samplePush]
    decide
  have hle : samplePush.length ≤ sampleReceiver.buffer := by
    rw [length_samplePush]
    decide
  have hheard := (StreamEnd.configures_eq_none_iff hlen hle).mp (hsame.symm.trans hnone)
  have hsome := heard_samplePush
  rw [hheard] at hsome
  cases hsome

end NekoLink.Ctl
