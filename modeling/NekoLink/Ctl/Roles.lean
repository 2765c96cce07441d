import NekoLink.Ctl.Signaling

/-!
# The roles of the TCP pipeline

An instance of `run_global_tcp_signaling_dynamic` takes the message of a peer either as the ACK of
its own push or as a push that it answers. Which of the two happens depends on who pushes first. The
send task and the receive task read the message in the same way and call `configure_peer` with
different arguments.

* `tcpAck_eq`, `answer_call`: what the two tasks make of a message that can be read.
* `role_free_iff`: when the peer that is configured does not depend on the role.
-/

namespace NekoLink.Ctl

open Wire Noise Device Text

/-- The MTU to which `run_instance` sets an interface, unless it follows the peers. -/
def fixedMtu (config : NekoConfig) : Option UInt16 :=
  match config.mtu with
  | some m => if m = 0 then none else some m
  | none => some 1420

section

variable (R : Printers) (C : Prims)

/-- What a task that reads at most `size` bytes finds in a message. -/
def decoded (size : ℕ) (state : NekoState) (datagram : List UInt8) : Option Offer :=
  (fits size datagram).bind fun packet =>
    (openSignal C (deriveCipher C state.config.psk) packet).bind readSignal

/-- The call that the receive task makes. -/
def pushCall (src : SocketAddr) (state : NekoState) (offer : Offer) : ConfigureCall where
  interface := state.config.interface
  peerPubKey := offer.pubKey
  endpoint := endpointText R src.ip offer.port
  keepalive := state.config.persistentKeepalive
  peerMtu := some offer.mtu
  autoSyncMtu := state.config.mtu = some 0
  mode := state.config.mode

/-- The call that the send task makes. -/
def ackCall (addr : SocketAddr) (state : NekoState) (offer : Offer) : ConfigureCall :=
  { pushCall R addr state offer with keepalive := none, autoSyncMtu := true }

/-- The calls of the two roles configure a peer alike: with the keepalive of the configuration, with
the same MTU whatever the node finds, and not with one above that of an interface with a fixed
MTU. -/
structure RoleFree (config : NekoConfig) (ack push : Option ConfigureCall) : Prop where
  keepalive : ack.map ConfigureCall.keepalive = push.map ConfigureCall.keepalive
  mtu : ∀ W, ack.map (syncedMtu R W) = push.map (syncedMtu R W)
  configured : ∀ call, call ∈ ack ∨ call ∈ push → call.keepalive = config.persistentKeepalive
  fixed : ∀ call, call ∈ ack ∨ call ∈ push → ∀ W v, fixedMtu config = some v →
    W.mtuOf call.interface ≤ v → ∀ m ∈ syncedMtu R W call, m ≤ v

end

/-! ## The two tasks -/

section

variable {R : Printers} {C : Prims} {W : World} {addr : SocketAddr} {state : NekoState}
  {datagram : List UInt8}

theorem mode_of_tcpTakes {config : NekoConfig} (h : tcpTakes config = true) :
    config.mode = "tcp" ∨ config.mode = "mullvad-tcp" := by
  simp only [tcpTakes, Bool.and_eq_true, Bool.or_eq_true, decide_eq_true_eq] at h
  exact h.1

theorem mode_ne_ip_of_tcpTakes {config : NekoConfig} (h : tcpTakes config = true) :
    config.mode ≠ "ip" := by
  rcases mode_of_tcpTakes h with hmode | hmode <;> rw [hmode] <;> decide

/-- What the send task makes of a message. -/
theorem tcpAck_eq (h : tcpTakes state.config = true) :
    tcpAck R C addr state datagram =
      (decoded C 128 state datagram).bind fun offer =>
        if offer.port = 0 then none else some (ackCall R addr state offer) := by
  have hmode := mode_ne_ip_of_tcpTakes h
  simp only [tcpAck, decoded, Option.bind_assoc, hmode, ne_eq, not_false_eq_true, and_true]
  rfl

/-- What the receive task makes of a message. -/
theorem answer_call (h : tcpTakes state.config = true) :
    ((fits 256 datagram).bind fun packet => tcpAnswer R C W addr packet state).map Answer.call =
      (decoded C 256 state datagram).bind fun offer =>
        if offer.port = 0 then none else some (pushCall R addr state offer) := by
  have hmode := mode_ne_ip_of_tcpTakes h
  simp only [tcpAnswer, if_pos h, answer, decoded, Option.bind_assoc, Option.map_bind, hmode, ne_eq,
    not_false_eq_true, and_true, Function.comp_def]
  refine Option.bind_congr fun packet _ => Option.bind_congr fun msg _ =>
    Option.bind_congr fun offer _ => ?_
  split_ifs <;> rfl

end

/-! ## The MTU in each role -/

section

variable {R : Printers} {W : World} {addr : SocketAddr} {state : NekoState} {offer : Offer}

/-- A finding of the node about its interface and about the path. -/
def mtuWorld (current probed : UInt16) : World where
  uapi _ := none
  clock := 0
  interfaceMtu _ := some current
  autoMtu _ _ := probed
  lookupHost _ := none
  resolveDns _ _ := none
  nonce := zeros 12
  remove := .answered
  add := .answered
  keyed := true

@[simp] theorem mtuOf_mtuWorld {current probed : UInt16} {iface : String} :
    (mtuWorld current probed).mtuOf iface = current := rfl

/-- As an ACK, a message sets the MTU to the least of what it says and what is probed. -/
theorem syncedMtu_ackCall :
    syncedMtu R W (ackCall R addr state offer) =
      syncMtuIfNeeded W state.config.interface offer.mtu
        (some (W.autoMtu (resolved R W (endpointText R addr.ip offer.port)) state.config.mode)) := by
  simp [syncedMtu, ackCall, pushCall]

/-- As a push, it does so for an interface that follows the peers. -/
theorem syncedMtu_pushCall_auto (h : state.config.mtu = some 0) :
    syncedMtu R W (pushCall R addr state offer) = syncedMtu R W (ackCall R addr state offer) := by
  rw [syncedMtu_ackCall]
  simp [syncedMtu, pushCall, h]

/-- For one with a fixed MTU it can only lower it. -/
theorem syncedMtu_pushCall_fixed (h : state.config.mtu ≠ some 0) :
    syncedMtu R W (pushCall R addr state offer) =
      if 1280 ≤ offer.mtu ∧ offer.mtu < W.mtuOf state.config.interface then some offer.mtu
      else none := by
  simp only [syncedMtu, pushCall, h, decide_false, Bool.false_or, Option.bind_some,
    decide_eq_true_eq, Bool.false_eq_true, if_false]
  by_cases hlt : offer.mtu < W.mtuOf state.config.interface
  · have hne : W.mtuOf state.config.interface ≠ offer.mtu := (UInt16.ne_of_lt hlt).symm
    simp only [syncMtuIfNeeded, Option.elim_none, hlt, if_true, hne, ne_eq, not_false_eq_true,
      and_true]
    by_cases hlow : offer.mtu < 1280
    · rw [if_pos hlow, if_neg (UInt16.not_le.mpr hlow)]
    · rw [if_neg hlow, if_pos (UInt16.not_lt.mp hlow)]
  · rw [if_neg hlt, if_neg fun hboth => hlt hboth.2]

theorem syncMtuIfNeeded_of_lt {iface : String} {m : UInt16} {probed : Option UInt16}
    (h : m < 1280) : syncMtuIfNeeded W iface m probed = none := by
  have htarget : (probed.elim m fun p => min p m) < 1280 := by
    cases probed with
    | none => exact h
    | some p =>
      rw [UInt16.lt_iff_toNat_lt] at h ⊢
      rw [Option.elim_some, UInt16.toNat_min]
      exact (Nat.min_le_right _ _).trans_lt h
  unfold syncMtuIfNeeded
  exact if_pos htarget

/-- **The two roles can be told apart** for an interface with a fixed MTU, by any MTU that is large
enough to be set: as an ACK the message raises a lower MTU, or an address with a low probe keeps it
from lowering one. -/
theorem exists_syncedMtu_ne (h : state.config.mtu ≠ some 0) (hmtu : 1280 ≤ offer.mtu) :
    ∃ W, syncedMtu R W (ackCall R addr state offer) ≠
      syncedMtu R W (pushCall R addr state offer) := by
  rcases UInt16.lt_or_eq_of_le hmtu with hgt | heq
  · refine ⟨mtuWorld 1280 65535, ?_⟩
    have hmin : min (65535 : UInt16) offer.mtu = offer.mtu :=
      UInt16.toNat_inj.mp (by
        have hmax : (65535 : UInt16).toNat = 65535 := rfl
        have hlt := offer.mtu.toNat_lt
        rw [UInt16.toNat_min, hmax]
        omega)
    rw [syncedMtu_ackCall, syncedMtu_pushCall_fixed h, mtuOf_mtuWorld,
      if_neg fun hboth => absurd hboth.2 (UInt16.not_lt.mpr hmtu)]
    simp only [syncMtuIfNeeded, mtuWorld, Option.elim_some, hmin]
    rw [if_neg (UInt16.not_lt.mpr hmtu), if_pos]
    · exact Option.some_ne_none _
    · exact UInt16.ne_of_lt hgt
  · refine ⟨mtuWorld 1300 0, ?_⟩
    rw [syncedMtu_ackCall, syncedMtu_pushCall_fixed h, mtuOf_mtuWorld, ← heq, if_pos (by decide)]
    simp [syncMtuIfNeeded, mtuWorld, UInt16.min_def]

/-- **When the peer that is configured does not depend on the role**: when the message is passed
over, and when the node has no keepalive and either its interface follows the peers or the message
has an MTU that is never set. -/
theorem role_free_iff {C : Prims} {datagram : List UInt8} (W : World)
    (htakes : tcpTakes state.config = true)
    (hack : decoded C 128 state datagram = some offer)
    (hpush : decoded C 256 state datagram = some offer) :
    RoleFree R state.config (tcpAck R C addr state datagram)
        (((fits 256 datagram).bind fun packet =>
          tcpAnswer R C W addr packet state).map Answer.call) ↔
      offer.port = 0 ∨
        state.config.persistentKeepalive = none ∧
          (state.config.mtu = some 0 ∨ offer.mtu < 1280) := by
  rw [tcpAck_eq htakes, answer_call htakes, hack, hpush, Option.bind_some, Option.bind_some]
  by_cases hport : offer.port = 0
  · rw [if_pos hport, if_pos hport]
    refine ⟨fun _ => .inl hport, fun _ => ⟨rfl, fun _ => rfl, ?_, ?_⟩⟩
    · rintro call (hcall | hcall) <;> cases hcall
    · rintro call (hcall | hcall) <;> cases hcall
  rw [if_neg hport, if_neg hport, or_iff_right hport]
  refine ⟨fun hfree => ⟨?_, ?_⟩, fun ⟨hkeepalive, hmtu⟩ => ⟨?_, fun W => ?_, ?_, ?_⟩⟩
  · exact (hfree.configured _ (.inl rfl)).symm
  · by_contra hneither
    obtain ⟨hfixed, hlarge⟩ := not_or.mp hneither
    obtain ⟨W, hne⟩ : ∃ W, syncedMtu R W (ackCall R addr state offer) ≠
        syncedMtu R W (pushCall R addr state offer) :=
      exists_syncedMtu_ne hfixed (UInt16.not_lt.mp hlarge)
    exact hne (Option.some.inj (hfree.mtu W))
  · exact congrArg some hkeepalive.symm
  · rw [Option.map_some, Option.map_some]
    rcases hmtu with hauto | hlow
    · rw [syncedMtu_pushCall_auto hauto]
    · by_cases hauto : state.config.mtu = some 0
      · rw [syncedMtu_pushCall_auto hauto]
      · rw [syncedMtu_ackCall, syncMtuIfNeeded_of_lt hlow, syncedMtu_pushCall_fixed hauto,
          if_neg fun hboth => absurd hlow (UInt16.not_lt.mpr hboth.1)]
  · rintro call (hcall | hcall) <;> cases hcall
    · exact hkeepalive.symm
    · rfl
  · intro call hcall W v hfixed hle m hm
    have hauto : state.config.mtu ≠ some 0 := by
      intro hauto
      rw [fixedMtu, hauto] at hfixed
      cases hfixed
    have hlow := hmtu.resolve_left hauto
    have hnone : syncedMtu R W call = none := by
      rcases hcall with hcall | hcall <;> cases hcall
      · rw [syncedMtu_ackCall, syncMtuIfNeeded_of_lt hlow]
      · rw [syncedMtu_pushCall_fixed hauto,
          if_neg fun hboth => absurd hlow (UInt16.not_lt.mpr hboth.1)]
    rw [hnone] at hm
    cases hm

end

/-! ## A node with a fixed MTU -/

/-- A node of the TCP pipeline with the MTU 1400 and a keepalive of 25 seconds. -/
def fixedNode : NekoState :=
  { sampleInstance 7 2 with
    config := { (sampleInstance 7 2).config with
      mode := "tcp", mtu := some 1400, persistentKeepalive := some 25 } }

/-- One that follows its peers. -/
def autoNode : NekoState :=
  { fixedNode with config := { fixedNode.config with mtu := some 0, persistentKeepalive := none } }

/-- A peer's message, sealed under the psk of the two. -/
def peerMessage (offer : Offer) : List UInt8 :=
  sealSignal checksumPrims (deriveCipher checksumPrims "meow") (fill 12 5)
    (signal offer.pubKey offer.mtu (some offer.port))

theorem decoded_peerMessage {state : NekoState} (h : state.config.psk = "meow") {size : ℕ}
    (hsize : 64 ≤ size) (offer : Offer) :
    decoded checksumPrims size state (peerMessage offer) = some offer := by
  have hlen : (peerMessage offer).length = 64 := by simp [peerMessage]
  have hfits : fits size (peerMessage offer) = some (peerMessage offer) := by
    unfold fits
    rw [List.take_of_length_le (by omega), if_neg (by omega)]
  rw [decoded, hfits, Option.bind_some, h, peerMessage, openSignal_sealSignal, Option.bind_some,
    readSignal_signal]

/-- A peer with the key `99…`, the MTU 1500 and the port 51820. -/
def peerOffer : Offer := ⟨fill 32 9, 1500, 51820⟩

theorem role_free_autoNode :
    RoleFree samplePrinters autoNode.config
      (tcpAck samplePrinters checksumPrims (.new (sampleIp 2) 12580) autoNode
        (peerMessage peerOffer))
      (((fits 256 (peerMessage peerOffer)).bind fun packet =>
        tcpAnswer samplePrinters checksumPrims sampleWorld (.new (sampleIp 2) 12580) packet
          autoNode).map Answer.call) :=
  (role_free_iff sampleWorld (by decide) (decoded_peerMessage rfl (by decide) peerOffer)
    (decoded_peerMessage rfl (by decide) peerOffer)).mpr (.inr ⟨rfl, .inl rfl⟩)

/-- **The ACK of a push drops the keepalive and raises a fixed MTU.** -/
theorem ack_drops_keepalive_and_raises_mtu :
    ∃ ack : ConfigureCall,
      tcpAck samplePrinters checksumPrims (.new (sampleIp 2) 12580) fixedNode
        (peerMessage peerOffer) = some ack ∧
      fixedNode.config.persistentKeepalive = some 25 ∧ ack.keepalive = none ∧
      fixedMtu fixedNode.config = some 1400 ∧
      syncedMtu samplePrinters (mtuWorld 1400 1500) ack = some 1500 ∧
      ¬ RoleFree samplePrinters fixedNode.config (some ack)
        (((fits 256 (peerMessage peerOffer)).bind fun packet =>
          tcpAnswer samplePrinters checksumPrims sampleWorld (.new (sampleIp 2) 12580) packet
            fixedNode).map Answer.call) := by
  refine ⟨ackCall samplePrinters (.new (sampleIp 2) 12580) fixedNode peerOffer, ?_, rfl, rfl,
    by decide, ?_, fun hfree => ?_⟩
  · rw [tcpAck_eq (by decide), decoded_peerMessage rfl (by decide), Option.bind_some]
    exact if_neg (by decide)
  · rw [syncedMtu_ackCall]
    decide
  · cases hfree.configured _ (.inl rfl)

end NekoLink.Ctl
