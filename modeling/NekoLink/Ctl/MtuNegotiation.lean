import NekoLink.Ctl.Roles
import NekoLink.Ctl.Sidecar
import NekoLink.Foundations.Runs

/-!
# The MTU of two nodes

Two nodes with one key tell each other an MTU with every message of the UDP pipeline: an automatic
one the value of its probe, and one with a fixed MTU that of its interface, which a message may
already have lowered. The network loses, repeats and reorders the messages. Only the first one of a
peer is used, unless its endpoint changes.

* `negotiated_step`: what a message says is the sender's own value or the least of the two, and a
  node that has processed a message has the least of the two.
* `mtu_converges`: **after one message each way both interfaces have the least of the two values**,
  and keep it.
-/

namespace NekoLink.Ctl

open Wire Noise Device Text

/-! ## The nodes -/

structure Negotiator where
  state : NekoState
  /-- What `get_auto_mtu` gives -/
  probed : UInt16
  /-- The MTU of the interface at first -/
  initialMtu : UInt16
  peering : Peering
  /-- The datagrams it has sent -/
  sent : List (List UInt8)
  /-- How many messages have led to a call of `configure_peer` -/
  processed : ℕ

namespace Negotiator

def iface (n : Negotiator) : String := n.state.config.interface

/-- The MTU of the interface: what it was last set to. -/
def mtu (n : Negotiator) : UInt16 :=
  ((n.peering.linkMtus.filter fun e => e.1 = n.iface).getLast?.map Prod.snd).getD n.initialMtu

/-- What the node brings into the negotiation. -/
def value (n : Negotiator) : UInt16 :=
  if n.state.config.mtu = some 0 then n.probed else n.initialMtu

/-- A turn finds the MTU of the interface, and every probe of an automatic node has the same
result. -/
structure Finds (n : Negotiator) (W : World) : Prop where
  interfaceMtu : W.mtuOf n.iface = n.mtu
  autoMtu : n.state.config.mtu = some 0 → ∀ addr mode, W.autoMtu addr mode = n.probed

/-- The node after `configure_peer`. -/
def configured (P : Parsers) (R : Printers) (W : World) (call : ConfigureCall) (n : Negotiator) :
    Negotiator :=
  { n with peering := configurePeer P R W call n.peering, processed := n.processed + 1 }

end Negotiator

inductive NegotiationInput
  /-- The send task pushes to a peer of the configuration. -/
  | push (b : Bool) (W : World) (peer : PeerConfig)
  /-- The receive task gets the `i`-th message of the other node. The answer is made from what it
  finds after the call. -/
  | deliver (b : Bool) (W W' : World) (src : SocketAddr) (i : ℕ)

namespace Negotiation

section

variable (P : Parsers) (R : Printers) (C : Prims)

/-- One turn of a node. -/
def step (s : Bool → Negotiator) : NegotiationInput → Option ((Bool → Negotiator) × Unit)
  | .push b W peer =>
    if peer ∈ (s b).state.config.peers ∧ pushes W udpTakes (s b).state then
      (udpPush P C W (s b).state peer).map fun message =>
        (Function.update s b { s b with sent := (s b).sent ++ [message.2] }, ())
    else none
  | .deliver b W W' src i =>
    (s !b).sent[i]?.map fun datagram =>
      match udpReceive R C W src [(s b).state] datagram with
      | none => (s, ())
      | some a =>
        let n := (s b).configured P R W a.call
        let reply := (udpReceive R C W' src [n.state] datagram).map Answer.reply
        (Function.update s b { n with sent := n.sent ++ reply.toList }, ())

/-- Every turn finds the MTUs as they are, and the commands of `configure_peer` succeed. -/
def Regular (s : Bool → Negotiator) : NegotiationInput → Prop
  | .push b W _ => (s b).Finds W
  | .deliver b W W' src i =>
    (s b).Finds W ∧ ∀ datagram a, (s !b).sent[i]? = some datagram →
      udpReceive R C W src [(s b).state] datagram = some a →
        Succeeds P R W a.call (s b).peering ∧ ((s b).configured P R W a.call).Finds W'

end

/-- The two nodes before the first message. -/
structure Starts (s : Bool → Negotiator) : Prop where
  psk : (s true).state.config.psk = (s false).state.config.psk
  takes : ∀ b, udpTakes (s b).state.config = true
  large : ∀ b, 1280 ≤ (s b).value
  unsent : ∀ b, (s b).sent = []
  unprocessed : ∀ b, (s b).processed = 0
  unset : ∀ b, (s b).peering.linkMtus = []
  uncached : ∀ b, (s b).peering.cache.lookup ((s b).iface, (s !b).state.pubKey) = none

/-- The least of the two values. -/
def least (v : Bool → UInt16) : UInt16 := min (v false) (v true)

/-- A message of a node says its own value or the least of the two. -/
def Says (C : Prims) (n : Negotiator) (own least : UInt16) (datagram : List UInt8) : Prop :=
  ∃ (W : World) (addr : List Char) (mode : String) (port : UInt16),
    datagram = ownSignal C W n.state addr mode (some port) ∧
      (offeredMtu W n.state.config addr mode = own ∨
        offeredMtu W n.state.config addr mode = least)

/-- What holds in every state of the negotiation. -/
structure Negotiated (C : Prims) (v : Bool → UInt16) (s : Bool → Negotiator) : Prop where
  psk : (s true).state.config.psk = (s false).state.config.psk
  takes : ∀ b, udpTakes (s b).state.config = true
  large : ∀ b, 1280 ≤ v b
  value : ∀ b, (s b).value = v b
  sent : ∀ b, ∀ datagram ∈ (s b).sent, Says C (s b) (v b) (least v) datagram
  /-- A node that has processed no message has its own MTU still, and no peer. -/
  fresh : ∀ b, (s b).processed = 0 → (s b).peering.linkMtus = [] ∧
    (s b).peering.cache.lookup ((s b).iface, (s !b).state.pubKey) = none
  settled : ∀ b, 0 < (s b).processed → (s b).mtu = least v

end Negotiation

/-! ## One message -/

section

variable {R : Printers} {W : World} {src : SocketAddr} {n : Negotiator} {offer : Offer}
  {low : UInt16}

namespace Negotiation

theorem toNat_least (v : Bool → UInt16) (b : Bool) :
    (least v).toNat = min (v b).toNat (v !b).toNat := by
  cases b
  · exact UInt16.toNat_min _ _
  · rw [Nat.min_comm]
    exact UInt16.toNat_min _ _

end Negotiation

/-- What an automatic node sets its interface to. -/
theorem syncedMtu_auto (hauto : n.state.config.mtu = some 0) (hfinds : n.Finds W)
    (hlow : low.toNat = min n.probed.toNat offer.mtu.toNat) (hlarge : 1280 ≤ low) :
    (syncedMtu R W (pushCall R src n.state offer)).getD n.mtu = low := by
  have htarget : min n.probed offer.mtu = low := by
    rw [← UInt16.toNat_inj, UInt16.toNat_min, hlow]
  have hiface : W.mtuOf n.state.config.interface = n.mtu := hfinds.interfaceMtu
  rw [syncedMtu_pushCall_auto hauto, syncedMtu_ackCall, syncMtuIfNeeded, hfinds.autoMtu hauto,
    Option.elim_some, htarget]
  rw [if_neg (UInt16.not_lt.mpr hlarge), hiface]
  by_cases hsame : n.mtu = low
  · rw [if_neg (not_not.mpr hsame), Option.getD_none, hsame]
  · rw [if_pos hsame, Option.getD_some]

/-- What a node with a fixed MTU sets it to: the least of what it has and what the message says. -/
theorem syncedMtu_fixed (hfixed : n.state.config.mtu ≠ some 0) (hfinds : n.Finds W)
    (hlow : low.toNat = min n.mtu.toNat offer.mtu.toNat) (hlarge : 1280 ≤ offer.mtu) :
    (syncedMtu R W (pushCall R src n.state offer)).getD n.mtu = low := by
  have hiface : W.mtuOf n.state.config.interface = n.mtu := hfinds.interfaceMtu
  rw [syncedMtu_pushCall_fixed hfixed, hiface]
  by_cases hlt : offer.mtu < n.mtu
  · rw [if_pos ⟨hlarge, hlt⟩, Option.getD_some, ← UInt16.toNat_inj]
    rw [UInt16.lt_iff_toNat_lt] at hlt
    omega
  · rw [if_neg fun hboth => hlt hboth.2, Option.getD_none, ← UInt16.toNat_inj]
    rw [UInt16.not_lt, UInt16.le_iff_toNat_le] at hlt
    omega

/-- The MTU after a call that is not in the cache. -/
theorem mtu_configured {P : Parsers}
    (hcached : n.peering.cache.lookup (pushCall R src n.state offer).key ≠
      some (peerEndpoint R W (pushCall R src n.state offer)))
    (hsucceeds : Succeeds P R W (pushCall R src n.state offer) n.peering) :
    (n.configured P R W (pushCall R src n.state offer)).mtu =
      (syncedMtu R W (pushCall R src n.state offer)).getD n.mtu := by
  have hacc := hsucceeds.resolve_left hcached
  have hlinks : (configurePeer P R W (pushCall R src n.state offer) n.peering).linkMtus =
      n.peering.linkMtus ++ ((syncedMtu R W (pushCall R src n.state offer)).map fun m =>
        (n.iface, m)).toList := by
    rw [linkMtus_configurePeer, if_neg (not_or.mpr ⟨hcached, not_not.mpr hacc⟩)]
    rfl
  unfold Negotiator.mtu
  rw [show (n.configured P R W (pushCall R src n.state offer)).peering.linkMtus = _ from hlinks]
  cases syncedMtu R W (pushCall R src n.state offer) with
  | none =>
    rw [Option.map_none, Option.toList_none, List.append_nil, Option.getD_none]
    rfl
  | some m => simp [Negotiator.configured, Negotiator.iface]

end

/-! ## One turn -/

namespace Negotiation

section

variable {P : Parsers} {R : Printers} {C : Prims} {v : Bool → UInt16} {s s' : Bool → Negotiator}
  {W W' : World} {b : Bool} {src : SocketAddr} {peer : PeerConfig} {i : ℕ} {o : Unit}

/-- The node's own MTU still, or the least of the two. -/
theorem mtu_cases (h : Negotiated C v s) (hfixed : (s b).state.config.mtu ≠ some 0) :
    (s b).mtu = v b ∨ (s b).mtu = least v := by
  rcases Nat.eq_zero_or_pos (s b).processed with hzero | hpos
  · left
    rw [← h.value b, Negotiator.value, if_neg hfixed, Negotiator.mtu, (h.fresh b hzero).1]
    rfl
  · exact .inr (h.settled b hpos)

/-- What a node offers is its own value, or the least of the two. -/
theorem offeredMtu_of_finds (h : Negotiated C v s) (hfinds : (s b).Finds W) (addr : List Char)
    (mode : String) :
    offeredMtu W (s b).state.config addr mode = v b ∨
      offeredMtu W (s b).state.config addr mode = least v := by
  have hiface : W.mtuOf (s b).state.config.interface = (s b).mtu := hfinds.interfaceMtu
  unfold offeredMtu
  split_ifs with hauto
  · left
    rw [hfinds.autoMtu hauto, ← h.value b, Negotiator.value, if_pos hauto]
  · rw [hiface]
    exact mtu_cases h hauto

/-- One node changes, and its configuration does not. -/
theorem negotiated_update (h : Negotiated C v s) {n : Negotiator} (hstate : n.state = (s b).state)
    (hvalue : n.value = (s b).value)
    (hsent : ∀ datagram ∈ n.sent, Says C (s b) (v b) (least v) datagram)
    (hfresh : n.processed = 0 → n.peering = (s b).peering ∧ (s b).processed = 0)
    (hsettled : 0 < n.processed → n.mtu = least v) :
    Negotiated C v (Function.update s b n) := by
  have hsame : ∀ c, (Function.update s b n c).state = (s c).state := by
    intro c
    by_cases hc : c = b
    · rw [hc, Function.update_self, hstate]
    · rw [Function.update_of_ne hc]
  refine ⟨?_, fun c => ?_, h.large, fun c => ?_, fun c datagram hd => ?_, fun c hc => ?_,
    fun c hc => ?_⟩
  · rw [hsame, hsame]
    exact h.psk
  · rw [hsame]
    exact h.takes c
  all_goals by_cases hcb : c = b
  · rw [hcb, Function.update_self, hvalue]
    exact h.value b
  · rw [Function.update_of_ne hcb]
    exact h.value c
  · unfold Says
    subst hcb
    rw [hsame]
    rw [Function.update_self] at hd
    exact hsent datagram hd
  · unfold Says
    rw [hsame]
    rw [Function.update_of_ne hcb] at hd
    exact h.sent c datagram hd
  · subst hcb
    rw [Function.update_self] at hc
    obtain ⟨hpeering, hzero⟩ := hfresh hc
    rw [hsame, Function.update_self, Negotiator.iface, hstate, hpeering]
    exact h.fresh c hzero
  · rw [Function.update_of_ne hcb] at hc ⊢
    rw [hsame]
    exact h.fresh c hc
  · rw [hcb, Function.update_self] at hc ⊢
    exact hsettled hc
  · rw [Function.update_of_ne hcb] at hc ⊢
    exact h.settled c hc

/-- A node sends one more message of its own. -/
theorem negotiated_send (h : Negotiated C v s) (hfinds : (s b).Finds W) (addr : List Char)
    (mode : String) (port : UInt16) :
    Negotiated C v (Function.update s b
      { s b with sent := (s b).sent ++ [ownSignal C W (s b).state addr mode (some port)] }) := by
  refine negotiated_update h rfl rfl (fun datagram hd => ?_) (fun hzero => ⟨rfl, hzero⟩)
    (h.settled b)
  rcases List.mem_append.mp hd with hold | hnew
  · exact h.sent b datagram hold
  · rw [List.mem_singleton.mp hnew]
    exact ⟨W, addr, mode, port, rfl, offeredMtu_of_finds h hfinds addr mode⟩

/-- **A node that processes a message of the other has the least of the two values.** -/
theorem mtu_processed {offer : Offer} (h : Negotiated C v s) (hfinds : (s b).Finds W)
    (hkey : offer.pubKey = (s !b).state.pubKey)
    (hmtu : offer.mtu = v (!b) ∨ offer.mtu = least v)
    (hsucceeds : Succeeds P R W (pushCall R src (s b).state offer) (s b).peering) :
    ((s b).configured P R W (pushCall R src (s b).state offer)).mtu = least v := by
  have hleast := toNat_least v b
  have hlarge := h.large b
  have hlarge' := h.large !b
  rw [UInt16.le_iff_toNat_le] at hlarge hlarge'
  have hoffer : offer.mtu.toNat = (v !b).toNat ∨ offer.mtu.toNat = (least v).toNat := by
    rcases hmtu with heq | heq <;> rw [heq]
    · exact .inl rfl
    · exact .inr rfl
  by_cases hcached : (s b).peering.cache.lookup (pushCall R src (s b).state offer).key =
      some (peerEndpoint R W (pushCall R src (s b).state offer))
  · -- The peer is in the cache, so a message was processed before.
    have hpos : 0 < (s b).processed := by
      by_contra hzero
      have huncached := (h.fresh b (Nat.eq_zero_of_not_pos hzero)).2
      rw [← hkey] at huncached
      exact absurd (huncached.symm.trans hcached) (Option.some_ne_none _).symm
    obtain ⟨-, heq⟩ | ⟨hmiss, -⟩ :=
      configurePeer_cases P R W (pushCall R src (s b).state offer) (s b).peering
    · rw [← h.settled b hpos, Negotiator.mtu, Negotiator.configured, heq]
      rfl
    · exact absurd hcached hmiss
  · rw [mtu_configured hcached hsucceeds]
    by_cases hauto : (s b).state.config.mtu = some 0
    · have hvalue : (s b).probed = v b := by
        rw [← h.value b, Negotiator.value, if_pos hauto]
      refine syncedMtu_auto hauto hfinds ?_ ?_
      · rw [hvalue]
        omega
      · rw [UInt16.le_iff_toNat_le]
        omega
    · have hcurrent : (s b).mtu.toNat = (v b).toNat ∨ (s b).mtu.toNat = (least v).toNat := by
        rcases mtu_cases h hauto with heq | heq <;> rw [heq]
        · exact .inl rfl
        · exact .inr rfl
      refine syncedMtu_fixed hauto hfinds ?_ ?_
      · omega
      · rw [UInt16.le_iff_toNat_le]
        omega

/-- A message that a node makes something of is an offer of the other one. -/
theorem answer_of_says [C.Lawful] (h : Negotiated C v s) {datagram : List UInt8} {a : Answer}
    (hd : datagram ∈ (s !b).sent) (ha : udpReceive R C W src [(s b).state] datagram = some a) :
    ∃ offer : Offer, a.call = pushCall R src (s b).state offer ∧
      offer.pubKey = (s !b).state.pubKey ∧ (offer.mtu = v (!b) ∨ offer.mtu = least v) ∧
      ∀ W', ∃ addr mode port, udpReceive R C W' src [(s b).state] datagram =
        some ⟨a.call, ownSignal C W' (s b).state addr mode (some port)⟩ := by
  obtain ⟨W₀, addr, mode, port, rfl, hmtu⟩ := h.sent (!b) datagram hd
  have hpsk : ∀ state ∈ [(s b).state], udpTakes state.config →
      state.config.psk = (s !b).state.config.psk := by
    intro state hstate _
    rw [List.mem_singleton.mp hstate]
    cases b
    · exact h.psk.symm
    · exact h.psk
  have hreceive : ∀ W', udpReceive R C W' src [(s b).state]
      (ownSignal C W₀ (s !b).state addr mode (some port)) =
        if port = 0 then none
        else some (answerOf R C W' (udpPort W' (s b).state.config) src
          (ownOffer W₀ (s !b).state addr mode port) (s b).state) := by
    intro W'
    rw [udpReceive_ownSignal hpsk, List.find?_cons_of_pos (by exact h.takes b),
      Option.map_some]
  by_cases hport : port = 0
  · rw [hreceive, if_pos hport] at ha
    cases ha
  · rw [hreceive, if_neg hport] at ha
    cases ha
    refine ⟨ownOffer W₀ (s !b).state addr mode port, rfl, rfl, hmtu, fun W' => ?_⟩
    rw [hreceive, if_neg hport]
    exact ⟨_, _, _, rfl⟩

/-- **One turn.** -/
theorem negotiated_step [C.Lawful] (h : Negotiated C v s) {input : NegotiationInput}
    (hregular : Regular P R C s input) (hstep : step P R C s input = some (s', o)) :
    Negotiated C v s' := by
  cases input with
  | push b W peer =>
    rw [step] at hstep
    split_ifs at hstep
    obtain ⟨message, hpush, heq⟩ := Option.map_eq_some_iff.mp hstep
    obtain ⟨addr, -, rfl⟩ := Option.map_eq_some_iff.mp hpush
    cases heq
    exact negotiated_send h hregular _ _ _
  | deliver b W W' src i =>
    obtain ⟨hfinds, hcall⟩ := hregular
    obtain ⟨datagram, hi, heq⟩ := Option.map_eq_some_iff.mp hstep
    rcases ha : udpReceive R C W src [(s b).state] datagram with _ | a
    · rw [ha] at heq
      cases heq
      exact h
    · rw [ha] at heq
      obtain ⟨hsucceeds, hfinds'⟩ := hcall datagram a hi ha
      obtain ⟨offer, hoffer, hkey, hmtu, hreply⟩ :=
        answer_of_says h (List.mem_of_getElem? hi) ha
      obtain ⟨addr, mode, port, hanswer⟩ := hreply W'
      rw [hoffer] at hsucceeds hfinds'
      have hprocessed := mtu_processed h hfinds hkey hmtu hsucceeds
      have hconfigured : Negotiated C v (Function.update s b
          ((s b).configured P R W (pushCall R src (s b).state offer))) :=
        negotiated_update h rfl rfl (h.sent b)
          (fun hzero => absurd hzero (Nat.succ_ne_zero _)) fun _ => hprocessed
      have hsent := negotiated_send (b := b) (W := W') hconfigured
        (by rw [Function.update_self]; exact hfinds') addr mode port
      rw [Function.update_self, Function.update_idem] at hsent
      have hcalls : (s b).configured P R W a.call =
          (s b).configured P R W (pushCall R src (s b).state offer) := by rw [hoffer]
      dsimp only at heq
      rw [hcalls, show ((s b).configured P R W (pushCall R src (s b).state offer)).state =
        (s b).state from rfl, hanswer] at heq
      cases heq
      exact hsent

/-- A node does not forget that it has processed a message. -/
theorem processed_step {input : NegotiationInput} (hstep : step P R C s input = some (s', o))
    (c : Bool) : (s c).processed ≤ (s' c).processed := by
  have hupdate : ∀ {b n}, (s b).processed ≤ n.processed →
      (s c).processed ≤ (Function.update s b n c).processed := by
    intro b n hle
    by_cases hc : c = b
    · subst hc
      rwa [Function.update_self]
    · rw [Function.update_of_ne hc]
  cases input with
  | push b W peer =>
    rw [step] at hstep
    split_ifs at hstep
    obtain ⟨message, -, heq⟩ := Option.map_eq_some_iff.mp hstep
    cases heq
    exact hupdate le_rfl
  | deliver b W W' src i =>
    obtain ⟨datagram, -, heq⟩ := Option.map_eq_some_iff.mp hstep
    split at heq
    · cases heq
      exact le_rfl
    · cases heq
      exact hupdate (Nat.le_succ _)

theorem Starts.negotiated (h : Starts s) : Negotiated C (fun b => (s b).value) s where
  psk := h.psk
  takes := h.takes
  large := h.large
  value _ := rfl
  sent b datagram hd := by
    rw [h.unsent b] at hd
    cases hd
  fresh b _ := ⟨h.unset b, h.uncached b⟩
  settled b hpos := by
    rw [h.unprocessed b] at hpos
    cases hpos

/-- **The MTUs converge.** Once each node has processed a message of the other, both interfaces have
the least of the two values, for the rest of the run. -/
theorem mtu_converges [C.Lawful] {s₀ : Bool → Negotiator} (hstart : Starts s₀)
    (h : Machine.Reaches (step P R C) (Regular P R C) s₀ s) (hboth : ∀ b, 0 < (s b).processed) :
    (∀ b, (s b).mtu = least fun b => (s₀ b).value) ∧
      ∀ s', Machine.Reaches (step P R C) (Regular P R C) s s' →
        ∀ b, (s' b).mtu = least fun b => (s₀ b).value := by
  have hnegotiated := h.invariant hstart.negotiated
    fun _ _ _ _ hs hregular hstep => negotiated_step hs hregular hstep
  refine ⟨fun b => hnegotiated.settled b (hboth b), fun s' hlater b => ?_⟩
  have hboth' := hlater.invariant (I := fun s => Negotiated C (fun b => (s₀ b).value) s ∧
    ∀ b, 0 < (s b).processed) ⟨hnegotiated, hboth⟩ fun _ _ _ _ hs hregular hstep =>
      ⟨negotiated_step hs.1 hregular hstep,
        fun b => (hs.2 b).trans_le (processed_step hstep b)⟩
  exact hboth'.1.settled b (hboth'.2 b)

theorem step_push {addr : SocketAddr} (hpeer : peer ∈ (s b).state.config.peers)
    (hpushes : pushes W udpTakes (s b).state = true)
    (haddr : resolveEndpointWithPort P W peer.endpoint.toList (targetPort (s b).state peer)
      (s b).state.config.preferIpv6 = some addr) :
    step P R C s (.push b W peer) =
      some (Function.update s b { s b with
        sent := (s b).sent ++ [ownSignal C W (s b).state peer.endpoint.toList
          (s b).state.config.mode (some (udpPort W (s b).state.config))] }, ()) := by
  rw [step, if_pos ⟨hpeer, hpushes⟩, udpPush, haddr]
  rfl

theorem step_deliver {datagram : List UInt8} {a a' : Answer}
    (hi : (s !b).sent[i]? = some datagram)
    (ha : udpReceive R C W src [(s b).state] datagram = some a)
    (ha' : udpReceive R C W' src [(s b).state] datagram = some a') :
    step P R C s (.deliver b W W' src i) =
      some (Function.update s b { (s b).configured P R W a.call with
        sent := (s b).sent ++ [a'.reply] }, ()) := by
  rw [step, hi, Option.map_some, ha]
  dsimp only
  rw [show ((s b).configured P R W a.call).state = (s b).state from rfl, ha']
  rfl

end

/-! ## Two nodes with fixed MTUs -/

/-- Two instances with the MTUs 1400 and 1300, whose data planes run. -/
def sampleNegotiator : Bool → Negotiator
  | true => ⟨sampleInstance 7 2, 0, 1400, samplePlane, [], 0⟩
  | false => ⟨sampleInstance 8 1, 0, 1300, samplePlane, [], 0⟩
where
  samplePlane : Peering :=
    ⟨fun iface => if iface = "wg0" then some ⟨fun _ => none, fun _ => none⟩ else none, ∅, []⟩

/-- A turn that finds an MTU. -/
def foundMtu (mtu : UInt16) : World := { portWorld with interfaceMtu := fun _ => some mtu }

theorem starts_sampleNegotiator : Starts sampleNegotiator where
  psk := rfl
  takes b := by cases b <;> exact udpTakes_sampleInstance _ _
  large b := by cases b <;> decide
  unsent b := by cases b <;> rfl
  unprocessed b := by cases b <;> rfl
  unset b := by cases b <;> rfl
  uncached b := by cases b <;> exact AList.lookup_empty _

/-- What a node of the sample makes of a message of the other one. -/
theorem udpReceive_sample {W' : World} {key key' peer peer' : UInt8} {src : SocketAddr}
    {addr : List Char} {mode : String} {mtu : UInt16} :
    udpReceive samplePrinters checksumPrims W' src [sampleInstance key' peer']
      (ownSignal checksumPrims (foundMtu mtu) (sampleInstance key peer) addr mode
        (some (udpPort (foundMtu mtu) (sampleInstance key peer).config))) =
      some (answerOf samplePrinters checksumPrims W' (udpPort W' (sampleInstance key' peer').config)
        src ⟨fill 32 key, mtu, 51820⟩ (sampleInstance key' peer')) := by
  have hport : udpPort (foundMtu mtu) (sampleInstance key peer).config = 51820 :=
    udpPort_portWorld (sampleInstance key peer).config
  have hpsk : ∀ s ∈ [sampleInstance key' peer'], udpTakes s.config →
      s.config.psk = (sampleInstance key peer).config.psk := by
    intro s hs _
    rw [List.mem_singleton.mp hs]
    rfl
  rw [hport, udpReceive_ownSignal hpsk, if_neg (by decide),
    List.find?_cons_of_pos (by exact udpTakes_sampleInstance key' peer')]
  rfl

theorem finds_sampleNegotiator {n : Negotiator} {mtu : UInt16} (hmtu : n.mtu = mtu)
    (hfixed : n.state.config.mtu = none) : n.Finds (foundMtu mtu) where
  interfaceMtu := hmtu.symm
  autoMtu hauto := absurd (hfixed.symm.trans hauto) (Option.some_ne_none _).symm

/-- What the first message of the other node leads to. -/
def sampleAnswer (b : Bool) (key : UInt8) (src : IpAddr) (mtu : UInt16) : ConfigureCall :=
  pushCall samplePrinters (.new src 12580) (sampleNegotiator b).state ⟨fill 32 key, mtu, 51820⟩

/-- A push, its answer, and what becomes of the answer. -/
theorem mtu_converges_sample :
    ∃ s, Machine.Reaches (step sampleNames samplePrinters checksumPrims)
        (Regular sampleNames samplePrinters checksumPrims) sampleNegotiator s ∧
      ∀ b, (s b).mtu = 1300 := by
  -- The first node pushes.
  have hpush : Regular sampleNames samplePrinters checksumPrims sampleNegotiator
      (.push true (foundMtu 1400) (samplePeer 2)) := finds_sampleNegotiator rfl rfl
  have htext : (samplePeer 2).endpoint.toList = sampleIpText (sampleIp 2) := by decide +kernel
  obtain ⟨s₁, hstep₁, htrue₁, hfalse₁⟩ : ∃ s₁, step sampleNames samplePrinters checksumPrims
      sampleNegotiator (.push true (foundMtu 1400) (samplePeer 2)) = some (s₁, ()) ∧
      s₁ true = { sampleNegotiator true with
        sent := [ownSignal checksumPrims (foundMtu 1400) (sampleInstance 7 2)
          (samplePeer 2).endpoint.toList "udp"
          (some (udpPort (foundMtu 1400) (sampleInstance 7 2).config))] } ∧
      s₁ false = sampleNegotiator false :=
    ⟨_, step_push List.mem_cons_self (pushes_portWorld 7 2 (by decide))
      (by unfold resolveEndpointWithPort; rw [htext]; rfl), rfl, rfl⟩
  -- The second one answers.
  have hreceive₂ : ∀ W', udpReceive samplePrinters checksumPrims W' (.new (sampleIp 1) 12580)
      [(s₁ false).state] (ownSignal checksumPrims (foundMtu 1400) (sampleInstance 7 2)
        (samplePeer 2).endpoint.toList "udp"
        (some (udpPort (foundMtu 1400) (sampleInstance 7 2).config))) =
      some (answerOf samplePrinters checksumPrims W' (udpPort W' (sampleInstance 8 1).config)
        (.new (sampleIp 1) 12580) ⟨fill 32 7, 1400, 51820⟩ (sampleInstance 8 1)) := by
    intro W'
    rw [hfalse₁]
    exact udpReceive_sample
  have hdeliver₂ : Regular sampleNames samplePrinters checksumPrims s₁
      (.deliver false (foundMtu 1300) (foundMtu 1300) (.new (sampleIp 1) 12580) 0) := by
    refine ⟨?_, fun datagram a hi ha => ?_⟩
    · rw [hfalse₁]
      exact finds_sampleNegotiator rfl rfl
    · rw [Bool.not_false, htrue₁] at hi
      cases hi
      cases (hreceive₂ _).symm.trans ha
      refine ⟨?_, ?_⟩
      · rw [hfalse₁]
        exact .inr (by decide +kernel)
      · rw [hfalse₁]
        exact finds_sampleNegotiator (by decide +kernel) rfl
  obtain ⟨s₂, hstep₂, htrue₂, hfalse₂⟩ : ∃ s₂, step sampleNames samplePrinters checksumPrims s₁
      (.deliver false (foundMtu 1300) (foundMtu 1300) (.new (sampleIp 1) 12580) 0) =
        some (s₂, ()) ∧ s₂ true = s₁ true ∧
      s₂ false = { (sampleNegotiator false).configured sampleNames samplePrinters (foundMtu 1300)
          (sampleAnswer false 7 (sampleIp 1) 1400) with
        sent := [ownSignal checksumPrims (foundMtu 1300) (sampleInstance 8 1)
          (sampleIpText (sampleIp 1)) "udp"
          (some (udpPort (foundMtu 1300) (sampleInstance 8 1).config))] } := by
    refine ⟨_, step_deliver (by rw [Bool.not_false, htrue₁]; rfl) (hreceive₂ _) (hreceive₂ _),
      Function.update_of_ne Bool.false_ne_true.symm _ _, ?_⟩
    rw [Function.update_self, hfalse₁]
    rfl
  -- The first one takes the answer.
  have hreceive₃ : ∀ W', udpReceive samplePrinters checksumPrims W' (.new (sampleIp 2) 12580)
      [(s₂ true).state] (ownSignal checksumPrims (foundMtu 1300) (sampleInstance 8 1)
        (sampleIpText (sampleIp 1)) "udp"
        (some (udpPort (foundMtu 1300) (sampleInstance 8 1).config))) =
      some (answerOf samplePrinters checksumPrims W' (udpPort W' (sampleInstance 7 2).config)
        (.new (sampleIp 2) 12580) ⟨fill 32 8, 1300, 51820⟩ (sampleInstance 7 2)) := by
    intro W'
    rw [htrue₂, htrue₁]
    exact udpReceive_sample
  have hdeliver₃ : Regular sampleNames samplePrinters checksumPrims s₂
      (.deliver true (foundMtu 1400) (foundMtu 1300) (.new (sampleIp 2) 12580) 0) := by
    refine ⟨?_, fun datagram a hi ha => ?_⟩
    · rw [htrue₂, htrue₁]
      exact finds_sampleNegotiator rfl rfl
    · rw [Bool.not_true, hfalse₂] at hi
      cases hi
      cases (hreceive₃ _).symm.trans ha
      refine ⟨?_, ?_⟩
      · rw [htrue₂, htrue₁]
        exact .inr (by decide +kernel)
      · rw [htrue₂, htrue₁]
        exact finds_sampleNegotiator (by decide +kernel) rfl
  obtain ⟨s₃, hstep₃, htrue₃, hfalse₃⟩ : ∃ s₃, step sampleNames samplePrinters checksumPrims s₂
      (.deliver true (foundMtu 1400) (foundMtu 1300) (.new (sampleIp 2) 12580) 0) =
        some (s₃, ()) ∧ (s₃ true).processed = (s₂ true).processed + 1 ∧ s₃ false = s₂ false :=
    ⟨_, step_deliver (by rw [Bool.not_true, hfalse₂]; rfl) (hreceive₃ _) (hreceive₃ _),
      by rw [Function.update_self]; rfl, Function.update_of_ne Bool.false_ne_true _ _⟩
  have hreaches := (Machine.Reaches.refl.tail hpush hstep₁).tail hdeliver₂ hstep₂ |>.tail hdeliver₃
    hstep₃
  refine ⟨s₃, hreaches, fun b => ?_⟩
  refine ((mtu_converges starts_sampleNegotiator hreaches fun b => ?_).1 b).trans (by decide)
  cases b
  · rw [hfalse₃, hfalse₂]
    exact Nat.succ_pos _
  · rw [htrue₃]
    exact Nat.succ_pos _

end Negotiation

end NekoLink.Ctl
