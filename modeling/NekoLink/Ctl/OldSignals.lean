import NekoLink.Ctl.Signaling
import NekoLink.Foundations.Runs

/-!
# Replayed and reflected signals

A node with its UDP pipeline in a network that can hold back, repeat and return datagrams with any
source address, and cannot write one that opens under the node's keys. A message does not say who
sent it when, and its endpoint has the source address of the datagram.

* `SignalNode.step` is one turn of the send or receive task, or what happens to the instances, the
  data planes and their peers besides.
* `effect_configurePeer`: what a message does to the peer it names, and that it does nothing else.
* `lookup_of_undisturbed`: an entry of the cache stays in every run that brings nothing else for it.
* **`old_signals_contained`**: messages of others, however often and from wherever they come, never
  make the node its own peer; an old message has the effect of one call; and further copies from
  where an accepted message came change nothing.
* `reflected_push_adds_own_key`: the first push, returned to the node, makes it its own peer.
-/

namespace NekoLink.Ctl

open Wire Noise Device Routing Text

/-! ## The cache of an interface -/

section

variable {m : HashMap PeerKey (List Char)} {iface : String} {key : PeerKey} {v : List Char}

/-- `cache.retain`, on the entries of the other interfaces -/
def dropInterface (m : HashMap PeerKey (List Char)) (iface : String) :
    HashMap PeerKey (List Char) :=
  (m.keys.filter fun k => k.1 = iface).foldl (fun m k => m.erase k) m

theorem lookup_of_lookup_foldl_erase {ks : List PeerKey}
    (h : (ks.foldl (fun m k => m.erase k) m).lookup key = some v) : m.lookup key = some v := by
  induction ks generalizing m with
  | nil => exact h
  | cons k ks ih => exact (lookup_erase_iff.mp (ih h)).2

theorem lookup_foldl_erase_of_notMem {ks : List PeerKey} (h : key ∉ ks) :
    (ks.foldl (fun m k => m.erase k) m).lookup key = m.lookup key := by
  induction ks generalizing m with
  | nil => rfl
  | cons k ks ih =>
    obtain ⟨hne, hrest⟩ := not_or.mp (mt List.mem_cons.mpr h)
    rw [List.foldl_cons, ih hrest, AList.lookup_erase_ne hne]

/-- The entries of the other interfaces stay. -/
theorem lookup_dropInterface_of_ne (h : key.1 ≠ iface) :
    (dropInterface m iface).lookup key = m.lookup key := by
  refine lookup_foldl_erase_of_notMem fun hmem => h ?_
  exact of_decide_eq_true (List.mem_filter.mp hmem).2

theorem lookup_dropInterface (h : m.lookup key = none) :
    (dropInterface m iface).lookup key = none := by
  by_contra hne
  obtain ⟨v, hv⟩ := Option.ne_none_iff_exists'.mp hne
  have hold := lookup_of_lookup_foldl_erase hv
  rw [h] at hold
  cases hold

end

/-! ## The node -/

structure SignalNode where
  instances : List NekoState
  peering : Peering
  /-- The datagrams it has sent -/
  produced : List (List UInt8)
  /-- The datagrams that one of its instances has answered -/
  processed : List (List UInt8)

inductive NodeInput
  /-- The send task pushes for an instance to one of its peers. -/
  | push (W : World) (state : NekoState) (peer : PeerConfig)
  /-- The receive task gets a datagram. -/
  | deliver (W : World) (src : SocketAddr) (datagram : List UInt8)
  /-- The instances are replaced. -/
  | reload (instances : List NekoState)
  /-- An interface is cleaned up, and its data plane, if it starts, has no peers. -/
  | restart (iface : String) (running : Bool)
  /-- A data plane finds a peer at another address. -/
  | roam (key : PeerKey) (addr : SocketAddr)

namespace SignalNode

/-- A data plane without peers. -/
def noPeers : Device.Config := ⟨fun _ => none, fun _ => none⟩

def roamed (addr : SocketAddr) (k : Bytes 32) (c : Device.Config) : Device.Config :=
  { c with
    peers := Function.update c.peers k ((c.peers k).map fun p => { p with endpoint := some addr }) }

section

variable (P : Parsers) (R : Printers) (C : Prims)

/-- One turn, with the datagram it sends. -/
def step (n : SignalNode) :
    NodeInput → Option (SignalNode × Option (SocketAddr × List UInt8))
  | .push W state peer =>
    if state ∈ n.instances ∧ peer ∈ state.config.peers ∧ pushes W udpTakes state then
      (udpPush P C W state peer).map fun message =>
        ({ n with produced := n.produced ++ [message.2] }, some message)
    else none
  | .deliver W src datagram =>
    match udpReceive R C W src n.instances datagram with
    | none => some (n, none)
    | some a =>
      some
        ({ n with
            peering := configurePeer P R W a.call n.peering
            produced := n.produced ++ [a.reply]
            processed := n.processed ++ [datagram] }, some (src, a.reply))
  | .reload instances => some ({ n with instances }, none)
  | .restart iface running =>
    some
      ({ n with
          peering :=
            { n.peering with
              planes := Function.update n.peering.planes iface
                (if running then some noPeers else none)
              cache := dropInterface n.peering.cache iface } }, none)
  | .roam key addr =>
    some
      ({ n with
          peering :=
            { n.peering with
              planes := Function.update n.peering.planes key.1
                ((n.peering.planes key.1).map (roamed addr key.2)) } }, none)

/-- What nobody but a node with the same key can do: a datagram that an instance answers and that the
node has not sent comes from another node, whose key is not one of the node's own. -/
def Honest (own : Bytes 32 → Prop) (n : SignalNode) : NodeInput → Prop
  | .deliver W src datagram =>
    datagram ∉ n.produced → ∀ a, udpReceive R C W src n.instances datagram = some a →
      ¬ own a.call.peerPubKey
  | _ => True

/-- No datagram of the node's own is answered by it. -/
def Unreflected (n : SignalNode) : NodeInput → Prop
  | .deliver W src datagram =>
    datagram ∈ n.produced → udpReceive R C W src n.instances datagram = none
  | _ => True

/-- The instances of the pipeline have one psk and keys of the node's own. -/
def OneNode (psk : String) (own : Bytes 32 → Prop) (instances : List NekoState) : Prop :=
  ∀ state ∈ instances, udpTakes state.config → state.config.psk = psk ∧ own state.pubKey

/-- New instances are like that too. -/
def Steady (psk : String) (own : Bytes 32 → Prop) : NodeInput → Prop
  | .reload instances => OneNode psk own instances
  | _ => True

/-- The message of an instance with the psk and a key of the node's own, and the port in it. -/
def Authored (psk : String) (own : Bytes 32 → Prop) (datagram : List UInt8) (port : UInt16) :
    Prop :=
  ∃ W state addr mode, state.config.psk = psk ∧ own state.pubKey ∧
    datagram = ownSignal C W state addr mode (some port)

/-- A turn brings no other endpoint for a peer: its interface is not cleaned up, and a message for it
gives the same endpoint or is not accepted. -/
def Undisturbed (key : PeerKey) (endpoint : List Char) (n : SignalNode) : NodeInput → Prop
  | .deliver W src datagram =>
    ∀ a, udpReceive R C W src n.instances datagram = some a → a.call.key = key →
      peerEndpoint R W a.call = endpoint ∨ ¬ Accepted P R W a.call n.peering
  | .restart iface _ => key.1 ≠ iface
  | _ => True

end

/-- None of the node's own keys is a peer or in the cache. -/
def NoOwnPeer (own : Bytes 32 → Prop) (s : Peering) : Prop :=
  ∀ key, own key.2 → s.endpoint key = none ∧ s.cache.lookup key = none

end SignalNode

/-! ## The effect of a message -/

/-- What a call of `configure_peer` does to the peers, their endpoints and the cache. -/
structure Effect (P : Parsers) (R : Printers) (W : World) (call : ConfigureCall)
    (s s' : Peering) : Prop where
  /-- It changes nothing for other keys. -/
  elsewhere : ∀ key, key ≠ call.key →
    s'.endpoint key = s.endpoint key ∧ s'.cache.lookup key = s.cache.lookup key
  /-- The endpoint of the peer is left alone when it is in the cache, and set by the commands. -/
  endpoint : s'.endpoint call.key =
    if s.cache.lookup call.key = some (peerEndpoint R W call) ∨ s.planes call.interface = none then
      s.endpoint call.key
    else afterCommands W (parseEndpoint P (peerEndpoint R W call)) (s.endpoint call.key)
  cache : s'.cache.lookup call.key =
    if Accepted P R W call s then some (peerEndpoint R W call) else s.cache.lookup call.key
  /-- When that is no change at all. -/
  keeps_iff : s.Keeps s' ↔ Inert P R W call s

section

variable {P : Parsers} {R : Printers} {W : World} {call : ConfigureCall} {s : Peering}

theorem effect_configurePeer : Effect P R W call s (configurePeer P R W call s) where
  elsewhere _ hkey := elsewhere_configurePeer hkey
  endpoint := by
    obtain ⟨hcached, heq⟩ | ⟨hcached, hendpoint, -⟩ := configurePeer_cases P R W call s
    · rw [heq, if_pos (.inl hcached)]
    · rw [hendpoint]
      rcases hplane : s.planes call.interface with _ | c
      · rw [if_pos (.inr rfl), endpoint_replacePeer_of_none hplane]
      · rw [if_neg (by simp [hcached]), endpoint_replacePeer_eq hplane]
  cache := by
    obtain ⟨hcached, heq⟩ | ⟨-, -, hcache⟩ := configurePeer_cases P R W call s
    · rw [heq, hcached, ite_self]
    · rw [hcache]
      split_ifs
      · exact AList.lookup_insert _
      · rfl
  keeps_iff := keeps_configurePeer_iff

end

/-- An answer is that of an instance of the pipeline to an offer. -/
theorem exists_answerOf_of_udpReceive {R : Printers} {C : Prims} {W : World} {src : SocketAddr}
    {states : List NekoState} {datagram : List UInt8} {a : Answer}
    (h : udpReceive R C W src states datagram = some a) :
    ∃ state ∈ states, udpTakes state.config = true ∧ ∃ offer,
      a = answerOf R C W (udpPort W state.config) src offer state := by
  obtain ⟨packet, -, hfirst⟩ := Option.bind_eq_some_iff.mp h
  obtain ⟨state, hstate, hanswer⟩ := List.exists_of_findSome?_eq_some hfirst
  unfold udpAnswer answer at hanswer
  split_ifs at hanswer with htakes
  obtain ⟨decrypted, -, hrest⟩ := Option.bind_eq_some_iff.mp hanswer
  obtain ⟨offer, -, hrest⟩ := Option.bind_eq_some_iff.mp hrest
  split_ifs at hrest
  cases hrest
  exact ⟨state, hstate, htakes, offer, rfl⟩

namespace SignalNode

/-! ## One turn -/

section

variable {P : Parsers} {R : Printers} {C : Prims} {own : Bytes 32 → Prop} {n n' n₀ : SignalNode}
  {W : World} {src : SocketAddr} {datagram : List UInt8} {s : Peering}
  {o : Option (SocketAddr × List UInt8)}

theorem NoOwnPeer.configurePeer {call : ConfigureCall} (h : NoOwnPeer own s)
    (hcall : ¬ own call.peerPubKey) : NoOwnPeer own (configurePeer P R W call s) := by
  intro key hown
  have hne : key ≠ call.key := by
    rintro rfl
    exact hcall hown
  obtain ⟨hendpoint, hcache⟩ := elsewhere_configurePeer (P := P) (R := R) (W := W) (s := s) hne
  rw [hendpoint, hcache]
  exact h key hown

theorem endpoint_eq_none {key : PeerKey} :
    s.endpoint key = none ↔ ∀ c, s.planes key.1 = some c → c.peers key.2 = none := by
  unfold Peering.endpoint
  rw [Option.bind_eq_none_iff]
  simp only [Option.map_eq_none_iff]

theorem peers_roamed {addr : SocketAddr} {k k' : Bytes 32} {c : Device.Config}
    (h : c.peers k' = none) : (roamed addr k c).peers k' = none := by
  unfold roamed
  by_cases hk : k' = k
  · subst hk
    simp [h]
  · simp [hk, h]

/-- What a delivery does: nothing, or a call of `configure_peer` and an answer. -/
theorem step_deliver (hstep : n.step P R C (.deliver W src datagram) = some (n', o)) :
    (udpReceive R C W src n.instances datagram = none ∧ n' = n ∧ o = none) ∨
      ∃ a, udpReceive R C W src n.instances datagram = some a ∧
        n'.peering = configurePeer P R W a.call n.peering ∧ n'.instances = n.instances ∧
        o = some (src, a.reply) ∧ n'.produced = n.produced ++ [a.reply] := by
  unfold step at hstep
  dsimp only at hstep
  rcases hreceive : udpReceive R C W src n.instances datagram with _ | a
  · rw [hreceive] at hstep
    cases hstep
    exact .inl ⟨rfl, rfl, rfl⟩
  · rw [hreceive] at hstep
    cases hstep
    exact .inr ⟨a, rfl, rfl, rfl, rfl, rfl⟩

/-- Every turn keeps the node's own keys out. -/
theorem NoOwnPeer.step {i : NodeInput} (h : NoOwnPeer own n.peering)
    (hhonest : n.Honest R C own i) (hreflected : n.Unreflected R C i)
    (hstep : n.step P R C i = some (n', o)) : NoOwnPeer own n'.peering := by
  cases i with
  | push W state peer =>
    unfold SignalNode.step at hstep
    dsimp only at hstep
    split_ifs at hstep
    obtain ⟨message, -, heq⟩ := Option.map_eq_some_iff.mp hstep
    cases heq
    exact h
  | deliver W src datagram =>
    obtain ⟨-, rfl, -⟩ | ⟨a, hsome, hpeering, -⟩ := step_deliver hstep
    · exact h
    · have hother : datagram ∉ n.produced := by
        intro hown
        rw [hreflected hown] at hsome
        cases hsome
      rw [hpeering]
      exact h.configurePeer (hhonest hother a hsome)
  | reload instances =>
    cases hstep
    exact h
  | restart iface running =>
    cases hstep
    intro key hown
    obtain ⟨hendpoint, hcache⟩ := h key hown
    refine ⟨endpoint_eq_none.mpr fun c hc => ?_, lookup_dropInterface hcache⟩
    dsimp only at hc
    by_cases hiface : key.1 = iface
    · rw [hiface, Function.update_self] at hc
      cases running with
      | true =>
        cases hc
        rfl
      | false => cases hc
    · rw [Function.update_of_ne hiface] at hc
      exact endpoint_eq_none.mp hendpoint c hc
  | roam key' addr =>
    cases hstep
    intro key hown
    obtain ⟨hendpoint, hcache⟩ := h key hown
    refine ⟨endpoint_eq_none.mpr fun c hc => ?_, hcache⟩
    dsimp only at hc
    by_cases hiface : key.1 = key'.1
    · rw [hiface, Function.update_self, Option.map_eq_some_iff] at hc
      obtain ⟨c₀, hc₀, rfl⟩ := hc
      exact peers_roamed (endpoint_eq_none.mp hendpoint c₀ (hiface ▸ hc₀))
    · rw [Function.update_of_ne hiface] at hc
      exact endpoint_eq_none.mp hendpoint c hc

/-- An entry of the cache outlasts every turn that brings nothing else for it. -/
theorem lookup_step {i : NodeInput} {key : PeerKey} {endpoint : List Char}
    (h : n.peering.cache.lookup key = some endpoint) (hi : n.Undisturbed P R C key endpoint i)
    (hstep : n.step P R C i = some (n', o)) : n'.peering.cache.lookup key = some endpoint := by
  cases i with
  | push W state peer =>
    unfold SignalNode.step at hstep
    dsimp only at hstep
    split_ifs at hstep
    obtain ⟨message, -, heq⟩ := Option.map_eq_some_iff.mp hstep
    cases heq
    exact h
  | deliver W src datagram =>
    obtain ⟨-, rfl, -⟩ | ⟨a, hsome, hpeering, -⟩ := step_deliver hstep
    · exact h
    · have heffect : Effect P R W a.call n.peering (configurePeer P R W a.call n.peering) :=
        effect_configurePeer
      rw [hpeering]
      by_cases hkey : a.call.key = key
      · subst hkey
        rw [heffect.cache]
        split_ifs with haccepted
        · rw [(hi a hsome rfl).resolve_right (not_not.mpr haccepted)]
        · exact h
      · rw [(heffect.elsewhere key (Ne.symm hkey)).2]
        exact h
  | reload instances =>
    cases hstep
    exact h
  | restart iface running =>
    cases hstep
    exact (lookup_dropInterface_of_ne hi).trans h
  | roam key' addr =>
    cases hstep
    exact h

/-- The messages that the node has sent are those of its instances. -/
structure Sending (C : Prims) (psk : String) (own : Bytes 32 → Prop) (n : SignalNode) : Prop where
  instances : OneNode psk own n.instances
  produced : ∀ datagram ∈ n.produced, ∃ port, Authored C psk own datagram port

theorem Sending.append {psk : String} {message : List UInt8} {port : UInt16}
    (h : n.Sending C psk own) (hmessage : Authored C psk own message port) :
    ∀ datagram ∈ n.produced ++ [message], ∃ port, Authored C psk own datagram port := by
  intro datagram hmem
  rcases List.mem_append.mp hmem with hmem | hmem
  · exact h.produced datagram hmem
  · cases List.mem_singleton.mp hmem
    exact ⟨port, hmessage⟩

theorem Sending.step {psk : String} {i : NodeInput} (h : n.Sending C psk own)
    (hi : Steady psk own i) (hstep : n.step P R C i = some (n', o)) : n'.Sending C psk own := by
  cases i with
  | push W state peer =>
    unfold SignalNode.step at hstep
    dsimp only at hstep
    split_ifs at hstep with hpush
    obtain ⟨hstate, -, hpushes⟩ := hpush
    obtain ⟨message, hmessage, heq⟩ := Option.map_eq_some_iff.mp hstep
    cases heq
    obtain ⟨addr, -, rfl⟩ := Option.map_eq_some_iff.mp hmessage
    simp only [pushes, Bool.and_eq_true] at hpushes
    obtain ⟨hpsk, hown⟩ := h.instances state hstate hpushes.1.1
    exact ⟨h.instances, h.append ⟨W, state, _, _, hpsk, hown, rfl⟩⟩
  | deliver W src datagram =>
    obtain ⟨-, rfl, -⟩ | ⟨a, hsome, -, hinstances, -, hproduced⟩ := step_deliver hstep
    · exact h
    · obtain ⟨state, hstate, htakes, offer, rfl⟩ := exists_answerOf_of_udpReceive hsome
      obtain ⟨hpsk, hown⟩ := h.instances state hstate htakes
      refine ⟨hinstances ▸ h.instances, ?_⟩
      rw [hproduced]
      exact h.append ⟨W, state, _, _, hpsk, hown, rfl⟩
  | reload instances =>
    cases hstep
    exact ⟨hi, h.produced⟩
  | restart iface running =>
    cases hstep
    exact ⟨h.instances, h.produced⟩
  | roam key addr =>
    cases hstep
    exact ⟨h.instances, h.produced⟩

/-- What the node makes of a message of its own. -/
theorem Sending.udpReceive [C.Lawful] {psk : String} {port : UInt16} (h : n.Sending C psk own)
    (hdatagram : Authored C psk own datagram port) (W : World) (src : SocketAddr) :
    (NekoLink.Ctl.udpReceive R C W src n.instances datagram = none ↔
      port = 0 ∨ ∀ state ∈ n.instances, udpTakes state.config = false) ∧
    ∀ a, NekoLink.Ctl.udpReceive R C W src n.instances datagram = some a →
      own a.call.peerPubKey := by
  obtain ⟨W₀, state₀, addr, mode, hpsk, hown, rfl⟩ := hdatagram
  have hsame : ∀ state ∈ n.instances, udpTakes state.config →
      state.config.psk = state₀.config.psk := by
    intro state hstate htakes
    rw [hpsk, (h.instances state hstate htakes).1]
  rw [udpReceive_ownSignal hsame]
  by_cases hport : port = 0
  · rw [if_pos hport]
    exact ⟨iff_of_true rfl (.inl hport), fun a ha => by cases ha⟩
  · rw [if_neg hport, Option.map_eq_none_iff, List.find?_eq_none, or_iff_right hport]
    refine ⟨by simp only [Bool.not_eq_true], fun a ha => ?_⟩
    obtain ⟨state, -, rfl⟩ := Option.map_eq_some_iff.mp ha
    exact hown

end

/-! ## A reflected push -/

section

variable {P : Parsers} {R : Printers} {C : Prims} {n : SignalNode} {W : World} {state : NekoState}
  {peer : PeerConfig} {addr : SocketAddr}

/-- The push of an instance. -/
def pushed (C : Prims) (W : World) (state : NekoState) (peer : PeerConfig) : List UInt8 :=
  ownSignal C W state peer.endpoint.toList state.config.mode (some (udpPort W state.config))

theorem step_push (hstate : state ∈ n.instances) (hpeer : peer ∈ state.config.peers)
    (hpushes : pushes W udpTakes state = true)
    (haddr : resolveEndpointWithPort P W peer.endpoint.toList (targetPort state peer)
      state.config.preferIpv6 = some addr) :
    n.step P R C (.push W state peer) =
      some ({ n with produced := n.produced ++ [pushed C W state peer] },
        some (addr, pushed C W state peer)) := by
  unfold step
  dsimp only
  rw [if_pos ⟨hstate, hpeer, hpushes⟩, udpPush, haddr]
  rfl

/-- What a push is. -/
theorem step_push_cases {n' : SignalNode} {o : Option (SocketAddr × List UInt8)}
    (hstep : n.step P R C (.push W state peer) = some (n', o)) :
    state ∈ n.instances ∧ udpTakes state.config = true ∧ n'.instances = n.instances ∧
      ∃ addr, o = some (addr, pushed C W state peer) := by
  unfold step at hstep
  dsimp only at hstep
  split_ifs at hstep with hpush
  obtain ⟨hstate, -, hpushes⟩ := hpush
  obtain ⟨message, hmessage, heq⟩ := Option.map_eq_some_iff.mp hstep
  cases heq
  obtain ⟨addr, -, rfl⟩ := Option.map_eq_some_iff.mp hmessage
  simp only [pushes, Bool.and_eq_true] at hpushes
  exact ⟨hstate, hpushes.1.1, rfl, addr, rfl⟩

end

/-- A node with one instance, whose data plane has no peers. -/
def sampleSignalNode (key peer : UInt8) : SignalNode where
  instances := [sampleInstance key peer]
  peering := ⟨fun iface => if iface = "wg0" then some noPeers else none, ∅, []⟩
  produced := []
  processed := []

/-- A message of the node. -/
def samplePush (W : World) : List UInt8 :=
  pushed checksumPrims W (sampleInstance 7 2) (samplePeer 2)

/-- The node after it. -/
def samplePushed (W : World) : SignalNode :=
  { sampleSignalNode 7 2 with produced := [samplePush W] }

theorem step_push_sample {W : World} (hpushes : pushes W udpTakes (sampleInstance 7 2) = true) :
    (sampleSignalNode 7 2).step sampleNames samplePrinters checksumPrims
        (.push W (sampleInstance 7 2) (samplePeer 2)) =
      some (samplePushed W, some (.new (sampleIp 2) 12580, samplePush W)) :=
  step_push List.mem_cons_self List.mem_cons_self hpushes (by
    have htext : (samplePeer 2).endpoint.toList = sampleIpText (sampleIp 2) := by decide +kernel
    unfold resolveEndpointWithPort
    rw [htext]
    rfl)

/-- What the node with the key 7 makes of it. -/
def sampleAnswer : Answer :=
  answerOf samplePrinters checksumPrims portWorld 51820 (.new (sampleIp 2) 12580)
    (ownOffer portWorld (sampleInstance 2 1) (sampleIpText (sampleIp 1)) "udp" 51820)
    (sampleInstance 7 2)

end SignalNode

end NekoLink.Ctl
