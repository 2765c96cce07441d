import NekoLink.Ctl.Signaling

/-!
# The grammar of signalling

What the receive tasks of the three pipelines make of any bytes at all. A message is a nonce and a
box, in the raw pipeline behind an IPv4 header and a magic byte; its text has a key, an MTU and, in
the UDP and TCP pipelines, a port.

* `correct_udp`, `correct_tcp`: the receive tasks with ports keep to the grammar.
* `meant_iff_of_header`, `meant_iff_of_ne`: for which bytes the raw one does, behind a header without
  options and otherwise.
* **`correct_iff`**: when each of the receive tasks keeps to the grammar.
-/

namespace NekoLink.Ctl

open Wire Noise Device

/-- The pipelines; the raw one has a protocol. -/
inductive Pipeline
  | udp
  | tcp
  | raw (proto : UInt8)

namespace Pipeline

/-! ## The receive tasks -/

def takes : Pipeline → NekoConfig → Bool
  | udp => udpTakes
  | tcp => tcpTakes
  | raw proto => rawTakes proto

/-- The size of the buffer; what is received fits into it. -/
def buffer : Pipeline → ℕ
  | udp => 1024
  | tcp => 256
  | raw _ => 1024

section

variable (R : Printers) (C : Prims) (W : World)

/-- The calls of `configure_peer`. `none` is a panic. -/
def calls (p : Pipeline) (src : SocketAddr) (states : List NekoState) (datagram : List UInt8) :
    Option (List ConfigureCall) :=
  match p with
  | udp => some ((udpReceive R C W src states datagram).toList.map Answer.call)
  | tcp => some ((tcpReceive R C W src states datagram).toList.map Answer.call)
  | raw proto => (rawReceive R C W proto src.ip states datagram).map (List.map Answer.call)

end

/-! ## The grammar -/

/-- What comes behind an IPv4 header of any legal length. -/
def ipv4Payload (received : List UInt8) : Option (List UInt8) :=
  let first := received.headD 0
  let header := 4 * (first &&& 0x0f).toNat
  if first &&& 0xf0 = 0x40 ∧ 20 ≤ header ∧ header ≤ received.length then
    some (received.drop header)
  else none

/-- The nonce and the box. -/
def packet (p : Pipeline) (received : List UInt8) : Option (List UInt8) :=
  match p with
  | raw _ =>
    (ipv4Payload received).bind fun payload =>
      if payload.head? = some 0x99 then some payload.tail else none
  | _ => some received

/-- A text with a key, an MTU and a port, or without a port in the raw pipeline. -/
def read (p : Pipeline) (decrypted : List UInt8) : Option Offer :=
  match p with
  | raw _ =>
    if h : 34 ≤ decrypted.length then
      some
        { pubKey := ⟨decrypted.take 32, by rw [List.length_take]; omega⟩
          mtu := UInt16.ofNat (beValue (slice decrypted 32 34))
          port := 0 }
    else none
  | _ => (readSignal decrypted).filter (·.port ≠ 0)

/-- What an instance of the pipeline is told, when the box is authentic under its key. -/
def told (C : Prims) (p : Pipeline) (state : NekoState) (received : List UInt8) : Option Offer :=
  if p.takes state.config then
    ((p.packet received).bind (openSignal C (deriveCipher C state.config.psk))).bind p.read
  else none

/-- The call for what an instance is told. -/
def callOf (R : Printers) (src : SocketAddr) (offer : Offer) (state : NekoState) :
    ConfigureCall where
  interface := state.config.interface
  peerPubKey := offer.pubKey
  endpoint := endpointText R src.ip offer.port
  keepalive := state.config.persistentKeepalive
  peerMtu := some offer.mtu
  autoSyncMtu := state.config.mtu = some 0
  mode := state.config.mode

/-- The receive task does not panic, and it configures a peer exactly when an instance is told to:
what that instance is told, and for that instance only. -/
def Correct (R : Printers) (C : Prims) (W : World) (p : Pipeline) (src : SocketAddr)
    (states : List NekoState) (datagram : List UInt8) : Prop :=
  let received := datagram.take p.buffer
  ∃ calls, p.calls R C W src states datagram = some calls ∧
    (calls ≠ [] ↔ ∃ state ∈ states, (p.told C state received).isSome) ∧
    ∀ call ∈ calls, calls = [call] ∧
      ∃ state ∈ states, ∃ offer, p.told C state received = some offer ∧
        call = callOf R src offer state

/-! ## The pipelines with ports -/

section

variable {R : Printers} {C : Prims} {W : World} {src : SocketAddr} {states : List NekoState}
  {state : NekoState} {datagram : List UInt8} {port : UInt16} {p : Pipeline}

theorem length_of_openSignal {key : Bytes 32} {packet decrypted : List UInt8}
    (h : openSignal C key packet = some decrypted) : packet.length = decrypted.length + 28 := by
  rw [openSignal] at h
  split_ifs at h with hlen
  obtain ⟨v, -, rfl⟩ := Option.map_eq_some_iff.mp h
  rw [v.toList_length]
  omega

theorem length_of_readSignal {decrypted : List UInt8} {offer : Offer}
    (h : readSignal decrypted = some offer) : 36 ≤ decrypted.length := by
  rw [readSignal] at h
  split_ifs at h with hlen
  exact hlen

/-- What an instance of a pipeline with ports makes of a packet. -/
theorem map_call_answer (hmode : state.config.mode ≠ "ip") (packet : List UInt8) :
    (answer R C W port src packet state).map Answer.call =
      ((openSignal C (deriveCipher C state.config.psk) packet).bind fun decrypted =>
        (readSignal decrypted).filter (·.port ≠ 0)).map fun offer => callOf R src offer state := by
  rw [answer]
  rcases openSignal C (deriveCipher C state.config.psk) packet with _ | decrypted
  · rfl
  · rw [Option.bind_some, Option.bind_some]
    rcases readSignal decrypted with _ | offer
    · rfl
    · rw [Option.bind_some, Option.filter_some]
      by_cases hport : offer.port = 0
      · rw [if_pos ⟨hport, hmode⟩, if_neg (by simp [hport])]
        rfl
      · rw [if_neg fun hboth => hport hboth.1, if_pos (by simp [hport])]
        rfl

/-- Who is told something received a packet that is long enough. -/
theorem length_of_told (hpacket : ∀ received, p.packet received = some received)
    {received : List UInt8} {offer : Offer}
    (hread : ∀ decrypted, p.read decrypted = (readSignal decrypted).filter (·.port ≠ 0))
    (h : p.told C state received = some offer) : 64 ≤ received.length := by
  rw [told] at h
  split_ifs at h
  obtain ⟨decrypted, hopen, hdecrypted⟩ := Option.bind_eq_some_iff.mp h
  rw [hpacket, Option.bind_some] at hopen
  rw [hread] at hdecrypted
  have hsignal := length_of_readSignal (Option.eq_some_of_filter_eq_some hdecrypted)
  have hlength := length_of_openSignal hopen
  omega

/-- A receive task in which the first instance that is told something answers. -/
theorem correct_of_findSome? {f : List UInt8 → NekoState → Option Answer}
    (hcalls : p.calls R C W src states datagram =
      some (((fits p.buffer datagram).bind fun packet =>
        states.findSome? (f packet)).toList.map Answer.call))
    (hf : ∀ state, (f (datagram.take p.buffer) state).map Answer.call =
      (p.told C state (datagram.take p.buffer)).map fun offer => callOf R src offer state)
    (hshort : ∀ state offer, p.told C state (datagram.take p.buffer) = some offer →
      64 ≤ (datagram.take p.buffer).length) : p.Correct R C W src states datagram := by
  have hnone : ∀ state, f (datagram.take p.buffer) state = none ↔
      p.told C state (datagram.take p.buffer) = none := by
    intro state
    rw [← Option.map_eq_none_iff (f := Answer.call), hf state, Option.map_eq_none_iff]
  refine ⟨_, hcalls, ?_⟩
  rw [fits]
  by_cases hlen : (datagram.take p.buffer).length < 12 + 32
  · have htold : ∀ state, p.told C state (datagram.take p.buffer) = none := by
      intro state
      rw [Option.eq_none_iff_forall_ne_some]
      intro offer hoffer
      have := hshort state offer hoffer
      omega
    rw [if_pos hlen]
    refine ⟨iff_of_false (fun hne => hne rfl) ?_, fun _ hcall => absurd hcall List.not_mem_nil⟩
    rintro ⟨state, -, hsome⟩
    rw [htold state] at hsome
    cases hsome
  · rw [if_neg hlen, Option.bind_some]
    rcases hfind : states.findSome? (f (datagram.take p.buffer)) with _ | a
    · refine ⟨iff_of_false (fun hne => hne rfl) ?_,
        fun _ hcall => absurd hcall List.not_mem_nil⟩
      rintro ⟨state, hstate, hsome⟩
      rw [(hnone state).mp (List.findSome?_eq_none_iff.mp hfind state hstate)] at hsome
      cases hsome
    · obtain ⟨state, hstate, hanswer⟩ := List.exists_of_findSome?_eq_some hfind
      have hcall := hf state
      rw [hanswer, Option.map_some] at hcall
      obtain ⟨offer, hoffer, heq⟩ := Option.map_eq_some_iff.mp hcall.symm
      refine ⟨iff_of_true (List.cons_ne_nil _ _) ⟨state, hstate, by rw [hoffer]; rfl⟩, ?_⟩
      intro call hmem
      obtain rfl := List.mem_singleton.mp hmem
      exact ⟨rfl, state, hstate, offer, hoffer, heq.symm⟩

/-- **The UDP receive task** keeps to the grammar. -/
theorem correct_udp : udp.Correct R C W src states datagram := by
  refine correct_of_findSome? (f := udpAnswer R C W src) rfl (fun state => ?_)
    fun state offer => length_of_told (fun _ => rfl) fun _ => rfl
  rw [udpAnswer]
  by_cases htakes : udpTakes state.config = true
  · have hmode : state.config.mode ≠ "ip" := by
      rw [mode_of_udpTakes htakes]
      decide
    have htold : udp.told C state (datagram.take udp.buffer) =
        (openSignal C (deriveCipher C state.config.psk) (datagram.take udp.buffer)).bind
          fun decrypted => (readSignal decrypted).filter (·.port ≠ 0) := if_pos htakes
    rw [if_pos htakes, map_call_answer hmode, htold]
  · have htold : udp.told C state (datagram.take udp.buffer) = none := if_neg htakes
    rw [if_neg htakes, htold]
    rfl

/-- **The TCP receive task** keeps to the grammar. -/
theorem correct_tcp : tcp.Correct R C W src states datagram := by
  refine correct_of_findSome? (f := tcpAnswer R C W src) rfl (fun state => ?_)
    fun state offer => length_of_told (fun _ => rfl) fun _ => rfl
  rw [tcpAnswer]
  by_cases htakes : tcpTakes state.config = true
  · have hmode : state.config.mode ≠ "ip" := by
      simp only [tcpTakes, Bool.and_eq_true, Bool.or_eq_true, decide_eq_true_eq] at htakes
      rcases htakes.1 with hmode | hmode <;> rw [hmode] <;> decide
    have htold : tcp.told C state (datagram.take tcp.buffer) =
        (openSignal C (deriveCipher C state.config.psk) (datagram.take tcp.buffer)).bind
          fun decrypted => (readSignal decrypted).filter (·.port ≠ 0) := if_pos htakes
    rw [if_pos htakes, map_call_answer hmode, htold]
  · have htold : tcp.told C state (datagram.take tcp.buffer) = none := if_neg htakes
    rw [if_neg htakes, htold]
    rfl

end

/-! ## The raw pipeline -/

section

variable (R : Printers) (C : Prims) (W : World) (proto : UInt8) (src : SocketAddr)
  (states : List NekoState)

/-- The instances of the pipeline under whose keys a nonce and a box are authentic, with the texts. -/
def authentic (packet : Option (List UInt8)) : List (NekoState × List UInt8) :=
  states.filterMap fun state =>
    if rawTakes proto state.config then
      (packet.bind (openSignal C (deriveCipher C state.config.psk))).map (state, ·)
    else none

/-- What the receive task makes of an opened packet. -/
def answerTo (e : NekoState × List UInt8) : Option Answer :=
  if h : 32 ≤ e.2.length then
    some
      { call :=
          { interface := e.1.config.interface
            peerPubKey := ⟨e.2.take 32, by rw [List.length_take]; omega⟩
            endpoint := R.ipAddr src.ip
            keepalive := e.1.config.persistentKeepalive
            peerMtu :=
              if 34 ≤ e.2.length then some (UInt16.ofNat (beValue (slice e.2 32 34))) else none
            autoSyncMtu := e.1.config.mtu = some 0
            mode := "ip" }
        reply := 0x99 :: ownSignal C W e.1 (R.ipAddr src.ip) "ip" none }
  else none

/-- Behind the first 20 bytes, or at once when they are no header, at most one instance opens the
packet. It finds a key and an MTU, and tells the same as the grammar; if none opens the packet, none
is told anything. -/
def Meant (received : List UInt8) : Prop :=
  (authentic C proto states (rawPacket received)).length ≤ 1 ∧
    (∀ e ∈ authentic C proto states (rawPacket received),
      ∃ offer, (raw proto).read e.2 = some offer ∧
        ∃ state ∈ states, ∃ offer', (raw proto).told C state received = some offer' ∧
          callOf R src offer e.1 = callOf R src offer' state) ∧
    (authentic C proto states (rawPacket received) = [] →
      ∀ state ∈ states, (raw proto).told C state received = none)

/-- The magic byte at a place, and 44 bytes at least behind it. -/
def boxAt (n : ℕ) (received : List UInt8) : Option (List UInt8) :=
  if received[n]? = some 0x99 ∧ n + 45 ≤ received.length then some (received.drop (n + 1)) else none

/-- Where the magic byte is when there are no options. -/
def place (received : List UInt8) : ℕ :=
  if 20 ≤ received.length ∧ received.headD 0 &&& 0xf0 = 0x40 then 20 else 0

/-- Two instances and texts say the same: the same key and MTU, for one interface with one keepalive
and one choice of the MTU. -/
structure SaysSame (proto : UInt8) (e e' : NekoState × List UInt8) : Prop where
  offer : ∃ offer, (raw proto).read e.2 = some offer ∧ (raw proto).read e'.2 = some offer
  interface : e.1.config.interface = e'.1.config.interface
  keepalive : e.1.config.persistentKeepalive = e'.1.config.persistentKeepalive
  mtu : e.1.config.mtu = some 0 ↔ e'.1.config.mtu = some 0

/-- The bytes that the raw pipeline reads as they are meant. Behind a header without options one
instance at most takes them for authentic, and then they have a key and an MTU. Otherwise none does,
neither behind 20 bytes or at once nor, with a key and an MTU, behind the options; or the bytes are
authentic in both places and say the same. -/
def Plain (received : List UInt8) : Prop :=
  if received.headD 0 = 0x45 then
    (authentic C proto states (boxAt 20 received)).length ≤ 1 ∧
      ∀ e ∈ authentic C proto states (boxAt 20 received), 34 ≤ e.2.length
  else
    (authentic C proto states (boxAt (place received) received) = [] ∧
      ∀ e ∈ authentic C proto states ((raw proto).packet received), e.2.length < 34) ∨
    ∃ e, authentic C proto states (boxAt (place received) received) = [e] ∧
      ∃ e' ∈ authentic C proto states ((raw proto).packet received), SaysSame proto e e'

/-- The condition under which a receive task keeps to the grammar. -/
def KeepsTo (p : Pipeline) (received : List UInt8) : Prop :=
  match p with
  | raw proto => Plain C proto states received
  | _ => True

variable {R C W proto src states} {state : NekoState} {datagram received decrypted : List UInt8}
  {e : NekoState × List UInt8} {packet : Option (List UInt8)}

/-- A task that passes over some elements, over a list. -/
theorem mapM_reduceOption {α β γ : Type*} {l : List α} {f : α → Option (Option β)}
    {g : α → Option γ} {h : γ → Option β}
    (hf : ∀ a, f a = (g a).elim (some none) fun c => (h c).map some) :
    (l.mapM f).map List.reduceOption = (l.filterMap g).mapM h := by
  induction l with
  | nil => rfl
  | cons a l ih =>
    rw [List.mapM_cons, hf a, List.filterMap_cons]
    rcases g a with _ | c
    · rw [Option.elim_none, ← ih]
      rcases l.mapM f with _ | answers <;> rfl
    · rw [Option.elim_some, List.mapM_cons, ← ih]
      rcases h c with _ | b
      · rfl
      · rcases l.mapM f with _ | answers <;> rfl

theorem length_of_mapM {α β : Type*} {l : List α} {f : α → Option β} {l' : List β}
    (h : l.mapM f = some l') : l'.length = l.length := by
  induction l generalizing l' with
  | nil =>
    cases h
    rfl
  | cons a l ih =>
    rw [List.mapM_cons] at h
    obtain ⟨b, -, h⟩ := Option.bind_eq_some_iff.mp h
    obtain ⟨rest, hrest, h⟩ := Option.bind_eq_some_iff.mp h
    cases h
    rw [List.length_cons, List.length_cons, ih hrest]

theorem rawReceive_eq :
    rawReceive R C W proto src.ip states received =
      (authentic C proto states (rawPacket received)).mapM (answerTo R C W src) := by
  rw [rawReceive]
  rcases rawPacket received with _ | packet
  · have hnone : authentic C proto states none = [] := by
      rw [authentic, List.filterMap_eq_nil_iff]
      intro state _
      split_ifs <;> rfl
    rw [hnone]
    rfl
  · refine mapM_reduceOption fun state => ?_
    rw [rawAnswer, Option.bind_some]
    split_ifs
    · rcases openSignal C (deriveCipher C state.config.psk) packet with _ | decrypted
      · rfl
      · dsimp only
        rw [Option.map_some, Option.elim_some, answerTo]
        split_ifs <;> rfl
    · rfl

theorem mem_authentic (h : e ∈ authentic C proto states packet) :
    e.1 ∈ states ∧ rawTakes proto e.1.config = true ∧
      packet.bind (openSignal C (deriveCipher C e.1.config.psk)) = some e.2 := by
  obtain ⟨state, hstate, he⟩ := List.mem_filterMap.mp h
  split_ifs at he with htakes
  obtain ⟨decrypted, hopen, rfl⟩ := Option.map_eq_some_iff.mp he
  exact ⟨hstate, htakes, hopen⟩

/-- An answer with an MTU is that to what the instance is told. -/
theorem call_answerTo {a : Answer} (htakes : rawTakes proto e.1.config = true)
    (h : answerTo R C W src e = some a) {mtu : UInt16} (hmtu : a.call.peerMtu = some mtu) :
    ∃ offer, (raw proto).read e.2 = some offer ∧ a.call = callOf R src offer e.1 := by
  have hmode : e.1.config.mode = "ip" := by
    simp only [rawTakes, Bool.and_eq_true, decide_eq_true_eq] at htakes
    exact htakes.1.1
  rw [answerTo] at h
  split_ifs at h with hkey hlen
  · cases h
    refine ⟨_, dif_pos hlen, ?_⟩
    rw [callOf, hmode]
    rfl
  · cases h
    cases hmtu

theorem answerTo_of_read {offer : Offer} (h : (raw proto).read e.2 = some offer) :
    ∃ a, answerTo R C W src e = some a := by
  rw [read] at h
  split_ifs at h with hlen
  exact ⟨_, dif_pos (by omega)⟩

theorem peerMtu_of_read {offer : Offer} {a : Answer} (h : (raw proto).read e.2 = some offer)
    (ha : answerTo R C W src e = some a) : a.call.peerMtu = some offer.mtu := by
  rw [read] at h
  split_ifs at h with hlen
  cases h
  rw [answerTo, dif_pos (by omega)] at ha
  cases ha
  exact if_pos hlen

/-- **The raw receive task** keeps to the grammar exactly when what it opens is what is meant. -/
theorem correct_raw_iff :
    (raw proto).Correct R C W src states datagram ↔
      Meant R C proto src states (datagram.take 1024) := by
  have htake : rawPacket datagram = rawPacket (datagram.take 1024) := by
    rw [rawPacket, rawPacket, List.take_take, min_self]
  have hcalls : (raw proto).calls R C W src states datagram =
      ((authentic C proto states (rawPacket (datagram.take 1024))).mapM (answerTo R C W src)).map
        (List.map Answer.call) := by
    rw [calls, rawReceive_eq, htake]
  rw [Correct, hcalls, Meant, show (raw proto).buffer = 1024 from rfl]
  generalize datagram.take 1024 = received
  have hsome : ∀ state, ((raw proto).told C state received).isSome ↔
      (raw proto).told C state received ≠ none := fun _ => Option.isSome_iff_ne_none
  constructor
  · rintro ⟨calls, heq, hany, hall⟩
    obtain ⟨answers, hanswers, rfl⟩ := Option.map_eq_some_iff.mp heq
    have hlength := length_of_mapM hanswers
    rcases hopened : authentic C proto states (rawPacket received) with _ | ⟨e, rest⟩
    · rw [hopened] at hanswers
      cases hanswers
      refine ⟨Nat.zero_le _, fun _ he => absurd he List.not_mem_nil, fun _ state hstate => ?_⟩
      by_contra htold
      exact hany.mpr ⟨state, hstate, (hsome state).mpr htold⟩ rfl
    · obtain ⟨a, ha⟩ : ∃ a, a ∈ answers := by
        refine List.exists_mem_of_length_pos ?_
        rw [hlength, hopened]
        exact Nat.succ_pos _
      obtain ⟨hone, state, hstate, offer, hoffer, hcall⟩ :=
        hall a.call (List.mem_map_of_mem ha)
      have hsingle : answers.length = 1 := by
        rw [← List.length_map Answer.call, hone]
        rfl
      obtain rfl : rest = [] := by
        rw [hlength, hopened, List.length_cons] at hsingle
        exact List.eq_nil_of_length_eq_zero (by omega)
      obtain rfl : answers = [a] := by
        obtain ⟨a', rfl⟩ := List.length_eq_one_iff.mp hsingle
        rw [List.mem_singleton.mp ha]
      have hanswer : answerTo R C W src e = some a := by
        rw [hopened, List.mapM_cons] at hanswers
        obtain ⟨b, hb, hrest⟩ := Option.bind_eq_some_iff.mp hanswers
        cases hrest
        exact hb
      have hmem : e ∈ authentic C proto states (rawPacket received) := by
        rw [hopened]
        exact List.mem_singleton_self _
      have hmtu : a.call.peerMtu = some offer.mtu := by
        rw [hcall]
        rfl
      obtain ⟨offer', hread, hcall'⟩ := call_answerTo (mem_authentic hmem).2.1 hanswer hmtu
      refine ⟨le_rfl, fun e' he' => ?_, fun hnil => absurd hnil (List.cons_ne_nil _ _)⟩
      obtain rfl := List.mem_singleton.mp he'
      exact ⟨offer', hread, state, hstate, offer, hoffer, hcall'.symm.trans hcall⟩
  · rintro ⟨hlength, hall, hnone⟩
    rcases hopened : authentic C proto states (rawPacket received) with _ | ⟨e, rest⟩
    · refine ⟨[], rfl, iff_of_false (fun hne => hne rfl) ?_,
        fun _ hcall => absurd hcall List.not_mem_nil⟩
      rintro ⟨state, hstate, htold⟩
      exact (hsome state).mp htold (hnone hopened state hstate)
    · have hmem : e ∈ authentic C proto states (rawPacket received) := by
        rw [hopened]
        exact List.mem_cons_self
      obtain rfl : rest = [] := by
        rw [hopened, List.length_cons] at hlength
        exact List.eq_nil_of_length_eq_zero (by omega)
      obtain ⟨offer, hread, state, hstate, offer', htold, hsame⟩ := hall e hmem
      obtain ⟨a, ha⟩ : ∃ a, answerTo R C W src e = some a := answerTo_of_read hread
      obtain ⟨offer₁, hread₁, hcall⟩ :=
        call_answerTo (mem_authentic hmem).2.1 ha (peerMtu_of_read hread ha)
      obtain rfl : offer₁ = offer := Option.some.inj (hread₁.symm.trans hread)
      refine ⟨[a.call], by rw [List.mapM_cons, ha]; rfl, ?_, ?_⟩
      · exact iff_of_true (List.cons_ne_nil _ _) ⟨state, hstate, by rw [htold]; rfl⟩
      · intro call hcallMem
        obtain rfl := List.mem_singleton.mp hcallMem
        exact ⟨rfl, state, hstate, offer', htold, hcall.trans hsame⟩

/-- The receive task cuts a packet as if it had no options. -/
theorem rawPacket_eq (hle : received.length ≤ 1024) :
    rawPacket received = boxAt (place received) received := by
  unfold rawPacket boxAt place
  dsimp only
  rw [List.take_of_length_le hle]
  generalize (if 20 ≤ received.length ∧ received.headD 0 &&& 0xf0 = 0x40 then 20 else 0) = n
  rw [show n + 1 + 12 + 32 = n + 45 from rfl]
  simp only [and_comm]

theorem length_of_read {proto : UInt8} {decrypted : List UInt8} {offer : Offer}
    (h : (raw proto).read decrypted = some offer) : 34 ≤ decrypted.length := by
  rw [read] at h
  split_ifs at h with hlen
  exact hlen

/-- Who is told something finds a key and an MTU in an authentic text. -/
theorem told_eq_some_iff {offer : Offer} (hstate : state ∈ states) :
    (raw proto).told C state received = some offer ↔
      ∃ e ∈ authentic C proto states ((raw proto).packet received),
        e.1 = state ∧ (raw proto).read e.2 = some offer := by
  constructor
  · intro htold
    rw [told] at htold
    split_ifs at htold with htakes
    obtain ⟨decrypted, hopen, hoffer⟩ := Option.bind_eq_some_iff.mp htold
    refine ⟨(state, decrypted), List.mem_filterMap.mpr ⟨state, hstate, ?_⟩, rfl, hoffer⟩
    rw [if_pos (show rawTakes proto state.config = true from htakes), hopen]
    rfl
  · rintro ⟨e, he, rfl, hoffer⟩
    obtain ⟨-, htakes, hopen⟩ := mem_authentic he
    rw [told, if_pos (show (raw proto).takes e.1.config = true from htakes), hopen]
    exact hoffer

/-- Behind a header without options the grammar finds what has the magic byte behind 20 bytes. -/
theorem boxAt_of_header (hheader : received.headD 0 = 0x45) (hlen : 65 ≤ received.length) :
    boxAt 20 received = (raw proto).packet received := by
  have hpayload : ipv4Payload received = some (received.drop 20) := by
    unfold ipv4Payload
    rw [hheader]
    exact if_pos ⟨rfl, by decide, by
      rw [show 4 * ((0x45 : UInt8) &&& 0x0f).toNat = 20 from rfl]
      omega⟩
  rw [boxAt, packet, hpayload, Option.bind_some, List.head?_drop, List.tail_drop]
  by_cases hmagic : received[20]? = some 0x99
  · rw [if_pos ⟨hmagic, hlen⟩, if_pos hmagic]
  · rw [if_neg fun hboth => hmagic hboth.1, if_neg hmagic]

/-- A packet of the grammar with a key and an MTU in it is that long. -/
theorem length_of_packet {packet : List UInt8} (hpacket : (raw proto).packet received = some packet)
    {key : Bytes 32} (hopen : openSignal C key packet = some decrypted)
    (hlen : 34 ≤ decrypted.length) : 65 ≤ received.length := by
  obtain ⟨payload, hpayload, hmagic⟩ := Option.bind_eq_some_iff.mp hpacket
  have hlength := length_of_openSignal hopen
  rw [ipv4Payload] at hpayload
  split_ifs at hpayload with hip
  split_ifs at hmagic
  rw [← Option.some.inj hmagic, ← Option.some.inj hpayload, List.length_tail,
    List.length_drop] at hlength
  have := hip.2.1
  omega

theorem place_of_header (hheader : received.headD 0 = 0x45) (hlen : 20 ≤ received.length) :
    place received = 20 := by
  unfold place
  rw [hheader]
  exact if_pos ⟨hlen, rfl⟩

/-- Behind a header without options, what is opened is what is meant exactly when one instance at
most takes the packet for authentic and finds a key and an MTU. -/
theorem meant_iff_of_header (hheader : received.headD 0 = 0x45) (hle : received.length ≤ 1024) :
    Meant R C proto src states received ↔
      (authentic C proto states (boxAt 20 received)).length ≤ 1 ∧
        ∀ e ∈ authentic C proto states (boxAt 20 received), 34 ≤ e.2.length := by
  have hcut : rawPacket received = boxAt 20 received := by
    rw [rawPacket_eq hle]
    by_cases hlen : 20 ≤ received.length
    · rw [place_of_header hheader hlen]
    · rw [boxAt, boxAt, if_neg (by omega), if_neg (by omega)]
  have hsame {e : NekoState × List UInt8}
      (he : e ∈ authentic C proto states (boxAt 20 received)) : 65 ≤ received.length := by
    obtain ⟨-, -, hopen⟩ := mem_authentic he
    obtain ⟨packet, hpacket, -⟩ := Option.bind_eq_some_iff.mp hopen
    rw [boxAt] at hpacket
    split_ifs at hpacket with hbox
    exact hbox.2
  rw [Meant, hcut]
  constructor
  · rintro ⟨hone, hall, -⟩
    refine ⟨hone, fun e he => ?_⟩
    obtain ⟨offer, hoffer, -⟩ := hall e he
    exact length_of_read hoffer
  · rintro ⟨hone, hall⟩
    refine ⟨hone, fun e he => ?_, fun hnil state hstate => ?_⟩
    · have hoffer : (raw proto).read e.2 = some _ := dif_pos (hall e he)
      have hstate := (mem_authentic he).1
      refine ⟨_, hoffer, e.1, hstate, _, (told_eq_some_iff hstate).mpr ⟨e, ?_, rfl, hoffer⟩, rfl⟩
      rw [← boxAt_of_header hheader (hsame he)]
      exact he
    · rw [Option.eq_none_iff_forall_ne_some]
      intro offer htold
      obtain ⟨e, he, -, hoffer⟩ := (told_eq_some_iff hstate).mp htold
      obtain ⟨packet, hpacket, hopen⟩ := Option.bind_eq_some_iff.mp (mem_authentic he).2.2
      rw [← boxAt_of_header hheader (length_of_packet hpacket hopen (length_of_read hoffer)),
        hnil] at he
      exact absurd he List.not_mem_nil

/-- Two instances that are told something call the same when they say the same. -/
theorem callOf_eq_iff {e e' : NekoState × List UInt8} {offer offer' : Offer}
    (hoffer : (raw proto).read e.2 = some offer) (hoffer' : (raw proto).read e'.2 = some offer')
    (htakes : rawTakes proto e.1.config = true) (htakes' : rawTakes proto e'.1.config = true) :
    callOf R src offer e.1 = callOf R src offer' e'.1 ↔ SaysSame proto e e' := by
  have hmode {config : NekoConfig} (h : rawTakes proto config = true) : config.mode = "ip" := by
    simp only [rawTakes, Bool.and_eq_true, decide_eq_true_eq] at h
    exact h.1.1
  have hport {decrypted : List UInt8} {offer : Offer}
      (h : (raw proto).read decrypted = some offer) : offer.port = 0 := by
    rw [read] at h
    split_ifs at h
    cases h
    rfl
  constructor
  · intro heq
    simp only [callOf, ConfigureCall.mk.injEq, Option.some.injEq, decide_eq_decide] at heq
    obtain ⟨hinterface, hkey, -, hkeepalive, hmtu, hsync, -⟩ := heq
    refine ⟨⟨offer, hoffer, ?_⟩, hinterface, hkeepalive, hsync⟩
    rw [hoffer']
    have hzero := hport hoffer
    have hzero' := hport hoffer'
    cases offer
    cases offer'
    simp_all
  · rintro ⟨⟨common, hread, hread'⟩, hinterface, hkeepalive, hmtu⟩
    obtain rfl : offer = common := Option.some.inj (hoffer.symm.trans hread)
    obtain rfl : offer' = offer := Option.some.inj (hoffer'.symm.trans hread')
    simp only [callOf, hinterface, hkeepalive, hmtu, hmode htakes, hmode htakes']

/-- Without such a header, what is opened is what is meant exactly when nothing is authentic, or the
same twice. -/
theorem meant_iff_of_ne (hle : received.length ≤ 1024) :
    Meant R C proto src states received ↔
      (authentic C proto states (boxAt (place received) received) = [] ∧
        ∀ e ∈ authentic C proto states ((raw proto).packet received), e.2.length < 34) ∨
      ∃ e, authentic C proto states (boxAt (place received) received) = [e] ∧
        ∃ e' ∈ authentic C proto states ((raw proto).packet received), SaysSame proto e e' := by
  rw [Meant, rawPacket_eq hle]
  constructor
  · rintro ⟨hone, hall, hnone⟩
    rcases hcut : authentic C proto states (boxAt (place received) received) with _ | ⟨e, rest⟩
    · refine .inl ⟨rfl, fun e he => ?_⟩
      by_contra hlen
      have hoffer : (raw proto).read e.2 = some _ := dif_pos (not_lt.mp hlen)
      have hstate := (mem_authentic he).1
      have htold := (told_eq_some_iff hstate).mpr ⟨e, he, rfl, hoffer⟩
      rw [hnone hcut e.1 hstate] at htold
      cases htold
    · have hmem : e ∈ authentic C proto states (boxAt (place received) received) := by
        rw [hcut]
        exact List.mem_cons_self
      obtain rfl : rest = [] := by
        rw [hcut, List.length_cons] at hone
        exact List.eq_nil_of_length_eq_zero (by omega)
      obtain ⟨offer, hoffer, state, hstate, offer', htold, hcall⟩ := hall e hmem
      obtain ⟨e', he', rfl, hoffer'⟩ := (told_eq_some_iff hstate).mp htold
      exact .inr ⟨e, rfl, e', he', (callOf_eq_iff hoffer hoffer' (mem_authentic hmem).2.1
        (mem_authentic he').2.1).mp hcall⟩
  · rintro (⟨hnil, hshort⟩ | ⟨e, hsingle, e', he', hsame⟩)
    · rw [hnil]
      refine ⟨Nat.zero_le _, fun e he => absurd he List.not_mem_nil, fun _ state hstate => ?_⟩
      rw [Option.eq_none_iff_forall_ne_some]
      intro offer htold
      obtain ⟨e, he, -, hoffer⟩ := (told_eq_some_iff hstate).mp htold
      exact absurd (length_of_read hoffer) (not_le.mpr (hshort e he))
    · have hmem : e ∈ authentic C proto states (boxAt (place received) received) := by
        rw [hsingle]
        exact List.mem_singleton_self e
      rw [hsingle]
      refine ⟨le_rfl, fun e₁ he₁ => ?_, fun hnil => absurd hnil (List.cons_ne_nil _ _)⟩
      obtain rfl := List.mem_singleton.mp he₁
      obtain ⟨offer, hoffer, hoffer'⟩ := hsame.offer
      have hstate := (mem_authentic he').1
      exact ⟨offer, hoffer, e'.1, hstate, offer,
        (told_eq_some_iff hstate).mpr ⟨e', he', rfl, hoffer'⟩,
        (callOf_eq_iff hoffer hoffer' (mem_authentic hmem).2.1 (mem_authentic he').2.1).mpr hsame⟩

/-- The bytes that the raw pipeline reads as they are meant. -/
theorem meant_iff_plain (hle : received.length ≤ 1024) :
    Meant R C proto src states received ↔ Plain C proto states received := by
  unfold Plain
  split_ifs with hheader
  · exact meant_iff_of_header hheader hle
  · exact meant_iff_of_ne hle

/-- **The receive tasks keep to the grammar**: those of the UDP and TCP pipelines for all bytes, and
that of the raw pipeline for the plain ones. -/
theorem correct_iff (p : Pipeline) (src : SocketAddr) (states : List NekoState)
    (datagram : List UInt8) :
    p.Correct R C W src states datagram ↔ KeepsTo C states p (datagram.take p.buffer) := by
  cases p with
  | udp => exact iff_of_true correct_udp trivial
  | tcp => exact iff_of_true correct_tcp trivial
  | raw proto => exact correct_raw_iff.trans (meant_iff_plain (List.length_take_le _ _))

end

/-! ## A short text -/

/-- An instance of the raw pipeline of protocol 141. -/
def rawInstance : NekoState :=
  { sampleInstance 7 1 with config := { (sampleInstance 7 1).config with mode := "ip" } }

/-- A header, the magic byte, and an authentic text that is no key. -/
def shortText : List UInt8 :=
  0x45 :: List.replicate 19 0 ++
    0x99 :: sealSignal checksumPrims (deriveCipher checksumPrims rawInstance.config.psk) (zeros 12)
      (List.replicate 20 1)

/-- **A short text** that is authentic ends the receive task. -/
theorem shortText_panics :
    ¬ ∀ (p : Pipeline) (src : SocketAddr) (states : List NekoState) (datagram : List UInt8),
      (states.map fun state => state.config.psk).Nodup →
        p.Correct samplePrinters checksumPrims sampleWorld src states datagram := by
  intro hall
  obtain ⟨calls, hcalls, -⟩ := hall (raw 141) (.new (sampleIp 1) 0) [rawInstance] shortText
    (List.nodup_singleton _)
  have hpacket : rawPacket shortText =
      some (sealSignal checksumPrims (deriveCipher checksumPrims rawInstance.config.psk) (zeros 12)
        (List.replicate 20 1)) := by
    have hlen : shortText.length = 69 := by
      simp [shortText]
    rw [rawPacket_eq (by omega), place_of_header rfl (by omega), boxAt, if_pos ⟨rfl, by omega⟩]
    rfl
  have htakes : rawTakes 141 rawInstance.config = true := by decide
  rw [Pipeline.calls, rawReceive_eq, authentic, List.filterMap_cons, if_pos htakes, hpacket,
    Option.bind_some, openSignal_sealSignal] at hcalls
  cases hcalls

end Pipeline

end NekoLink.Ctl
