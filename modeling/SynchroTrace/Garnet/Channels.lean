import SynchroTrace.Garnet.Network
import SynchroTrace.Lib.Channel

/-!
The virtual channels of a network: each VC of each link is a channel with credits, whose counters
the buffers along the link show.
-/

namespace SynchroTrace.Garnet

abbrev PacketId := Nat × Nat

def Flit.piece {m : Machines} (f : Flit m) : PacketId × Nat × Nat :=
  ((f.msg.source, f.msg.serial), f.size, f.id)

theorem Flit.isHead_iff {m : Machines} {f : Flit m} (bound : f.id < f.size) :
    f.isHead = true ↔ f.id = 0 := by
  unfold isHead type
  split_ifs with one zero last
  · simp
    omega
  · simp [zero]
  · simp [zero]
  · simp [zero]

theorem Flit.isTail_iff {m : Machines} {f : Flit m} (bound : f.id < f.size) :
    f.isTail = true ↔ f.id + 1 = f.size := by
  unfold isTail type
  split_ifs with one zero last
  · simp
    omega
  · simp
    omega
  · simp
    omega
  · simp
    omega

namespace NetState
variable {cfg : Config} (s : NetState cfg)

def out : Endpoint → Nat → OutVcState
  | .router r o, w => s.outVc ⟨⟨r, o⟩, w⟩
  | .ni n, w => (s.ni n).outVc w

def towards {m : Machines} (y : VcId) (f : Flit m) : Bool := f.outport = y.port ∧ f.vc = y.vc

/-- The flits of a channel that are in the crossbar: they come from the port that holds it. -/
def crossing : Endpoint → Nat → List (Flit cfg.machines)
  | .router r o, w => (s.switchBuffer ⟨r, (s.outVc ⟨⟨r, o⟩, w⟩).inPort⟩).items.filter
      (towards ⟨⟨r, o⟩, w⟩)
  | .ni _, _ => []

variable (p : Endpoint)

/-- The flits of a channel from the switch allocator to the input port, first those that are
farthest. -/
def flight (w : Nat) : List (Flit cfg.machines) :=
  (s.link p).linkBuffer.items.filter (·.vc = w) ++
    ((s.link p).srcQueue.items.filter (·.vc = w) ++ s.crossing p w)

def credits : List Credit :=
  (s.link p).creditQueue.items ++ (s.link p).creditBuffer.items

def plainCredits (w : Nat) : Nat :=
  (s.credits p).countP fun c => c.vc = w && !c.isFreeSignal

def freeSignals (w : Nat) : Nat :=
  (s.credits p).countP fun c => c.vc = w && c.isFreeSignal

def boundTo (x : VcId) : VcId :=
  ⟨⟨x.router, (s.inVc x).route⟩, (s.inVc x).outputVc⟩

end NetState

section Invariant
variable {cfg : Config}

abbrev Channels := Endpoint × Nat → Channel.State PacketId

/-- The counters of a channel are what its upstream end and its link show. -/
structure Carries (s : NetState cfg) (p : Endpoint) (w : Nat) (c : Channel.State PacketId) :
    Prop where
  state : (s.out p w).state = if c.busy then .active else .idle
  credits : (s.out p w).creditCount = c.credits
  flight : (s.flight p w).map Flit.piece = Channel.segment c.packet c.size c.arrived c.sent
  plain : s.plainCredits p w = c.plain
  freeing : s.freeSignals p w = c.freeing

/-- An input VC passes on to its output VC what is next of the packet on its channel. -/
structure Passes (c d : Channel.State PacketId) : Prop where
  busy : d.busy = true
  packet : d.packet = c.packet
  size : d.size = c.size
  sent : d.sent = c.taken

def upChannel (G : Channels) (cfg : Config) (x : VcId) : Channel.State PacketId :=
  G (cfg.upstream x.toPortId.endpoint, x.vc)

def downChannel (G : Channels) (y : VcId) : Channel.State PacketId :=
  G (y.toPortId.endpoint, y.vc)

/-- The counters of a channel are what the input VC at its downstream end shows. -/
structure Delivers (s : NetState cfg) (G : Channels) (x : VcId) : Prop where
  buffered : (s.inVc x).buffer.items.map Flit.piece = Channel.segment (upChannel G cfg x).packet
    (upChannel G cfg x).size (upChannel G cfg x).taken (upChannel G cfg x).arrived
  idle : (s.inVc x).state = .idle ↔ ¬ (upChannel G cfg x).Open
  waiting : (s.inVc x).state = .vcAb → (upChannel G cfg x).taken = 0
  active : (s.inVc x).state = .active → s.holder (s.boundTo x) = x ∧
    Passes (upChannel G cfg x) (downChannel G (s.boundTo x))

/-- A network interface buffers what is yet to be sent, and takes at once what arrives. -/
structure Interfaces (s : NetState cfg) (G : Channels) : Prop where
  vcs : ∀ n w, ∀ f ∈ ((s.ni n).buffers w).items, f.vc = w
  unsent : ∀ n w, ((s.ni n).buffers w).items.map Flit.piece =
    Channel.segment (G (.ni n, w)).packet (G (.ni n, w)).size (G (.ni n, w)).sent (G (.ni n, w)).size
  taken : ∀ n w, (G (cfg.upstream (.ni n), w)).taken = (G (cfg.upstream (.ni n), w)).arrived

/-- The times of flits let the buffers keep the order in which they come. -/
structure Timely (s : NetState cfg) : Prop where
  switchBuffer : ∀ p, ∀ f ∈ (s.switchBuffer p).items, f.time ≤ s.time + 1
  srcQueue : ∀ p, ∀ f ∈ (s.link p).srcQueue.items, f.time ≤ s.time + 1
  linkBuffer : ∀ p, ∀ f ∈ (s.link p).linkBuffer.items, f.time ≤ s.time + cfg.linkLatency p
  inVc : ∀ x, ∀ f ∈ (s.inVc x).buffer.items, f.time ≤ s.time
  lined : ∀ x : VcId, ∀ f ∈ (s.inVc x).buffer.items,
    ∀ g ∈ (s.link (cfg.upstream x.toPortId.endpoint)).linkBuffer.items, g.vc = x.vc →
      f.time ≤ g.time

/-- Only the port that holds an output VC has flits for it in its switch buffer. -/
def NoStrays (s : NetState cfg) : Prop :=
  ∀ (y : VcId) (port : Nat), port ≠ (s.outVc y).inPort →
    (s.switchBuffer ⟨y.router, port⟩).items.filter (NetState.towards y) = []

/-- The flits that have entered a link on one VC are whole packets, up to the one under way. -/
def Records (s : NetState cfg) (p : Endpoint) (w : Nat) (c : Channel.State PacketId) : Prop :=
  ∃ packets : List (PacketId × Nat), ((s.link p).carried.filter (·.vc = w)).map Flit.piece =
    packets.flatMap (fun d => Channel.segment d.1 d.2 0 d.2) ++ Channel.segment c.packet c.size 0
      (c.arrived + ((s.link p).linkBuffer.items.filter (·.vc = w)).length)

structure Sound (s : NetState cfg) (G : Channels) : Prop where
  valid : ∀ p w, (G (p, w)).Valid (cfg.depth w)
  carries : ∀ p w, Carries s p w (G (p, w))
  delivers : ∀ x, Delivers s G x
  interfaces : Interfaces s G
  records : ∀ p w, Records s p w (G (p, w))
  timely : Timely s
  noStrays : NoStrays s

theorem sound_initial {s : NetState cfg} (initial : s.Initial) : ∃ G, Sound s G := by
  let G : Channels := fun key =>
    { packet := (0, 0), size := 0, busy := false, sent := 0, arrived := 0, taken := 0,
      credits := cfg.depth key.2, plain := 0, freeing := 0 }
  have link := initial.link
  have closed : ∀ key, ¬ (G key).Open := by simp [G, Channel.State.Open]
  refine ⟨G, ?_, ?_, ?_, ?_, ?_, ?_, ?_⟩
  · intro p w
    constructor <;> simp [G]
  · intro p w
    obtain ⟨src, buffer, queue, back, _⟩ := link p
    constructor
    · cases p with
      | router r o => exact (initial.outVc ⟨⟨r, o⟩, w⟩).1
      | ni n => exact ((initial.ni n).1 w).1
    · cases p with
      | router r o => exact (initial.outVc ⟨⟨r, o⟩, w⟩).2
      | ni n => exact ((initial.ni n).1 w).2.1
    · cases p with
      | router r o => simp [NetState.flight, NetState.crossing, src, buffer, initial.switchBuffer, G]
      | ni n => simp [NetState.flight, NetState.crossing, src, buffer, G]
    · simp [NetState.plainCredits, NetState.credits, queue, back, G]
    · simp [NetState.freeSignals, NetState.credits, queue, back, G]
  · intro x
    obtain ⟨idle, empty⟩ := initial.inVc x
    refine ⟨?_, ?_, ?_, ?_⟩
    · simp [empty, upChannel, G]
    · simp only [idle, true_iff]
      exact closed _
    · simp [idle]
    · simp [idle]
  · refine ⟨?_, ?_, ?_⟩
    · intro n w
      simp [((initial.ni n).1 w).2.2]
    · intro n w
      simp [((initial.ni n).1 w).2.2, G]
    · intro n w
      rfl
  · intro p w
    obtain ⟨_, buffer, _, _, carried⟩ := link p
    exact ⟨[], by simp [carried, buffer, G]⟩
  · constructor
    · intro p
      simp [initial.switchBuffer]
    · intro p
      simp [(link p).1]
    · intro p
      simp [(link p).2.1]
    · intro x
      simp [(initial.inVc x).2]
    · intro x
      simp [(initial.inVc x).2]
  · intro y port _
    simp [initial.switchBuffer]

end Invariant
end SynchroTrace.Garnet
