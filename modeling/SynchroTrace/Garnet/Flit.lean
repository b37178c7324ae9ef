import SynchroTrace.Garnet.Message
import SynchroTrace.Lib.PriorityQueue

namespace SynchroTrace.Garnet

inductive Endpoint where
  | router (r port : Nat)
  | ni (n : Nat)
  deriving DecidableEq, Repr

/-- A fixed-pipeline network. A link is named by the endpoint it starts at; `upstream` gives the
link that ends at a router's input port or at a network interface. -/
structure Config where
  machines : Machines
  virtualNetworks : Nat
  vcPerVnet : Nat
  inUse : Nat → Bool
  ordered : Nat → Bool
  /-- The virtual networks of type `DATA_VNET_`. -/
  dataVnet : Nat → Bool
  buffersPerDataVC : Nat
  buffersPerCtrlVC : Nat
  niFlitSize : Nat
  numInports : Nat → Nat
  numOutports : Nat → Nat
  /-- For each output port of a router the destinations it leads to and its weight. -/
  routingTable : Nat → List (NetDest machines × Nat)
  linkLatency : Endpoint → Nat
  creditLatency : Endpoint → Nat
  upstream : Endpoint → Endpoint
  upstream_injective : Function.Injective upstream
  vcPerVnet_pos : 0 < vcPerVnet
  flitSize_pos : 0 < niFlitSize
  buffers_pos : 0 < buffersPerDataVC ∧ 0 < buffersPerCtrlVC

variable (cfg : Config)

def Config.numVcs : Nat := cfg.virtualNetworks * cfg.vcPerVnet

def Config.vnetOf (vc : Nat) : Nat := vc / cfg.vcPerVnet

def Config.depth (vc : Nat) : Nat :=
  if cfg.dataVnet (cfg.vnetOf vc) then cfg.buffersPerDataVC else cfg.buffersPerCtrlVC

def infinite : Nat := 10000

inductive FlitType where
  | head
  | body
  | tail
  | headTail
  deriving DecidableEq, Repr

inductive FlitStage where
  | i
  | va
  | sa
  | st
  | lt
  deriving DecidableEq, Repr

/-- The clone of a message that the flits of a packet point to; `source` and `serial` are its
identity. -/
structure MsgPtr (m : Machines) where
  source : Nat
  serial : Nat
  message : NetworkMessage m

structure Flit (m : Machines) where
  id : Nat
  vc : Nat
  vnet : Nat
  size : Nat
  msg : MsgPtr m
  time : Nat
  outport : Nat
  stage : FlitStage
  stageTime : Nat

namespace Flit
variable {m : Machines} (f : Flit m)

def type : FlitType :=
  if f.size = 1 then .headTail
  else if f.id = 0 then .head
  else if f.id = f.size - 1 then .tail
  else .body

def isHead : Bool := f.type = .head ∨ f.type = .headTail

def isTail : Bool := f.type = .tail ∨ f.type = .headTail

def isStage (stage : FlitStage) (now : Nat) : Bool :=
  f.stage = stage ∧ f.stageTime ≤ now

def advanceStage (stage : FlitStage) (now : Nat) : Flit m :=
  { f with stage, stageTime := now + 1 }

def Before (f g : Flit m) : Prop := f.time < g.time ∨ f.time = g.time ∧ f.id ≤ g.id

instance : DecidableRel (Before (m := m)) := fun _ _ => inferInstanceAs (Decidable (_ ∨ _))

instance : IsTrans (Flit m) Before where
  trans f g h := by
    unfold Before
    omega

instance : Std.Total (Before (m := m)) where
  total f g := by
    unfold Before
    omega

end Flit

structure Credit where
  vc : Nat
  isFreeSignal : Bool
  time : Nat
  deriving DecidableEq, Repr

namespace Credit

def Before (c d : Credit) : Prop := c.time ≤ d.time

instance : DecidableRel Before := fun _ _ => inferInstanceAs (Decidable (_ ≤ _))

instance : IsTrans Credit Before where
  trans _ _ _ := Nat.le_trans

instance : Std.Total Before where
  total c d := Nat.le_total c.time d.time

end Credit

/-- `flitBuffer_d`: a heap under `flit_d::greater`. -/
abbrev FlitBuffer (m : Machines) := PriorityQueue (Flit.Before (m := m))

abbrev CreditBuffer := PriorityQueue Credit.Before

def FlitBuffer.ready? {m : Machines} (b : FlitBuffer m) (now : Nat) : Option (Flit m) :=
  b.items.head?.filter fun f => f.time ≤ now

def CreditBuffer.ready? (b : CreditBuffer) (now : Nat) : Option Credit :=
  b.items.head?.filter fun c => c.time ≤ now

inductive VcState where
  | idle
  | vcAb
  | active
  deriving DecidableEq, Repr

structure VirtualChannel (m : Machines) where
  buffer : FlitBuffer m
  state : VcState
  stateTime : Nat
  route : Nat
  enqueueTime : Nat
  outputVc : Nat
  creditCount : Int

structure OutVcState where
  state : VcState
  time : Nat
  inPort : Nat
  inVc : Nat
  creditCount : Int

variable (out : OutVcState)

def OutVcState.isInState (state : VcState) (now : Nat) : Bool :=
  out.state = state ∧ out.time ≤ now

@[simps] def OutVcState.setState (state : VcState) (time : Nat) : OutVcState :=
  { out with state, time }

@[simps] def OutVcState.incrementCredit : OutVcState :=
  { out with creditCount := out.creditCount + 1 }

@[simps] def OutVcState.decrementCredit : OutVcState :=
  { out with creditCount := out.creditCount - 1 }

def VirtualChannel.needStage {m : Machines} (vc : VirtualChannel m) (state : VcState)
    (stage : FlitStage) (now : Nat) : Bool :=
  vc.state = state ∧ vc.stateTime ≤ now ∧ (vc.buffer.ready? now).any (·.isStage stage now)

end SynchroTrace.Garnet
