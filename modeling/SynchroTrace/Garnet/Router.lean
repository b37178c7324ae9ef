import Mathlib.Algebra.Group.Nat.Defs
import SynchroTrace.Garnet.Interface

namespace SynchroTrace.Garnet
open RoundRobin

structure PortId where
  router : Nat
  port : Nat
  deriving DecidableEq, Repr

structure VcId extends PortId where
  vc : Nat
  deriving DecidableEq, Repr

def PortId.endpoint (p : PortId) : Endpoint := .router p.router p.port

/-- A link with the credit link beside it that leads back, and the queues at their sources. -/
structure Link (m : Machines) where
  srcQueue : FlitBuffer m
  linkBuffer : FlitBuffer m
  creditQueue : CreditBuffer
  creditBuffer : CreditBuffer
  carried : List (Flit m)

def Link.enqueue {m : Machines} (l : Link m) (f : Flit m) : Link m :=
  { l with srcQueue := l.srcQueue.insert f }

def Link.advance {m : Machines} (l : Link m) (f : Flit m) (arrival : Nat) : Link m :=
  { l with
    srcQueue := l.srcQueue.pop
    linkBuffer := l.linkBuffer.insert { f with time := arrival }
    carried := l.carried ++ [f] }

structure Pointers where
  invc : VcId → Nat
  outvc : VcId → Nat × Nat
  inport : PortId → Nat
  outport : PortId → Nat

structure NetState (cfg : Config) where
  time : Nat
  inVc : VcId → VirtualChannel cfg.machines
  outVc : VcId → OutVcState
  switchBuffer : PortId → FlitBuffer cfg.machines
  link : Endpoint → Link cfg.machines
  ni : Nat → NetworkInterface cfg.machines
  pointers : Pointers

/-- The assertions of the input unit and of the switch allocator, the fatal error of the routing
unit, and the top of an empty buffer. -/
inductive Fault where
  | headAtBusyVc
  | vcNotEmpty
  | noRoute
  | emptyBuffer
  deriving DecidableEq, Repr

variable {cfg : Config} (s : NetState cfg)

@[simps] def NetState.setInVc (x : VcId) (vc : VirtualChannel cfg.machines) : NetState cfg :=
  { s with inVc := Function.update s.inVc x vc }

@[simps] def NetState.setOutVc (y : VcId) (out : OutVcState) : NetState cfg :=
  { s with outVc := Function.update s.outVc y out }

@[simps] def NetState.setSwitch (p : PortId) (b : FlitBuffer cfg.machines) : NetState cfg :=
  { s with switchBuffer := Function.update s.switchBuffer p b }

@[simps] def NetState.setLink (p : Endpoint) (l : Link cfg.machines) : NetState cfg :=
  { s with link := Function.update s.link p l }

def NetState.updateIncredit (x : VcId) (credit : Int) : NetState cfg :=
  s.setInVc x { s.inVc x with creditCount := credit }

def NetState.holder (y : VcId) : VcId :=
  { router := y.router, port := (s.outVc y).inPort, vc := (s.outVc y).inVc }

def NetState.returnCredit (sink : Endpoint) (vc : Nat) (free : Bool) : NetState cfg :=
  let l := s.link (cfg.upstream sink)
  s.setLink (cfg.upstream sink) { l with
    creditQueue := l.creditQueue.insert { vc, isFreeSignal := free, time := s.time } }

/-- `RoutingUnit_d::routeCompute`: the port of least weight among those that lead to the
destination, the first of them. -/
def routeCompute (r : Nat) (dest : NetDest cfg.machines) : Option Nat :=
  let improve (best : Option Nat × Nat) (entry : (NetDest cfg.machines × Nat) × Nat) :=
    if dest ∩ entry.1.1 ≠ ∅ ∧ entry.1.2 < best.2 then (some entry.2, entry.1.2) else best
  ((cfg.routingTable r).zipIdx.foldl improve (none, infinite)).1

def inputUnitWakeup (p : PortId) (s : NetState cfg) : Except Fault (NetState cfg) :=
  let source := cfg.upstream p.endpoint
  let l := s.link source
  match l.linkBuffer.ready? s.time with
  | none => .ok s
  | some f =>
    let x : VcId := { p with vc := f.vc }
    let vc := s.inVc x
    let s := s.setLink source { l with linkBuffer := l.linkBuffer.pop }
    if f.isHead then
      if vc.state ≠ .idle then .error .headAtBusyVc
      else match routeCompute p.router f.msg.message.getInternalDestination with
        | none => .error .noRoute
        | some outport => .ok (s.setInVc x { vc with
            route := outport, state := .vcAb, stateTime := s.time + 1, enqueueTime := s.time
            buffer := vc.buffer.insert (f.advanceStage .va s.time) })
    else .ok (s.setInVc x { vc with buffer := vc.buffer.insert (f.advanceStage .sa s.time) })

def outputUnitWakeup (p : PortId) (s : NetState cfg) : NetState cfg :=
  let l := s.link p.endpoint
  match l.creditBuffer.ready? s.time with
  | none => s
  | some c =>
    let y : VcId := { p with vc := c.vc }
    let out := (s.outVc y).incrementCredit
    let s := s.setLink p.endpoint { l with creditBuffer := l.creditBuffer.pop }
    let s := s.updateIncredit (s.holder y) out.creditCount
    s.setOutVc y (if c.isFreeSignal then out.setState .idle (s.time + 1) else out)

def vcsOf (cfg : Config) (r ports : Nat) : List VcId :=
  (List.range ports).flatMap fun port =>
    (List.range cfg.numVcs).map fun vc => { router := r, port, vc }

def VcId.sameVnet (cfg : Config) (x : VcId) : List VcId :=
  (List.range cfg.vcPerVnet).map fun offset =>
    { x with vc := cfg.vnetOf x.vc * cfg.vcPerVnet + offset }

/-- On an ordered virtual network no VC with the same route has waited longer. The enqueue time of
the VC itself goes through an `int`. -/
def NetState.isCandidate (state : VcState) (stage : FlitStage) (x : VcId) : Bool :=
  let enqueueTime := ((s.inVc x).enqueueTime : Int).bmod (2 ^ 32)
  !cfg.ordered (cfg.vnetOf x.vc) || (x.sameVnet cfg).all fun other =>
    !((s.inVc other).needStage state stage s.time && (s.inVc other).route = (s.inVc x).route &&
      (s.inVc other).enqueueTime < enqueueTime)

def NetState.isInvcCandidate : VcId → Bool := s.isCandidate .vcAb .va

def NetState.wantsVc (x : VcId) : Bool :=
  cfg.inUse (cfg.vnetOf x.vc) && (s.inVc x).needStage .vcAb .va s.time && s.isInvcCandidate x

def nextOffset (cfg : Config) (offset : Nat) : Nat :=
  if cfg.vcPerVnet ≤ offset + 1 then 0 else offset + 1

def NetState.selectOutvc (x : VcId) : Option VcId :=
  let outVc (offset : Nat) : VcId :=
    { router := x.router, port := (s.inVc x).route, vc := cfg.vnetOf x.vc * cfg.vcPerVnet + offset }
  (search (nextOffset cfg) (fun offset => (s.outVc (outVc offset)).isInState .idle s.time)
    cfg.vcPerVnet (s.pointers.invc x)).map outVc

def NetState.requestOf (x : VcId) : Option VcId :=
  if s.wantsVc x then s.selectOutvc x else none

/-- The loop of `arbitrate_invcs` asks each input VC once, so what it asks for depends on no other. -/
def arbitrateInvcs (r : Nat) (s : NetState cfg) : List (VcId × VcId) × NetState cfg :=
  let inVcs := vcsOf cfg r (cfg.numInports r)
  let invc x := if x ∈ inVcs ∧ s.wantsVc x then nextOffset cfg (s.pointers.invc x)
    else s.pointers.invc x
  (inVcs.filterMap fun x => (s.requestOf x).map (x, ·),
    { s with pointers := { s.pointers with invc } })

def FlitBuffer.advanceTop {m : Machines} (b : FlitBuffer m) (stage : FlitStage) (now : Nat) :
    Except Fault (FlitBuffer m) :=
  match h : b.items with
  | [] => .error .emptyBuffer
  | f :: rest => .ok
    { items := f.advanceStage stage now :: rest
      ordered := by
        have ordered := b.ordered
        rw [h, List.pairwise_cons] at ordered
        exact List.pairwise_cons.mpr ordered }

def grantVc (x y : VcId) (s : NetState cfg) : Except Fault (NetState cfg) := do
  let buffer ← (s.inVc x).buffer.advanceTop .sa s.time
  let s := s.setInVc x { s.inVc x with
    buffer, outputVc := y.vc, state := .active, stateTime := s.time + 1 }
  let s := s.setOutVc y { (s.outVc y).setState .active (s.time + 1) with
    inPort := x.port, inVc := x.vc }
  return s.updateIncredit x (s.outVc y).creditCount

def nextInvc (cfg : Config) (r : Nat) : Nat × Nat → Nat × Nat
  | (inport, offset) =>
    if cfg.vcPerVnet ≤ offset + 1 then
      (if cfg.numInports r ≤ inport + 1 then 0 else inport + 1, 0)
    else (inport, offset + 1)

def grantOutvc (requests : List (VcId × VcId)) (s : NetState cfg) (y : VcId) :
    Except Fault (NetState cfg) :=
  if requests.any (·.2 = y) then
    let inVc (position : Nat × Nat) : VcId :=
      { router := y.router, port := position.1,
        vc := cfg.vnetOf y.vc * cfg.vcPerVnet + position.2 }
    let start := s.pointers.outvc y
    let outvc := Function.update s.pointers.outvc y (nextInvc cfg y.router start)
    let s := { s with pointers := { s.pointers with outvc } }
    match search (nextInvc cfg y.router) (fun position => (inVc position, y) ∈ requests)
        (cfg.numInports y.router * cfg.vcPerVnet) start with
    | none => .ok s
    | some position => grantVc (inVc position) y s
  else .ok s

def vcAllocatorWakeup (r : Nat) (s : NetState cfg) : Except Fault (NetState cfg) :=
  let (requests, s) := arbitrateInvcs r s
  (vcsOf cfg r (cfg.numOutports r)).foldlM (grantOutvc requests) s

def nextInvcOf (cfg : Config) (vc : Nat) : Nat := if cfg.numVcs ≤ vc + 1 then 0 else vc + 1

def NetState.isCandidateInport : VcId → Bool := s.isCandidate .active .sa

/-- The input VC may be granted a passage through the switch. -/
def NetState.wantsSwitch (x : VcId) : Bool :=
  cfg.inUse (cfg.vnetOf x.vc) && (s.inVc x).needStage .active .sa s.time &&
    0 < (s.inVc x).creditCount && s.isCandidateInport x

def NetState.vcWinner (p : PortId) : Option VcId :=
  (search (nextInvcOf cfg) (fun vc => s.wantsSwitch { p with vc }) cfg.numVcs
    (s.pointers.inport p)).map fun vc => { p with vc }

def arbitrateInports (r : Nat) (s : NetState cfg) : List VcId × NetState cfg :=
  let ports := (List.range (cfg.numInports r)).map fun port => ({ router := r, port } : PortId)
  let next p := (search (nextInvcOf cfg) (fun vc => cfg.inUse (cfg.vnetOf vc))
    cfg.numVcs (s.pointers.inport p)).getD (s.pointers.inport p)
  let inport p := if p ∈ ports then next p else s.pointers.inport p
  (ports.filterMap s.vcWinner, { s with pointers := { s.pointers with inport } })

def sendFlit (x : VcId) (outport : Nat) (s : NetState cfg) : Except Fault (NetState cfg) :=
  let vc := s.inVc x
  match vc.buffer.items with
  | [] => .error .emptyBuffer
  | f :: _ =>
    let y : VcId := { router := x.router, port := outport, vc := vc.outputVc }
    let out := (s.outVc y).decrementCredit
    let s := s.setInVc x { vc with buffer := vc.buffer.pop }
    let s := s.updateIncredit (s.holder y) out.creditCount
    let s := s.setOutVc y out
    let s := s.setSwitch x.toPortId ((s.switchBuffer x.toPortId).insert
      { f.advanceStage .st s.time with vc := y.vc, outport, time := s.time + 1 })
    let s := s.returnCredit x.toPortId.endpoint x.vc f.isTail
    if f.isTail then
      if (FlitBuffer.ready? vc.buffer.pop s.time).isSome then .error .vcNotEmpty
      else .ok (s.setInVc x { s.inVc x with
        state := .idle, stateTime := s.time + 1, enqueueTime := infinite })
    else .ok s

def nextInport (cfg : Config) (r port : Nat) : Nat :=
  if cfg.numInports r ≤ port + 1 then 0 else port + 1

def NetState.grantee (r : Nat) (winners : List VcId) (route : VcId → Nat)
    (outport : Nat) : Option VcId :=
  (search (nextInport cfg r)
    (fun port => winners.any fun x => x.port = port && route x = outport) (cfg.numInports r)
    (s.pointers.outport { router := r, port := outport })).bind fun port =>
      winners.find? fun x => x.port = port

/-- The iteration of `arbitrate_outports` for one output port. Its pointer wraps at the number of
output ports. -/
def grantOutport (r : Nat) (winners : List VcId) (route : VcId → Nat) (s : NetState cfg)
    (outport : Nat) : Except Fault (NetState cfg) :=
  let p : PortId := { router := r, port := outport }
  let start := s.pointers.outport p
  let advanced := Function.update s.pointers.outport p
    (if cfg.numOutports r ≤ start + 1 then 0 else start + 1)
  let next := { s with pointers := { s.pointers with outport := advanced } }
  match s.grantee r winners route outport with
  | none => .ok next
  | some x => sendFlit x outport next

def swAllocatorWakeup (r : Nat) (s : NetState cfg) : Except Fault (NetState cfg) :=
  let (winners, s) := arbitrateInports r s
  (List.range (cfg.numOutports r)).foldlM (grantOutport r winners fun x => (s.inVc x).route) s

def crossSwitch (p : PortId) : NetState cfg :=
  match ((s.switchBuffer p).ready? s.time).filter (·.isStage .st s.time) with
  | none => s
  | some f =>
    let l := s.link (.router p.router f.outport)
    let s := s.setLink (.router p.router f.outport) { l with
      srcQueue := l.srcQueue.insert { f.advanceStage .lt s.time with time := s.time + 1 } }
    s.setSwitch p (s.switchBuffer p).pop

def switchWakeup (r : Nat) (s : NetState cfg) : NetState cfg :=
  (List.range (cfg.numInports r)).foldl (fun s port => crossSwitch s { router := r, port }) s

end SynchroTrace.Garnet
