import SynchroTrace.Garnet.Router
import SynchroTrace.Lib.Transition

/-!
The network as a transition system: the wakeups of its links, routers and interfaces in any order,
messages from the protocol, and the time that passes.
-/

namespace SynchroTrace.Garnet
open Transition

section Wakeups
variable {cfg : Config}

def linkWakeup (p : Endpoint) (s : NetState cfg) : NetState cfg :=
  let l := s.link p
  match l.srcQueue.ready? s.time with
  | none => s
  | some f => s.setLink p (l.advance f (s.time + cfg.linkLatency p))

def creditLinkWakeup (p : Endpoint) (s : NetState cfg) : NetState cfg :=
  let l := s.link p
  match l.creditQueue.ready? s.time with
  | none => s
  | some c => s.setLink p { l with
      creditQueue := l.creditQueue.pop
      creditBuffer := l.creditBuffer.insert { c with time := s.time + cfg.creditLatency p } }

@[simps] def NetState.setNi (s : NetState cfg) (n : Nat) (ni : NetworkInterface cfg.machines) :
    NetState cfg :=
  { s with ni := Function.update s.ni n ni }

variable (n : Nat)

def niSend (s : NetState cfg) : NetState cfg :=
  let (sent, ni) := (s.ni n).scheduleOutputLink cfg s.time
  let s := s.setNi n ni
  match sent with
  | none => s
  | some f => s.setLink (.ni n) ((s.link (.ni n)).enqueue f)

def niReceive (s : NetState cfg) : NetState cfg :=
  let source := cfg.upstream (.ni n)
  let l := s.link source
  match l.linkBuffer.ready? s.time with
  | none => s
  | some f =>
    let s := s.setLink source { l with linkBuffer := l.linkBuffer.pop }
    let s := s.setNi n ((s.ni n).receive f)
    s.returnCredit (.ni n) f.vc f.isTail

def niCredit (s : NetState cfg) : NetState cfg :=
  let l := s.link (.ni n)
  match l.creditBuffer.ready? s.time with
  | none => s
  | some c =>
    let s := s.setLink (.ni n) { l with creditBuffer := l.creditBuffer.pop }
    s.setNi n ((s.ni n).receiveCredit s.time c)

def niInject (s : NetState cfg) : NetState cfg :=
  s.setNi n ((s.ni n).injectMessages cfg n s.time)

def niWakeup (s : NetState cfg) : NetState cfg :=
  niCredit n (niReceive n (niSend n (niInject n s)))

end Wakeups

inductive Action (m : Machines) where
  | tick
  | message (n vnet : Nat) (msg : NetworkMessage m)
  | niWakeup (n : Nat)
  | linkWakeup (p : Endpoint)
  | creditLinkWakeup (p : Endpoint)
  | inputUnitWakeup (p : PortId)
  | outputUnitWakeup (p : PortId)
  | vcAllocatorWakeup (r : Nat)
  | swAllocatorWakeup (r : Nat)
  | switchWakeup (r : Nat)

def NetState.perform {cfg : Config} (s : NetState cfg) :
    Action cfg.machines → Except Fault (NetState cfg)
  | .tick => .ok { s with time := s.time + 1 }
  | .message n vnet msg => .ok (s.setNi n ((s.ni n).enqueue vnet msg))
  | .niWakeup n => .ok (Garnet.niWakeup n s)
  | .linkWakeup p => .ok (Garnet.linkWakeup p s)
  | .creditLinkWakeup p => .ok (Garnet.creditLinkWakeup p s)
  | .inputUnitWakeup p => Garnet.inputUnitWakeup p s
  | .outputUnitWakeup p => .ok (Garnet.outputUnitWakeup p s)
  | .vcAllocatorWakeup r => Garnet.vcAllocatorWakeup r s
  | .swAllocatorWakeup r => Garnet.swAllocatorWakeup r s
  | .switchWakeup r => .ok (Garnet.switchWakeup r s)

def Link.Empty {m : Machines} (l : Link m) : Prop :=
  l.srcQueue.items = [] ∧ l.linkBuffer.items = [] ∧ l.creditQueue.items = [] ∧
    l.creditBuffer.items = [] ∧ l.carried = []

/-- All buffers are empty and all VCs idle, with all their credits. What the constructors leave
uninitialised may be anything. -/
structure NetState.Initial {cfg : Config} (s : NetState cfg) : Prop where
  inVc : ∀ x, (s.inVc x).state = .idle ∧ (s.inVc x).buffer.items = []
  outVc : ∀ y, (s.outVc y).state = .idle ∧ (s.outVc y).creditCount = cfg.depth y.vc
  switchBuffer : ∀ p, (s.switchBuffer p).items = []
  link : ∀ p, (s.link p).Empty
  ni : ∀ n, (∀ vc, ((s.ni n).outVc vc).state = .idle ∧
    ((s.ni n).outVc vc).creditCount = cfg.depth vc ∧ ((s.ni n).buffers vc).items = []) ∧
    ∀ vnet, (s.ni n).inNode vnet = []

def network (cfg : Config) : System (NetState cfg) (Action cfg.machines) :=
  ofFunction NetState.Initial NetState.perform

end SynchroTrace.Garnet
