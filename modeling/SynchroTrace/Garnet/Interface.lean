import Mathlib.Logic.Function.Basic
import SynchroTrace.Garnet.Flit
import SynchroTrace.Lib.RoundRobin

namespace SynchroTrace.Garnet
open Function (update)

/-- A message in a queue from the protocol, with its number among the messages the interface got. -/
structure Pending (m : Machines) where
  origin : Nat
  message : NetworkMessage m

variable {m : Machines}

def Pending.prepare (p : Pending m) : Pending m :=
  { p with message := { p.message with internalDest := some p.message.getInternalDestination } }

structure Injection (m : Machines) where
  origin : Nat
  vc : Nat
  clone : NetworkMessage m
  flits : List (Flit m)

structure NetworkInterface (m : Machines) where
  vcAllocator : Nat → Nat
  vcRoundRobin : Nat
  buffers : Nat → FlitBuffer m
  enqueueTime : Nat → Nat
  outVc : Nat → OutVcState
  /-- The ready messages from the protocol, for each virtual network. -/
  inNode : Nat → List (Pending m)
  outNode : Nat → List (MsgPtr m)
  clones : Nat
  /-- Every message that came from the protocol, with its virtual network. -/
  accepted : List (Nat × NetworkMessage m)
  injected : List (Injection m)

namespace NetworkInterface
variable (cfg : Config)

def calculateVC (now vnet : Nat) : Nat → NetworkInterface cfg.machines →
    Option Nat × NetworkInterface cfg.machines
  | 0, ni => (none, ni)
  | n + 1, ni =>
    let delta := ni.vcAllocator vnet
    let next := if delta + 1 = cfg.vcPerVnet then 0 else delta + 1
    let ni := { ni with vcAllocator := update ni.vcAllocator vnet next }
    let vc := vnet * cfg.vcPerVnet + delta
    if (ni.outVc vc).isInState .idle now then (some vc, ni) else calculateVC now vnet n ni

def numFlits (msg : NetworkMessage cfg.machines) : Nat :=
  (msg.size + cfg.niFlitSize - 1) / cfg.niFlitSize

def makeFlits (now vnet vc numFlits : Nat) (msg : MsgPtr m) : List (Flit m) :=
  (List.range numFlits).map fun i =>
    { id := i, vc, vnet, size := numFlits, msg, time := now, outport := 0, stage := .i,
      stageTime := now }

def packet (self now vnet vc numFlits origin serial : Nat)
    (clone : NetworkMessage m) : Injection m where
  origin := origin
  vc := vc
  clone := clone
  flits := makeFlits now vnet vc numFlits { source := self, serial, message := clone }

def inject (self now vnet vc numFlits origin : Nat) (clone : NetworkMessage m)
    (ni : NetworkInterface m) : NetworkInterface m :=
  let packet := packet self now vnet vc numFlits origin ni.clones clone
  { ni with
    clones := ni.clones + 1
    buffers := update ni.buffers vc
      (packet.flits.foldl (fun buffer f => buffer.insert f) (ni.buffers vc))
    enqueueTime := update ni.enqueueTime vc now
    outVc := update ni.outVc vc ((ni.outVc vc).setState .active now)
    injected := ni.injected ++ [packet] }

def takeDestination (msg : NetworkMessage m) (destID : Nat) :
    NetworkMessage m × NetworkMessage m :=
  match m.machineOf destID with
  | none => (msg, msg)
  | some id => ({ msg with internalDest := some {id} },
      { msg with internalDest := some (msg.getInternalDestination \ {id}) })

def serve (self now vnet numFlits : Nat) (several : Bool) :
    List Nat → Pending cfg.machines → NetworkInterface cfg.machines →
      Bool × Pending cfg.machines × NetworkInterface cfg.machines
  | [], pending, ni => (true, pending, ni)
  | destID :: rest, pending, ni =>
    match calculateVC cfg now vnet cfg.vcPerVnet ni with
    | (none, ni) => (false, pending, ni)
    | (some vc, ni) =>
      let (clone, left) := if several then takeDestination pending.message destID
        else (pending.message, pending.message)
      serve self now vnet numFlits several rest { pending with message := left }
        (ni.inject self now vnet vc numFlits pending.origin clone)

/-- `flitisizeMessage`: whether every destination was served, and what is left of the message. -/
def flitisizeMessage (self now vnet : Nat) (pending : Pending cfg.machines)
    (ni : NetworkInterface cfg.machines) :
    Bool × Pending cfg.machines × NetworkInterface cfg.machines :=
  let destNodes := pending.message.getInternalDestination.getAllDest
  serve cfg self now vnet (numFlits cfg pending.message) (1 < destNodes.length) destNodes
    pending.prepare ni

def drain (self now vnet : Nat) : List (Pending cfg.machines) → NetworkInterface cfg.machines →
    List (Pending cfg.machines) × NetworkInterface cfg.machines
  | [], ni => ([], ni)
  | pending :: rest, ni =>
    match flitisizeMessage cfg self now vnet pending ni with
    | (true, _, ni) => drain self now vnet rest ni
    | (false, pending, ni) => (pending :: rest, ni)

def drainQueue (self now : Nat) (ni : NetworkInterface cfg.machines) (vnet : Nat) :
    NetworkInterface cfg.machines :=
  let (left, ni) := drain cfg self now vnet (ni.inNode vnet) ni
  { ni with inNode := update ni.inNode vnet left }

def injectMessages (self now : Nat) (ni : NetworkInterface cfg.machines) :
    NetworkInterface cfg.machines :=
  (List.range cfg.virtualNetworks).foldl (drainQueue cfg self now) ni

def enqueue (vnet : Nat) (msg : NetworkMessage m) (ni : NetworkInterface m) :
    NetworkInterface m :=
  { ni with
    accepted := ni.accepted ++ [(vnet, msg)]
    inNode := update ni.inNode vnet
      (ni.inNode vnet ++ [{ origin := ni.accepted.length, message := msg }]) }

def nextAllocator (ni : NetworkInterface cfg.machines) (vnet : Nat) : Nat → Nat :=
  update ni.vcAllocator vnet
    (if ni.vcAllocator vnet + 1 = cfg.vcPerVnet then 0 else ni.vcAllocator vnet + 1)

variable {P : NetworkInterface cfg.machines → Prop} {ni : NetworkInterface cfg.machines}

theorem calculateVC_cases {vnet : Nat}
    (allocator : ∀ ni, P ni → P { ni with vcAllocator := nextAllocator cfg ni vnet }) (now n : Nat)
    (start : P ni) :
    P (calculateVC cfg now vnet n ni).2 ∧ ∀ vc, (calculateVC cfg now vnet n ni).1 = some vc →
      ((calculateVC cfg now vnet n ni).2.outVc vc).state = .idle ∧
      ∃ earlier, P earlier ∧ vc = vnet * cfg.vcPerVnet + earlier.vcAllocator vnet := by
  induction n generalizing ni with
  | zero => exact ⟨start, by simp [calculateVC]⟩
  | succ n ih =>
    unfold calculateVC
    dsimp only
    split
    · rename_i idle
      refine ⟨allocator _ start, ?_⟩
      rintro vc ⟨⟩
      simp only [OutVcState.isInState, Bool.decide_and, Bool.and_eq_true, decide_eq_true_eq] at idle
      exact ⟨idle.1, ni, start, rfl⟩
    · exact ih (allocator _ start)

/-- What holds of an interface after its messages were injected: packets go to idle VCs only. -/
theorem injectMessages_induction {self now : Nat}
    (allocator : ∀ ni vnet, P ni → P { ni with vcAllocator := nextAllocator cfg ni vnet })
    (queues : ∀ ni queues, P ni → P { ni with inNode := queues })
    (injects : ∀ ni vnet vc numFlits origin clone, P ni → (ni.outVc vc).state = .idle →
      (∃ earlier, P earlier ∧ vc = vnet * cfg.vcPerVnet + earlier.vcAllocator vnet) →
      P (ni.inject self now vnet vc numFlits origin clone))
    (start : P ni) : P (injectMessages cfg self now ni) := by
  have serves : ∀ vnet numFlits several dests (pending : Pending cfg.machines) ni, P ni →
      P (serve cfg self now vnet numFlits several dests pending ni).2.2 := by
    intro vnet numFlits several dests
    induction dests with
    | nil => exact fun _ _ start => start
    | cons dest rest ih =>
      intro pending ni start
      obtain ⟨kept, idle⟩ := calculateVC_cases cfg (allocator · vnet) now cfg.vcPerVnet start
      unfold serve
      split
      · rename_i eq
        rwa [eq] at kept
      · rename_i vc ni' eq
        rw [eq] at kept idle
        obtain ⟨idle, earlier⟩ := idle vc rfl
        exact ih _ _ (injects _ _ _ _ _ _ kept idle earlier)
  have drains : ∀ vnet queue ni, P ni → P (drain cfg self now vnet queue ni).2 := by
    intro vnet queue
    induction queue with
    | nil => exact fun _ start => start
    | cons pending rest ih =>
      intro ni start
      have served := serves vnet (numFlits cfg pending.message)
        (1 < pending.message.getInternalDestination.getAllDest.length)
        pending.message.getInternalDestination.getAllDest pending.prepare ni start
      unfold drain
      split
      · rename_i eq
        rw [flitisizeMessage] at eq
        rw [eq] at served
        exact ih _ served
      · rename_i eq
        rw [flitisizeMessage] at eq
        rwa [eq] at served
  unfold injectMessages
  generalize List.range cfg.virtualNetworks = vnets
  induction vnets generalizing ni with
  | nil => exact start
  | cons vnet rest ih => exact ih (queues _ _ (drains vnet _ ni start))

/-- `is_candidate_vc`: on an ordered virtual network no VC has waited longer. -/
def isCandidateVc (now vc : Nat) (ni : NetworkInterface cfg.machines) : Bool :=
  !cfg.ordered (cfg.vnetOf vc) || (List.range cfg.vcPerVnet).all fun offset =>
    let other := cfg.vnetOf vc * cfg.vcPerVnet + offset
    !(((ni.buffers other).ready? now).isSome && ni.enqueueTime other < ni.enqueueTime vc)

def nextVc (vc : Nat) : Nat := if vc + 1 = cfg.numVcs then 0 else vc + 1

def pickVc (now : Nat) (ni : NetworkInterface cfg.machines) : Option Nat :=
  RoundRobin.search (nextVc cfg)
    (fun vc => ((ni.buffers vc).ready? now).isSome && 0 < (ni.outVc vc).creditCount &&
      isCandidateVc cfg now vc ni)
    cfg.numVcs ni.vcRoundRobin

def sendFlit (now vc : Nat) (ni : NetworkInterface m) :
    Option (Flit m) × NetworkInterface m :=
  match (ni.buffers vc).items.head? with
  | none => (none, ni)
  | some f => (some { f with time := now + 1 }, { ni with
      buffers := update ni.buffers vc (ni.buffers vc).pop
      outVc := update ni.outVc vc (ni.outVc vc).decrementCredit
      enqueueTime := if f.isTail then update ni.enqueueTime vc infinite
        else ni.enqueueTime })

def scheduleOutputLink (now : Nat) (ni : NetworkInterface cfg.machines) :
    Option (Flit cfg.machines) × NetworkInterface cfg.machines :=
  let picked := pickVc cfg now ni
  let ni := { ni with vcRoundRobin := nextVc cfg ni.vcRoundRobin }
  match picked with
  | none => (none, ni)
  | some vc => ni.sendFlit now vc

def receive (f : Flit m) (ni : NetworkInterface m) : NetworkInterface m :=
  if f.isTail then
    { ni with outNode := update ni.outNode f.vnet (ni.outNode f.vnet ++ [f.msg]) }
  else ni

def receiveCredit (now : Nat) (c : Credit) (ni : NetworkInterface m) :
    NetworkInterface m :=
  let out := (ni.outVc c.vc).incrementCredit
  { ni with
    outVc := update ni.outVc c.vc
      (if c.isFreeSignal then out.setState .idle now else out) }

end NetworkInterface

end SynchroTrace.Garnet
