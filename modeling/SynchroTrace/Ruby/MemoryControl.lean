import Mathlib.Logic.Function.Basic
import SynchroTrace.Lib.Transition

/-!
The memory controller, without the profiler and the wakeups of the consumer. Counters of type `int`
do not overflow.
-/

namespace SynchroTrace.Ruby
open Outcome Transition

/-- A request. The message is missing in those that want no answer. -/
structure MemoryNode (μ : Type) where
  time : Nat
  msgCounter : Nat
  message : Option μ
  addr : Nat
  isMemRead : Bool
  deriving DecidableEq, Repr

namespace MemoryControl

structure Params where
  memBusCycleMultiplier : Nat
  banksPerRank : Nat
  ranksPerDimm : Nat
  dimmsPerChannel : Nat
  bankBit0 : Nat
  rankBit0 : Nat
  dimmBit0 : Nat
  bankQueueSize : Nat
  bankBusyTime : Int
  rankRankDelay : Int
  readWriteDelay : Int
  basicBusBusyTime : Int
  memCtlLatency : Nat
  refreshPeriod : Int
  tFaw : Nat
  memRandomArbitrate : Nat
  memFixedDelay : Nat
  clock : Nat
  /-- What the program computes for shifts that the language leaves undefined. -/
  undefinedShift : BitVec 64

namespace Params

variable (p : Params)

def totalBanks : Nat := p.banksPerRank * p.ranksPerDimm * p.dimmsPerChannel

def refreshPeriodSystem : Int := p.refreshPeriod.tdiv p.totalBanks

def getBank (addr : Nat) : Nat :=
  let dimm := (addr >>> p.dimmBit0) &&& (p.dimmsPerChannel - 1)
  let rank := (addr >>> p.rankBit0) &&& (p.ranksPerDimm - 1)
  let bank := (addr >>> p.bankBit0) &&& (p.banksPerRank - 1)
  dimm * p.ranksPerDimm * p.banksPerRank + rank * p.banksPerRank + bank

def getRank (bank : Nat) : Nat := bank / p.banksPerRank

/-- `1 << (m_tFaw-1)` as it is combined with an unsigned word of 64 bits: an `int` is shifted, and
its sign is extended. -/
def activateBit : BitVec 64 :=
  if p.tFaw - 1 < 32 then ((1 : BitVec 32) <<< (p.tFaw - 1)).signExtend 64 else p.undefinedShift

end Params

structure Activate (μ : Type) where
  cycle : Nat
  bank : Nat
  request : Option (MemoryNode μ)

end MemoryControl

open MemoryControl (Params Activate)

/-- Nothing reads the last four fields. -/
structure MemoryControl (μ : Type) where
  curTick : Nat
  msgCounter : Nat
  responseQueue : List (MemoryNode μ)
  inputQueue : List (MemoryNode μ)
  bankQueues : Nat → List (MemoryNode μ)
  bankBusyCounter : Nat → Int
  oldRequest : Nat → Bool
  tfawShift : Nat → BitVec 64
  tfawCount : Nat → Int
  busBusyCounterWrite : Int
  busBusyCounterReadNewRank : Int
  busBusyCounterBasic : Int
  busBusyWhichRank : Nat
  roundRobin : Nat
  refreshCount : Int
  needRefresh : Nat
  refreshBank : Nat
  ageCounter : Int
  idleCount : Int
  event : Option Nat
  cycle : Nat
  activates : List (Activate μ)
  accepted : List (MemoryNode μ)
  dequeued : List (MemoryNode μ)

namespace MemoryControl
variable {μ : Type} (p : Params)

inductive Fault where
  | assertion
  /-- The event queue does not do this. -/
  | impossible
  deriving DecidableEq, Repr

def activatePerTfaw : Int := 4

def idleCountMaxValue : Int := 1000

variable (c : MemoryControl μ)

def time : Nat := c.curTick / p.clock

def enqueue (message : Option μ) (addr : Nat) (isMemRead : Bool)
    (latency : Nat) : MemoryControl μ :=
  let memRef := ⟨c.time p + latency, c.msgCounter + 1, message, addr, isMemRead⟩
  { c with
    msgCounter := c.msgCounter + 1
    inputQueue := c.inputQueue ++ [memRef]
    event := if c.event = none then some (c.curTick + 1) else c.event
    accepted := c.accepted ++ [memRef] }

def dequeue : Except Fault (MemoryControl μ) :=
  match c.responseQueue with
  | [] => .error .assertion
  | node :: rest => do
    require (node.time ≤ c.time p) .assertion
    return { c with responseQueue := rest, dequeued := c.dequeued ++ [node] }

def enqueueToDirectory (req : MemoryNode μ) (latency : Nat) : MemoryControl μ :=
  { c with
    responseQueue :=
      c.responseQueue ++ [{ req with time := c.time p + latency * p.memBusCycleMultiplier }] }

def markTfaw (rank : Nat) : MemoryControl μ :=
  if p.tFaw ≠ 0 then
    { c with
      tfawShift := Function.update c.tfawShift rank (c.tfawShift rank ||| p.activateBit)
      tfawCount := Function.update c.tfawCount rank (c.tfawCount rank + 1) }
  else c

/-- `queueReady`, with what its call of `random` returns. -/
def queueReady (draw : Nat) (bank : Nat) : Bool :=
  if 0 < c.bankBusyCounter bank ∧ p.memFixedDelay = 0 then false
  else if 2 ≤ p.memRandomArbitrate ∧ draw % 100 < p.memRandomArbitrate then false
  else if p.memFixedDelay ≠ 0 then true
  else if 2 * p.bankBusyTime < c.ageCounter ∧ ¬ c.oldRequest bank then false
  else if c.busBusyCounterBasic = p.basicBusBusyTime then false
  else if 0 < c.busBusyCounterBasic then false
  else if activatePerTfaw ≤ c.tfawCount (p.getRank bank) then false
  else
    let write := (c.bankQueues bank).head?.any fun node => ¬ node.isMemRead
    if write ∧ 0 < c.busBusyCounterWrite then false
    else if ¬ write ∧ p.getRank bank ≠ c.busBusyWhichRank ∧ 0 < c.busBusyCounterReadNewRank then false
    else true

variable (bank : Nat)

def refreshReady : Bool :=
  c.needRefresh ≠ 0 ∧ c.refreshBank = bank ∧ c.bankBusyCounter bank ≤ 0 ∧
    c.busBusyCounterBasic ≤ 0 ∧ c.tfawCount (p.getRank bank) < activatePerTfaw

def issueRefresh : MemoryControl μ :=
  if c.refreshReady p bank then
    { c with
      needRefresh := c.needRefresh - 1
      refreshBank := if p.totalBanks ≤ c.refreshBank + 1 then 0 else c.refreshBank + 1
      bankBusyCounter := Function.update c.bankBusyCounter bank p.bankBusyTime
      busBusyCounterBasic := p.basicBusBusyTime
      busBusyCounterWrite := p.basicBusBusyTime
      busBusyCounterReadNewRank := p.basicBusBusyTime
      activates := ⟨c.cycle, bank, none⟩ :: c.activates }.markTfaw p (p.getRank bank)
  else c

def issueRequest (req : MemoryNode μ)
    (rest : List (MemoryNode μ)) : MemoryControl μ :=
  let c := { c with bankQueues := Function.update c.bankQueues bank rest }
  let c :=
    if req.message.isSome then c.enqueueToDirectory p req (p.memCtlLatency + p.memFixedDelay) else c
  let c := { c with oldRequest := Function.update c.oldRequest bank false }.markTfaw p (p.getRank bank)
  { c with
    bankBusyCounter := Function.update c.bankBusyCounter bank p.bankBusyTime
    busBusyWhichRank := p.getRank bank
    busBusyCounterBasic := p.basicBusBusyTime
    busBusyCounterWrite := p.basicBusBusyTime + if req.isMemRead then p.readWriteDelay else 0
    busBusyCounterReadNewRank := p.basicBusBusyTime + if req.isMemRead then p.rankRankDelay else 0
    activates := ⟨c.cycle, bank, some req⟩ :: c.activates }

def countDown (n : Int) : Int := if 0 < n then n - 1 else n

def countDownAll : MemoryControl μ :=
  { c with
    cycle := c.cycle + 1
    bankBusyCounter := fun bank => countDown (c.bankBusyCounter bank)
    busBusyCounterWrite := countDown c.busBusyCounterWrite
    busBusyCounterReadNewRank := countDown c.busBusyCounterReadNewRank
    busBusyCounterBasic := countDown c.busBusyCounterBasic
    tfawCount := fun rank =>
      if (c.tfawShift rank).getLsbD 0 then c.tfawCount rank - 1 else c.tfawCount rank
    tfawShift := fun rank => c.tfawShift rank >>> 1 }

def latchRefresh : Except Fault (MemoryControl μ) :=
  let refreshCount := if p.memFixedDelay = 0 then c.refreshCount - 1 else c.refreshCount
  if refreshCount = 0 then do
    require (c.needRefresh < 10) .assertion
    return { c with refreshCount := p.refreshPeriodSystem, needRefresh := c.needRefresh + 1 }
  else .ok { c with refreshCount }

variable {p c} in
theorem latchRefresh_ok {c' : MemoryControl μ} (h : c.latchRefresh p = .ok c') :
    ∃ refreshCount needRefresh, c' = { c with refreshCount, needRefresh } := by
  unfold latchRefresh at h
  generalize (if p.memFixedDelay = 0 then c.refreshCount - 1 else c.refreshCount) = count at h
  dsimp only at h
  split at h
  · obtain ⟨_, _, h⟩ := Outcome.bind_ok h
    exact ⟨_, _, Outcome.pure_ok h⟩
  · cases h
    exact ⟨_, c.needRefresh, rfl⟩

def newBatch : MemoryControl μ :=
  if (List.range p.totalBanks).any c.oldRequest then { c with ageCounter := c.ageCounter + 1 }
  else
    { c with
      oldRequest := fun bank => !(c.bankQueues bank).isEmpty
      ageCounter := 0 }

def nextBank : Nat := if p.totalBanks ≤ bank + 1 then 0 else bank + 1

def tryIssue (draws : Nat → Nat) (c : MemoryControl μ) (bank : Nat) : MemoryControl μ :=
  match c.bankQueues bank with
  | [] => c
  | req :: rest =>
    let c := { c with idleCount := idleCountMaxValue }
    if c.queueReady p (draws bank) bank then c.issueRequest p bank req rest else c

def visit (draws : Nat → Nat) (c : MemoryControl μ) : MemoryControl μ :=
  let bank := nextBank p c.roundRobin
  ({ c with roundRobin := bank }.issueRefresh p bank).tryIssue p draws bank

def scan (draws : Nat → Nat) : Nat → MemoryControl μ → MemoryControl μ
  | 0, c => c
  | n + 1, c => scan draws n (c.visit p draws)

def takeInput : MemoryControl μ :=
  match c.inputQueue with
  | [] => c
  | req :: rest =>
    let c := { c with idleCount := idleCountMaxValue }
    let bank := p.getBank req.addr
    if (c.bankQueues bank).length < p.bankQueueSize then
      { c with
        inputQueue := rest
        bankQueues := Function.update c.bankQueues bank (c.bankQueues bank ++ [req]) }
    else c

/-- `executeCycle`. The first draw is for the round-robin position, the others are for the banks. -/
def executeCycle (start : Nat) (draws : Nat → Nat) : Except Fault (MemoryControl μ) := do
  let c ← c.countDownAll.latchRefresh p
  let c := c.newBatch p
  let c := if p.memRandomArbitrate ≠ 0 then { c with roundRobin := start % p.totalBanks } else c
  return (c.scan p draws p.totalBanks).takeInput p

def wakeup (c : MemoryControl μ) (start : Nat) (draws : Nat → Nat) :
    Except Fault (MemoryControl μ) := do
  let c ← c.executeCycle p start draws
  let c := { c with idleCount := c.idleCount - 1 }
  if 0 < c.idleCount then do
    require (c.event = none) .assertion
    return { c with event := some (c.curTick + p.memBusCycleMultiplier) }
  else return c

inductive Call (μ : Type) where
  | advance (tick : Nat)
  | enqueue (message : Option μ) (addr : Nat) (isMemRead : Bool) (latency : Nat)
  | dequeue
  | executeCycle (start : Nat) (draws : Nat → Nat)
  | wakeup (start : Nat) (draws : Nat → Nat)

def perform : Call μ → Except Fault (MemoryControl μ)
  | .advance tick =>
    if c.curTick ≤ tick ∧ c.event.all (fun scheduled => tick ≤ scheduled) then
      .ok { c with curTick := tick }
    else .error .impossible
  | .enqueue message addr isMemRead latency => .ok (c.enqueue p message addr isMemRead latency)
  | .dequeue => c.dequeue p
  | .executeCycle start draws => c.executeCycle p start draws
  | .wakeup start draws =>
    if c.event = some c.curTick then { c with event := none }.wakeup p start draws
    else .error .impossible

def init (curTick : Nat) : MemoryControl μ where
  curTick := curTick
  msgCounter := 0
  responseQueue := []
  inputQueue := []
  bankQueues _ := []
  bankBusyCounter _ := 0
  oldRequest _ := false
  tfawShift _ := 0
  tfawCount _ := 0
  busBusyCounterWrite := 0
  busBusyCounterReadNewRank := 0
  busBusyCounterBasic := 0
  busBusyWhichRank := 0
  roundRobin := 0
  refreshCount := 1
  needRefresh := 0
  refreshBank := 0
  ageCounter := 0
  idleCount := 0
  event := none
  cycle := 0
  activates := []
  accepted := []
  dequeued := []

/-- The configurations that `init` takes, with at least one bank. -/
structure Params.Valid (p : Params) : Prop where
  banks : 0 < p.totalBanks
  tFaw : p.tFaw ≤ 62

end MemoryControl

def memoryControl (μ : Type) (p : Params) : System (MemoryControl μ) (MemoryControl.Call μ) :=
  ofFunction (fun c => ∃ curTick, c = MemoryControl.init curTick) (MemoryControl.perform p)

end SynchroTrace.Ruby
