import Mathlib.Algebra.Group.Nat.Defs
import SynchroTrace.Lib.Outcome
import SynchroTrace.Lib.PriorityQueue

/-!
Message buffers: a heap of messages by their arrival, here an ordered list, and the messages stalled
for an address. The wakeups of the consumer are left out.
-/

namespace SynchroTrace.Ruby
open Outcome

structure Message (μ : Type) where
  payload : μ
  lastEnqueueTime : Nat
  delayedCycles : Int
  deriving DecidableEq, Repr

def Message.enqueue {μ : Type} (message : Message μ) (time arrival : Nat) : Message μ :=
  { message with
    delayedCycles := time - message.lastEnqueueTime + message.delayedCycles
    lastEnqueueTime := arrival }

structure MessageBufferNode (μ : Type) where
  time : Nat
  msgCounter : Nat
  message : Message μ
  deriving DecidableEq, Repr

namespace MessageBufferNode
variable {μ : Type}

/-- `n₁` does not come after `n₂`: the negation of the source's comparison. -/
def NotAfter (n₁ n₂ : MessageBufferNode μ) : Prop :=
  n₁.time < n₂.time ∨ n₁.time = n₂.time ∧ n₁.msgCounter ≤ n₂.msgCounter

instance : DecidableRel (NotAfter (μ := μ)) :=
  fun _ _ => inferInstanceAs (Decidable (_ ∨ _))

instance : IsTrans (MessageBufferNode μ) NotAfter where
  trans n₁ n₂ n₃ h₁ h₂ := by
    unfold NotAfter at *
    omega

instance : Std.Total (NotAfter (μ := μ)) where
  total n₁ n₂ := by
    unfold NotAfter
    omega

/-- The counter that a node gets: the constructor takes it as an `int`. -/
def counterOf (counter : Nat) : Nat :=
  if counter % 2 ^ 32 < 2 ^ 31 then counter % 2 ^ 32 else 2 ^ 64 - 2 ^ 32 + counter % 2 ^ 32

end MessageBufferNode

structure Globals where
  time : Nat
  randomization : Bool
  warmupEnabled : Bool
  blockSizeBits : Nat
  deriving DecidableEq, Repr

structure MessageBuffer (μ : Type) where
  prioHeap : PriorityQueue (MessageBufferNode.NotAfter (μ := μ))
  /-- The entries in the order of their addresses. -/
  stallMsgMap : List (Nat × List (Message μ))
  maxSize : Int
  size : Int
  timeLastTimeEnqueue : Nat
  timeLastTimePop : Nat
  sizeAtCycleStart : Int
  msgsThisCycle : Int
  notAvailCount : Nat
  msgCounter : Nat
  recycleLatency : Nat
  strictFifo : Bool
  orderingSet : Bool
  randomization : Bool
  lastArrivalTime : Nat
  hasConsumer : Bool

namespace MessageBuffer
variable {μ : Type}

/-- A new buffer that `setOrdering(true)` and `setConsumer` were called on. -/
def empty : MessageBuffer μ where
  prioHeap := .empty
  stallMsgMap := []
  maxSize := -1
  size := 0
  timeLastTimeEnqueue := 0
  timeLastTimePop := 0
  sizeAtCycleStart := 0
  msgsThisCycle := 0
  notAvailCount := 0
  msgCounter := 0
  recycleLatency := 10
  strictFifo := true
  orderingSet := true
  randomization := false
  lastArrivalTime := 0
  hasConsumer := true

inductive Fault where
  | orderingNotSet
  | fifoViolated
  | noConsumer
  | assertion
  deriving DecidableEq, Repr

variable (g : Globals) (b : MessageBuffer μ)

/-- The size that `areNSlotsAvailable` compares: enqueues count at once, pops in the next cycle. -/
def currentSize : Int :=
  if b.timeLastTimePop < g.time then b.size
  else if b.timeLastTimeEnqueue < g.time then b.sizeAtCycleStart
  else b.sizeAtCycleStart + b.msgsThisCycle

def areNSlotsAvailable (n : Int) : Bool × MessageBuffer μ :=
  if b.maxSize = -1 then (true, b)
  else if b.currentSize g + n ≤ b.maxSize then (true, b)
  else (false, { b with notAvailCount := b.notAvailCount + 1 })

def randomTime (draws : Nat × Nat × Nat) : Nat :=
  1 + draws.1 % 4 + if draws.2.1 % 8 = 0 then 100 + draws.2.2 % 15 else 0

def countEnqueue : MessageBuffer μ :=
  { b with
    msgCounter := (b.msgCounter + 1) % 2 ^ 64
    size := b.size + 1
    msgsThisCycle := (if b.timeLastTimeEnqueue < g.time then 0 else b.msgsThisCycle) + 1
    timeLastTimeEnqueue :=
      if b.timeLastTimeEnqueue < g.time then g.time else b.timeLastTimeEnqueue }

/-- The last arrival time that a new one is compared to. -/
def lastArrival : Nat :=
  if g.randomization ∧ b.randomization ∧ b.strictFifo ∧ b.lastArrivalTime < g.time then g.time
  else b.lastArrivalTime

def arrivalTime (delta : Nat) (draws : Nat × Nat × Nat) : Nat :=
  if ¬ g.randomization ∨ ¬ b.randomization then g.time + delta
  else if b.strictFifo then b.lastArrival g + randomTime draws
  else g.time + randomTime draws

def push (time : Nat) (message : Message μ) : MessageBuffer μ :=
  { b with prioHeap :=
      b.prioHeap.insert ⟨time, MessageBufferNode.counterOf b.msgCounter, message⟩ }

def enqueue (g : Globals) (b : MessageBuffer μ) (message : Message μ) (delta : Nat)
    (draws : Nat × Nat × Nat) : Except Fault (MessageBuffer μ) := do
  let b := b.countEnqueue g
  require b.orderingSet .orderingNotSet
  require (0 < delta) .assertion
  let arrival := b.arrivalTime g delta draws
  require (g.time < arrival) .assertion
  require (¬ (b.strictFifo ∧ arrival < b.lastArrival g)) .fifoViolated
  let b := { b with lastArrivalTime := if g.warmupEnabled then b.lastArrival g else arrival }
  require (message.lastEnqueueTime ≤ g.time) .assertion
  let b := b.push arrival (message.enqueue g.time arrival)
  require b.hasConsumer .noConsumer
  return b

def isReady : Bool :=
  b.prioHeap.items.head?.any fun node => node.time ≤ g.time

def countPop : MessageBuffer μ :=
  { b with
    prioHeap := b.prioHeap.pop
    sizeAtCycleStart := if b.timeLastTimePop < g.time then b.size else b.sizeAtCycleStart
    timeLastTimePop := if b.timeLastTimePop < g.time then g.time else b.timeLastTimePop
    size := b.size - 1 }

def pop : Except Fault (Message μ × MessageBuffer μ) :=
  match b.prioHeap.items with
  | [] => .error .assertion
  | node :: _ => do
    require (b.isReady g) .assertion
    return (node.message, b.countPop g)

def clear : MessageBuffer μ :=
  { b with
    prioHeap := .empty, msgCounter := 0, size := 0, timeLastTimeEnqueue := 0
    timeLastTimePop := 0, sizeAtCycleStart := 0, msgsThisCycle := 0 }

def recycle : Except Fault (MessageBuffer μ) :=
  match b.prioHeap.items with
  | [] => .error .assertion
  | node :: _ => do
    require (b.isReady g) .assertion
    let node := { node with time := g.time + b.recycleLatency }
    return { b with prioHeap := b.prioHeap.pop.insert node }

/-- `delayHead`. An empty heap has no front. -/
def delayHead (draws : Nat × Nat × Nat) : Except Fault (MessageBuffer μ) :=
  match b.prioHeap.items with
  | [] => .error .assertion
  | node :: _ => { b with prioHeap := b.prioHeap.pop }.enqueue g node.message 1 draws

def stalled (stallMap : List (Nat × List (Message μ))) (addr : Nat) : List (Message μ) :=
  match stallMap with
  | [] => []
  | (a, messages) :: rest => if a = addr then messages else stalled rest addr

def stall (addr : Nat) (message : Message μ) :
    List (Nat × List (Message μ)) → List (Nat × List (Message μ))
  | [] => [(addr, [message])]
  | (a, messages) :: rest =>
    if addr < a then (addr, [message]) :: (a, messages) :: rest
    else if a < addr then (a, messages) :: stall addr message rest
    else (a, messages ++ [message]) :: rest

def stallMessage (addr : Nat) : Except Fault (MessageBuffer μ) := do
  require (b.isReady g) .assertion
  require (addr % 2 ^ g.blockSizeBits = 0) .assertion
  let (message, b) ← b.pop g
  return { b with stallMsgMap := stall addr message b.stallMsgMap }

def reenter (message : Message μ) : MessageBuffer μ :=
  { b with msgCounter := (b.msgCounter + 1) % 2 ^ 64 }.push (g.time + 1) message

def reanalyzeMessages (addr : Nat) : Except Fault (MessageBuffer μ) := do
  require (addr ∈ b.stallMsgMap.map Prod.fst) .assertion
  return { (stalled b.stallMsgMap addr).foldl (reenter g) b with
    stallMsgMap := b.stallMsgMap.filter fun entry => entry.1 ≠ addr }

def reanalyzeAllMessages : MessageBuffer μ :=
  { (b.stallMsgMap.flatMap Prod.snd).foldl (reenter g) b with stallMsgMap := [] }

section Specs
variable {g : Globals} {b b' : MessageBuffer μ} {message : Message μ} {delta : Nat}
  {draws : Nat × Nat × Nat} {addr : Nat}

theorem areNSlotsAvailable_eq (g : Globals) (b : MessageBuffer μ) (n : Int) :
    ∃ notAvailCount, b.areNSlotsAvailable g n =
      (decide (b.maxSize = -1 ∨ b.currentSize g + n ≤ b.maxSize), { b with notAvailCount }) := by
  unfold areNSlotsAvailable
  split_ifs with unbounded fits
  · exact ⟨b.notAvailCount, by rw [decide_eq_true (.inl unbounded)]⟩
  · exact ⟨b.notAvailCount, by rw [decide_eq_true (.inr fits)]⟩
  · exact ⟨b.notAvailCount + 1, by rw [decide_eq_false (not_or.mpr ⟨unbounded, fits⟩)]⟩

theorem enqueue_asserts (h : b.enqueue g message delta draws = .ok b') :
    (b.orderingSet = true ∧ b.hasConsumer = true ∧ message.lastEnqueueTime ≤ g.time) ∧
    0 < delta ∧ (b.strictFifo → b.lastArrival g ≤ b.arrivalTime g delta draws) ∧
    b' = { (b.countEnqueue g).push (b.arrivalTime g delta draws)
        (message.enqueue g.time (b.arrivalTime g delta draws)) with
      lastArrivalTime :=
        if g.warmupEnabled then b.lastArrival g else b.arrivalTime g delta draws } := by
  unfold enqueue at h
  obtain ⟨_, ordering, h⟩ := bind_ok h
  obtain ⟨_, positive, h⟩ := bind_ok h
  obtain ⟨_, _, h⟩ := bind_ok h
  obtain ⟨_, inOrder, h⟩ := bind_ok h
  obtain ⟨_, dequeued, h⟩ := bind_ok h
  obtain ⟨_, consumer, h⟩ := bind_ok h
  refine ⟨⟨require_ok ordering, require_ok consumer, require_ok dequeued⟩, require_ok positive,
    fun strict => ?_, pure_ok h⟩
  exact Nat.not_lt.mp fun before => require_ok inOrder ⟨strict, before⟩

theorem enqueue_ok (h : b.enqueue g message delta draws = .ok b') :
    0 < delta ∧ (b.strictFifo → b.lastArrival g ≤ b.arrivalTime g delta draws) ∧
    b' = { (b.countEnqueue g).push (b.arrivalTime g delta draws)
        (message.enqueue g.time (b.arrivalTime g delta draws)) with
      lastArrivalTime :=
        if g.warmupEnabled then b.lastArrival g else b.arrivalTime g delta draws } :=
  (enqueue_asserts h).2

/-- What `enqueue` asks of the buffer, the message and the delay. -/
structure Takes (g : Globals) (b : MessageBuffer μ) (message : Message μ) (delta : Nat) : Prop where
  ordering : b.orderingSet = true
  consumer : b.hasConsumer = true
  delayed : 0 < delta
  inOrder : b.strictFifo = true → ¬ (g.randomization = true ∧ b.randomization = true) →
    b.lastArrivalTime ≤ g.time + delta
  dequeued : message.lastEnqueueTime ≤ g.time

theorem time_lt_arrivalTime (delayed : 0 < delta) : g.time < b.arrivalTime g delta draws := by
  have positive : 1 ≤ randomTime draws := by
    unfold randomTime
    omega
  unfold arrivalTime
  split_ifs with fixed strict
  · omega
  · have recent : g.time ≤ b.lastArrival g := by
      rw [not_or, not_not, not_not] at fixed
      unfold lastArrival
      split_ifs with late
      · exact Nat.le_refl _
      · exact Nat.not_lt.mp fun before => late ⟨fixed.1, fixed.2, strict, before⟩
    omega
  · omega

theorem lastArrival_le_iff : (b.strictFifo = true → b.lastArrival g ≤ b.arrivalTime g delta draws) ↔
      (b.strictFifo = true → ¬ (g.randomization = true ∧ b.randomization = true) →
        b.lastArrivalTime ≤ g.time + delta) := by
  refine imp_congr_right fun strict => ?_
  by_cases random : g.randomization = true ∧ b.randomization = true
  · simp [arrivalTime, random, strict]
  · have fixed : ¬ g.randomization = true ∨ ¬ b.randomization = true := not_and_or.mp random
    have last : b.lastArrival g = b.lastArrivalTime :=
      if_neg fun h => random ⟨h.1, h.2.1⟩
    rw [arrivalTime, if_pos fixed, last]
    exact ⟨fun h _ => h, fun h => h random⟩

theorem exists_enqueue_iff :
    (∃ b', b.enqueue g message delta draws = .ok b') ↔ b.Takes g message delta := by
  constructor
  · rintro ⟨b', h⟩
    obtain ⟨⟨ordering, consumer, dequeued⟩, delayed, inOrder, -⟩ := enqueue_asserts h
    exact ⟨ordering, consumer, delayed, lastArrival_le_iff.mp inOrder, dequeued⟩
  · rintro ⟨ordering, consumer, delayed, inOrder, dequeued⟩
    have later : g.time < (b.countEnqueue g).arrivalTime g delta draws := time_lt_arrivalTime delayed
    have kept : ¬ ((b.countEnqueue g).strictFifo = true ∧
        (b.countEnqueue g).arrivalTime g delta draws < (b.countEnqueue g).lastArrival g) := by
      rintro ⟨strict, before⟩
      have after : b.lastArrival g ≤ b.arrivalTime g delta draws :=
        lastArrival_le_iff.mpr inOrder strict
      exact absurd after (Nat.not_le.mpr before)
    unfold enqueue
    simp only [require_of (show (b.countEnqueue g).orderingSet = true from ordering),
      require_of delayed, require_of later, require_of kept, require_of dequeued, ok_bind]
    exact ⟨_, by rw [require_of (by exact consumer)]; rfl⟩

theorem pop_ok (h : b.pop g = .ok (message, b')) :
    ∃ node rest, b.prioHeap.items = node :: rest ∧ node.time ≤ g.time ∧ message = node.message ∧
      b' = b.countPop g := by
  unfold pop at h
  split at h
  · cases h
  · rename_i node rest items
    obtain ⟨_, ready, h⟩ := bind_ok h
    have ready := require_ok ready
    cases h
    refine ⟨node, rest, items, ?_, rfl, rfl⟩
    simpa [isReady, items] using ready

theorem pop_of_due {node : MessageBufferNode μ} {rest : List (MessageBufferNode μ)}
    (head : b.prioHeap.items = node :: rest) (due : node.time ≤ g.time) :
    b.pop g = .ok (node.message, b.countPop g) := by
  have ready : b.isReady g = true := by simpa [isReady, head] using due
  unfold pop
  split
  · simp_all
  · rename_i items
    cases head.symm.trans items
    rw [require_of ready, ok_bind]
    rfl

theorem stallMessage_ok (h : b.stallMessage g addr = .ok b') :
    ∃ node rest, b.prioHeap.items = node :: rest ∧ node.time ≤ g.time ∧
      b' = { b.countPop g with stallMsgMap := stall addr node.message b.stallMsgMap } := by
  unfold stallMessage at h
  obtain ⟨_, _, h⟩ := bind_ok h
  obtain ⟨_, _, h⟩ := bind_ok h
  obtain ⟨⟨message, popped⟩, taken, h⟩ := bind_ok h
  obtain ⟨node, rest, items, due, rfl, rfl⟩ := pop_ok taken
  exact ⟨node, rest, items, due, pure_ok h⟩

theorem recycle_ok (h : b.recycle g = .ok b') : ∃ node rest, b.prioHeap.items = node :: rest ∧
      b' = { b with prioHeap :=
        b.prioHeap.pop.insert { node with time := g.time + b.recycleLatency } } := by
  unfold recycle at h
  split at h
  · cases h
  · rename_i node rest items
    obtain ⟨_, _, h⟩ := bind_ok h
    exact ⟨node, rest, items, pure_ok h⟩

theorem delayHead_ok (h : b.delayHead g draws = .ok b') :
    ∃ node rest, b.prioHeap.items = node :: rest ∧
      { b with prioHeap := b.prioHeap.pop }.enqueue g node.message 1 draws = .ok b' := by
  unfold delayHead at h
  split at h
  · cases h
  · rename_i node rest items
    exact ⟨node, rest, items, h⟩

theorem reanalyzeMessages_ok (h : b.reanalyzeMessages g addr = .ok b') :
    addr ∈ b.stallMsgMap.map Prod.fst ∧
    b' = { (stalled b.stallMsgMap addr).foldl (reenter g) b with
      stallMsgMap := b.stallMsgMap.filter fun entry => entry.1 ≠ addr } := by
  unfold reanalyzeMessages at h
  obtain ⟨_, known, h⟩ := bind_ok h
  exact ⟨require_ok known, pure_ok h⟩

theorem reenter_all (g : Globals) (messages : List (Message μ)) (b : MessageBuffer μ) :
    ∃ prioHeap msgCounter, messages.foldl (reenter g) b = { b with prioHeap, msgCounter } ∧
      prioHeap.items.length = b.prioHeap.items.length + messages.length := by
  induction messages generalizing b with
  | nil => exact ⟨b.prioHeap, b.msgCounter, rfl, rfl⟩
  | cons message rest ih =>
    obtain ⟨prioHeap, msgCounter, same, length⟩ := ih (b.reenter g message)
    refine ⟨prioHeap, msgCounter, same, ?_⟩
    simp only [length, reenter, push, PriorityQueue.length_insert, List.length_cons]
    omega

end Specs

end MessageBuffer

end SynchroTrace.Ruby
