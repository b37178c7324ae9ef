import SynchroTrace.Lib.Transition
import SynchroTrace.Ruby.MessageBuffer

namespace SynchroTrace.Ruby
open Transition MessageBuffer List Outcome

/-- A buffer in the course of a run. Nothing of the buffer reads the last three fields. -/
structure BufferRun (μ : Type) where
  globals : Globals
  buffer : MessageBuffer μ
  granted : Nat
  /-- The calls of `delayHead` since the buffer was cleared. -/
  delayed : Nat
  /-- The messages that were put back onto the heap since the buffer was cleared. -/
  reanalyzed : Nat

namespace BufferRun
variable {μ : Type}

inductive Call (μ : Type) where
  | advance (time : Nat) (warmupEnabled : Bool)
  | areNSlotsAvailable (n : Int)
  | enqueue (message : Message μ) (delta : Nat) (draws : Nat × Nat × Nat)
  | pop
  | recycle
  | delayHead (draws : Nat × Nat × Nat)
  | stallMessage (addr : Nat)
  | reanalyzeMessages (addr : Nat)
  | reanalyzeAllMessages
  | clear

def perform (s : BufferRun μ) : Call μ → Except MessageBuffer.Fault (BufferRun μ)
  | .advance time warmupEnabled => do
    require (s.globals.time ≤ time) .assertion
    return { s with
      globals := { s.globals with time, warmupEnabled }
      granted := if s.globals.time < time then 0 else s.granted }
  | .areNSlotsAvailable n =>
    let (available, buffer) := s.buffer.areNSlotsAvailable s.globals n
    .ok { s with buffer, granted := if available then max s.granted n.toNat else s.granted }
  | .enqueue message delta draws => do
    let buffer ← s.buffer.enqueue s.globals message delta draws
    return { s with buffer, granted := s.granted - 1 }
  | .pop => do
    let (_, buffer) ← s.buffer.pop s.globals
    return { s with buffer }
  | .recycle => do
    let buffer ← s.buffer.recycle s.globals
    return { s with buffer }
  | .delayHead draws => do
    let buffer ← s.buffer.delayHead s.globals draws
    return { s with buffer, delayed := s.delayed + 1 }
  | .stallMessage addr => do
    let buffer ← s.buffer.stallMessage s.globals addr
    return { s with buffer }
  | .reanalyzeMessages addr => do
    let buffer ← s.buffer.reanalyzeMessages s.globals addr
    return { s with
      buffer, reanalyzed := s.reanalyzed + (stalled s.buffer.stallMsgMap addr).length }
  | .reanalyzeAllMessages =>
    .ok { s with
      buffer := s.buffer.reanalyzeAllMessages s.globals
      reanalyzed := s.reanalyzed + (s.buffer.stallMsgMap.flatMap Prod.snd).length }
  | .clear => .ok { s with buffer := s.buffer.clear, delayed := 0, reanalyzed := 0 }

structure Initial (s : BufferRun μ) : Prop where
  heap : s.buffer.prioHeap.items = []
  stallMap : s.buffer.stallMsgMap = []
  size : s.buffer.size = 0
  timeEnqueue : s.buffer.timeLastTimeEnqueue = 0
  timePop : s.buffer.timeLastTimePop = 0
  cycleStart : s.buffer.sizeAtCycleStart = 0
  thisCycle : s.buffer.msgsThisCycle = 0
  granted : s.granted = 0
  delayed : s.delayed = 0
  reanalyzed : s.reanalyzed = 0

end BufferRun

def bufferRuns (μ : Type) : System (BufferRun μ) (BufferRun.Call μ) :=
  ofFunction BufferRun.Initial BufferRun.perform

namespace BufferRun
variable {μ : Type} {s s' : BufferRun μ}

/-- The counted size is off by the messages that were delayed and those that were put back. -/
def Balanced (s : BufferRun μ) : Prop :=
  s.buffer.size + s.reanalyzed = s.buffer.prioHeap.items.length + s.delayed

theorem Balanced.perform {call : Call μ} (balanced : Balanced s) (h : s.perform call = .ok s') :
    Balanced s' := by
  unfold Balanced at *
  cases call with
  | advance time warmupEnabled =>
    obtain ⟨_, _, h⟩ := bind_ok h
    obtain rfl := pure_ok h
    exact balanced
  | areNSlotsAvailable n =>
    obtain ⟨notAvailCount, checked⟩ := areNSlotsAvailable_eq s.globals s.buffer n
    rw [BufferRun.perform, checked] at h
    cases h
    exact balanced
  | enqueue message delta draws =>
    obtain ⟨buffer, done, h⟩ := bind_ok h
    obtain rfl := pure_ok h
    obtain ⟨-, -, rfl⟩ := enqueue_ok done
    simp only [push, PriorityQueue.length_insert, countEnqueue]
    omega
  | pop =>
    obtain ⟨⟨message, buffer⟩, done, h⟩ := bind_ok h
    obtain rfl := pure_ok h
    obtain ⟨node, rest, items, -, -, rfl⟩ := pop_ok done
    simp only [countPop, PriorityQueue.pop_items, items, tail_cons, length_cons] at *
    omega
  | recycle =>
    obtain ⟨buffer, done, h⟩ := bind_ok h
    obtain rfl := pure_ok h
    obtain ⟨node, rest, items, rfl⟩ := recycle_ok done
    simp only [PriorityQueue.length_insert, PriorityQueue.pop_items, items, tail_cons,
      length_cons] at *
    omega
  | delayHead draws =>
    obtain ⟨buffer, done, h⟩ := bind_ok h
    obtain rfl := pure_ok h
    obtain ⟨node, rest, items, done⟩ := delayHead_ok done
    obtain ⟨-, -, rfl⟩ := enqueue_ok done
    simp only [push, PriorityQueue.length_insert, countEnqueue, PriorityQueue.pop_items, items,
      tail_cons, length_cons] at *
    omega
  | stallMessage addr =>
    obtain ⟨buffer, done, h⟩ := bind_ok h
    obtain rfl := pure_ok h
    obtain ⟨node, rest, items, -, rfl⟩ := stallMessage_ok done
    simp only [countPop, PriorityQueue.pop_items, items, tail_cons, length_cons] at *
    omega
  | reanalyzeMessages addr =>
    obtain ⟨buffer, done, h⟩ := bind_ok h
    obtain rfl := pure_ok h
    obtain ⟨-, rfl⟩ := reanalyzeMessages_ok done
    obtain ⟨prioHeap, msgCounter, same, length⟩ :=
      reenter_all s.globals (stalled s.buffer.stallMsgMap addr) s.buffer
    simp only [same, length]
    omega
  | reanalyzeAllMessages =>
    cases h
    obtain ⟨prioHeap, msgCounter, same, length⟩ :=
      reenter_all s.globals (s.buffer.stallMsgMap.flatMap Prod.snd) s.buffer
    simp only [MessageBuffer.reanalyzeAllMessages, same, length]
    omega
  | clear =>
    cases h
    rfl

theorem reachable_balanced (reach : Reachable (bufferRuns μ) s) : Balanced s := by
  refine reach.invariant Balanced (fun s start => ?_) fun s call next _ _ balanced step =>
    balanced.perform step
  have start : Initial s := start
  simp [Balanced, start.heap, start.size, start.delayed, start.reanalyzed]

/-- The calls that keep the counted size right: the head is not delayed and no stalled message is
put back. -/
def Counted (s : BufferRun μ) : Call μ → Prop
  | .delayHead _ => False
  | .reanalyzeMessages addr => stalled s.buffer.stallMsgMap addr = []
  | .reanalyzeAllMessages => s.buffer.stallMsgMap.flatMap Prod.snd = []
  | _ => True

/-- The producer enqueues only what it was granted in the same cycle. -/
def Granted (s : BufferRun μ) : Call μ → Prop
  | .enqueue .. => 0 < s.granted
  | _ => True

instance (s : BufferRun μ) (call : Call μ) : Decidable (Counted s call) :=
  match call with
  | .delayHead _ => .isFalse id
  | .reanalyzeMessages addr => inferInstanceAs (Decidable (stalled s.buffer.stallMsgMap addr = []))
  | .reanalyzeAllMessages =>
    inferInstanceAs (Decidable (s.buffer.stallMsgMap.flatMap Prod.snd = []))
  | .advance .. | .areNSlotsAvailable _ | .enqueue .. | .pop | .recycle | .stallMessage _
  | .clear => .isTrue trivial

instance (s : BufferRun μ) (call : Call μ) : Decidable (Granted s call) :=
  match call with
  | .enqueue .. => inferInstanceAs (Decidable (0 < s.granted))
  | .advance .. | .areNSlotsAvailable _ | .pop | .recycle | .delayHead _ | .stallMessage _
  | .reanalyzeMessages _ | .reanalyzeAllMessages | .clear => .isTrue trivial

theorem counted_even {s : BufferRun μ} (reach : ReachableVia (bufferRuns μ) Counted s) :
    s.delayed = 0 ∧ s.reanalyzed = 0 := by
  refine reach.invariant (fun s => s.delayed = 0 ∧ s.reanalyzed = 0)
    (fun s start => ⟨Initial.delayed start, Initial.reanalyzed start⟩) ?_
  intro s call next _ counted even (h : s.perform call = .ok next)
  cases call with
  | delayHead draws => exact counted.elim
  | reanalyzeMessages addr =>
    obtain ⟨buffer, -, h⟩ := bind_ok h
    obtain rfl := pure_ok h
    exact ⟨even.1, by simp [even.2, show stalled s.buffer.stallMsgMap addr = [] from counted]⟩
  | reanalyzeAllMessages =>
    cases h
    exact ⟨even.1, by simp only [even.2, show s.buffer.stallMsgMap.flatMap Prod.snd = [] from counted,
      length_nil]⟩
  | areNSlotsAvailable n =>
    cases h
    exact even
  | clear =>
    cases h
    exact ⟨rfl, rfl⟩
  | advance | enqueue | pop | recycle | stallMessage =>
    obtain ⟨_, -, h⟩ := bind_ok h
    obtain rfl := pure_ok h
    exact even

/-- The messages of this cycle as `areNSlotsAvailable` sees them, while there were pops in it. -/
structure Bounded (s : BufferRun μ) : Prop where
  pops : s.buffer.timeLastTimePop ≤ s.globals.time
  enqueues : s.buffer.timeLastTimeEnqueue ≤ s.globals.time
  visible : s.buffer.size ≤ s.buffer.currentSize s.globals
  thisCycle : 0 ≤ s.buffer.msgsThisCycle
  room : 0 ≤ s.buffer.maxSize → s.buffer.size + s.granted ≤ s.buffer.maxSize

theorem currentSize_countEnqueue (g : Globals) (b : MessageBuffer μ) :
    (b.countEnqueue g).currentSize g = b.currentSize g + 1 := by
  simp only [currentSize, countEnqueue]
  by_cases first : b.timeLastTimeEnqueue < g.time
  · simp only [first, if_true, Nat.lt_irrefl, if_false]
    split <;> omega
  · simp only [first, if_false]
    split <;> omega

theorem currentSize_countPop {g : Globals} {b : MessageBuffer μ} (thisCycle : 0 ≤ b.msgsThisCycle) :
    b.currentSize g ≤ (b.countPop g).currentSize g := by
  simp only [currentSize, countPop]
  split_ifs <;> omega

theorem Bounded.enqueue {buffer : MessageBuffer μ} (bounded : Bounded s) (granted : 0 < s.granted)
    (size : buffer.size = s.buffer.size + 1)
    (same : ∃ prioHeap lastArrivalTime, buffer =
      { s.buffer.countEnqueue s.globals with prioHeap, lastArrivalTime }) :
    Bounded { s with buffer, granted := s.granted - 1 } := by
  obtain ⟨prioHeap, lastArrivalTime, rfl⟩ := same
  have visible := currentSize_countEnqueue s.globals s.buffer
  refine ⟨bounded.pops, ?_, ?_, ?_, fun limited => ?_⟩
  · have := bounded.enqueues
    simp only [countEnqueue]
    split_ifs <;> omega
  · have := bounded.visible
    show s.buffer.size + 1 ≤ (s.buffer.countEnqueue s.globals).currentSize s.globals
    omega
  · have := bounded.thisCycle
    simp only [countEnqueue]
    split_ifs <;> omega
  · have := bounded.room limited
    show s.buffer.size + 1 + ((s.granted - 1 : Nat) : Int) ≤ s.buffer.maxSize
    omega

theorem Bounded.countPop (bounded : Bounded s) :
    Bounded { s with buffer := s.buffer.countPop s.globals } := by
  have visible := currentSize_countPop (g := s.globals) bounded.thisCycle
  refine ⟨?_, bounded.enqueues, ?_, bounded.thisCycle, fun limited => ?_⟩
  · have := bounded.pops
    simp only [MessageBuffer.countPop]
    split_ifs <;> omega
  · have := bounded.visible
    show s.buffer.size - 1 ≤ (s.buffer.countPop s.globals).currentSize s.globals
    omega
  · have := bounded.room limited
    show s.buffer.size - 1 + (s.granted : Int) ≤ s.buffer.maxSize
    omega

theorem Bounded.perform {call : Call μ} (bounded : Bounded s) (counted : Counted s call)
    (granted : Granted s call) (nonneg : 0 ≤ s.buffer.size) (h : s.perform call = .ok s') :
    Bounded s' := by
  cases call with
  | advance time warmupEnabled =>
    obtain ⟨_, later, h⟩ := bind_ok h
    obtain rfl := pure_ok h
    have later := require_ok later
    obtain ⟨pops, enqueues, visible, thisCycle, room⟩ := bounded
    refine ⟨Nat.le_trans pops later, Nat.le_trans enqueues later, ?_, thisCycle, fun limited => ?_⟩
    · simp only [currentSize] at *
      split_ifs at * <;> omega
    · have := room limited
      dsimp only
      split_ifs <;> omega
  | areNSlotsAvailable n =>
    obtain ⟨notAvailCount, checked⟩ := areNSlotsAvailable_eq s.globals s.buffer n
    rw [BufferRun.perform, checked] at h
    cases h
    refine ⟨bounded.pops, bounded.enqueues, bounded.visible, bounded.thisCycle, fun limited => ?_⟩
    have room := bounded.room limited
    have visible := bounded.visible
    dsimp only at limited ⊢
    split
    · rename_i available
      have fits := (of_decide_eq_true available).resolve_left (by omega)
      omega
    · exact room
  | enqueue message delta draws =>
    obtain ⟨buffer, done, h⟩ := bind_ok h
    obtain rfl := pure_ok h
    obtain ⟨-, -, rfl⟩ := enqueue_ok done
    exact bounded.enqueue granted rfl ⟨_, _, rfl⟩
  | pop =>
    obtain ⟨⟨message, buffer⟩, done, h⟩ := bind_ok h
    obtain rfl := pure_ok h
    obtain ⟨-, -, -, -, -, rfl⟩ := pop_ok done
    exact bounded.countPop
  | recycle =>
    obtain ⟨buffer, done, h⟩ := bind_ok h
    obtain rfl := pure_ok h
    obtain ⟨-, -, -, rfl⟩ := recycle_ok done
    exact ⟨bounded.pops, bounded.enqueues, bounded.visible, bounded.thisCycle, bounded.room⟩
  | delayHead draws => exact counted.elim
  | stallMessage addr =>
    obtain ⟨buffer, done, h⟩ := bind_ok h
    obtain rfl := pure_ok h
    obtain ⟨-, -, -, -, rfl⟩ := stallMessage_ok done
    obtain ⟨pops, enqueues, visible, thisCycle, room⟩ := bounded.countPop
    exact ⟨pops, enqueues, visible, thisCycle, room⟩
  | reanalyzeMessages addr =>
    obtain ⟨buffer, done, h⟩ := bind_ok h
    obtain rfl := pure_ok h
    obtain ⟨-, rfl⟩ := reanalyzeMessages_ok done
    rw [show stalled s.buffer.stallMsgMap addr = [] from counted]
    exact ⟨bounded.pops, bounded.enqueues, bounded.visible, bounded.thisCycle, bounded.room⟩
  | reanalyzeAllMessages =>
    cases h
    rw [MessageBuffer.reanalyzeAllMessages,
      show s.buffer.stallMsgMap.flatMap Prod.snd = [] from counted]
    exact ⟨bounded.pops, bounded.enqueues, bounded.visible, bounded.thisCycle, bounded.room⟩
  | clear =>
    cases h
    refine ⟨Nat.zero_le _, Nat.zero_le _, ?_, Int.le_refl _, fun limited => ?_⟩
    · simp only [currentSize, MessageBuffer.clear]
      split_ifs <;> omega
    · have := bounded.room limited
      show 0 + (s.granted : Int) ≤ s.buffer.maxSize
      omega

theorem Initial.bounded (start : Initial s) : Bounded s where
  pops := by simp [start.timePop]
  enqueues := by simp [start.timeEnqueue]
  visible := by
    simp only [currentSize, start.size, start.cycleStart, start.thisCycle]
    split_ifs <;> omega
  thisCycle := by simp [start.thisCycle]
  room limited := by simpa [start.size, start.granted] using limited

theorem counted_size (reach : ReachableVia (bufferRuns μ) Counted s) :
    s.buffer.size = s.buffer.prioHeap.items.length := by
  have balanced := reachable_balanced reach.reachable
  obtain ⟨delayed, reanalyzed⟩ := counted_even reach
  rw [Balanced, delayed, reanalyzed] at balanced
  simpa using balanced

theorem granted_bounded
    (reach : ReachableVia (bufferRuns μ) (fun s call => Counted s call ∧ Granted s call) s) :
    Bounded s := by
  refine reach.invariant Bounded (fun s start => Initial.bounded start) ?_
  intro s call next before ⟨counted, granted⟩ bounded step
  have size := counted_size (before.mono fun s call both => both.1)
  exact bounded.perform counted granted (by omega) step

/-- The counted size is the number of messages in the heap exactly when as many heads were delayed
as messages put back; without either, a producer that enqueues only what it was granted does not
exceed the capacity. -/
theorem buffer_size_accounting (s : BufferRun μ) :
    (Reachable (bufferRuns μ) s →
      (s.buffer.size = s.buffer.prioHeap.items.length ↔ s.delayed = s.reanalyzed)) ∧
    (ReachableVia (bufferRuns μ) Counted s → s.buffer.size = s.buffer.prioHeap.items.length) ∧
    (ReachableVia (bufferRuns μ) (fun s call => Counted s call ∧ Granted s call) s →
      0 ≤ s.buffer.maxSize → s.buffer.prioHeap.items.length ≤ s.buffer.maxSize) := by
  refine ⟨fun reach => ?_, counted_size, fun reach limited => ?_⟩
  · have balanced := reachable_balanced reach
    rw [Balanced] at balanced
    omega
  · have size := counted_size (reach.mono fun s call both => both.1)
    have room := (granted_bounded reach).room limited
    omega

def oneSlot : BufferRun Nat where
  globals := ⟨0, false, false, 6⟩
  buffer := { MessageBuffer.empty with maxSize := 1 }
  granted := 0
  delayed := 0
  reanalyzed := 0

theorem oneSlot_initial : Initial oneSlot := by
  constructor <;> rfl

def fresh (payload time : Nat) : Message Nat := ⟨payload, time, 0⟩

def filled : List (Call Nat) :=
  [.areNSlotsAvailable 1, .enqueue (fresh 7 0) 1 (0, 0, 0), .advance 1 false]

theorem buffer_size_accounting_filled :
    ∃ s : BufferRun Nat,
      ReachableVia (bufferRuns Nat) (fun s call => Counted s call ∧ Granted s call) s ∧
      s.buffer.maxSize = 1 ∧ s.buffer.prioHeap.items.length = 1 ∧ s.buffer.size = 1 ∧
      s.delayed = s.reanalyzed ∧ s.buffer.prioHeap.items.length ≤ s.buffer.maxSize := by
  have ran : (filled.foldlM (fun s call => if Counted s call ∧ Granted s call then s.perform call
        else .error .assertion) oneSlot).toOption.any (fun s => s.buffer.maxSize = 1 ∧
      s.buffer.prioHeap.items.length = 1) = true := by decide +kernel
  obtain ⟨s, reach, holds⟩ := foldlM_check_allowed Initial oneSlot_initial ran
  obtain ⟨slots, length⟩ := of_decide_eq_true holds
  obtain ⟨exact, counted, bounded⟩ := buffer_size_accounting s
  have size := counted (reach.mono fun s call both => both.1)
  exact ⟨s, reach, slots, length, by rw [size, length]; rfl, (exact reach.reachable).mp size,
    bounded reach (by omega)⟩

def delaying : List (Call Nat) := filled ++ [.delayHead (0, 0, 0)]

def returning : List (Call Nat) :=
  filled ++ [.stallMessage 0, .advance 2 false, .areNSlotsAvailable 1,
    .enqueue (fresh 8 2) 1 (0, 0, 0), .reanalyzeMessages 0]

/-- Messages that are put back are not counted, so that a buffer with one slot can hold two messages
although the producer enqueues only what it is granted. -/
theorem buffer_size_wrong :
    (∃ s : BufferRun Nat, Reachable (bufferRuns Nat) s ∧ s.buffer.size = 2 ∧
      s.buffer.prioHeap.items.length = 1) ∧
    ∃ s : BufferRun Nat, ReachableVia (bufferRuns Nat) Granted s ∧ s.buffer.maxSize = 1 ∧
      s.buffer.size = 1 ∧ s.buffer.prioHeap.items.length = 2 := by
  constructor
  · have ran : (delaying.foldlM perform oneSlot).toOption.any (fun s =>
        s.buffer.size = 2 ∧ s.buffer.prioHeap.items.length = 1) = true := by decide +kernel
    obtain ⟨s, reach, holds⟩ := foldlM_check Initial (fun _ _ _ => trivial) oneSlot_initial ran
    exact ⟨s, reach, by simpa using holds⟩
  · have ran : (returning.foldlM (fun s call => if Granted s call then s.perform call
          else .error .assertion) oneSlot).toOption.any (fun s => s.buffer.maxSize = 1 ∧
        s.buffer.size = 1 ∧ s.buffer.prioHeap.items.length = 2) = true := by decide +kernel
    obtain ⟨s, reach, holds⟩ := foldlM_check_allowed Initial oneSlot_initial ran
    exact ⟨s, reach, by simpa using holds⟩

end BufferRun

end SynchroTrace.Ruby
