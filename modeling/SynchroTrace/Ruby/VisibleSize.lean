import SynchroTrace.Ruby.BufferSize

namespace SynchroTrace.Ruby
open Transition MessageBuffer Outcome PriorityQueue

/-- A buffer in the course of a run. Nothing of the buffer reads the last four fields. -/
structure SlotRun (μ : Type) where
  globals : Globals
  buffer : MessageBuffer μ
  held : Nat
  enqueued : Nat
  /-- How many of them before the first pop of the cycle. -/
  early : Nat
  popped : Bool

namespace SlotRun
variable {μ : Type}

inductive Call (μ : Type) where
  | advance (time : Nat) (warmupEnabled : Bool)
  | areNSlotsAvailable (n : Int)
  | enqueue (message : Message μ) (delta : Nat) (draws : Nat × Nat × Nat)
  | pop

def perform (s : SlotRun μ) : Call μ → Except MessageBuffer.Fault (SlotRun μ)
  | .advance time warmupEnabled => do
    require (s.globals.time ≤ time) .assertion
    let globals := { s.globals with time, warmupEnabled }
    if s.globals.time < time then
      return ⟨globals, s.buffer, s.buffer.prioHeap.items.length, 0, 0, false⟩
    else return { s with globals }
  | .areNSlotsAvailable n => .ok { s with buffer := (s.buffer.areNSlotsAvailable s.globals n).2 }
  | .enqueue message delta draws => do
    let buffer ← s.buffer.enqueue s.globals message delta draws
    return { s with
      buffer, enqueued := s.enqueued + 1, early := if s.popped then s.early else s.early + 1 }
  | .pop => do
    let (_, buffer) ← s.buffer.pop s.globals
    return { s with buffer, popped := true }

structure Initial (s : SlotRun μ) : Prop where
  heap : s.buffer.prioHeap.items = []
  size : s.buffer.size = 0
  timeEnqueue : s.buffer.timeLastTimeEnqueue = 0
  timePop : s.buffer.timeLastTimePop = 0
  cycleStart : s.buffer.sizeAtCycleStart = 0
  thisCycle : s.buffer.msgsThisCycle = 0
  held : s.held = 0
  enqueued : s.enqueued = 0
  early : s.early = 0
  popped : s.popped = false

end SlotRun

def slotRuns (μ : Type) : System (SlotRun μ) (SlotRun.Call μ) :=
  ofFunction SlotRun.Initial SlotRun.perform

namespace SlotRun
variable {μ : Type} {s s' : SlotRun μ} {b : MessageBuffer μ}

theorem arrivalTime_pos {g : Globals} {delta : Nat} (positive : 0 < delta)
    (draws : Nat × Nat × Nat) : 0 < b.arrivalTime g delta draws := by
  have drawn : 0 < randomTime draws := by
    rw [randomTime]
    omega
  rw [MessageBuffer.arrivalTime]
  split_ifs <;> omega

/-- The counters of the buffer, in terms of what has happened in the cycle. -/
structure Counted (s : SlotRun μ) : Prop where
  size : s.buffer.size = s.buffer.prioHeap.items.length
  arrivals : ∀ node ∈ s.buffer.prioHeap.items, 0 < node.time
  enqueues : s.buffer.timeLastTimeEnqueue = s.globals.time ∧ s.buffer.msgsThisCycle = s.enqueued ∨
    s.buffer.timeLastTimeEnqueue < s.globals.time ∧ s.enqueued = 0
  pops : s.popped = true ∧ s.buffer.timeLastTimePop = s.globals.time ∧
      s.buffer.sizeAtCycleStart = s.held + s.early ∨
    s.popped = false ∧ s.buffer.size = s.held + s.enqueued ∧ s.early = s.enqueued ∧
      (s.buffer.timeLastTimePop < s.globals.time ∨ s.globals.time = 0 ∧
        s.buffer.timeLastTimePop = 0 ∧ s.buffer.sizeAtCycleStart = 0 ∧ s.held = 0)

theorem Counted.currentSize (counted : Counted s) : s.buffer.currentSize s.globals =
    s.held + s.enqueued + if s.popped = true then s.early else 0 := by
  obtain ⟨-, -, enqueues, pops⟩ := counted
  rw [MessageBuffer.currentSize]
  obtain ⟨popped, time, start⟩ | ⟨unpopped, size, -, before | ⟨zero, time, start, none⟩⟩ := pops
  · rw [if_neg (by omega), if_pos popped, start]
    obtain ⟨now, count⟩ | ⟨before, none⟩ := enqueues
    · rw [if_neg (by omega), count]
      omega
    · rw [if_pos before, none]
      omega
  · rw [if_pos before, if_neg (by simp [unpopped]), size]
    omega
  · -- in cycle 0 nothing can be popped
    rw [if_neg (by omega), if_neg (by omega), if_neg (by simp [unpopped]), start, none]
    obtain ⟨-, count⟩ | ⟨before, -⟩ := enqueues
    · rw [count]
      omega
    · omega

theorem Counted.advance (counted : Counted s) {time : Nat} {warmupEnabled : Bool}
    (h : s.perform (.advance time warmupEnabled) = .ok s') : Counted s' := by
  obtain ⟨size, arrivals, enqueues, pops⟩ := counted
  obtain ⟨_, later, h⟩ := bind_ok h
  have later := require_ok later
  split at h
  · rename_i next
    obtain rfl := pure_ok h
    refine ⟨size, arrivals, .inr ⟨?_, rfl⟩, .inr ⟨rfl, by simpa using size, rfl, .inl ?_⟩⟩
    · show s.buffer.timeLastTimeEnqueue < time
      omega
    · show s.buffer.timeLastTimePop < time
      omega
  · rename_i same
    obtain rfl := pure_ok h
    obtain rfl : time = s.globals.time := by omega
    exact ⟨size, arrivals, enqueues, pops⟩

theorem Counted.enqueue (counted : Counted s) {message : Message μ} {delta : Nat}
    {draws : Nat × Nat × Nat} (h : s.perform (.enqueue message delta draws) = .ok s') :
    Counted s' := by
  obtain ⟨size, arrivals, enqueues, pops⟩ := counted
  obtain ⟨buffer, done, h⟩ := bind_ok h
  obtain rfl := pure_ok h
  obtain ⟨positive, -, rfl⟩ := enqueue_ok done
  refine ⟨?_, fun node member => ?_, .inl ?_, ?_⟩
  · simp only [push, length_insert, countEnqueue]
    omega
  · obtain rfl | member := mem_insert.mp member
    · exact arrivalTime_pos positive draws
    · exact arrivals node member
  · obtain ⟨now, count⟩ | ⟨before, none⟩ := enqueues
    · exact ⟨by simp [push, countEnqueue, now], by simp [push, countEnqueue, now, count]⟩
    · exact ⟨by simp [push, countEnqueue, before], by simp [push, countEnqueue, before, none]⟩
  · obtain ⟨popped, time, start⟩ | ⟨unpopped, count, all, rest⟩ := pops
    · exact .inl ⟨popped, time, by simpa [push, countEnqueue, popped] using start⟩
    · refine .inr ⟨unpopped, ?_, by simp [unpopped, all], rest⟩
      show s.buffer.size + 1 = s.held + ((s.enqueued + 1 : Nat) : Int)
      omega

theorem Counted.pop (counted : Counted s) (h : s.perform .pop = .ok s') : Counted s' := by
  obtain ⟨size, arrivals, enqueues, pops⟩ := counted
  obtain ⟨⟨message, buffer⟩, done, h⟩ := bind_ok h
  obtain rfl := pure_ok h
  obtain ⟨node, rest, items, due, -, rfl⟩ := pop_ok done
  have now : 0 < s.globals.time :=
    Nat.lt_of_lt_of_le (arrivals node (by simp [items])) due
  refine ⟨?_, fun other member => arrivals other ?_, enqueues, .inl ⟨rfl, ?_⟩⟩
  · simp only [countPop, pop_items, items, List.tail_cons, List.length_cons] at *
    omega
  · exact List.mem_of_mem_tail (pop_items s.buffer.prioHeap ▸ member)
  · simp only [countPop]
    obtain ⟨-, time, start⟩ | ⟨-, count, all, before⟩ := pops
    · rw [if_neg (by omega), if_neg (by omega)]
      exact ⟨time, start⟩
    · rw [if_pos (by omega), if_pos (by omega), all]
      exact ⟨rfl, count⟩

theorem reachable_counted (reach : Reachable (slotRuns μ) s) : Counted s := by
  refine reach.invariant Counted (fun s start => ?_) fun s call next _ _ counted step => ?_
  · have start : Initial s := start
    refine ⟨by simp [start.size, start.heap], by simp [start.heap], ?_, .inr ⟨start.popped, ?_⟩⟩
    · rw [start.timeEnqueue, start.thisCycle, start.enqueued]
      obtain zero | positive := Nat.eq_zero_or_pos s.globals.time
      · exact .inl ⟨zero.symm, rfl⟩
      · exact .inr ⟨positive, rfl⟩
    · rw [start.size, start.held, start.enqueued, start.early, start.timePop, start.cycleStart]
      refine ⟨rfl, rfl, ?_⟩
      obtain zero | positive := Nat.eq_zero_or_pos s.globals.time
      · exact .inr ⟨zero, rfl, rfl, rfl⟩
      · exact .inl positive
  · have step : s.perform call = .ok next := step
    cases call with
    | advance => exact counted.advance step
    | areNSlotsAvailable n =>
      obtain ⟨notAvailCount, checked⟩ := areNSlotsAvailable_eq s.globals s.buffer n
      rw [SlotRun.perform, checked] at step
      cases step
      exact ⟨counted.size, counted.arrivals, counted.enqueues, counted.pops⟩
    | enqueue => exact counted.enqueue step
    | pop => exact counted.pop step

/-- What `areNSlotsAvailable` is to tell. -/
def Fits (s : SlotRun μ) (n : Int) : Prop := s.held + s.enqueued + n ≤ s.buffer.maxSize

/-- A bounded buffer tells the available slots right unless a message was enqueued in this cycle
before the first pop of the cycle. -/
theorem slots_available_iff (reach : Reachable (slotRuns μ) s) (bounded : s.buffer.maxSize ≠ -1) :
    (∀ n, (s.buffer.areNSlotsAvailable s.globals n).1 = true ↔ s.Fits n) ↔
      ¬ (s.popped = true ∧ 0 < s.early) := by
  have visible := (reachable_counted reach).currentSize
  have told (n : Int) : (s.buffer.areNSlotsAvailable s.globals n).1 = true ↔
      s.buffer.currentSize s.globals + n ≤ s.buffer.maxSize := by
    obtain ⟨notAvailCount, checked⟩ := areNSlotsAvailable_eq s.globals s.buffer n
    rw [checked, decide_eq_true_iff]
    exact or_iff_right bounded
  simp only [told, visible, Fits]
  constructor
  · rintro exactly ⟨popped, early⟩
    have fits := (exactly (s.buffer.maxSize - s.held - s.enqueued)).mpr (by omega)
    rw [if_pos popped] at fits
    omega
  · intro inOrder n
    split_ifs with popped
    · have none : s.early = 0 := by
        by_contra some
        exact inOrder ⟨popped, Nat.pos_of_ne_zero some⟩
      rw [none]
      omega
    · omega

def fourSlots : SlotRun Nat where
  globals := BufferRun.oneSlot.globals
  buffer := { BufferRun.oneSlot.buffer with maxSize := 4 }
  held := 0
  enqueued := 0
  early := 0
  popped := false

theorem fourSlots_initial : Initial fourSlots := by
  constructor <;> rfl

def twoHeld : List (Call Nat) :=
  [.enqueue (BufferRun.fresh 1 0) 1 (0, 0, 0), .enqueue (BufferRun.fresh 2 0) 1 (0, 0, 0),
    .advance 1 false]

def popFirst : List (Call Nat) := twoHeld ++ [.pop, .enqueue (BufferRun.fresh 3 1) 1 (0, 0, 0)]

def enqueueFirst : List (Call Nat) := twoHeld ++ [.enqueue (BufferRun.fresh 3 1) 1 (0, 0, 0), .pop]

/-- A pop and then an enqueue: three messages are seen. -/
theorem slots_available_iff_fourSlots :
    ∃ s : SlotRun Nat, Reachable (slotRuns Nat) s ∧ s.buffer.prioHeap.items.length = 2 ∧
      s.held = 2 ∧ s.enqueued = 1 ∧
      ∀ n, (s.buffer.areNSlotsAvailable s.globals n).1 = true ↔ n ≤ 1 := by
  have ran : (popFirst.foldlM perform fourSlots).toOption.any (fun s =>
      s.buffer.prioHeap.items.length = 2 ∧ s.held = 2 ∧ s.enqueued = 1 ∧ s.early = 0 ∧
        s.buffer.maxSize = 4) = true := by decide +kernel
  obtain ⟨s, reach, checked⟩ := foldlM_check Initial (fun _ _ _ => trivial) fourSlots_initial ran
  obtain ⟨length, held, enqueued, early, maxSize⟩ := of_decide_eq_true checked
  have told := (slots_available_iff reach (by omega)).mpr (by simp [early])
  refine ⟨s, reach, length, held, enqueued, fun n => ?_⟩
  rw [told n, Fits, held, enqueued, maxSize]
  omega

/-- An enqueue and then a pop: there is room for one more message, and none is allowed. -/
theorem enqueue_counted_twice :
    ∃ s : SlotRun Nat, Reachable (slotRuns Nat) s ∧ s.buffer.maxSize ≠ -1 ∧ s.Fits 1 ∧
      (s.buffer.areNSlotsAvailable s.globals 1).1 = false := by
  have ran : (enqueueFirst.foldlM perform fourSlots).toOption.any (fun s =>
      s.buffer.maxSize ≠ -1 ∧ (s.held : Int) + s.enqueued + 1 ≤ s.buffer.maxSize ∧
        (s.buffer.areNSlotsAvailable s.globals 1).1 = false) = true := by decide +kernel
  obtain ⟨s, reach, checked⟩ := foldlM_check Initial (fun _ _ _ => trivial) fourSlots_initial ran
  obtain ⟨bounded, fits, told⟩ := of_decide_eq_true checked
  exact ⟨s, reach, bounded, fits, told⟩

end SlotRun

end SynchroTrace.Ruby
