import SynchroTrace.Lib.Lock
import SynchroTrace.Replay.Conservation

namespace SynchroTrace.Replay
open Outcome Transition

inductive LockKind where
  | mutex | spin
  deriving DecidableEq, Repr

namespace LockKind

def lockType : LockKind → PthreadType
  | .mutex => .mutexLk
  | .spin => .spinLk

def unlockType : LockKind → PthreadType
  | .mutex => .mutexUlk
  | .spin => .spinUlk

def table : LockKind → Sync → Finset Nat
  | .mutex, y => y.mutexLocks
  | .spin, y => y.spinLocks

def fault : LockKind → Fault
  | .mutex => .mutexNotLocked
  | .spin => .spinNotLocked

def op? (k : LockKind) (addr : Nat) (e : TraceEvent) : Option Bool :=
  if e.kind = .pthreadApi k.lockType addr then some true
  else if e.kind = .pthreadApi k.unlockType addr then some false
  else none

def ops (k : LockKind) (events : List TraceEvent) (addr : Nat) : List Bool :=
  events.filterMap (k.op? addr)

theorem ops_append (k : LockKind) (events more : List TraceEvent) (addr : Nat) :
    k.ops (events ++ more) addr = k.ops events addr ++ k.ops more addr :=
  List.filterMap_append

theorem lockType_ne_unlockType (k : LockKind) : k.lockType ≠ k.unlockType := by
  cases k <;> simp [lockType, unlockType]

end LockKind

/-- Every thread locks and unlocks each lock in turn, starting with a lock. -/
def Config.LocksAlternate (cfg : Config) (k : LockKind) : Prop :=
  ∀ t < cfg.numThreads, ∀ addr, Lock.alternates true (k.ops (cfg.trace t) addr) = true

def Holds (k : LockKind) (history : List Obs) (t addr : Nat) : Prop :=
  (k.ops (retiredBy history t) addr).getLast? = some true

def Threads.locks (k : LockKind) (a : Threads) : Lock.State Nat Nat where
  locked := {addr | addr ∈ k.table a.sync}
  holds := Holds k a.history

section Calls

variable {cfg : Config} {t addr : Nat} {Ended : Nat → Prop} {y sync : Sync} {type : PthreadType}
  {visit : Visit} {seen : List Obs}

variable (h : Call cfg t addr Ended y type sync visit seen)
include h

variable {k : LockKind}

theorem Call.lock_ok (lock : type = k.lockType) :
    (visit = .waiting ∧ k.table sync = k.table y) ∨
      (visit = .consumed ∧ addr ∉ k.table y ∧ k.table sync = insert addr (k.table y)) := by
  cases k with
  | mutex =>
    cases h with
    | lockBusy => exact Or.inl ⟨rfl, rfl⟩
    | lock free => exact Or.inr ⟨rfl, free, rfl⟩
    | condition which => rcases which with rfl | rfl <;> cases lock
    | _ => cases lock
  | spin =>
    cases h with
    | spinBusy => exact Or.inl ⟨rfl, rfl⟩
    | spinLock free => exact Or.inr ⟨rfl, free, rfl⟩
    | condition which => rcases which with rfl | rfl <;> cases lock
    | _ => cases lock

theorem Call.unlock_ok (unlock : type = k.unlockType) :
    visit = .consumed ∧ k.table sync = (k.table y).erase addr := by
  cases k with
  | mutex =>
    cases h with
    | unlock => exact ⟨rfl, rfl⟩
    | condition which => rcases which with rfl | rfl <;> cases unlock
    | _ => cases unlock
  | spin =>
    cases h with
    | spinUnlock => exact ⟨rfl, rfl⟩
    | condition which => rcases which with rfl | rfl <;> cases unlock
    | _ => cases unlock

theorem Call.other_table (notLock : type ≠ k.lockType) (notUnlock : type ≠ k.unlockType) :
    k.table sync = k.table y := by
  have arrive : k.table (y.arrive t addr) = k.table y := by
    unfold Sync.arrive
    split <;> cases k <;> rfl
  cases h with
  | lock | spinLock =>
    cases k
    all_goals first | rfl | exact absurd rfl notLock
  | unlock | spinUnlock =>
    cases k
    all_goals first | rfl | exact absurd rfl notUnlock
  | barrierArrive | barrierRelease =>
    cases k <;> exact arrive
  | _ => cases k <;> rfl

end Calls

theorem holds_retired (k : LockKind) (history : List Obs) (t : Nat) (e : TraceEvent) (u addr : Nat) :
    Holds k (history ++ [.retired t e]) u addr ↔
      if u = t ∧ (k.op? addr e).isSome then k.op? addr e = some true else Holds k history u addr := by
  unfold Holds
  rw [retiredBy_append, retiredBy_retired, LockKind.ops_append]
  by_cases same : u = t
  · subst same
    cases op : k.op? addr e with
    | none => simp [LockKind.ops, op]
    | some b => simp [LockKind.ops, op]
  · simp [same, Ne.symm same, LockKind.ops]

variable {k : LockKind} {e : TraceEvent} {a : Threads}

theorem holds_append {history seen : List Obs} (retires : ∀ t, retiredBy seen t = []) :
    Holds k (history ++ seen) = Holds k history := by
  funext t addr
  unfold Holds
  rw [retiredBy_append, retires, List.append_nil]

theorem holds_other (other : ∀ addr, k.op? addr e = none) (history : List Obs) (t : Nat) :
    Holds k (history ++ [.retired t e]) = Holds k history := by
  funext u addr
  simp [holds_retired, other]

variable {addr t : Nat}

theorem op_lock (kind : e.kind = .pthreadApi k.lockType addr) (c : Nat) :
    k.op? c e = if c = addr then some true else none := by
  have different := k.lockType_ne_unlockType
  by_cases same : c = addr
  · simp [LockKind.op?, kind, same]
  · simp [LockKind.op?, kind, same, Ne.symm same, different]

theorem op_unlock (kind : e.kind = .pthreadApi k.unlockType addr) (c : Nat) :
    k.op? c e = if c = addr then some false else none := by
  have different := k.lockType_ne_unlockType
  by_cases same : c = addr
  · simp [LockKind.op?, kind, same, Ne.symm different]
  · simp [LockKind.op?, kind, same, Ne.symm same]

variable (rest : List TraceEvent)

theorem locks_acquired {sync : Sync} (kind : e.kind = .pthreadApi k.lockType addr)
    (free : addr ∉ k.table a.sync) (locked : k.table sync = insert addr (k.table a.sync)) :
    Lock.Step (a.locks k) (Threads.locks k (Threads.retire { a with sync } t e rest)) := by
  have after : Threads.locks k (Threads.retire { a with sync } t e rest) =
      ⟨insert addr (a.locks k).locked, fun u b => u = t ∧ b = addr ∨ (a.locks k).holds u b⟩ := by
    refine Lock.State.ext ?_ ?_
    · ext c
      simp [Threads.locks, Threads.retire, locked]
    · funext u c
      simp only [Threads.locks, Threads.retire, holds_retired, op_lock kind, eq_iff_iff]
      by_cases here : c = addr <;> by_cases same : u = t <;> simp [here, same]
  rw [after]
  exact .acquire t addr free

theorem locks_released {sync : Sync} (kind : e.kind = .pthreadApi k.unlockType addr)
    (held : Holds k a.history t addr) (unlocked : k.table sync = (k.table a.sync).erase addr) :
    Lock.Step (a.locks k) (Threads.locks k (Threads.retire { a with sync } t e rest)) := by
  have after : Threads.locks k (Threads.retire { a with sync } t e rest) =
      ⟨(a.locks k).locked \ {addr}, fun u b => ¬ (u = t ∧ b = addr) ∧ (a.locks k).holds u b⟩ := by
    refine Lock.State.ext ?_ ?_
    · ext c
      simp [Threads.locks, Threads.retire, unlocked, and_comm]
    · funext u c
      simp only [Threads.locks, Threads.retire, holds_retired, op_unlock kind, eq_iff_iff]
      by_cases here : c = addr <;> by_cases same : u = t <;> simp [here, same]
  rw [after]
  exact .release t addr held

variable {cfg : Config}

theorem holds_before_unlock (alternate : cfg.LocksAlternate k) {rest : List TraceEvent}
    (simulated : t < cfg.numThreads) (conserved : retiredBy a.history t ++ a.todo t = cfg.trace t)
    (head : a.todo t = e :: rest) (kind : e.kind = .pthreadApi k.unlockType addr) :
    Holds k a.history t addr := by
  have turn := alternate t simulated addr
  have next : k.ops (e :: rest) addr = false :: k.ops rest addr := by
    simp [LockKind.ops, op_unlock kind]
  rw [← conserved, head, LockKind.ops_append, next] at turn
  exact Lock.last_before_unlock turn

theorem Threads.Step.locks (alternate : cfg.LocksAlternate k) {next : Threads}
    (h : Threads.Step cfg a next) (conserved : ∀ t, retiredBy a.history t ++ a.todo t = cfg.trace t) :
    next.locks k = a.locks k ∨ Lock.Step (a.locks k) (next.locks k) := by
  cases h with
  | @work t e rest simulated head kind =>
    left
    have other : ∀ addr, k.op? addr e = none := by
      intro addr
      simp [LockKind.op?, kind]
    exact Lock.State.ext rfl (holds_other other a.history t)
  | send => exact Or.inl (Lock.State.ext rfl (holds_append fun t => by simp))
  | @visit t e rest type addr sync visit seen simulated head kind started call =>
    -- what the call reports is not seen here
    have quiet : Holds k (a.history ++ seen) = Holds k a.history := holds_append call.retires_none
    have reported : Threads.locks k { a with history := a.history ++ seen } = a.locks k :=
      Lock.State.ext rfl quiet
    have same : retiredBy (a.history ++ seen) t ++ a.todo t = cfg.trace t := by
      rw [retiredBy_append, call.retires_none, List.append_nil, conserved t]
    by_cases lock : type = k.lockType
    · subst lock
      rcases call.lock_ok rfl with ⟨rfl, same⟩ | ⟨rfl, free, locked⟩
      · exact Or.inl (Lock.State.ext (by simp [Threads.locks, Threads.visited, same]) quiet)
      · right
        rw [← reported]
        exact locks_acquired rest kind free locked
    by_cases unlock : type = k.unlockType
    · subst unlock
      obtain ⟨rfl, unlocked⟩ := call.unlock_ok rfl
      right
      rw [← reported]
      exact locks_released rest kind
        (holds_before_unlock (a := { a with history := a.history ++ seen }) alternate simulated same
          head kind) unlocked
    left
    have table := call.other_table lock unlock
    have other : ∀ c, k.op? c e = none := by
      intro c
      simp [LockKind.op?, kind, lock, unlock]
    have retired := (holds_other other (a.history ++ seen) t).trans quiet
    cases visit with
    | waiting => exact Lock.State.ext (by simp [Threads.locks, Threads.visited, table]) quiet
    | skipped | consumed =>
      exact Lock.State.ext (by simp [Threads.locks, Threads.visited, Threads.retire, table]) retired

theorem start_locks (cfg : Config) (k : LockKind) : Lock.Safe ((Threads.start cfg).locks k) := by
  constructor
  · intro t u addr holds
    cases holds
  · intro addr
    constructor
    · cases k <;> simp [Threads.locks, Threads.start, State.threads, State.blank, LockKind.table]
    · rintro ⟨t, holds⟩
      cases holds

theorem changes_locks (alternate : cfg.LocksAlternate k)
    (steps : Relation.ReflTransGen (Threads.Step cfg) (Threads.start cfg) a) :
    (∀ t, retiredBy a.history t ++ a.todo t = cfg.trace t) ∧ Lock.Safe (a.locks k) := by
  refine steps_invariant (fun a => (∀ t, retiredBy a.history t ++ a.todo t = cfg.trace t) ∧
    Lock.Safe (a.locks k)) ?_ steps ⟨start_conserves cfg, start_locks cfg k⟩
  rintro a next step ⟨conserved, safe⟩
  refine ⟨fun t => (step.conserves t).trans (conserved t), ?_⟩
  rcases step.locks alternate conserved with same | locked
  · rw [same]
    exact safe
  · exact locked.safe safe

theorem retired_simulated (steps : Relation.ReflTransGen (Threads.Step cfg) (Threads.start cfg) a)
    (some : retiredBy a.history t ≠ []) : t < cfg.numThreads := by
  by_contra outside
  refine some (steps_invariant (fun a => retiredBy a.history t = []) ?_ steps rfl)
  intro a next step before
  have other : ∀ u < cfg.numThreads, u ≠ t := by
    rintro u inside rfl
    exact outside inside
  cases step with
  | work simulated => simpa [Threads.retire, other _ simulated] using before
  | send => simpa using before
  | @visit u e rest type addr sync visit seen simulated head kind started call =>
    cases visit with
    | waiting => simpa [Threads.visited, call.retires_none] using before
    | skipped | consumed =>
      simpa [Threads.visited, Threads.retire, call.retires_none, other _ simulated] using before

theorem visitFault_unlock (alternate : cfg.LocksAlternate k) {s : State} (shape : Shape cfg s)
    (steps : Relation.ReflTransGen (Threads.Step cfg) (Threads.start cfg) (s.threads cfg)) :
    ¬ VisitFault cfg s k.fault := by
  rintro ⟨t, e, rest, type, addr, queue, kind, started, refused⟩
  have free : type = k.unlockType ∧ addr ∉ k.table s.toSync := by
    rcases visitPthread_error refused with input | invalid | ⟨same, type, free⟩ | ⟨same, type, free⟩
    · cases k <;> simp [LockKind.fault, InputFault, inputFaults] at input
    · cases k <;> cases invalid
    · cases k
      · exact ⟨type, free⟩
      · cases same
    · cases k
      · cases same
      · exact ⟨type, free⟩
  obtain ⟨conserved, safe⟩ := changes_locks alternate steps
  obtain ⟨later, head⟩ := todo_head cfg queue
  have holds := holds_before_unlock alternate (shape.simulated queue) (conserved t) head
    (kind.trans (by rw [free.1]))
  exact free.2 ((safe.locked addr).mpr ⟨t, holds⟩)

def mutexConfig : Config where
  ruby := .small
  numCpus := 2
  numThreads := 2
  masterWakeupFrequency := 2
  addresstoIdMap addr := if addr = 7 then 1 else 0
  traceFile t :=
    if t = 0 then ["1,1,pth_ty:3 ^ 7".toList, "2,1,pth_ty:1 ^ 11".toList, "3,1,pth_ty:2 ^ 11".toList]
    else if t = 1 then ["1,2,pth_ty:1 ^ 11".toList, "2,2,pth_ty:2 ^ 11".toList] else []

theorem mutexConfig_alternates : mutexConfig.LocksAlternate .mutex := by
  have first : mutexConfig.trace 0 = [⟨1, 0, .pthreadApi .create 7⟩,
      ⟨2, 0, .pthreadApi .mutexLk 11⟩, ⟨3, 0, .pthreadApi .mutexUlk 11⟩] := by decide +kernel
  have second : mutexConfig.trace 1 = [⟨1, 1, .pthreadApi .mutexLk 11⟩,
      ⟨2, 1, .pthreadApi .mutexUlk 11⟩] := by decide +kernel
  intro t simulated addr
  have which : t = 0 ∨ t = 1 := by
    change t < 2 at simulated
    omega
  rcases which with rfl | rfl
  · rw [first]
    by_cases same : 11 = addr <;>
      simp [LockKind.ops, LockKind.op?, LockKind.lockType, LockKind.unlockType, same,
        Lock.alternates]
  · rw [second]
    by_cases same : 11 = addr <;>
      simp [LockKind.ops, LockKind.op?, LockKind.lockType, LockKind.unlockType, same,
        Lock.alternates]

end SynchroTrace.Replay
