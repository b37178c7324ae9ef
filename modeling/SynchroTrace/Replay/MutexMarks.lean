import SynchroTrace.Replay.Locks

/-!
`threadMutexMap` marks the threads whose last mutex event was a lock. That is not to hold a mutex:
the unlock of an inner mutex clears the mark while the outer one is held.
-/

namespace SynchroTrace.Replay
open Outcome Transition List LockKind

/-- What an event does to a mutex, and to which: `true` for a lock. -/
def mutexOp? (e : TraceEvent) : Option (Bool × Nat) :=
  match e.kind with
  | .pthreadApi .mutexLk addr => some (true, addr)
  | .pthreadApi .mutexUlk addr => some (false, addr)
  | _ => none

theorem op_mutex (addr : Nat) (e : TraceEvent) : LockKind.mutex.op? addr e =
      (mutexOp? e).bind fun op => if op.2 = addr then some op.1 else none := by
  unfold mutexOp?
  split
  · rename_i other kind
    by_cases same : other = addr <;>
      simp [LockKind.op?, lockType, unlockType, kind, same]
  · rename_i other kind
    by_cases same : other = addr <;>
      simp [LockKind.op?, lockType, unlockType, kind, same]
  · rename_i notLock notUnlock
    have neither : e.kind ≠ .pthreadApi .mutexLk addr ∧ e.kind ≠ .pthreadApi .mutexUlk addr :=
      ⟨notLock addr, notUnlock addr⟩
    simp [LockKind.op?, lockType, unlockType, neither]

def lastIsLock (history : List Obs) (t : Nat) : Bool :=
  ((retiredBy history t).filterMap mutexOp?).getLast?.any (·.1)

theorem lastIsLock_retired (history : List Obs) (t : Nat) (e : TraceEvent) (u : Nat) :
    lastIsLock (history ++ [.retired t e]) u =
      if u = t then ((mutexOp? e).map (·.1)).getD (lastIsLock history u)
      else lastIsLock history u := by
  unfold lastIsLock
  rw [retiredBy_append, retiredBy_retired, filterMap_append]
  by_cases same : u = t
  · subst same
    cases op : mutexOp? e with
    | none => simp [op]
    | some b => simp [op]
  · simp [same, Ne.symm same]

variable {history seen : List Obs}

theorem lastIsLock_append (retires : ∀ t, retiredBy seen t = []) (u : Nat) :
    lastIsLock (history ++ seen) u = lastIsLock history u := by
  unfold lastIsLock
  rw [retiredBy_append, retires, append_nil]

variable {e : TraceEvent} {cfg : Config} {t addr : Nat}

theorem Call.marks {Ended : Nat → Prop} {y sync : Sync} {type : PthreadType} {visit : Visit}
    (h : Call cfg t addr Ended y type sync visit seen) (kind : e.kind = .pthreadApi type addr) :
    if visit = .waiting then sync.threadMutexMap = y.threadMutexMap
    else sync.threadMutexMap = Function.update y.threadMutexMap t
      (((mutexOp? e).map (·.1)).getD (y.threadMutexMap t)) := by
  have arrive : (y.arrive t addr).threadMutexMap = y.threadMutexMap := by
    unfold Sync.arrive
    split <;> rfl
  cases h with
  | lockBusy | spinBusy | joinBusy => simp
  | barrierArrive | barrierRelease =>
    rw [if_pos rfl]
    exact arrive
  | condition which =>
    rcases which with rfl | rfl <;> simp [mutexOp?, kind]
  | _ => simp [mutexOp?, kind]

theorem Threads.Step.marks {a next : Threads} (h : Threads.Step cfg a next)
    (before : ∀ u, a.sync.threadMutexMap u = lastIsLock a.history u) (u : Nat) :
    next.sync.threadMutexMap u = lastIsLock next.history u := by
  cases h with
  | @work t e rest simulated head kind =>
    have none : mutexOp? e = .none := by
      unfold mutexOp?
      split
      · rename_i same
        exact absurd same (kind _ _)
      · rename_i same
        exact absurd same (kind _ _)
      · rfl
    have last := lastIsLock_retired a.history t e u
    simp only [none, Option.map_none, Option.getD_none, ite_self] at last
    exact (before u).trans last.symm
  | send => exact (before u).trans (lastIsLock_append (fun t => by simp) u).symm
  | @visit t e rest type addr sync visit seen simulated head kind started call =>
    have quiet : ∀ v, lastIsLock (a.history ++ seen) v = lastIsLock a.history v :=
      lastIsLock_append call.retires_none
    have marks := call.marks kind
    have done : visit ≠ .waiting →
        sync.threadMutexMap u = lastIsLock (a.history ++ seen ++ [.retired t e]) u := by
      intro done
      rw [if_neg done] at marks
      rw [marks, lastIsLock_retired, quiet]
      by_cases same : u = t
      · subst same
        simp [before]
      · simp [same, before]
    cases visit with
    | waiting =>
      rw [if_pos rfl] at marks
      exact (congrFun marks u).trans ((before u).trans (quiet u).symm)
    | skipped | consumed => exact done (by simp)

theorem reachable_marks {allowed : State → Action → Prop} {s : State}
    (reach : ReachableVia (replay cfg) allowed s) (t : Nat) :
    s.threadMutexMap t = lastIsLock s.history t :=
  steps_invariant (fun a => ∀ u, a.sync.threadMutexMap u = lastIsLock a.history u)
    (fun _ _ step before => step.marks before) (reachable_threads reach) (fun _ => rfl) t

/-- The event unlocks a mutex while a thread that has retired `done` holds another one. -/
def UnlocksNested (done : List TraceEvent) (e : TraceEvent) : Prop :=
  ∃ addr other, e.kind = .pthreadApi .mutexUlk addr ∧ other ≠ addr ∧
    (LockKind.mutex.ops done other).getLast? = some true

theorem split_at_last {α β : Type*} {f : α → Option β} {items : List α} {y : β}
    (last : (items.filterMap f).getLast? = some y) :
    ∃ before x after, items = before ++ x :: after ∧ f x = some y ∧ ∀ z ∈ after, f z = none := by
  obtain ⟨selected, split⟩ := List.getLast?_eq_some_iff.mp last
  obtain ⟨first, second, rfl, _, single⟩ := filterMap_eq_append_iff.mp split
  obtain ⟨middle, x, after, rfl, _, found, rest⟩ := filterMap_eq_cons_iff.mp single
  exact ⟨first ++ middle, x, after, by simp, found, filterMap_eq_nil_iff.mp rest⟩

theorem ops_none {events : List TraceEvent} (none : ∀ e ∈ events, mutexOp? e = .none) (addr : Nat) :
    LockKind.mutex.ops events addr = [] :=
  filterMap_eq_nil_iff.mpr fun e member => by simp [op_mutex, none e member]

variable {done after : List TraceEvent}

theorem ops_split {isLock : Bool}
    (op : mutexOp? e = some (isLock, addr)) (rest : ∀ x ∈ after, mutexOp? x = none) (other : Nat) :
    LockKind.mutex.ops (done ++ e :: after) other =
      LockKind.mutex.ops done other ++ if addr = other then [isLock] else [] := by
  have last : LockKind.mutex.ops [e] other = if addr = other then [isLock] else [] := by
    by_cases same : addr = other <;> simp [ops, op_mutex, op, same]
  rw [← singleton_append, ops_append, ops_append, ops_none rest other, last, append_nil]

theorem lastIsLock_iff_holds
    (flat : ∀ done e after, retiredBy history t = done ++ e :: after → ¬ UnlocksNested done e) :
    lastIsLock history t = true ↔ ∃ addr, Holds .mutex history t addr := by
  constructor
  · intro marked
    obtain ⟨⟨isLock, addr⟩, last, rfl⟩ := (Option.any_eq_true _ _).mp marked
    obtain ⟨done, e, after, split, op, rest⟩ := split_at_last last
    refine ⟨addr, ?_⟩
    unfold Holds
    rw [split, ops_split op rest]
    simp
  · rintro ⟨other, held⟩
    unfold Holds at held
    cases last : ((retiredBy history t).filterMap mutexOp?).getLast? with
    | none =>
      have none := filterMap_eq_nil_iff.mp (List.getLast?_eq_none_iff.mp last)
      rw [ops_none none] at held
      cases held
    | some op =>
      obtain ⟨isLock, addr⟩ := op
      obtain ⟨done, e, after, split, op, rest⟩ := split_at_last last
      cases isLock with
      | true => simp [lastIsLock, last]
      | false =>
        -- the mutex that is held was held when the last event unlocked another one
        rw [split, ops_split op rest] at held
        by_cases same : addr = other
        · simp [same] at held
        · refine absurd ⟨addr, other, ?_, Ne.symm same, ?_⟩ (flat done e after split)
          · unfold mutexOp? at op
            split at op <;> simp_all
          · simpa [same] using held

theorem mutexConfig_flat
    (split : mutexConfig.trace 0 = done ++ e :: after) : ¬ UnlocksNested done e := by
  rintro ⟨addr, other, kind, different, held⟩
  have trace : mutexConfig.trace 0 = [⟨1, 0, .pthreadApi .create 7⟩,
      ⟨2, 0, .pthreadApi .mutexLk 11⟩, ⟨3, 0, .pthreadApi .mutexUlk 11⟩] := by decide +kernel
  have only : addr = 11 := by
    have member : e ∈ mutexConfig.trace 0 := by simp [split]
    rw [trace] at member
    simp only [mem_cons, not_mem_nil, or_false] at member
    rcases member with rfl | rfl | rfl <;> simp_all
  have none : LockKind.mutex.ops (mutexConfig.trace 0) other = [] := by
    rw [trace]
    have free : 11 ≠ other := fun same => different (by rw [only, same])
    simp [ops, LockKind.op?, lockType, unlockType, free]
  rw [split, ops_append, append_eq_nil_iff] at none
  rw [none.1] at held
  cases held

def innerUnlockConfig : Config where
  ruby := .small
  numCpus := 1
  numThreads := 1
  masterWakeupFrequency := 100
  traceFile t :=
    if t = 0 then ["1,1,pth_ty:1 ^ 11".toList, "2,1,pth_ty:1 ^ 12".toList,
      "3,1,pth_ty:2 ^ 12".toList, "4,1,pth_ty:2 ^ 11".toList] else []

theorem innerUnlockConfig_alternates : innerUnlockConfig.LocksAlternate .mutex := by
  intro t simulated addr
  have first : t = 0 := by
    change t < 1 at simulated
    omega
  have trace : innerUnlockConfig.trace 0 = [⟨1, 0, .pthreadApi .mutexLk 11⟩,
      ⟨2, 0, .pthreadApi .mutexLk 12⟩, ⟨3, 0, .pthreadApi .mutexUlk 12⟩,
      ⟨4, 0, .pthreadApi .mutexUlk 11⟩] := by decide +kernel
  rw [first, trace]
  by_cases outer : 11 = addr
  · subst outer
    decide
  · by_cases inner : 12 = addr <;>
      simp [ops, LockKind.op?, lockType, unlockType, outer, inner, Lock.alternates]

end SynchroTrace.Replay
