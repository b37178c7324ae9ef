import SynchroTrace.Replay.State

namespace SynchroTrace.Replay

/-- How a visit leaves the event: still to be completed, its sub-event popped without being
counted (`P_COND_WT`, `P_COND_SG`), or consumed. -/
inductive Visit where
  | waiting | skipped | consumed
  deriving DecidableEq, Repr

variable (cfg : Config)

def Config.threadIndex (id : Int) : Except Fault Nat :=
  if 0 ≤ id ∧ id < cfg.numThreads then .ok id.toNat else .error .outOfRange

def checkBarriers (pthAddr : Nat) (y : Sync) : Bool :=
  cfg.barrierMap pthAddr \ y.threadWaitMap pthAddr = ∅

/-- The thread is put in the wait set of the barrier, and stopped, unless it is there. -/
def Sync.arrive (y : Sync) (threadID pthAddr : Nat) : Sync :=
  if (threadID : Int) ∈ y.threadWaitMap pthAddr then y
  else { y with
    threadWaitMap := Function.update y.threadWaitMap pthAddr
      (insert (threadID : Int) (y.threadWaitMap pthAddr))
    threadStartedMap := Function.update y.threadStartedMap threadID false }

def Sync.release (y : Sync) (pthAddr : Nat) : Sync :=
  { y with
    threadStartedMap := fun t =>
      if (t : Int) ∈ cfg.barrierMap pthAddr then true else y.threadStartedMap t
    threadContMap := fun t =>
      if (t : Int) ∈ cfg.barrierMap pthAddr then true else y.threadContMap t
    threadWaitMap := Function.update y.threadWaitMap pthAddr ∅ }

def barrierWait (threadID pthAddr : Nat) (y : Sync) : Except Fault (Sync × Visit × List Obs) :=
  if y.threadContMap threadID then
    .ok ({ y with threadContMap := Function.update y.threadContMap threadID false }, .consumed, [])
  else
    let y := y.arrive threadID pthAddr
    if checkBarriers cfg pthAddr y then
      if ∀ id ∈ cfg.barrierMap pthAddr, 0 ≤ id ∧ id < cfg.numThreads then
        .ok (y.release cfg pthAddr, .waiting, [.arrived threadID pthAddr, .released pthAddr])
      else .error .outOfRange
    else .ok (y, .waiting, [.arrived threadID pthAddr])

/-- The counter is decremented on every visit: only the assignment above it is guarded. -/
def joinThread (threadID pthAddr : Nat) (queueEmpty : Nat → Bool) (y : Sync) :
    Except Fault (Sync × Visit × List Obs) := do
  let joined ← cfg.threadIndex (cfg.addresstoIdMap pthAddr)
  let y := { y with workerThreadCount := y.workerThreadCount - 1 }
  let report := if y.workerThreadCount = 0 then [Obs.lastThreadJoined] else []
  if queueEmpty joined then return (y, .consumed, report)
  else return (y, .waiting, .joinPending threadID :: report)

def createThread (pthAddr : Nat) (y : Sync) : Except Fault (Sync × Visit × List Obs) := do
  let created ← cfg.threadIndex (cfg.addresstoIdMap pthAddr)
  return ({ y with
    roiFlag := true
    workerThreadCount := y.workerThreadCount + 1
    threadStartedMap := Function.update y.threadStartedMap created true },
    .consumed, if y.roiFlag then [] else [.parallelRegion])

def visitPthread (threadID : Nat) (pthreadType : PthreadType) (pthAddr : Nat)
    (queueEmpty : Nat → Bool) (y : Sync) : Except Fault (Sync × Visit × List Obs) :=
  match pthreadType with
  | .mutexLk =>
    if pthAddr ∈ y.mutexLocks then .ok (y, .waiting, [])
    else .ok ({ y with
      mutexLocks := insert pthAddr y.mutexLocks
      threadMutexMap := Function.update y.threadMutexMap threadID true }, .consumed, [])
  | .mutexUlk =>
    if pthAddr ∈ y.mutexLocks then .ok ({ y with
      mutexLocks := y.mutexLocks.erase pthAddr
      threadMutexMap := Function.update y.threadMutexMap threadID false }, .consumed, [])
    else .error .mutexNotLocked
  | .create => createThread cfg pthAddr y
  | .join => joinThread cfg threadID pthAddr queueEmpty y
  | .barrierWt => barrierWait cfg threadID pthAddr y
  | .condWt | .condSg => .ok (y, .skipped, [])
  | .spinLk =>
    if pthAddr ∈ y.spinLocks then .ok (y, .waiting, [])
    else .ok ({ y with spinLocks := insert pthAddr y.spinLocks }, .consumed, [])
  | .spinUlk =>
    if pthAddr ∈ y.spinLocks then
      .ok ({ y with spinLocks := y.spinLocks.erase pthAddr }, .consumed, [])
    else .error .spinNotLocked
  | .semInit | .semWait | .semPost | .semGetv | .semDest | .other _ => .error .invalidPthreadEvent

end SynchroTrace.Replay
