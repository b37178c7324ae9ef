import SynchroTrace.Replay.Pthread

namespace SynchroTrace.Replay

def osThreadID : Nat := 30000

def maxCommWait : Nat := 1000

variable (cfg : Config)

/-- The head event of the producer is past the one the request depends on. -/
def checkCommDependency (s : State) (commEvent : SharedInfo) : Except Fault Bool :=
  if commEvent.prodThreadID = osThreadID then .ok true
  else if commEvent.prodThreadID < cfg.numThreads then
    match s.eventMap commEvent.prodThreadID with
    | [] => .ok true
    | e :: _ => .ok (commEvent.prodEventID < e.eventID)
  else .error .outOfRange

/-- The dependencies are all looked at, whatever the first ones say. -/
def checkAllCommDependencies (cfg : Config) (s : State) : List SharedInfo → Except Fault Bool
  | [] => .ok true
  | commEvent :: rest => do
    let first ← checkCommDependency cfg s commEvent
    let others ← checkAllCommDependencies cfg s rest
    return first && others

def acceptsThread (s : State) (threadID : Nat) : Except Fault Bool :=
  if s.threadStartedMap threadID = false then .ok false
  else match s.eventMap threadID with
    | [] => .ok false
    | e :: _ =>
      match e.kind with
      | .computation _ => .ok true
      | .pthreadApi _ _ => .ok true
      | .communication requests => do
        let check ← checkAllCommDependencies cfg s requests
        return check || s.threadMutexMap e.threadID

def firstAccepted (cfg : Config) (s : State) : List Nat → Nat → Except Fault (Option Nat)
  | [], _ => .ok none
  | threadID :: rest, i => do
    if ← acceptsThread cfg s threadID then return some i
    else firstAccepted cfg s rest (i + 1)

variable (procID : Nat)

/-- The thread at the head goes to the end, `i` times. -/
def moveThreadToHead (i : Nat) (s : State) : State :=
  { s with threadMap := Function.update s.threadMap procID ((s.threadMap procID).rotate i) }

def swapThreads (s : State) : Except Fault State := do
  match ← firstAccepted cfg s (s.threadMap procID).tail 1 with
  | some i => return moveThreadToHead procID i s
  | none => return s

def swapAndSchedule (s : State) : Except Fault State := do
  let s ← swapThreads cfg procID s
  scheduleIfIdle procID (s.curTick + 1) s

/-- The head event of a started front thread: whether it lets another thread in. -/
def stallsHead (s : State) (e : STEvent) : Except Fault Bool :=
  match e.kind with
  | .computation _ => .ok false
  | .communication _ =>
    match e.subEventList with
    | none => .error .nullSubEventList
    | some [] => .error .emptyDeque
    | some (top :: _) =>
      .ok (!top.msgTriggered && decide (top.initialTriggerTime + maxCommWait < s.curTick))
  | .pthreadApi .join pthAddr => do
    let joined ← cfg.threadIndex (cfg.addresstoIdMap pthAddr)
    return curEventListPos joined ≠ -1
  | .pthreadApi .mutexLk _ => .ok (!s.threadMutexMap e.threadID)
  | .pthreadApi _ _ => .ok false

/-- A front thread that has ended or is not started makes room if any of the others has started. -/
def swapIfStarted (others : List Nat) (s : State) : Except Fault State :=
  if others.any s.threadStartedMap then swapThreads cfg procID s else .ok s

def EventKind.isBarrierWait : EventKind → Bool
  | .pthreadApi .barrierWt _ => true
  | _ => false

def swapStalledThreads (rand : Nat → Nat) (s : State) : Except Fault State :=
  match s.threadMap procID with
  | [] => .error .outOfRange
  | [threadID] =>
    -- a core with one thread is only kept awake at a barrier
    match s.eventMap threadID with
    | [] => .ok s
    | e :: _ =>
      if e.kind.isBarrierWait then scheduleIfIdle procID (s.curTick + 1) s else .ok s
  | threadID :: others =>
    if s.eventMap threadID = [] ∨ s.threadStartedMap threadID = false then do
      let s ← swapIfStarted cfg procID others s
      scheduleIfIdle procID (s.curTick + 1) s
    else do
      let s ← createSubEventsOf cfg procID threadID rand s
      match s.eventMap threadID with
      | [] => .error .emptyDeque
      | e :: _ =>
        if ← stallsHead cfg s e then swapAndSchedule cfg procID s else return s

end SynchroTrace.Replay
