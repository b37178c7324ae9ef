import SynchroTrace.Replay.Scheduler

namespace SynchroTrace.Replay

variable (s : State)

def State.popEvent (threadID : Nat) (e : STEvent) (rest : List STEvent) : State :=
  { s with
    eventMap := Function.update s.eventMap threadID rest
    history := s.history ++ [.retired threadID e.toTraceEvent] }

variable (cfg : Config)

/-- The queue of a thread is refilled, through the thread of its head event. -/
def replenishHead (threadID : Nat) (s : State) : Except Fault State :=
  match s.eventMap threadID with
  | [] => .ok s
  | next :: _ => replenishThread cfg next.threadID s

/-- The head event of a thread is done: it is popped, another thread may take the core, the
queue is refilled unless it has run empty, and the core goes on in the next cycle. -/
def finishEvent (procID threadID : Nat) (e : STEvent) (rest : List STEvent)
    (s : State) : Except Fault State := do
  let s ← swapThreads cfg procID (s.popEvent threadID e rest)
  let s ← replenishHead cfg threadID s
  schedule procID (s.curTick + 1) s

def advanceEvent (procID threadID : Nat) (e : STEvent) (rest : List STEvent)
    (more : List SubEvent) (s : State) : Except Fault State :=
  match more with
  | [] => finishEvent cfg procID threadID e rest s
  | next :: more =>
    let next := cfg.timed next s.curTick
    schedule procID next.triggerTime (s.setSubEvents threadID e rest (next :: more))

def ThreadStats.countOps (st : ThreadStats) (top : SubEvent) : ThreadStats :=
  { st with
    numIOPS := st.numIOPS + UInt64.ofNat top.numIOPS
    numFLOPS := st.numFLOPS + UInt64.ofNat top.numFLOPS }

def State.updateStats (threadID : Nat) (f : ThreadStats → ThreadStats) : State :=
  { s with threadStatistics :=
      Function.update s.threadStatistics threadID (f (s.threadStatistics threadID)) }

def State.packet (s : State) (procID threadID : Nat) (e : STEvent) (more : List SubEvent)
    (msg : Msg) : Request :=
  { procID, threadID, msg, event := e.toTraceEvent
    eventIndex := (s.retiredEvents threadID).length, subEventsLeft := more.length + 1 }

/-- `sendTimingReq`, with the port's answer. A refused packet is deleted and nothing else
happens. -/
def triggerMsg (count : ThreadStats → ThreadStats) (procID threadID : Nat) (e : STEvent)
    (rest : List STEvent) (top : SubEvent) (more : List SubEvent) (msg : Msg) (accept : Bool)
    (s : State) : State :=
  let request := s.packet procID threadID e more msg
  let s := { s with
    history := s.history ++ [.sent request (s.threadMutexMap threadID) accept] }
  match accept with
  | false => s
  | true =>
    let s := s.setSubEvents threadID e rest ({ top with msgTriggered := true } :: more)
    { s.updateStats threadID count with
      lastMsgTriggerTime := Function.update s.lastMsgTriggerTime threadID (toInt32 s.curTick)
      pending := s.pending ++ [request] }

def triggerCommReadMsg : Nat → Nat → STEvent → List STEvent → SubEvent → List SubEvent → Msg →
    Bool → State → State :=
  triggerMsg fun st => { st with sharedReads := st.sharedReads + 1 }

def triggerCompWriteMsg : Nat → Nat → STEvent → List STEvent → SubEvent → List SubEvent → Msg →
    Bool → State → State :=
  triggerMsg fun st => { st with localWrites := st.localWrites + 1 }

def triggerCompReadMsg : Nat → Nat → STEvent → List STEvent → SubEvent → List SubEvent → Msg →
    Bool → State → State :=
  triggerMsg fun st => { st with localReads := st.localReads + 1 }

def State.countSubEvent (threadID : Nat) : State :=
  s.updateStats threadID fun st => { st with numSubEvents := st.numSubEvents + 1 }

def State.removeSubEvent (threadID : Nat) : State :=
  { s with subEventsRemoved :=
      Function.update s.subEventsRemoved threadID (s.subEventsRemoved threadID + 1) }

/-- `progressPthreadEvent` on the head event of `threadID`, then what `progressEvents` does with
the sub-events that it leaves. -/
def progressPthreadEvent (procID threadID : Nat) (e : STEvent)
    (rest : List STEvent) (pthreadType : PthreadType) (pthAddr : Nat) (top : SubEvent)
    (more : List SubEvent) (s : State) : Except Fault State := do
  let (sync, visit, seen) ←
    visitPthread cfg e.threadID pthreadType pthAddr (fun t => (s.eventMap t).isEmpty) s.toSync
  let s := { s with toSync := sync, history := s.history ++ seen }
  match visit with
  | .waiting => advanceEvent cfg procID threadID e rest (top :: more) s
  | .skipped => advanceEvent cfg procID threadID e rest more (s.removeSubEvent threadID)
  | .consumed =>
    advanceEvent cfg procID threadID e rest more
      ((s.removeSubEvent threadID).countSubEvent e.threadID)

def progressPlain (procID threadID : Nat) (e : STEvent) (rest : List STEvent)
    (top : SubEvent) (more : List SubEvent) (s : State) : Except Fault State :=
  match e.kind with
  | .pthreadApi pthreadType pthAddr =>
    progressPthreadEvent cfg procID threadID e rest pthreadType pthAddr top more s
  | _ =>
    advanceEvent cfg procID threadID e rest more
      ((s.removeSubEvent threadID).countSubEvent threadID)

/-- A due sub-event with a message. `accept` is the answer of the port, should the message be
sent. -/
def progressMessage (procID threadID : Nat) (e : STEvent) (rest : List STEvent)
    (top : SubEvent) (more : List SubEvent) (msg : Msg) (accept : Bool) (s : State) :
    Except Fault State :=
  match e.kind with
  | .communication _ => do
    let satisfied ← checkCommDependency cfg s msg.thisMsg
    if satisfied || s.threadMutexMap threadID then
      return triggerCommReadMsg procID threadID e rest top more msg accept s
    else
      -- the dependency is looked at again in the next cycle
      schedule procID (s.curTick + 1)
        (s.setSubEvents threadID e rest ({ top with triggerTime := s.curTick + 1 } :: more))
  | _ =>
    match msg.msgType with
    | .write => return triggerCompWriteMsg procID threadID e rest top more msg accept s
    | .read => return triggerCompReadMsg procID threadID e rest top more msg accept s

/-- A sub-event that is due. Its operations are counted on every visit. -/
def progressSubEvent (procID threadID : Nat) (e : STEvent) (rest : List STEvent)
    (top : SubEvent) (more : List SubEvent) (accept : Bool) (s : State) : Except Fault State :=
  let s := s.updateStats threadID (·.countOps top)
  match top.msg with
  | none => progressPlain cfg procID threadID e rest top more s
  | some msg => progressMessage cfg procID threadID e rest top more msg accept s

def progressEvents (procID : Nat) (accept : Bool) (s : State) : Except Fault State :=
  match s.threadMap procID with
  | [] => .error .outOfRange
  | threadID :: _ =>
    if s.threadStartedMap threadID = false then .ok s
    else match s.eventMap threadID with
      | [] => .ok s
      | e :: rest =>
        match e.subEventList with
        | none => .error .nullSubEventList
        | some [] => .error .emptyDeque
        | some (top :: more) =>
          if top.triggerTime ≤ s.curTick ∧ top.msgTriggered = false then
            progressSubEvent cfg procID threadID e rest top more accept s
          else scheduleIfIdle procID top.triggerTime s

def countRTT (rtt : Int) : List (Int × Int) → List (Int × Int)
  | [] => [(rtt, 1)]
  | (lat, n) :: rest =>
    if lat = rtt then (lat, toInt32 (n + 1)) :: rest else (lat, n) :: countRTT rtt rest

def State.recordRTT (threadID : Nat) : State :=
  let thisMsgRTT := toInt32 (s.curTick - s.lastMsgTriggerTime threadID)
  let s := { s with
    roundTripTime :=
      Function.update s.roundTripTime threadID (countRTT thisMsgRTT (s.roundTripTime threadID))
    maxRTT := Function.update s.maxRTT threadID
      (if s.maxRTT threadID < thisMsgRTT then thisMsgRTT else s.maxRTT threadID) }
  s.updateStats threadID fun st => { st with totalRTT := st.totalRTT + UInt64.ofInt thisMsgRTT }

def hitCallback (proc : Nat) (s : State) : Except Fault State :=
  if cfg.numMapped ≤ proc then .error .outOfRange
  else match s.threadMap proc with
  | [] => .error .outOfRange
  | threadID :: _ =>
    match s.eventMap threadID with
    | [] => .error .emptyDeque
    | e :: rest =>
      match e.subEventList with
      | none => .error .nullSubEventList
      | some [] => .error .emptyDeque
      | some (top :: more) =>
        if top.msgTriggered = false then .ok s
        else
          let s := ((s.recordRTT threadID).countSubEvent threadID).removeSubEvent threadID
          advanceEvent cfg proc threadID e rest more s

end SynchroTrace.Replay
