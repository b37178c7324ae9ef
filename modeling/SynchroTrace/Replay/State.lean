import Mathlib.Data.Finset.SDiff
import SynchroTrace.Replay.SubEvents

namespace SynchroTrace.Replay

/-- A request on the port of a core. `event` is the event of `threadID` whose sub-event sent it,
the `eventIndex`-th of the thread, with `subEventsLeft` sub-events from that one on. -/
structure Request where
  procID : Nat
  threadID : Nat
  msg : Msg
  event : TraceEvent
  eventIndex : Nat
  subEventsLeft : Nat
  deriving DecidableEq, Repr

/-- What a replay does, in the order in which it does it. -/
inductive Obs where
  | retired (threadID : Nat) (event : TraceEvent)
  /-- A request was sent on the port, by a thread marked in `threadMutexMap` or not. -/
  | sent (request : Request) (mutexHeld accepted : Bool)
  /-- A barrier wait was visited and has not let the thread through. -/
  | arrived (threadID pthAddr : Nat)
  /-- Every thread of the barrier has arrived. -/
  | released (pthAddr : Nat)
  /-- A `P_JOIN` was visited while the joined thread still had events queued. -/
  | joinPending (threadID : Nat)
  | parallelRegion
  | lastThreadJoined
  deriving DecidableEq, Repr

structure Sync where
  threadStartedMap : Nat → Bool
  threadMutexMap : Nat → Bool
  threadContMap : Nat → Bool
  mutexLocks : Finset Nat
  spinLocks : Finset Nat
  threadWaitMap : Nat → Finset Int
  roiFlag : Bool
  workerThreadCount : Int

structure State extends Sync where
  curTick : Nat
  startEvent : Nat
  /-- When the event of a core is due, if it is scheduled. -/
  coreEvents : Nat → Option Nat
  inputFile : Nat → List Line
  eventMap : Nat → List STEvent
  threadMap : Nat → List Nat
  threadStatistics : Nat → ThreadStats
  lastMsgTriggerTime : Nat → Int
  roundTripTime : Nat → List (Int × Int)
  maxRTT : Nat → Int
  stopped : Bool
  pending : List Request
  /-- How many sub-events of a thread have been removed from a list. -/
  subEventsRemoved : Nat → Nat
  history : List Obs

def retiredBy (history : List Obs) (threadID : Nat) : List TraceEvent :=
  history.filterMap fun
    | .retired t e => if t = threadID then some e else none
    | _ => none

@[simp] theorem retiredBy_nil (threadID : Nat) : retiredBy [] threadID = [] := rfl

@[simp] theorem retiredBy_append (before after : List Obs) (threadID : Nat) :
    retiredBy (before ++ after) threadID = retiredBy before threadID ++ retiredBy after threadID :=
  List.filterMap_append

@[simp] theorem retiredBy_retired (t : Nat) (e : TraceEvent) (threadID : Nat) :
    retiredBy [.retired t e] threadID = if t = threadID then [e] else [] := by
  unfold retiredBy
  split <;> simp_all

@[simp] theorem retiredBy_sent (request : Request) (mutexHeld accepted : Bool) (threadID : Nat) :
    retiredBy [.sent request mutexHeld accepted] threadID = [] := rfl

def State.retiredEvents (s : State) (threadID : Nat) : List TraceEvent :=
  retiredBy s.history threadID

/-- The assertion of the event queue compares unsigned times, which a negative one passes. -/
def schedule (procID : Nat) (time : Int) (s : State) : Except Fault State :=
  if time < s.curTick then .error .scheduledInPast
  else if (s.coreEvents procID).isSome then .error .alreadyScheduled
  else .ok { s with coreEvents := Function.update s.coreEvents procID (some time.toNat) }

def scheduleIfIdle (procID : Nat) (time : Int) (s : State) : Except Fault State :=
  if (s.coreEvents procID).isSome then .ok s else schedule procID time s

def readBlock : Nat := 1000
def minEventsSize : Nat := 100

/-- The capacity of the deques of `eventMap`. -/
def maxEventsSize : Nat := readBlock + minEventsSize

/-- `initStats` sets the entries to 0 and nothing writes them afterwards. -/
def curEventListPos (_threadID : Nat) : Int := 0

variable (cfg : Config)

def pushEvent (e : TraceEvent) (s : State) : Except Fault State :=
  if cfg.numThreads ≤ e.threadID then .error .outOfRange
  else if maxEventsSize ≤ (s.eventMap e.threadID).length then .error .eventQueueFull
  else .ok { s with
    eventMap := Function.update s.eventMap e.threadID (s.eventMap e.threadID ++ [⟨e, none⟩]) }

def readLines (cfg : Config) (threadID : Nat) : Nat → State → Except Fault State
  | 0, s => .ok s
  | count + 1, s =>
    match s.inputFile threadID with
    | [] => .ok s
    | line :: rest => do
      let e ← parseLine cfg.ruby line
      let s ← pushEvent cfg e { s with inputFile := Function.update s.inputFile threadID rest }
      readLines cfg threadID count s

def readEventFile (threadID : Nat) (s : State) : Except Fault State :=
  readLines cfg threadID readBlock s

def replenishThread (threadID : Nat) (s : State) : Except Fault State :=
  if (s.eventMap threadID).length < minEventsSize ∧ curEventListPos threadID ≠ -1 then
    readEventFile cfg threadID s
  else .ok s

def replenishEvents (s : State) : Except Fault State :=
  (List.range cfg.numThreads).foldlM (fun s threadID => replenishThread cfg threadID s) s

/-- The queue of a thread with the sub-events of its head event replaced. -/
def State.setSubEvents (s : State) (threadID : Nat) (e : STEvent) (rest : List STEvent)
    (subs : List SubEvent) : State :=
  { s with eventMap :=
      Function.update s.eventMap threadID ({ e with subEventList := some subs } :: rest) }

def createSubEventsOf (procID threadID : Nat) (rand : Nat → Nat) (s : State) : Except Fault State :=
  if s.threadStartedMap threadID = false then .ok s
  else match s.eventMap threadID with
    | [] => .ok s
    | e :: rest =>
      if e.subEventsCreated then .ok s
      else do
        match ← subEventsOf e.kind rand with
        | [] => .error .emptyDeque
        | top :: more =>
          let top := cfg.timed top s.curTick
          scheduleIfIdle procID top.triggerTime (s.setSubEvents threadID e rest (top :: more))

def createSubEvents (procID : Nat) (rand : Nat → Nat) (s : State) : Except Fault State :=
  match s.threadMap procID with
  | [] => .error .outOfRange
  | threadID :: _ => createSubEventsOf cfg procID threadID rand s

end SynchroTrace.Replay
