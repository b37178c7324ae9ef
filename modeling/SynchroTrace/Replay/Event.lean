import Mathlib.Data.UInt

namespace SynchroTrace.Replay

inductive Fault where
  | outOfRange
  | emptyDeque
  | eventQueueFull
  | subEventListFull
  | dequeSize
  | nullSubEventList
  | remainderByZero
  | diverges
  | elementCount
  | pthreadTag
  | invalidPthreadEvent
  | mutexNotLocked
  | spinNotLocked
  | noEvents
  | alreadyScheduled
  | scheduledInPast
  deriving DecidableEq, Repr

/-- One memory request of an event, and the producer event it depends on. -/
structure SharedInfo where
  prodThreadID : Nat
  prodEventID : Nat
  addr : Nat
  numBytes : Nat
  deriving DecidableEq, Repr

inductive DtReqType where
  | read | write
  deriving DecidableEq, Repr

/-- The message of a sub-event: `containsMsg` holds exactly when there is one. -/
structure Msg where
  msgType : DtReqType
  thisMsg : SharedInfo
  deriving DecidableEq, Repr

structure SubEvent where
  numIOPS : Nat
  numFLOPS : Nat
  numMemOps : Nat
  msg : Option Msg
  msgTriggered : Bool := false
  triggerTime : Int := 0
  initialTriggerTime : Int := 0
  deriving DecidableEq, Repr

def SubEvent.containsMsg (se : SubEvent) : Bool := se.msg.isSome

inductive PthreadType where
  | mutexLk | mutexUlk | create | join | barrierWt | condWt | condSg | spinLk | spinUlk
  | semInit | semWait | semPost | semGetv | semDest
  | other (code : Int)
  deriving DecidableEq, Repr

def PthreadType.ofCode (code : Int) : PthreadType :=
  if code = 1 then .mutexLk else if code = 2 then .mutexUlk else if code = 3 then .create
  else if code = 4 then .join else if code = 5 then .barrierWt else if code = 6 then .condWt
  else if code = 7 then .condSg else if code = 8 then .spinLk else if code = 9 then .spinUlk
  else if code = 10 then .semInit else if code = 11 then .semWait else if code = 12 then .semPost
  else if code = 13 then .semGetv else if code = 14 then .semDest else .other code

structure CompInfo where
  compIOPS : Nat
  compFLOPS : Nat
  compMemReads : Nat
  compMemWrites : Nat
  compWriteEvents : List SharedInfo := []
  compReadEvents : List SharedInfo := []
  deriving DecidableEq, Repr

/-- `Type` together with the fields that the type gives a meaning to. -/
inductive EventKind where
  | computation (comp : CompInfo)
  | communication (commPreRequisiteEvents : List SharedInfo)
  | pthreadApi (pthreadType : PthreadType) (pthAddr : Nat)
  deriving DecidableEq, Repr

structure TraceEvent where
  eventID : Nat
  threadID : Nat
  kind : EventKind
  deriving DecidableEq, Repr

/-- An event of a thread's queue. `subEventList` is `none` until `createSubEvents` has set it,
which is also when `subEventsCreated` becomes true. -/
structure STEvent extends TraceEvent where
  subEventList : Option (List SubEvent) := none
  deriving DecidableEq, Repr

def STEvent.subEventsCreated (e : STEvent) : Bool := e.subEventList.isSome

/-- Counters of type `unsigned long`. -/
structure ThreadStats where
  numSubEvents : UInt64 := 0
  numIOPS : UInt64 := 0
  numFLOPS : UInt64 := 0
  localWrites : UInt64 := 0
  localReads : UInt64 := 0
  sharedReads : UInt64 := 0
  totalRTT : UInt64 := 0
  deriving DecidableEq, Repr

end SynchroTrace.Replay
