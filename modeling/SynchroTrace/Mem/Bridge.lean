import Mathlib.Algebra.Group.Nat.Defs
import SynchroTrace.Lib.Transition

/-!
The bus bridge. A place in the response queue is reserved when a request is accepted, and a request
that finds no place is nacked. A peer's call returns before the next one starts. Atomic and
functional accesses are left out.
-/

namespace SynchroTrace.Mem.Bridge
open Outcome Transition

/-- What the bridge looks at in a packet. The sender state is a stack of the states that bridges on
the way have pushed: a `RequestState` holds the source that the packet came from. -/
structure Packet where
  isRequest : Bool
  needsResponse : Bool
  memInhibitAsserted : Bool
  wasNacked : Bool
  src : Option Nat
  dest : Option Nat
  senderState : List (Option Nat)
  deriving DecidableEq, Repr

inductive Fault where
  | assertion
  | undefined
  /-- The peers and the event queue do not do this. -/
  | impossible
  deriving DecidableEq, Repr

namespace Packet

variable (pkt : Packet)

def makeTimingResponse : Except Fault Packet := do
  require pkt.needsResponse .assertion
  require pkt.isRequest .assertion
  return { pkt with isRequest := false, needsResponse := false, dest := pkt.src, src := none }

def setNacked : Except Fault Packet := do
  require (¬ pkt.isRequest) .assertion
  return { pkt with wasNacked := true }

def pushRequestState : Except Fault Packet := do
  require pkt.src.isSome .assertion
  return { pkt with senderState := pkt.src :: pkt.senderState }

def fixResponse : Except Fault Packet :=
  match pkt.senderState with
  | [] => .error .assertion
  | origSrc :: origSenderState => do
    require origSrc.isSome .assertion
    return { pkt with dest := origSrc, senderState := origSenderState }

def expected : Bool := !pkt.memInhibitAsserted && pkt.needsResponse

end Packet

/-- The queue of a port: what is sent with the tick from which it can be, whether the port waits for
a retry, and the tick for which `sendEvent` is scheduled. -/
structure SendQueue (α : Type) where
  queue : List (Nat × α)
  inRetry : Bool
  sendEvent : Option Nat

namespace SendQueue
variable {α : Type}

def schedule (now tick : Nat) (q : SendQueue α) : Except Fault (SendQueue α) := do
  require (now ≤ tick ∧ q.sendEvent = none) .assertion
  return { q with sendEvent := some tick }

def reschedule (now tick : Nat) (q : SendQueue α) : Except Fault (SendQueue α) := do
  require (now ≤ tick ∧ q.sendEvent.isSome) .assertion
  return { q with sendEvent := some tick }

def push (now ready : Nat) (x : α) (q : SendQueue α) : Except Fault (SendQueue α) := do
  let q ← (if q.queue = [] then q.schedule now ready else .ok q)
  return { q with queue := q.queue ++ [(ready, x)] }

/-- The loop of `nackRequest`: before the first entry that is ready later. -/
def insertEarlier (ready : Nat) (x : α) : List (Nat × α) → Except Fault (List (Nat × α))
  | [] => .error .assertion
  | first :: rest =>
    if ready < first.1 then .ok ((ready, x) :: first :: rest)
    else do
      let rest ← insertEarlier ready x rest
      return first :: rest

def insert (now ready : Nat) (x : α) (q : SendQueue α) : Except Fault (SendQueue α) :=
  match q.queue with
  | [] => do
    let q ← q.schedule now ready
    return { q with queue := [(ready, x)] }
  | first :: rest => do
    require (q.sendEvent.isSome ∨ q.inRetry) .assertion
    if ((first :: rest).getLast (List.cons_ne_nil first rest)).1 ≤ ready then
      return { q with queue := q.queue ++ [(ready, x)] }
    else
      let q ← (if ready < first.1 then q.reschedule now ready else .ok q)
      let queue ← insertEarlier ready x q.queue
      return { q with queue }

/-- What both `trySend` do with their queue. The peer's answer is given; what has been sent is
returned. -/
def trySend (now : Nat) (accept : Bool) (q : SendQueue α) : Except Fault (Option α × SendQueue α) :=
  match q.queue with
  | [] => .error .assertion
  | (ready, x) :: rest => do
    require (ready ≤ now) .assertion
    if accept then
      let q := { q with queue := rest }
      match rest with
      | [] => return (some x, q)
      | next :: _ =>
        let q ← q.schedule now (max next.1 (now + 1))
        return (some x, q)
    else return (none, { q with inRetry := true })

def recvRetry (now : Nat) (accept : Bool) (q : SendQueue α) :
    Except Fault (Option α × SendQueue α) :=
  let q := { q with inRetry := false }
  match q.queue with
  | [] => .error .undefined
  | front :: _ =>
    if front.1 ≤ now then q.trySend now accept
    else do
      let q ← q.schedule now front.1
      return (none, q)

end SendQueue

structure Params where
  delay : Nat
  nackDelay : Nat
  reqQueueLimit : Nat
  respQueueLimit : Nat
  reqQueueLimit_pos : 0 < reqQueueLimit
  respQueueLimit_pos : 0 < respQueueLimit
  /-- The limits are of type `unsigned int`. -/
  limits_int : reqQueueLimit < 2 ^ 32 ∧ respQueueLimit < 2 ^ 32

structure State where
  curTick : Nat
  /-- The queue of the master port. -/
  requests : SendQueue Packet
  /-- The queue of the slave port. A nack of the bridge itself is marked `nackedHere`. -/
  responses : SendQueue (Packet × Bool)
  outstandingResponses : Nat
  /-- The requests that were sent and that a response will come back for. Nothing reads it. -/
  awaited : List Packet

variable (p : Params) (s : State)

def respQueueFull : Bool := s.outstandingResponses = p.respQueueLimit

def reqQueueFull : Bool := s.requests.queue.length = p.reqQueueLimit

variable (pkt : Packet) (s : State)

def nackRequest : Except Fault State := do
  let pkt ← pkt.makeTimingResponse
  let pkt ← pkt.setNacked
  let responses ← s.responses.insert s.curTick (s.curTick + p.nackDelay) (pkt, true)
  return { s with responses }

def queueRequest : Except Fault State := do
  let pkt ← (if pkt.expected then pkt.pushRequestState else .ok pkt)
  require (s.requests.queue.length ≠ p.reqQueueLimit) .assertion
  let requests ← s.requests.push s.curTick (s.curTick + p.delay) pkt
  return { s with requests }

def queueResponse : Except Fault State := do
  let pkt ← pkt.fixResponse
  let responses ← s.responses.push s.curTick (s.curTick + p.delay) (pkt, false)
  return { s with responses }

def recvTimingReq : Except Fault State :=
  if reqQueueFull p s then nackRequest p pkt s
  else if pkt.needsResponse then
    if respQueueFull p s then nackRequest p pkt s
    else queueRequest p pkt { s with
      outstandingResponses := (s.outstandingResponses + 1) % 2 ^ 32 }
  else queueRequest p pkt s

def recvTimingResp : Except Fault State := queueResponse p pkt s

def State.sent (pkt : Option Packet) : State :=
  { s with awaited := s.awaited ++ pkt.toList.filter Packet.expected }

def State.returned : Option (Packet × Bool) → Except Fault State
  | some (_, false) => do
    require (s.outstandingResponses ≠ 0) .assertion
    return { s with outstandingResponses := s.outstandingResponses - 1 }
  | _ => .ok s

variable (accept : Bool)

def sendRequest (s : State) : Except Fault State :=
  if s.requests.sendEvent = some s.curTick then do
    let (sent, requests) ← { s.requests with sendEvent := none }.trySend s.curTick accept
    return { s with requests }.sent sent
  else .error .impossible

def retryRequest (s : State) : Except Fault State :=
  if s.requests.inRetry then do
    let (sent, requests) ← s.requests.recvRetry s.curTick accept
    return { s with requests }.sent sent
  else .error .impossible

def sendResponse (s : State) : Except Fault State :=
  if s.responses.sendEvent = some s.curTick then do
    let (sent, responses) ← { s.responses with sendEvent := none }.trySend s.curTick accept
    { s with responses }.returned sent
  else .error .impossible

def retryResponse (accept : Bool) (s : State) : Except Fault State :=
  if s.responses.inRetry then do
    let (sent, responses) ← s.responses.recvRetry s.curTick accept
    { s with responses }.returned sent
  else .error .impossible

inductive Action where
  | tick
  | recvTimingReq (pkt : Packet)
  /-- A response to a request that the bridge has sent. -/
  | recvTimingResp (request response : Packet)
  | sendRequest (accept : Bool)
  | retryRequest (accept : Bool)
  | sendResponse (accept : Bool)
  | retryResponse (accept : Bool)

def tick : Except Fault State :=
  if s.requests.sendEvent = some s.curTick ∨ s.responses.sendEvent = some s.curTick then
    .error .impossible
  else .ok { s with curTick := s.curTick + 1 }

/-- A response has the sender state of its request. -/
def answer (request response : Packet) (s : State) : Except Fault State :=
  if request ∈ s.awaited ∧ response.senderState = request.senderState then
    recvTimingResp p response { s with awaited := s.awaited.erase request }
  else .error .impossible

def perform : Action → Except Fault State
  | .tick => tick s
  | .recvTimingReq pkt => recvTimingReq p pkt s
  | .recvTimingResp request response => answer p request response s
  | .sendRequest accept => sendRequest accept s
  | .retryRequest accept => retryRequest accept s
  | .sendResponse accept => sendResponse accept s
  | .retryResponse accept => retryResponse accept s

def State.start : State where
  curTick := 0
  requests := ⟨[], false, none⟩
  responses := ⟨[], false, none⟩
  outstandingResponses := 0
  awaited := []

def bridge : System State Action := ofFunction (· = .start) (perform p)

end SynchroTrace.Mem.Bridge
