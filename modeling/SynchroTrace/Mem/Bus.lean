import Mathlib.Logic.Function.Basic
import SynchroTrace.Lib.Transition

/-!
The noncoherent bus. Its calls to peers can call the bus again, so the calls that have not returned
are a stack. The choice of the destination and draining are left out.
-/

namespace SynchroTrace.Mem
open Outcome Transition

/-- Requests come through slave ports, responses through master ports. -/
inductive Port where
  | slave (id : Nat)
  | master (id : Nat)
  deriving DecidableEq, Repr

structure Packet where
  hasData : Bool
  size : Nat
  isExpressSnoop : Bool
  memInhibitAsserted : Bool
  deriving DecidableEq, Repr

namespace Bus

/-- The constructor requires the parameters to be positive. -/
structure Params where
  clock : Nat
  headerCycles : Nat
  width : Nat
  clock_pos : 0 < clock
  headerCycles_pos : 0 < headerCycles
  width_pos : 0 < width

inductive Frame where
  | sendTimingReq (src : Port) (pkt : Packet) (headerTime finishTime : Nat)
  | sendTimingResp (src : Port) (finishTime : Nat)
  | sendRetry
  deriving DecidableEq, Repr

def Frame.src? : Frame → Option Port
  | .sendTimingReq src .. => some src
  | .sendTimingResp src _ => some src
  | .sendRetry => none

inductive Fault where
  | assertion
  /-- The peers and the event queue do not do this. -/
  | impossible
  deriving DecidableEq, Repr

end Bus

open Bus (Params Frame Fault)

structure Bus where
  curTick : Nat
  tickNextIdle : Nat
  busIdleEvent : Option Nat
  inRetry : Bool
  retryList : List Port
  stack : List Frame
  /-- The tick until which `startup` has made the bus busy. Nothing reads it. -/
  startupIdle : Nat
  /-- The ports that were refused and not sent a retry since. Nothing reads it. -/
  refused : Port → Bool

namespace Bus
variable (p : Params)

def numCycles (pkt : Packet) : Nat :=
  if pkt.hasData then pkt.size / p.width + (if pkt.size % p.width ≠ 0 then 1 else 0) else 0

def nextEdge (tick : Nat) : Nat := if tick % p.clock ≠ 0 then (tick / p.clock + 1) * p.clock else tick

variable (b : Bus) (pkt : Packet)

def calcPacketTiming : Nat × Nat :=
  let headerTime := nextEdge p b.curTick + p.headerCycles * p.clock
  (headerTime, headerTime + numCycles p pkt * p.clock)

def occupyBus (until' : Nat) : Bus :=
  if until' = 0 then b else { b with tickNextIdle := until', busIdleEvent := some until' }

def addToRetryList (port : Port) : Bus :=
  if ¬ b.inRetry then { b with retryList := b.retryList ++ [port] }
  else if b.retryList.head? = some port then { b with inRetry := false }
  else { b with retryList := b.retryList ++ [port] }

def refuse (port : Port) : Bus :=
  { b.addToRetryList port with refused := Function.update b.refused port true }

def isOccupied (port : Port) : Bool :=
  b.curTick < b.tickNextIdle ∨ b.retryList ≠ [] ∧ ¬ (b.inRetry ∧ b.retryList.head? = some port)

def succeededTiming (busyTime : Nat) : Bus :=
  let b := b.occupyBus busyTime
  if b.inRetry then { b with retryList := b.retryList.tail, inRetry := false } else b

/-- `retryWaiting`, up to the call of `sendRetry`. -/
def retryWaiting : Except Fault Bus :=
  match b.retryList with
  | [] => .error .assertion
  | front :: _ =>
    .ok { b with
      inRetry := true
      stack := .sendRetry :: b.stack
      refused := Function.update b.refused front false }

def bringUp (clock now : Nat) : Nat → Nat → Nat
  | 0, tick => tick
  | n + 1, tick => if tick < now then bringUp clock now n (tick + clock) else tick

def finishRetry : Bus :=
  if b.inRetry then
    let tickNextIdle := bringUp p.clock b.curTick b.curTick b.tickNextIdle + p.clock
    { b with
      retryList := b.retryList.tail
      inRetry := false
      tickNextIdle
      busIdleEvent := some tickNextIdle }
  else b

def recvTimingReq (src : Port) : Except Fault Bus := do
  require (¬ pkt.isExpressSnoop) .assertion
  if b.isOccupied src then return b.refuse src
  else
    let times := b.calcPacketTiming p pkt
    return { b with stack := .sendTimingReq src pkt times.1 times.2 :: b.stack }

def recvTimingResp (src : Port) : Bus :=
  if b.isOccupied src then b.refuse src
  else { b with stack := .sendTimingResp src (b.calcPacketTiming p pkt).2 :: b.stack }

def finishReq (src : Port) (pkt : Packet) (headerTime finishTime : Nat) (success : Bool) :
    Except Fault Bus :=
  if success then .ok (b.succeededTiming finishTime)
  else do
    require (¬ pkt.memInhibitAsserted) .assertion
    return (b.refuse src).occupyBus headerTime

inductive Action where
  | advance (tick : Nat)
  | recvTimingReq (pkt : Packet) (port : Nat)
  | recvTimingResp (pkt : Packet) (port : Nat)
  | busIdle
  | recvRetry
  | peerReturns (success : Bool)

def advance (tick : Nat) : Except Fault Bus :=
  if b.stack = [] ∧ b.curTick ≤ tick ∧ b.busIdleEvent.all (fun scheduled => tick ≤ scheduled) then
    .ok { b with curTick := tick }
  else .error .impossible

def releaseBus : Except Fault Bus :=
  if b.stack = [] ∧ b.busIdleEvent = some b.curTick then do
    require (b.tickNextIdle ≤ b.curTick) .assertion
    let b := { b with busIdleEvent := none }
    if b.retryList ≠ [] then b.retryWaiting else .ok b
  else .error .impossible

def recvRetry : Except Fault Bus :=
  if b.retryList ≠ [] ∧ b.tickNextIdle ≤ b.curTick then b.retryWaiting else .ok b

def peerReturns (success : Bool) : Except Fault Bus :=
  match b.stack with
  | [] => .error .impossible
  | .sendTimingReq src pkt headerTime finishTime :: stack =>
    { b with stack }.finishReq src pkt headerTime finishTime success
  | .sendTimingResp _ finishTime :: stack => do
    require success .assertion
    return { b with stack }.succeededTiming finishTime
  | .sendRetry :: stack => .ok ({ b with stack }.finishRetry p)

def perform : Action → Except Fault Bus
  | .advance tick => b.advance tick
  | .recvTimingReq pkt port => b.recvTimingReq p pkt (.slave port)
  | .recvTimingResp pkt port => .ok (b.recvTimingResp p pkt (.master port))
  | .busIdle => b.releaseBus
  | .recvRetry => b.recvRetry
  | .peerReturns success => b.peerReturns p success

def startup (curTick : Nat) : Bus :=
  let tickNextIdle := if 0 < curTick then curTick / p.clock * p.clock + p.clock else 0
  { curTick, tickNextIdle, busIdleEvent := none, inRetry := false, retryList := [], stack := []
    startupIdle := tickNextIdle, refused := fun _ => false }

end Bus

def noncoherentBus (p : Params) : System Bus Bus.Action :=
  ofFunction (fun b => ∃ curTick, b = Bus.startup p curTick) (Bus.perform p)

end SynchroTrace.Mem
