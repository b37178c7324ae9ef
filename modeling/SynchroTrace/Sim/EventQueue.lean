import Mathlib.Data.List.Basic
import Mathlib.Logic.Function.Basic
import SynchroTrace.Lib.Transition

/-!
The main event queue: a linked list of bins, each a stack of the events with one time and priority.
A loop runs for at most as many rounds as it is given.
-/

namespace SynchroTrace.Sim
open Transition

structure Event (ε : Type) where
  nextBin : Option ε
  nextInBin : Option ε
  when : Nat
  priority : Int
  scheduled : Bool
  squashed : Bool

namespace Event
variable {ε : Type}

def lt (l r : Event ε) : Prop := l.when < r.when ∨ l.when = r.when ∧ l.priority < r.priority

def le (l r : Event ε) : Prop := l.when < r.when ∨ l.when = r.when ∧ l.priority ≤ r.priority

def eq (l r : Event ε) : Prop := l.when = r.when ∧ l.priority = r.priority

instance (l r : Event ε) : Decidable (l.lt r) := inferInstanceAs (Decidable (_ ∨ _))

instance (l r : Event ε) : Decidable (l.le r) := inferInstanceAs (Decidable (_ ∨ _))

instance (l r : Event ε) : Decidable (l.eq r) := inferInstanceAs (Decidable (_ ∧ _))

end Event

inductive Fault where
  | eventNotFound
  | assertion
  | unfinished
  deriving DecidableEq, Repr

def assert (condition : Prop) [Decidable condition] : Except Fault Unit :=
  if condition then .ok () else .error .assertion

/-- The queue with the events it is about. Nothing reads the last two fields. -/
structure EventQueue (ε : Type) where
  event : ε → Event ε
  head : Option ε
  curTick : Nat
  inserted : List ε
  serviced : List (ε × Nat)

namespace EventQueue
variable {ε : Type} [DecidableEq ε] (q : EventQueue ε)

def set (e : ε) (event : Event ε) : EventQueue ε :=
  { q with event := Function.update q.event e event }

def setNextBin (e : ε) (next : Option ε) : EventQueue ε :=
  q.set e { q.event e with nextBin := next }

def setNextInBin (e : ε) (next : Option ε) : EventQueue ε :=
  q.set e { q.event e with nextInBin := next }

def insertBefore (e : ε) : Option ε → EventQueue ε
  | none => q.set e { q.event e with nextBin := none, nextInBin := none }
  | some curr =>
    if (q.event e).lt (q.event curr) then
      q.set e { q.event e with nextBin := some curr, nextInBin := none }
    else
      q.set e { q.event e with nextBin := (q.event curr).nextBin, nextInBin := some curr }

/-- The loop of `insert` and of `remove` over the bins that come before an event. -/
def seek (q : EventQueue ε) (e : ε) : Nat → ε → Option ε → Except Fault (ε × Option ε)
  | _, prev, none => .ok (prev, none)
  | 0, _, some _ => .error .unfinished
  | n + 1, prev, some curr =>
    if (q.event curr).lt (q.event e) then seek q e n curr (q.event curr).nextBin
    else .ok (prev, some curr)

variable (rounds : Nat) (q : EventQueue ε)

def insert (e : ε) : Except Fault (EventQueue ε) :=
  match q.head with
  | none => .ok { q.insertBefore e none with head := some e }
  | some head =>
    if (q.event e).le (q.event head) then
      .ok { q.insertBefore e (some head) with head := some e }
    else do
      let (prev, curr) ← q.seek e rounds head (q.event head).nextBin
      return (q.insertBefore e curr).setNextBin prev (some e)

def findInBin (q : EventQueue ε) (e : ε) : Nat → ε → Option ε → Except Fault ε
  | _, _, none => .error .eventNotFound
  | 0, _, some _ => .error .unfinished
  | n + 1, curr, some next =>
    if next = e then .ok curr else findInBin q e n next (q.event next).nextInBin

/-- `Event::removeItem`, with the top that is left. -/
def removeItem (e top : ε) : Except Fault (Option ε × EventQueue ε) :=
  if e = top then
    match (q.event top).nextInBin with
    | none => .ok ((q.event top).nextBin, q)
    | some next => .ok (some next, q.setNextBin next (q.event top).nextBin)
  else do
    let curr ← q.findInBin e rounds top (q.event top).nextInBin
    return (some top, q.setNextInBin curr (q.event e).nextInBin)

def remove (e : ε) : Except Fault (EventQueue ε) :=
  match q.head with
  | none => .error .eventNotFound
  | some head =>
    if (q.event head).eq (q.event e) then do
      let (top, q) ← q.removeItem rounds e head
      return { q with head := top }
    else do
      let (prev, curr) ← q.seek e rounds head (q.event head).nextBin
      match curr with
      | none => .error .eventNotFound
      | some curr =>
        if (q.event curr).eq (q.event e) then do
          let (top, q) ← q.removeItem rounds e curr
          return q.setNextBin prev top
        else .error .eventNotFound

def setFlags (e : ε) (scheduled squashed : Bool) : EventQueue ε :=
  q.set e { q.event e with scheduled, squashed }

def setWhen (e : ε) (when : Nat) : EventQueue ε :=
  q.set e { q.event e with when }

def insertNoted (e : ε) : Except Fault (EventQueue ε) := do
  let q ← q.insert rounds e
  return { q with inserted := e :: q.inserted }

def schedule (e : ε) (when : Nat) : Except Fault (EventQueue ε) := do
  assert (q.curTick ≤ when)
  assert (¬ (q.event e).scheduled)
  let q ← (q.setWhen e when).insertNoted rounds e
  return q.setFlags e true (q.event e).squashed

def deschedule (e : ε) : Except Fault (EventQueue ε) := do
  assert (q.event e).scheduled
  let q ← q.remove rounds e
  return q.setFlags e false false

def reschedule (e : ε) (when : Nat) (always : Bool) : Except Fault (EventQueue ε) := do
  assert (q.curTick ≤ when)
  assert (always ∨ (q.event e).scheduled)
  let q ← if (q.event e).scheduled then q.remove rounds e else .ok q
  let q ← (q.setWhen e when).insertNoted rounds e
  return q.setFlags e true false

/-- `serviceOne`, up to the call of `process`. -/
def serviceOne : Except Fault (EventQueue ε) :=
  match q.head with
  | none => .error .assertion
  | some e =>
    let event := q.event e
    let q := q.setFlags e false false
    let q := { q with serviced := (e, event.when) :: q.serviced }
    match event.nextInBin with
    | some next => .ok { q.setNextBin next event.nextBin with head := some next }
    | none => .ok { q with head := event.nextBin }

def simulateOne : Except Fault (EventQueue ε) :=
  match q.head with
  | none => .error .assertion
  | some e => do
    assert (q.curTick ≤ (q.event e).when)
    { q with curTick := (q.event e).when }.serviceOne

/-- What `debugVerify` carries along its walk: the last time and priority, and the events seen. -/
structure Walk (ε : Type) where
  time : Nat
  priority : Int
  seen : List ε

def verifyBin (q : EventQueue ε) : Nat → Option ε → Walk ε → Except Fault (Option (Walk ε))
  | _, none, walk => .ok (some walk)
  | 0, some _, _ => .error .unfinished
  | n + 1, some e, walk =>
    let event := q.event e
    if event.when < walk.time then .ok none
    else if event.when = walk.time ∧ event.priority < walk.priority then .ok none
    else if e ∈ walk.seen then .ok none
    else verifyBin q n event.nextInBin ⟨event.when, event.priority, e :: walk.seen⟩

def verifyBins (rounds : Nat) (q : EventQueue ε) : Nat → Option ε → Walk ε → Except Fault Bool
  | _, none, _ => .ok true
  | 0, some _, _ => .error .unfinished
  | n + 1, some top, walk => do
    match ← q.verifyBin rounds (some top) walk with
    | none => return false
    | some walk => verifyBins rounds q n (q.event top).nextBin walk

def debugVerify : Except Fault Bool :=
  q.verifyBins rounds rounds q.head ⟨0, 0, []⟩

/-- The calls that are made on the queue. Those from inside `process` follow a `serviceOne`. -/
inductive Call (ε : Type) where
  | schedule (e : ε) (when : Nat)
  | deschedule (e : ε)
  | reschedule (e : ε) (when : Nat) (always : Bool)
  | squash (e : ε)
  | serviceOne

def perform : Call ε → Except Fault (EventQueue ε)
  | .schedule e when => q.schedule rounds e when
  | .deschedule e => q.deschedule rounds e
  | .reschedule e when always => q.reschedule rounds e when always
  | .squash e => .ok (q.setFlags e (q.event e).scheduled true)
  | .serviceOne => q.simulateOne

structure Initial (q : EventQueue ε) : Prop where
  head : q.head = none
  unscheduled : ∀ e, (q.event e).scheduled = false
  serviced : q.serviced = []

end EventQueue

/-- The runs of a queue, with as many rounds as each call needs. -/
def eventQueue (ε : Type) [DecidableEq ε] : System (EventQueue ε) (EventQueue.Call ε) where
  initial := EventQueue.Initial
  step q call next := ∃ rounds, q.perform rounds call = .ok next

end SynchroTrace.Sim
