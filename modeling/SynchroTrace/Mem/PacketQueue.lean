import Mathlib.Algebra.Group.Nat.Defs
import SynchroTrace.Lib.PriorityQueue
import SynchroTrace.Lib.Transition

/-!
Packets that wait for the time at which they are sent, or for the retry of a peer that has refused
one.
-/

namespace SynchroTrace.Mem
open Outcome Transition List PriorityQueue

def maxTick : Nat := 2 ^ 63 - 1

structure DeferredPacket (π : Type) where
  tick : Nat
  pkt : π
  sendAsSnoop : Bool
  /-- The number of calls of `schedSendTiming` before that of the packet. Nothing reads it. -/
  serial : Nat
deriving DecidableEq

structure Attempt (π : Type) where
  packet : DeferredPacket π
  time : Nat
  accepted : Bool
deriving DecidableEq

structure PacketQueue (π : Type) where
  curTick : Nat
  transmitList : List (DeferredPacket π)
  sendEvent : Option Nat
  waitingOnRetry : Bool
  drainEvent : Bool
  /-- The number of calls of `schedSendTiming`. Nothing reads it. -/
  calls : Nat
  /-- The attempts to send. Nothing reads them. -/
  attempts : List (Attempt π)
deriving DecidableEq

namespace PacketQueue
variable {π : Type}

inductive Fault where
  | assertion
  /-- The event queue and the peer do not do this. -/
  | impossible
  deriving DecidableEq, Repr

variable (q : PacketQueue π)

def schedule (when : Nat) : Except Fault (PacketQueue π) := do
  require (q.curTick ≤ when) .assertion
  require (q.sendEvent = none) .assertion
  return { q with sendEvent := some when }

def reschedule (when : Nat) : Except Fault (PacketQueue π) := do
  require (q.curTick ≤ when) .assertion
  return { q with sendEvent := some when }

def schedSendEvent (when : Nat) : Except Fault (PacketQueue π) :=
  if q.waitingOnRetry then do
    require (q.sendEvent = none) .assertion
    return q
  else
    match q.sendEvent with
    | none => q.schedule when
    | some time => if when < time then q.reschedule when else .ok q

def seek (dp : DeferredPacket π) : List (DeferredPacket π) → List (DeferredPacket π)
  | [] => [dp]
  | other :: rest => if other.tick ≤ dp.tick then other :: seek dp rest else dp :: other :: rest

def schedSendTiming (pkt : π) (when : Nat) (sendAsSnoop : Bool) : Except Fault (PacketQueue π) := do
  require (q.curTick < when) .assertion
  let dp : DeferredPacket π := ⟨when, pkt, sendAsSnoop, q.calls⟩
  let q := { q with calls := q.calls + 1 }
  match q.transmitList with
  | [] => schedSendEvent { q with transmitList := [dp] } when
  | front :: rest =>
    if when < front.tick then
      schedSendEvent { q with transmitList := dp :: front :: rest } when
    else if (rest.getLastD front).tick ≤ when then
      return { q with transmitList := front :: rest ++ [dp] }
    else return { q with transmitList := front :: seek dp rest }

/-- The peer accepts the packet or refuses it, and does not call the queue. -/
def trySendTiming (accept : Bool) : Except Fault (PacketQueue π) :=
  match q.transmitList with
  | [] => .error .assertion
  | dp :: rest => do
    require (dp.tick ≤ q.curTick) .assertion
    let q : PacketQueue π := { q with
      transmitList := rest, waitingOnRetry := !accept
      attempts := q.attempts ++ [⟨dp, q.curTick, accept⟩] }
    if q.waitingOnRetry then
      require (q.sendEvent = none) .assertion
      return { q with transmitList := dp :: q.transmitList }
    else return q

def deferredPacketReadyTime : Nat := (q.transmitList.head?.map (·.tick)).getD maxTick

/-- The drain event is processed by another object. -/
def scheduleSend (time : Nat) : Except Fault (PacketQueue π) :=
  let nextReady := min q.deferredPacketReadyTime time
  if nextReady ≠ maxTick then
    if q.sendEvent = none then q.schedule (max nextReady (q.curTick + 1)) else .ok q
  else if q.drainEvent ∧ q.sendEvent = none then .ok { q with drainEvent := false }
  else .ok q

def sendDeferredPacket (accept : Bool) : Except Fault (PacketQueue π) := do
  let q ← q.trySendTiming accept
  if q.waitingOnRetry then return q else q.scheduleSend maxTick

def processSendEvent (accept : Bool) : Except Fault (PacketQueue π) := do
  require (q.waitingOnRetry = false) .assertion
  q.sendDeferredPacket accept

def retry (accept : Bool) : Except Fault (PacketQueue π) := do
  require (q.waitingOnRetry = true) .assertion
  q.sendDeferredPacket accept

def drain (q : PacketQueue π) : PacketQueue π :=
  if q.transmitList = [] ∧ q.sendEvent = none then q else { q with drainEvent := true }

inductive Action (π : Type) where
  /-- Time goes on, not past the send event. -/
  | advance (time : Nat)
  | schedSendTiming (pkt : π) (when : Nat) (sendAsSnoop : Bool)
  | sendEvent (accept : Bool)
  | retry (accept : Bool)
  | drain

/-- What the peer does to the packet that is sent. -/
def Action.attempt? : Action π → Option Bool
  | .sendEvent accept | .retry accept => some accept
  | _ => none

def perform : Action π → Except Fault (PacketQueue π)
  | .advance time => do
    require (q.curTick ≤ time ∧ ∀ due ∈ q.sendEvent, time ≤ due) .impossible
    return { q with curTick := time }
  | .schedSendTiming pkt when sendAsSnoop => q.schedSendTiming pkt when sendAsSnoop
  | .sendEvent accept => do
    require (q.sendEvent = some q.curTick) .impossible
    { q with sendEvent := none }.processSendEvent accept
  | .retry accept => q.retry accept
  | .drain => .ok q.drain

structure Initial (q : PacketQueue π) : Prop where
  empty : q.transmitList = []
  idle : q.sendEvent = none
  going : q.waitingOnRetry = false
  calls : q.calls = 0
  attempts : q.attempts = []

def runs (π : Type) : System (PacketQueue π) (Action π) := ofFunction Initial perform

/-- The callers of the queue: due ticks are in the future, and a retry comes after a refusal. -/
def Allowed (q : PacketQueue π) : Action π → Prop
  | .advance time => q.curTick ≤ time ∧ ∀ due ∈ q.sendEvent, time ≤ due
  | .schedSendTiming _ when _ => q.curTick < when ∧ when < maxTick
  | .sendEvent _ => q.sendEvent = some q.curTick
  | .retry _ => q.waitingOnRetry = true
  | .drain => True

instance (q : PacketQueue π) (action : Action π) : Decidable (q.Allowed action) :=
  match action with
  | .advance _ | .schedSendTiming .. => inferInstanceAs (Decidable (_ ∧ _))
  | .sendEvent _ | .retry _ => inferInstanceAs (Decidable (_ = _))
  | .drain => inferInstanceAs (Decidable True)

/-- The order of due ticks, and of insertion for equal ones. -/
def Due (a b : DeferredPacket π) : Prop := a.tick < b.tick ∨ a.tick = b.tick ∧ a.serial ≤ b.serial

instance : DecidableRel (Due (π := π)) := fun _ _ => inferInstanceAs (Decidable (_ ∨ _))

instance : IsTrans (DeferredPacket π) Due where
  trans a b c := by
    unfold Due
    omega

instance : Std.Total (Due (π := π)) where
  total a b := by
    unfold Due
    omega

def acceptedSerials : List Nat :=
  (q.attempts.filter (·.accepted)).map (·.packet.serial)

/-- A queue with packets waits for a retry or has a send event, at which its first packet is due. -/
def Wakes (q : PacketQueue π) : List (DeferredPacket π) → Prop
  | [] => q.sendEvent = none ∧ q.waitingOnRetry = false
  | head :: _ =>
    q.waitingOnRetry = true ∧ q.sendEvent = none ∧ head.tick ≤ q.curTick ∨
      q.waitingOnRetry = false ∧ ∃ due, q.sendEvent = some due ∧ head.tick ≤ due ∧
        q.curTick ≤ due ∧ due ≤ max head.tick (q.curTick + 1)

structure Listed (q : PacketQueue π) : Prop where
  sorted : q.transmitList.Pairwise Due
  distinct : (q.transmitList.map (·.serial) ++ q.acceptedSerials).Nodup
  fresh : ∀ serial ∈ q.transmitList.map (·.serial) ++ q.acceptedSerials, serial < q.calls
  bounded : ∀ dp ∈ q.transmitList, dp.tick < maxTick
  timely : ∀ attempt ∈ q.attempts, attempt.packet.tick ≤ attempt.time

structure Sound (q : PacketQueue π) : Prop extends Listed q where
  wakes : q.Wakes q.transmitList

section Insertion
variable {dp : DeferredPacket π} {list : List (DeferredPacket π)}

theorem seek_eq_place (last : ∀ other ∈ list, other.serial < dp.serial) :
    seek dp list = PriorityQueue.place Due dp list := by
  induction list with
  | nil => rfl
  | cons other rest ih =>
    have before := last other mem_cons_self
    have same : other.tick ≤ dp.tick ↔ Due other dp := by
      unfold Due
      omega
    rw [seek, PriorityQueue.place, ih fun y member => last y (mem_cons_of_mem _ member)]
    simp only [same]

variable {rest : List (DeferredPacket π)} {front : DeferredPacket π}

theorem tick_le_last (sorted : (front :: rest).Pairwise Due) {other : DeferredPacket π}
    (member : other ∈ front :: rest) : other.tick ≤ (rest.getLastD front).tick := by
  induction rest generalizing front other with
  | nil => rw [mem_singleton.mp member]; exact Nat.le_refl _
  | cons next rest ih =>
    obtain ⟨first, ordered⟩ := pairwise_cons.mp sorted
    rw [getLastD_cons]
    obtain rfl | later := mem_cons.mp member
    · have due := first next mem_cons_self
      have last := ih ordered mem_cons_self
      unfold Due at due
      omega
    · exact ih ordered later

variable (dp) in
/-- All three ways of insertion put the packet behind those that are due no later. -/
theorem enlist_eq_place (sorted : (front :: rest).Pairwise Due)
    (last : ∀ other ∈ front :: rest, other.serial < dp.serial) :
    (if dp.tick < front.tick then dp :: front :: rest
      else if (rest.getLastD front).tick ≤ dp.tick then front :: rest ++ [dp]
      else front :: seek dp rest) = PriorityQueue.place Due dp (front :: rest) := by
  split_ifs with first back
  · have after : ¬ Due front dp := by
      unfold Due
      omega
    rw [PriorityQueue.place, if_neg after]
  · have placed := place_between (r := Due) (x := dp) (front :: rest) [] ?_ (by simp)
    · rw [append_nil] at placed
      exact placed.symm
    · intro other member
      have serial := last other member
      have tick := tick_le_last sorted member
      unfold Due
      omega
  · have serial := last front mem_cons_self
    have before : Due front dp := by
      unfold Due
      omega
    rw [PriorityQueue.place, if_pos before,
      seek_eq_place fun other member => last other (mem_cons_of_mem _ member)]

end Insertion

section Sound
variable {q : PacketQueue π} {head : DeferredPacket π} {rest : List (DeferredPacket π)} {when : Nat}

theorem schedule_eq (future : q.curTick ≤ when) (idle : q.sendEvent = none) :
    q.schedule when = .ok { q with sendEvent := some when } := by
  rw [schedule, require_of future, require_of idle]
  rfl

theorem schedSendEvent_eq (going : q.waitingOnRetry = false) (future : q.curTick ≤ when)
    (later : ∀ due ∈ q.sendEvent, when < due) :
    q.schedSendEvent when = .ok { q with sendEvent := some when } := by
  rw [schedSendEvent, if_neg (by rw [going]; exact Bool.false_ne_true)]
  cases scheduled : q.sendEvent with
  | none => exact schedule_eq future scheduled
  | some due =>
    dsimp only
    rw [if_pos (later due scheduled), reschedule, require_of future]
    rfl

theorem Listed.enlist (listed : q.Listed) (pkt : π) (sendAsSnoop : Bool) (small : when < maxTick)
    (sendEvent : Option Nat) :
    Listed { q with
      transmitList := PriorityQueue.place Due ⟨when, pkt, sendAsSnoop, q.calls⟩ q.transmitList
      sendEvent, calls := q.calls + 1 } := by
  have perm := place_perm (r := Due)
    (⟨when, pkt, sendAsSnoop, q.calls⟩ : DeferredPacket π) q.transmitList
  have serials := (perm.map (·.serial)).append_right q.acceptedSerials
  refine ⟨pairwise_place listed.sorted, ?_, fun serial member => ?_,
    fun dp member => ?_, listed.timely⟩
  · refine serials.nodup_iff.mpr (nodup_cons.mpr ⟨fun old => ?_, listed.distinct⟩)
    exact Nat.lt_irrefl _ (listed.fresh _ old)
  · obtain rfl | old := mem_cons.mp (serials.mem_iff.mp member)
    · exact Nat.lt_succ_self _
    · exact Nat.lt_succ_of_lt (listed.fresh serial old)
  · obtain rfl | old := mem_place.mp member
    · exact small
    · exact listed.bounded dp old

theorem Sound.schedSendTiming (sound : q.Sound) (pkt : π) (sendAsSnoop : Bool)
    (future : q.curTick < when) (small : when < maxTick) :
    ∃ q', q.schedSendTiming pkt when sendAsSnoop = .ok q' ∧ q'.attempts = q.attempts ∧ q'.Sound := by
  have listed := sound.toListed.enlist pkt sendAsSnoop small
  have wakes := sound.wakes
  have last : ∀ other ∈ q.transmitList, other.serial < q.calls := fun other member =>
    sound.fresh _ (mem_append_left _ (mem_map_of_mem member))
  have sorted := sound.sorted
  unfold PacketQueue.schedSendTiming
  rw [require_of future, ok_bind]
  dsimp only
  cases list : q.transmitList with
  | nil =>
    rw [list] at wakes listed
    obtain ⟨idle, going⟩ := wakes
    refine ⟨_, schedSendEvent_eq going (Nat.le_of_lt future) (by simp [idle]), rfl,
      listed (some when), ?_⟩
    exact .inr ⟨going, when, rfl, Nat.le_refl _, Nat.le_of_lt future, Nat.le_max_left ..⟩
  | cons front rest =>
    rw [list] at wakes listed last sorted
    have place := enlist_eq_place ⟨when, pkt, sendAsSnoop, q.calls⟩ sorted last
    rw [← place] at listed
    dsimp only
    dsimp only at listed
    split_ifs at listed ⊢ with first back
    · -- a packet that has been refused is due already, so the queue does not wait
      obtain ⟨-, -, due⟩ | ⟨going, due, scheduled, late, -, -⟩ := wakes
      · omega
      · refine ⟨_, schedSendEvent_eq going (Nat.le_of_lt future) ?_, rfl, listed (some when), ?_⟩
        · intro due' same
          cases scheduled.symm.trans same
          exact Nat.lt_of_lt_of_le first late
        · exact .inr ⟨going, when, rfl, Nat.le_refl _, Nat.le_of_lt future, Nat.le_max_left ..⟩
    · exact ⟨_, rfl, rfl, listed q.sendEvent, wakes⟩
    · exact ⟨_, rfl, rfl, listed q.sendEvent, wakes⟩

theorem Listed.accept (listed : q.Listed) (list : q.transmitList = head :: rest)
    (due : head.tick ≤ q.curTick) (sendEvent : Option Nat) (drainEvent : Bool) :
    Listed { q with
      transmitList := rest, waitingOnRetry := false, sendEvent, drainEvent
      attempts := q.attempts ++ [⟨head, q.curTick, true⟩] } := by
  obtain ⟨sorted, distinct, fresh, bounded, timely⟩ := listed
  rw [list] at sorted distinct fresh bounded
  have perm : (rest.map (·.serial) ++ (q.acceptedSerials ++ [head.serial])).Perm
      ((head :: rest).map (·.serial) ++ q.acceptedSerials) := by
    rw [← append_assoc, map_cons, cons_append]
    exact perm_append_singleton ..
  have serials : acceptedSerials { q with
      transmitList := rest, waitingOnRetry := false, sendEvent, drainEvent
      attempts := q.attempts ++ [⟨head, q.curTick, true⟩] } =
        q.acceptedSerials ++ [head.serial] := by
    simp [acceptedSerials]
  refine ⟨sorted.of_cons, ?_, ?_, fun dp member => bounded dp (mem_cons_of_mem _ member), ?_⟩
  · rw [serials]
    exact perm.nodup_iff.mpr distinct
  · rw [serials]
    exact fun serial member => fresh serial (perm.mem_iff.mp member)
  · intro attempt member
    obtain old | new := mem_append.mp member
    · exact timely attempt old
    · rw [mem_singleton.mp new]
      exact due

theorem Listed.refuse (listed : q.Listed) (due : head.tick ≤ q.curTick) : Listed { q with
      waitingOnRetry := true, attempts := q.attempts ++ [⟨head, q.curTick, false⟩] } := by
  have serials : acceptedSerials { q with
      waitingOnRetry := true, attempts := q.attempts ++ [⟨head, q.curTick, false⟩] } =
        q.acceptedSerials := by
    simp [acceptedSerials]
  refine ⟨listed.sorted, serials ▸ listed.distinct, serials ▸ listed.fresh, listed.bounded, ?_⟩
  intro attempt member
  obtain old | new := mem_append.mp member
  · exact listed.timely attempt old
  · rw [mem_singleton.mp new]
    exact due

theorem sendDeferredPacket_refuse (list : q.transmitList = head :: rest)
    (due : head.tick ≤ q.curTick) (idle : q.sendEvent = none) :
    q.sendDeferredPacket false = .ok { q with
      waitingOnRetry := true, attempts := q.attempts ++ [⟨head, q.curTick, false⟩] } := by
  unfold PacketQueue.sendDeferredPacket trySendTiming
  rw [list]
  dsimp only
  rw [require_of due, ok_bind, Bool.not_false, if_pos rfl, require_of idle, ok_bind]
  rfl

theorem sendDeferredPacket_accept (list : q.transmitList = head :: rest)
    (due : head.tick ≤ q.curTick) :
    q.sendDeferredPacket true = scheduleSend { q with
      transmitList := rest, waitingOnRetry := false
      attempts := q.attempts ++ [⟨head, q.curTick, true⟩] } maxTick := by
  unfold PacketQueue.sendDeferredPacket trySendTiming
  rw [list]
  dsimp only
  rw [require_of due, ok_bind, Bool.not_true, if_neg Bool.false_ne_true]
  rfl

theorem Listed.sendDeferredPacket (listed : q.Listed) (list : q.transmitList = head :: rest)
    (due : head.tick ≤ q.curTick) (idle : q.sendEvent = none) (accept : Bool) :
    ∃ q', q.sendDeferredPacket accept = .ok q' ∧
      q'.attempts = q.attempts ++ [⟨head, q.curTick, accept⟩] ∧ q'.Sound := by
  cases accept with
  | false =>
    refine ⟨_, sendDeferredPacket_refuse list due idle, rfl, listed.refuse due, ?_⟩
    rw [list]
    exact .inl ⟨rfl, idle, due⟩
  | true =>
    have accepted := listed.accept list due
    rw [sendDeferredPacket_accept list due]
    cases rest with
    | nil =>
      refine ⟨_, ?_, rfl, accepted none false, rfl, rfl⟩
      rw [scheduleSend, if_neg (by simp [deferredPacketReadyTime])]
      cases drains : q.drainEvent <;> simp [idle]
    | cons next rest =>
      have small : next.tick < maxTick :=
        listed.bounded next (by rw [list]; exact mem_cons_of_mem _ mem_cons_self)
      refine ⟨_, ?_, rfl, accepted (some (max next.tick (q.curTick + 1))) q.drainEvent, ?_⟩
      · have ready : min next.tick maxTick = next.tick := Nat.min_eq_left (Nat.le_of_lt small)
        rw [scheduleSend]
        simp only [deferredPacketReadyTime, List.head?_cons, Option.map_some, Option.getD_some, ready]
        rw [if_pos (Nat.ne_of_lt small), if_pos idle]
        exact schedule_eq (by dsimp only; omega) idle
      · exact .inr ⟨rfl, _, rfl, Nat.le_max_left .., by dsimp only; omega, Nat.le_refl _⟩

theorem Sound.perform (sound : q.Sound) {action : Action π} (allowed : q.Allowed action) :
    ∃ q', q.perform action = .ok q' ∧ q'.Sound ∧
      (action.attempt? = none → q'.attempts = q.attempts) ∧
      ∀ accept, action.attempt? = some accept → ∃ head, q.transmitList.head? = some head ∧
        q'.attempts = q.attempts ++ [⟨head, q.curTick, accept⟩] := by
  have wakes := sound.wakes
  have listed := sound.toListed
  cases action with
  | advance time =>
    replace allowed : q.curTick ≤ time ∧ ∀ due ∈ q.sendEvent, time ≤ due := allowed
    refine ⟨{ q with curTick := time }, by rw [PacketQueue.perform, require_of allowed]; rfl,
      ⟨⟨listed.1, listed.2, listed.3, listed.4, listed.5⟩, ?_⟩, fun _ => rfl, nofun⟩
    dsimp only
    cases list : q.transmitList with
    | nil =>
      rw [list] at wakes
      exact wakes
    | cons head rest =>
      rw [list] at wakes
      obtain ⟨waiting, idle, due⟩ | ⟨going, due, scheduled, late, -, soon⟩ := wakes
      · exact .inl ⟨waiting, idle, Nat.le_trans due allowed.1⟩
      · have := allowed.1
        exact .inr ⟨going, due, scheduled, late, allowed.2 due scheduled, by dsimp only; omega⟩
  | schedSendTiming pkt when sendAsSnoop =>
    obtain ⟨q', done, same, sound⟩ := sound.schedSendTiming pkt sendAsSnoop allowed.1 allowed.2
    exact ⟨q', done, sound, fun _ => same, nofun⟩
  | sendEvent accept =>
    replace allowed : q.sendEvent = some q.curTick := allowed
    cases list : q.transmitList with
    | nil =>
      rw [list] at wakes
      cases wakes.1.symm.trans allowed
    | cons head rest =>
      rw [list] at wakes
      obtain ⟨-, idle, -⟩ | ⟨going, due, scheduled, late, -⟩ := wakes
      · cases idle.symm.trans allowed
      · cases scheduled.symm.trans allowed
        obtain ⟨q', done, attempts, sound⟩ := Listed.sendDeferredPacket
          (q := { q with sendEvent := none }) ⟨listed.1, listed.2, listed.3, listed.4, listed.5⟩
          list late rfl accept
        refine ⟨q', ?_, sound, nofun, fun accept' eq => ?_⟩
        · rw [PacketQueue.perform, require_of allowed, ok_bind, processSendEvent]
          rw [require_of going, ok_bind]
          exact done
        · cases eq
          exact ⟨head, rfl, attempts⟩
  | retry accept =>
    replace allowed : q.waitingOnRetry = true := allowed
    cases list : q.transmitList with
    | nil =>
      rw [list] at wakes
      cases wakes.2.symm.trans allowed
    | cons head rest =>
      rw [list] at wakes
      obtain ⟨-, idle, due⟩ | ⟨going, -⟩ := wakes
      · obtain ⟨q', done, attempts, sound⟩ := listed.sendDeferredPacket list due idle accept
        refine ⟨q', ?_, sound, nofun, fun accept' eq => ?_⟩
        · rw [PacketQueue.perform, PacketQueue.retry, require_of allowed, ok_bind]
          exact done
        · cases eq
          exact ⟨head, rfl, attempts⟩
      · cases going.symm.trans allowed
  | drain =>
    refine ⟨_, rfl, ?_, fun _ => ?_, nofun⟩
    · unfold PacketQueue.drain
      split_ifs
      · exact sound
      · exact ⟨⟨listed.1, listed.2, listed.3, listed.4, listed.5⟩, wakes⟩
    · unfold PacketQueue.drain
      split_ifs <;> rfl

theorem reachable_sound (reach : ReachableVia (runs π) Allowed q) : q.Sound := by
  refine reach.invariant Sound (fun q initial => ?_) fun q action q' _ allowed sound taken => ?_
  · obtain ⟨empty, idle, going, calls, attempts⟩ := initial
    refine ⟨⟨?_, ?_, ?_, ?_, by simp [attempts]⟩, ?_⟩ <;> rw [empty]
    · exact .nil
    · simp [acceptedSerials, attempts]
    · simp [acceptedSerials, attempts]
    · exact nofun
    · exact ⟨idle, going⟩
  · obtain ⟨next, done, sound', -⟩ := sound.perform allowed
    cases done.symm.trans taken
    exact sound'

/-- Packets leave in the order of their due ticks, each once and not too early, the queue is always
woken up for the first of them, and no assertion fails. -/
theorem packets_in_order (reach : ReachableVia (runs π) Allowed q) :
    (q.transmitList.Pairwise fun a b => a.tick < b.tick ∨ a.tick = b.tick ∧ a.serial < b.serial) ∧
    q.acceptedSerials.Nodup ∧ (∀ attempt ∈ q.attempts, attempt.packet.tick ≤ attempt.time) ∧
    (∀ head rest, q.transmitList = head :: rest → q.waitingOnRetry = true ∧ q.sendEvent = none ∨
        ∃ due, q.sendEvent = some due ∧ due ≤ max head.tick (q.curTick + 1)) ∧
    ∀ action, q.Allowed action → ∃ q', q.perform action = .ok q' ∧
      (action.attempt? = none → q'.attempts = q.attempts) ∧
      ∀ accept, action.attempt? = some accept → ∃ head, q.transmitList.head? = some head ∧
        q'.attempts = q.attempts ++ [⟨head, q.curTick, accept⟩] := by
  have sound := reachable_sound reach
  obtain ⟨distinct, once, -⟩ := nodup_append.mp sound.distinct
  refine ⟨?_, once, sound.timely, fun head rest list => ?_, fun action allowed => ?_⟩
  · refine (sound.sorted.and (pairwise_map.mp distinct)).imp ?_
    rintro a b ⟨before, apart⟩
    unfold Due at before
    omega
  · have wakes := sound.wakes
    rw [list] at wakes
    obtain ⟨waiting, idle, -⟩ | ⟨-, due, scheduled, -, -, soon⟩ := wakes
    · exact .inl ⟨waiting, idle⟩
    · exact .inr ⟨due, scheduled, soon⟩
  · obtain ⟨q', done, -, attempts⟩ := sound.perform allowed
    exact ⟨q', done, attempts⟩

end Sound

def unused : PacketQueue Unit := ⟨0, [], none, false, false, 0, []⟩

/-- The second packet is due first, is refused, and is sent by the retry. -/
theorem packets_in_order_two : ∃ q : PacketQueue Unit, ReachableVia (runs Unit) Allowed q ∧
    q.acceptedSerials = [1] ∧ q.transmitList.map (·.serial) = [0] ∧ q.sendEvent = some 9 ∧
    q.acceptedSerials.Nodup := by
  have ran : ([.schedSendTiming () 9 false, .schedSendTiming () 4 false, .advance 4,
      .sendEvent false, .retry true].foldlM (fun q action => if Allowed q action then
        perform q action else .error .impossible) unused).toOption.any (fun q =>
      q.acceptedSerials = [1] ∧ q.transmitList.map (·.serial) = [0] ∧ q.sendEvent = some 9) = true := by
    decide
  obtain ⟨q, reach, passed⟩ := foldlM_check_allowed Initial ⟨rfl, rfl, rfl, rfl, rfl⟩ ran
  obtain ⟨accepted, waiting, event⟩ := of_decide_eq_true passed
  exact ⟨q, reach, accepted, waiting, event, (packets_in_order reach).2.1⟩

/-- A packet that is due at `MaxTick` is left without an event when it becomes the first. -/
theorem maxTick_stalls : ∃ q : PacketQueue Unit, Reachable (runs Unit) q ∧
    q.transmitList.map (·.tick) = [maxTick] ∧ q.sendEvent = none ∧ q.waitingOnRetry = false := by
  have ran : ([.schedSendTiming () 4 false, .schedSendTiming () maxTick false, .advance 4,
      .sendEvent true].foldlM perform unused).toOption.any (fun q =>
      q.transmitList.map (·.tick) = [maxTick] ∧ q.sendEvent = none ∧ q.waitingOnRetry = false) =
        true := by
    decide
  obtain ⟨q, reach, passed⟩ := foldlM_check Initial (fun _ _ _ => trivial)
    ⟨rfl, rfl, rfl, rfl, rfl⟩ ran
  exact ⟨q, reach, of_decide_eq_true passed⟩

end PacketQueue

end SynchroTrace.Mem
