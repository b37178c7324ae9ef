import Mathlib.Data.Finset.Range
import SynchroTrace.Lib.Transition
import SynchroTrace.Replay.Progress

/-!
The replay as a transition system: events and responses in the order in which the event queue has
them due. A Ruby cycle is one tick.
-/

namespace SynchroTrace.Replay
open Transition

variable (cfg : Config)

def createAllSubEvents (rand : Nat → Nat → Nat) (s : State) : Except Fault State :=
  (List.range cfg.numMapped).foldlM (fun s procID => createSubEvents cfg procID (rand procID) s) s

variable (s : State)

def checkCompletion : State :=
  if (∀ i < cfg.numThreads, s.eventMap i = []) ∧ s.stopped = false then { s with stopped := true }
  else s

def wakeupMaster (rand : Nat → Nat → Nat) (s : State) : Except Fault State := do
  let s ← replenishEvents cfg s
  let s ← createAllSubEvents cfg rand s
  let s := checkCompletion cfg s
  return { s with startEvent := s.curTick + cfg.masterWakeupFrequency }

def wakeup (procID : Nat) (rand : Nat → Nat → Nat) (accept : Bool) (s : State) :
    Except Fault State := do
  let s ← createSubEvents cfg procID (rand 0) s
  let s ← progressEvents cfg procID accept s
  swapStalledThreads cfg procID (rand 1) s

def initialThreadMapping : Nat → List Nat :=
  (List.range cfg.numThreads).foldl
    (fun threadMap i => Function.update threadMap (i % cfg.numMapped)
      (threadMap (i % cfg.numMapped) ++ [i]))
    fun _ => []

def generateEventQueue (cfg : Config) (s : State) : Except Fault State :=
  (List.range cfg.numThreads).foldlM (fun s threadID => readEventFile cfg threadID s) s

/-- The state before `generateEventQueue`. `init` schedules the cores before it has created their
events, so only the master event is due. -/
def State.blank : State where
  threadStartedMap t := t = 0
  threadMutexMap _ := false
  threadContMap _ := false
  mutexLocks := ∅
  spinLocks := ∅
  threadWaitMap _ := ∅
  roiFlag := false
  workerThreadCount := 0
  curTick := 0
  startEvent := 1
  coreEvents _ := none
  inputFile := cfg.traceFile
  eventMap _ := []
  threadMap := initialThreadMapping cfg
  threadStatistics _ := {}
  lastMsgTriggerTime _ := 0
  roundTripTime _ := []
  maxRTT _ := 0
  stopped := false
  pending := []
  subEventsRemoved _ := 0
  history := []

def initState : Except Fault State := generateEventQueue cfg (State.blank cfg)

/-- What the simulator takes up next, with what the step takes from outside: the values of
`rand()`, the port's answer to a request, and when a response arrives. -/
inductive Action where
  | master (rand : Nat → Nat → Nat)
  | core (procID : Nat) (rand : Nat → Nat → Nat) (accept : Bool)
  | response (request : Request) (time : Nat)

def NoneEarlier (cfg : Config) (s : State) (time : Nat) : Prop :=
  time ≤ s.startEvent ∧ ∀ procID < cfg.numMapped, (s.coreEvents procID).all (time ≤ ·)

instance (cfg : Config) (s : State) (time : Nat) : Decidable (NoneEarlier cfg s time) :=
  inferInstanceAs (Decidable (_ ∧ _))

def Action.time (cfg : Config) (s : State) : Action → Option Nat
  | .master _ => some s.startEvent
  | .core procID _ _ => if procID < cfg.numMapped then s.coreEvents procID else none
  | .response request time => if request ∈ s.pending ∧ s.curTick ≤ time then some time else none

/-- The action can be taken at the given time. Once `checkCompletion` has called `exitSimLoop`,
the simulation ends with the tick. Runs are followed while a `double` counts single ticks. -/
def Action.DueAt (cfg : Config) (s : State) (a : Action) (time : Nat) : Prop :=
  a.time cfg s = some time ∧ NoneEarlier cfg s time ∧ (s.stopped → time = s.curTick) ∧
    time < 2 ^ 53

instance (cfg : Config) (s : State) (a : Action) (time : Nat) : Decidable (a.DueAt cfg s time) :=
  inferInstanceAs (Decidable (_ ∧ _))

def perform (a : Action) (time : Nat) : Except Fault State :=
  match a with
  | .master rand => wakeupMaster cfg rand { s with curTick := time }
  | .core procID rand accept =>
    wakeup cfg procID rand accept { s with
      curTick := time, coreEvents := Function.update s.coreEvents procID none }
  | .response request _ =>
    hitCallback cfg request.procID { s with curTick := time, pending := s.pending.erase request }

def replay : System State Action where
  initial s := initState cfg = .ok s
  step s a next := ∃ time, a.DueAt cfg s time ∧ perform cfg s a time = .ok next

/-- A step of a scripted run: `rand()` returns 0, and a response comes after a given time. -/
inductive Turn where
  | master
  | core (procID : Nat) (accept : Bool)
  | answer (procID latency : Nat)

def Turn.action : Turn → Option Action
  | .master => some (.master fun _ _ => 0)
  | .core procID accept => some (.core procID (fun _ _ => 0) accept)
  | .answer procID latency =>
    (s.pending.find? (·.procID = procID)).map fun request => .response request (s.curTick + latency)

def Action.take (a : Action) : Option State :=
  match a.time cfg s with
  | none => none
  | some time => if a.DueAt cfg s time then (perform cfg s a time).toOption else none

def execute (cfg : Config) : List Turn → State → Option State
  | [], s => some s
  | turn :: rest, s => ((turn.action s).bind (·.take cfg s)).bind (execute cfg rest)

def runFrom (script : List Turn) : Option State :=
  (initState cfg).toOption.bind (execute cfg script)

variable {cfg : Config}

theorem Action.take_step {s next : State} {a : Action}
    (h : a.take cfg s = some next) : (replay cfg).step s a next := by
  unfold Action.take at h
  split at h
  · cases h
  · rename_i time _
    split at h
    · rename_i due
      refine ⟨time, due, ?_⟩
      cases done : perform cfg s a time with
      | error f => simp [done, Except.toOption] at h
      | ok after =>
        simp only [done, Except.toOption, Option.some.injEq] at h
        rw [h]
    · cases h

variable {allowed : State → Action → Prop}

theorem execute_reachable {script : List Turn}
    (permitted : ∀ turn ∈ script, ∀ s a, turn.action s = some a → allowed s a) {s final : State}
    (reach : ReachableVia (replay cfg) allowed s) (h : execute cfg script s = some final) :
    ReachableVia (replay cfg) allowed final := by
  induction script generalizing s with
  | nil =>
    cases h
    exact reach
  | cons turn rest ih =>
    obtain ⟨next, taken, h⟩ := Option.bind_eq_some_iff.mp h
    obtain ⟨a, chosen, taken⟩ := Option.bind_eq_some_iff.mp taken
    exact ih (fun turn member => permitted turn (List.mem_cons_of_mem _ member))
      (.step reach (permitted turn List.mem_cons_self s a chosen) (Action.take_step taken)) h

theorem runFrom_check {script : List Turn}
    (permitted : ∀ turn ∈ script, ∀ s a, turn.action s = some a → allowed s a)
    {check : State → Bool} (h : (runFrom cfg script).any check = true) :
    ∃ s, ReachableVia (replay cfg) allowed s ∧ check s = true := by
  obtain ⟨final, ran, checked⟩ := (Option.any_eq_true _ _).mp h
  obtain ⟨s, start, ran⟩ := Option.bind_eq_some_iff.mp ran
  refine ⟨final, execute_reachable permitted (.initial ?_) ran, checked⟩
  cases filled : initState cfg with
  | error f => simp [filled, Except.toOption] at start
  | ok s' =>
    simp only [filled, Except.toOption, Option.some.injEq] at start
    rw [← start]
    exact filled

def Ruby.small : Ruby where
  blockSizeBits := 6
  memorySizeBytes := 2 ^ 20

end SynchroTrace.Replay
