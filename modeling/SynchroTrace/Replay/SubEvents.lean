import SynchroTrace.Lib.Floats
import SynchroTrace.Replay.Parse

namespace SynchroTrace.Replay

def defaultCpiFlops : ℚ≥0 := 2

/-- The parameters of a replay, the maps read from the pthread file, and one trace file for each
thread. A core is mapped onto a port and a thread. -/
structure Config where
  ruby : Ruby
  numCpus : Nat
  numThreads : Nat
  masterWakeupFrequency : Nat := 1
  cpiIops : ℚ≥0 := 1
  cpiFlops : ℚ≥0 := defaultCpiFlops
  /-- `AddresstoIdMap`, whose `operator[]` yields 0 for an unknown address. -/
  addresstoIdMap : Nat → Int := fun _ => 0
  /-- `BarrierMap`, whose `operator[]` yields the empty set for an unknown address. -/
  barrierMap : Nat → Finset Int := fun _ => ∅
  traceFile : Nat → List Line
  valid : 0 < numCpus ∧ 0 < numThreads ∧ 0 < masterWakeupFrequency ∧
    ∀ i < numThreads, ∀ line ∈ traceFile i,
      (parseLine ruby line).toOption.map (·.threadID) = some i := by decide +kernel

theorem Config.lines_parse (cfg : Config) : ∀ i < cfg.numThreads, ∀ line ∈ cfg.traceFile i,
    (parseLine cfg.ruby line).toOption.map (·.threadID) = some i :=
  cfg.valid.2.2.2

variable (cfg : Config)

def Config.numMapped : Nat :=
  if cfg.numThreads < cfg.numCpus then cfg.numThreads else cfg.numCpus

/-- `HIT_CYCLES_L1 + MISS_RATE_L1 * (HIT_CYCLES_L2 + (MISS_RATE_L2 * MISS_PENALTY_L2))`. -/
def memAccessTime : ℚ≥0 := 3 + 1 / 2 * (10 + 1 / 10 * 100)

variable (se : SubEvent)

def float (q : ℚ≥0) : ℚ≥0 := Floats.round 24 q

def double (q : ℚ≥0) : ℚ≥0 := Floats.round 53 q

/-- The operations are weighed and added up as `float`s, and the rest is added in `double`s. What a
`Time` does not hold is converted to the least one. -/
def Config.dueTime (now : Nat) : Int :=
  let iops := float (float cfg.cpiIops * float se.numIOPS)
  let flops := float (float cfg.cpiFlops * float se.numFLOPS)
  let cycles := double (float (iops + flops) + double (memAccessTime * double se.numMemOps))
  let time := double (double (cycles + double now) + 1)
  if time < 2 ^ 63 then ⌊time⌋₊ else -2 ^ 63

/-- Below `2 ^ 53` the additions of the clock do not lose the tick that is added. -/
theorem Config.lt_dueTime {cfg : Config} {se : SubEvent} {now : Nat} (early : now < 2 ^ 53)
    (fits : 0 ≤ cfg.dueTime se now) : now < cfg.dueTime se now := by
  unfold dueTime at fits ⊢
  dsimp only at fits ⊢
  split
  · have clock : (now : ℚ≥0) ≤ double now := Floats.le_round (by decide) early.le le_rfl
    rw [Nat.cast_lt]
    refine Nat.le_floor (Floats.le_round (by decide) early ?_)
    rw [Nat.cast_succ]
    exact add_le_add (Floats.le_round (by decide) early.le (le_add_left clock)) le_rfl
  · rename_i late
    rw [if_neg late] at fits
    exact absurd fits (by decide)

def Config.timed (now : Nat) : SubEvent :=
  { se with triggerTime := cfg.dueTime se now, initialTriggerTime := cfg.dueTime se now }

inductive MemAction where
  | localRead | localWrite
  deriving DecidableEq, Repr

def MemAction.flip : MemAction → MemAction
  | .localRead => .localWrite
  | .localWrite => .localRead

/-- The kind of the next memory operation. The number of writes is an `unsigned` here; with
neither kind left the source's loop flips the selector forever. -/
def memTypeToInsert (locReads locWrites maxLocReads maxLocWrites : Nat) (selector : MemAction) :
    Option MemAction :=
  let reads := locReads < maxLocReads
  let writes := locWrites < maxLocWrites % 2 ^ 32
  match selector with
  | .localRead => if reads then some .localRead else if writes then some .localWrite else none
  | .localWrite => if writes then some .localWrite else if reads then some .localRead else none

variable (comp : CompInfo)

def CompInfo.maxLocReads : Nat :=
  if comp.compReadEvents.length ≤ comp.compMemReads then comp.compMemReads
  else comp.compReadEvents.length

def CompInfo.maxLocWrites : Nat :=
  if comp.compWriteEvents.length ≤ comp.compMemWrites then comp.compMemWrites
  else comp.compWriteEvents.length

def CompInfo.totalMemOps : Nat :=
  (comp.maxLocReads + comp.maxLocWrites) % 2 ^ 64

def cyclicRequest (requests : List SharedInfo) (i : Nat) : Except Fault SharedInfo :=
  match requests[i % requests.length]? with
  | some request => .ok request
  | none => .error .remainderByZero

def memSubEvent (reads writes : Nat) : MemAction → Except Fault SubEvent
  | .localRead => do
    let request ← cyclicRequest comp.compReadEvents reads
    return { numIOPS := comp.compIOPS / comp.totalMemOps
             numFLOPS := comp.compFLOPS / comp.totalMemOps
             numMemOps := 0, msg := some ⟨.read, request⟩ }
  | .localWrite => do
    let request ← cyclicRequest comp.compWriteEvents writes
    return { numIOPS := comp.compIOPS / comp.totalMemOps
             numFLOPS := comp.compFLOPS / comp.totalMemOps
             numMemOps := 0, msg := some ⟨.write, request⟩ }

/-- The loop over the memory operations, `n` of them to go. `capacity` is the size of the deque
that they are pushed to. -/
def memSubEvents (comp : CompInfo) (capacity : Int) :
    Nat → Nat → Nat → MemAction → Except Fault (List SubEvent)
  | 0, _, _, _ => .ok []
  | n + 1, reads, writes, selector =>
    match memTypeToInsert reads writes comp.maxLocReads comp.maxLocWrites selector with
    | none => .error .diverges
    | some action => do
      let se ← memSubEvent comp reads writes action
      if capacity ≤ (reads + writes : Nat) then .error .subEventListFull
      else
        let (reads, writes) := match action with
          | .localRead => (reads + 1, writes)
          | .localWrite => (reads, writes + 1)
        return se :: (← memSubEvents comp capacity n reads writes selector.flip)

def SubEvent.addIOP : SubEvent := { se with numIOPS := se.numIOPS + 1 }

def SubEvent.addFLOP : SubEvent := { se with numFLOPS := se.numFLOPS + 1 }

def spread (bump : SubEvent → SubEvent) (total : Nat) (rand : Nat → Nat) :
    Nat → List SubEvent → List SubEvent
  | 0, subs => subs
  | n + 1, subs => spread bump total rand n (subs.modify (rand n % total) bump)

def newDeque (size : Nat) : Except Fault Int :=
  if toInt32 size ≤ 0 then .error .dequeSize else .ok (toInt32 size)

/-- The sub-events of a computation event. The operations left over by the division are handed
out by `rand`; `MEM_div` and `MEM_rem` are zero. -/
def compSubEvents (rand : Nat → Nat) : Except Fault (List SubEvent) :=
  let total := comp.totalMemOps
  if total = 0 then
    .ok [{ numIOPS := comp.compIOPS, numFLOPS := comp.compFLOPS, numMemOps := 0, msg := none }]
  else do
    let capacity ← newDeque total
    let subs ← memSubEvents comp capacity total 0 0 .localWrite
    let iopsRem := comp.compIOPS % total % 2 ^ 32
    let flopsRem := comp.compFLOPS % total % 2 ^ 32
    let subs := spread SubEvent.addIOP total rand iopsRem subs
    return spread SubEvent.addFLOP total (fun j => rand (iopsRem + j)) flopsRem subs

def commSubEvents (requests : List SharedInfo) : Except Fault (List SubEvent) := do
  if (← newDeque requests.length) < requests.length then .error .subEventListFull
  else return requests.map fun request =>
    { numIOPS := 0, numFLOPS := 0, numMemOps := 0, msg := some ⟨.read, request⟩ }

def pthreadSubEvents : List SubEvent :=
  [{ numIOPS := 0, numFLOPS := 0, numMemOps := 0, msg := none }]

def subEventsOf (kind : EventKind) (rand : Nat → Nat) : Except Fault (List SubEvent) :=
  match kind with
  | .pthreadApi _ _ => .ok pthreadSubEvents
  | .communication requests => commSubEvents requests
  | .computation comp => compSubEvents comp rand

end SynchroTrace.Replay
