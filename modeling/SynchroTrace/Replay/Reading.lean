import SynchroTrace.Lib.Feed
import SynchroTrace.Replay.System

namespace SynchroTrace.Replay
open Feed Outcome List Function

def fileEvents (ruby : Ruby) (lines : List Line) : List TraceEvent :=
  lines.filterMap fun line => (parseLine ruby line).toOption

def Config.trace (cfg : Config) (threadID : Nat) : List TraceEvent :=
  fileEvents cfg.ruby (cfg.traceFile threadID)

def LinesOf (cfg : Config) (threadID : Nat) (lines : List Line) : Prop :=
  ∀ line ∈ lines, ∃ e, parseLine cfg.ruby line = .ok e ∧ e.threadID = threadID

variable {threadID : Nat} {cfg : Config} {lines : List Line}

theorem linesOf_traceFile (cfg : Config) (simulated : threadID < cfg.numThreads) :
    LinesOf cfg threadID (cfg.traceFile threadID) := by
  intro line member
  have parsed := cfg.lines_parse threadID simulated line member
  cases result : parseLine cfg.ruby line with
  | error fault => simp [result, Except.toOption] at parsed
  | ok e =>
    rw [result] at parsed
    exact ⟨e, rfl, Option.some.inj parsed⟩

theorem LinesOf.mono {rest : List Line} (own : LinesOf cfg threadID lines) (part : rest ⊆ lines) :
    LinesOf cfg threadID rest :=
  fun line member => own line (part member)

theorem fileEvents_cons {ruby : Ruby} {line : Line} {e : TraceEvent} (lines : List Line)
    (parsed : parseLine ruby line = .ok e) :
    fileEvents ruby (line :: lines) = e :: fileEvents ruby lines := by
  simp [fileEvents, parsed, Except.toOption]

section
variable (own : LinesOf cfg threadID lines)
include own

theorem fileEvents_take (count : Nat) :
    fileEvents cfg.ruby (lines.take count) = (fileEvents cfg.ruby lines).take count := by
  induction lines generalizing count with
  | nil => simp [fileEvents]
  | cons line rest ih =>
    obtain ⟨e, parsed, _⟩ := own line mem_cons_self
    cases count with
    | zero => simp [fileEvents]
    | succ count =>
      rw [take_succ_cons, fileEvents_cons _ parsed, fileEvents_cons _ parsed,
        take_succ_cons, ih (own.mono (subset_cons_self line rest))]

theorem fileEvents_drop (count : Nat) :
    fileEvents cfg.ruby (lines.drop count) = (fileEvents cfg.ruby lines).drop count := by
  induction lines generalizing count with
  | nil => simp [fileEvents]
  | cons line rest ih =>
    obtain ⟨e, parsed, _⟩ := own line mem_cons_self
    cases count with
    | zero => simp [fileEvents]
    | succ count =>
      rw [drop_succ_cons, fileEvents_cons _ parsed, drop_succ_cons,
        ih (own.mono (subset_cons_self line rest))]

theorem fileEvents_eq_nil (none : fileEvents cfg.ruby lines = []) : lines = [] := by
  cases lines with
  | nil => rfl
  | cons line rest =>
    obtain ⟨e, parsed, _⟩ := own line mem_cons_self
    rw [fileEvents_cons _ parsed] at none
    cases none

theorem fileEvents_threadID {e : TraceEvent} (member : e ∈ fileEvents cfg.ruby lines) :
    e.threadID = threadID := by
  obtain ⟨line, inFile, read⟩ := mem_filterMap.mp member
  obtain ⟨e', parsed, owner⟩ := own line inFile
  simp only [parsed, Except.toOption, Option.some.injEq] at read
  rwa [← read]

end

def queued (events : List TraceEvent) : List STEvent := events.map fun e => ⟨e, none⟩

def State.queue (s : State) (threadID : Nat) : List TraceEvent :=
  (s.eventMap threadID).map STEvent.toTraceEvent

def State.unread (cfg : Config) (s : State) (threadID : Nat) : List TraceEvent :=
  fileEvents cfg.ruby (s.inputFile threadID)

def State.buffer (cfg : Config) (s : State) (threadID : Nat) : Buffer TraceEvent :=
  ⟨s.queue threadID, s.unread cfg threadID⟩

def State.feed (cfg : Config) (s : State) (threadID count : Nat) : State :=
  { s with
    eventMap := Function.update s.eventMap threadID
      (s.eventMap threadID ++ queued (fileEvents cfg.ruby ((s.inputFile threadID).take count)))
    inputFile := Function.update s.inputFile threadID ((s.inputFile threadID).drop count) }

variable {s : State}

theorem readLines_eq (simulated : threadID < cfg.numThreads) (count : Nat)
    (own : LinesOf cfg threadID (s.inputFile threadID))
    (room : (s.eventMap threadID).length + count ≤ maxEventsSize) :
    readLines cfg threadID count s = .ok (s.feed cfg threadID count) := by
  induction count generalizing s with
  | zero => simp [readLines, State.feed, fileEvents, queued]
  | succ count ih =>
    unfold readLines
    split
    · rename_i atEnd
      have read : Function.update s.inputFile threadID [] = s.inputFile := by
        rw [← atEnd, update_eq_self]
      simp [State.feed, atEnd, fileEvents, queued, read]
    · rename_i line rest file
      obtain ⟨e, parsed, owner⟩ := own line (by simp [file])
      have fits : ¬ cfg.numThreads ≤ e.threadID := by omega
      have short : ¬ maxEventsSize ≤ (s.eventMap e.threadID).length := by rw [owner]; omega
      simp only [parsed, pushEvent, fits, short, bind, Except.bind, if_false]
      rw [owner, ih]
      · simp only [State.feed, update_self, update_idem, file, queued,
          take_succ_cons, drop_succ_cons, fileEvents_cons _ parsed, map_cons,
          append_assoc, singleton_append]
      · simp only [update_self]
        exact own.mono (by rw [file]; exact subset_cons_self line rest)
      · simp only [update_self, length_append, length_singleton]
        omega

/-- `replenishEvents(threadID)` on a thread whose file is its own. -/
def State.replenish (cfg : Config) (s : State) (threadID : Nat) : State :=
  if (s.eventMap threadID).length < minEventsSize then s.feed cfg threadID readBlock else s

theorem replenishThread_eq (simulated : threadID < cfg.numThreads)
    (own : LinesOf cfg threadID (s.inputFile threadID)) :
    replenishThread cfg threadID s = .ok (s.replenish cfg threadID) := by
  unfold replenishThread State.replenish
  have notEnd : curEventListPos threadID ≠ -1 := by simp [curEventListPos]
  simp only [notEnd, not_false_eq_true, and_true, ne_eq]
  split
  · rename_i short
    have room : (s.eventMap threadID).length + readBlock ≤ maxEventsSize := by
      unfold maxEventsSize
      omega
    exact readLines_eq simulated readBlock own room
  · rfl

theorem feed_queue (cfg : Config) (s : State) (threadID count : Nat) :
    (s.feed cfg threadID count).queue threadID =
      s.queue threadID ++ fileEvents cfg.ruby ((s.inputFile threadID).take count) := by
  simp [State.feed, State.queue, queued, comp_def]

theorem feed_buffer (own : LinesOf cfg threadID (s.inputFile threadID)) (count : Nat) :
    (s.feed cfg threadID count).buffer cfg threadID =
      ⟨s.queue threadID ++ (s.unread cfg threadID).take count,
        (s.unread cfg threadID).drop count⟩ := by
  unfold State.buffer
  rw [feed_queue, fileEvents_take own]
  simp only [State.unread, State.feed, update_self, fileEvents_drop own]

theorem replenish_buffer (own : LinesOf cfg threadID (s.inputFile threadID)) :
    (s.replenish cfg threadID).buffer cfg threadID =
      (s.buffer cfg threadID).refill minEventsSize readBlock := by
  have same : (s.buffer cfg threadID).queue.length = (s.eventMap threadID).length := by
    simp [State.buffer, State.queue]
  unfold State.replenish Buffer.refill
  rw [same]
  split
  · exact feed_buffer own readBlock
  · rfl

theorem replenish_buffer_other (cfg : Config) (s : State) {other : Nat}
    (different : other ≠ threadID) :
    (s.replenish cfg threadID).buffer cfg other = s.buffer cfg other := by
  unfold State.replenish
  split
  · simp [State.buffer, State.queue, State.unread, State.feed, different]
  · rfl

end SynchroTrace.Replay
