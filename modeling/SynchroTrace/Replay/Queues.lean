import SynchroTrace.Replay.Breakdown
import SynchroTrace.Replay.Reading

/-!
The shape of the queues: the unread lines are the end of the thread's file, the events queued are
those of the file, and only a head event has sub-events, the last ones of those it was given.
-/

namespace SynchroTrace.Replay
open List Function

structure Heads (q : List STEvent) (e : STEvent) (rest : List STEvent) (top : SubEvent)
    (more : List SubEvent) : Prop where
  queue : q = e :: rest
  subs : e.subEventList = some (top :: more)

/-- The head event of a thread and its first sub-event. -/
abbrev AtHead (s : State) (threadID : Nat) : STEvent → List STEvent → SubEvent → List SubEvent →
    Prop :=
  Heads (s.eventMap threadID)

variable {more : List SubEvent} {top : SubEvent}

theorem AtHead.unique {s : State} {t : Nat} {e e' : STEvent} {rest rest' : List STEvent}
    {top' : SubEvent} {more' : List SubEvent} (first : AtHead s t e rest top more)
    (second : AtHead s t e' rest' top' more') :
    e' = e ∧ rest' = rest ∧ top' = top ∧ more' = more := by
  have queue := second.queue
  rw [first.queue] at queue
  cases queue
  have subs := second.subs
  rw [first.subs] at subs
  cases subs
  exact ⟨rfl, rfl, rfl, rfl⟩

/-- The head event retires, and the queue is refilled unless it has run empty. -/
def State.finish (cfg : Config) (s : State) (threadID : Nat) (e : STEvent) (rest : List STEvent) :
    State :=
  if rest = [] then s.popEvent threadID e rest
  else (s.popEvent threadID e rest).replenish cfg threadID

/-- The sub-events `more` are left of the head event. -/
def State.leave (cfg : Config) (s : State) (threadID : Nat) (e : STEvent) (rest : List STEvent) :
    List SubEvent → State
  | [] => s.finish cfg threadID e rest
  | next :: more => s.setSubEvents threadID e rest (cfg.timed next s.curTick :: more)

def SubEvent.plain (se : SubEvent) : SubEvent :=
  { se with msgTriggered := false, triggerTime := 0, initialTriggerTime := 0 }

structure SubsLeft (kind : EventKind) (subs : List SubEvent) : Prop where
  nonempty : subs ≠ []
  made : ∃ rand full, subEventsOf kind rand = .ok full ∧
    subs.map SubEvent.plain <:+ full.map SubEvent.plain
  untriggered : ∀ se ∈ subs.tail, se.msgTriggered = false
  sent : ∀ se ∈ subs, se.msgTriggered = true → se.containsMsg = true

variable {kind : EventKind}

theorem subsLeft_create {rand : Nat → Nat} {subs : List SubEvent}
    (made : subEventsOf kind rand = .ok subs) (nonempty : subs ≠ []) : SubsLeft kind subs := by
  have fresh := subEventsOf_untriggered made
  refine ⟨nonempty, ⟨rand, _, made, suffix_refl _⟩,
    fun se later => fresh se (mem_of_mem_tail later), fun se member triggered => ?_⟩
  rw [fresh se member] at triggered
  cases triggered

theorem SubsLeft.setHead {head : SubEvent} (left : SubsLeft kind (top :: more))
    (same : head.plain = top.plain) (sent : head.msgTriggered = true → head.containsMsg = true) :
    SubsLeft kind (head :: more) := by
  obtain ⟨rand, full, made, suffix⟩ := left.made
  refine ⟨cons_ne_nil _ _, ⟨rand, full, made, ?_⟩, left.untriggered, fun se member => ?_⟩
  · rwa [map_cons, same]
  · rcases mem_cons.mp member with rfl | later
    · exact sent
    · exact left.sent se (mem_cons_of_mem _ later)

theorem SubsLeft.timed {cfg : Config} (left : SubsLeft kind (top :: more)) (now : Nat) :
    SubsLeft kind (cfg.timed top now :: more) :=
  left.setHead rfl (left.sent top mem_cons_self)

theorem SubsLeft.tail {next : SubEvent}
    (left : SubsLeft kind (top :: next :: more)) : SubsLeft kind (next :: more) := by
  obtain ⟨rand, full, made, suffix⟩ := left.made
  refine ⟨cons_ne_nil _ _, ⟨rand, full, made, (suffix_cons _ _).trans suffix⟩, ?_, ?_⟩
  · exact fun se later => left.untriggered se (mem_cons_of_mem _ later)
  · exact fun se later => left.sent se (mem_cons_of_mem _ later)

theorem SubsLeft.pthread {type : PthreadType} {addr : Nat}
    (left : SubsLeft (.pthreadApi type addr) (top :: more)) :
    more = [] ∧ top.msg = none ∧ top.msgTriggered = false := by
  obtain ⟨rand, full, made, suffix⟩ := left.made
  cases made
  have short := suffix.length_le
  simp only [pthreadSubEvents, length_map, length_cons, length_nil] at short
  have single : more = [] := eq_nil_of_length_eq_zero (by omega)
  subst single
  have same := suffix.eq_of_length rfl
  simp only [pthreadSubEvents, map_cons, map_nil, List.cons.injEq, and_true] at same
  have none : top.msg = none := congrArg SubEvent.msg same
  have silent : top.containsMsg = false := by simp [SubEvent.containsMsg, none]
  refine ⟨rfl, none, ?_⟩
  cases flag : top.msgTriggered with
  | false => rfl
  | true =>
    rw [left.sent top mem_cons_self flag] at silent
    cases silent

inductive QueueShape (cfg : Config) (t : Nat) : List STEvent → Prop where
  | empty : QueueShape cfg t []
  | cons {e : STEvent} {rest : List STEvent} (simulated : t < cfg.numThreads)
      (listed : e.toTraceEvent ∈ cfg.trace t)
      (subs : ∀ subs, e.subEventList = some subs → SubsLeft e.kind subs)
      (fresh : ∀ e ∈ rest, e.toTraceEvent ∈ cfg.trace t ∧ e.subEventList = none) :
      QueueShape cfg t (e :: rest)

namespace QueueShape

variable {cfg : Config} {t : Nat} {e : STEvent} {q rest : List STEvent}

theorem listed (shape : QueueShape cfg t q) (member : e ∈ q) :
    t < cfg.numThreads ∧ e.toTraceEvent ∈ cfg.trace t := by
  cases shape with
  | empty => cases member
  | cons simulated listed _ fresh =>
    rcases mem_cons.mp member with rfl | later
    · exact ⟨simulated, listed⟩
    · exact ⟨simulated, (fresh e later).1⟩

theorem owner (shape : QueueShape cfg t q) (member : e ∈ q) : e.threadID = t :=
  have ⟨simulated, listed⟩ := shape.listed member
  fileEvents_threadID (linesOf_traceFile cfg simulated) listed

theorem ofFresh (simulated : t < cfg.numThreads)
    (fresh : ∀ e ∈ q, e.toTraceEvent ∈ cfg.trace t ∧ e.subEventList = none) : QueueShape cfg t q := by
  cases q with
  | nil => exact .empty
  | cons e rest =>
    obtain ⟨listed, new⟩ := fresh e mem_cons_self
    refine .cons simulated listed (fun subs created => ?_)
      fun e later => fresh e (mem_cons_of_mem _ later)
    rw [new] at created
    cases created

theorem pop (shape : QueueShape cfg t (e :: rest)) : QueueShape cfg t rest := by
  cases shape with
  | cons simulated _ _ fresh => exact .ofFresh simulated fresh

theorem setSubEvents {subs : List SubEvent} (shape : QueueShape cfg t (e :: rest))
    (left : SubsLeft e.kind subs) :
    QueueShape cfg t ({ e with subEventList := some subs } :: rest) := by
  cases shape with
  | cons simulated listed _ fresh =>
    refine .cons simulated listed (fun created same => ?_) fresh
    cases same
    exact left

theorem append (shape : QueueShape cfg t q) (simulated : t < cfg.numThreads)
    {events : List TraceEvent} (own : ∀ e ∈ events, e ∈ cfg.trace t) :
    QueueShape cfg t (q ++ queued events) := by
  have fresh : ∀ e ∈ queued events, e.toTraceEvent ∈ cfg.trace t ∧ e.subEventList = none := by
    intro e member
    obtain ⟨read, inFile, rfl⟩ := mem_map.mp member
    exact ⟨own read inFile, rfl⟩
  cases shape with
  | empty => exact .ofFresh simulated fresh
  | cons _ listed subs old =>
    refine .cons simulated listed subs fun e member => ?_
    rcases mem_append.mp member with before | after
    · exact old e before
    · exact fresh e after

end QueueShape

structure Shape (cfg : Config) (s : State) : Prop where
  files : ∀ t < cfg.numThreads, s.inputFile t <:+ cfg.traceFile t
  queues : ∀ t, QueueShape cfg t (s.eventMap t)
  mapped : ∀ procID, ∀ t ∈ s.threadMap procID, t < cfg.numThreads ∧ t % cfg.numMapped = procID

namespace Shape

variable {cfg : Config} {s : State} {t : Nat} {e : STEvent} {rest : List STEvent}
  {top : SubEvent} {more : List SubEvent}

variable (shape : Shape cfg s)
include shape

theorem lines (simulated : t < cfg.numThreads) : LinesOf cfg t (s.inputFile t) :=
  (linesOf_traceFile cfg simulated).mono (shape.files t simulated).subset

theorem listed (queue : s.eventMap t = e :: rest) :
    t < cfg.numThreads ∧ e.toTraceEvent ∈ cfg.trace t :=
  (shape.queues t).listed (by rw [queue]; exact mem_cons_self)

theorem simulated (queue : s.eventMap t = e :: rest) : t < cfg.numThreads := (shape.listed queue).1

theorem owner (queue : s.eventMap t = e :: rest) : e.threadID = t :=
  (shape.queues t).owner (by rw [queue]; exact mem_cons_self)

theorem owner_rest (queue : s.eventMap t = e :: rest) : ∀ e ∈ rest, e.threadID = t :=
  fun _ later => (shape.queues t).owner (by rw [queue]; exact mem_cons_of_mem _ later)

section
variable (head : AtHead s t e rest top more)
include head

theorem left : SubsLeft e.kind (top :: more) := by
  have queue := shape.queues t
  rw [head.queue] at queue
  cases queue with
  | cons _ _ subs _ => exact subs _ head.subs

theorem pthread {type : PthreadType} {addr : Nat} (kind : e.kind = .pthreadApi type addr) :
    more = [] ∧ top.msg = none ∧ top.msgTriggered = false := by
  have left := shape.left head
  rw [kind] at left
  exact left.pthread

theorem kind_of_message {msg : Msg} (message : top.msg = some msg) (type : PthreadType) (addr : Nat) :
    e.kind ≠ .pthreadApi type addr := by
  intro kind
  rw [(shape.pthread head kind).2.1] at message
  cases message

theorem kind_of_triggered (triggered : top.msgTriggered = true) (type : PthreadType) (addr : Nat) :
    e.kind ≠ .pthreadApi type addr := by
  intro kind
  rw [(shape.pthread head kind).2.2] at triggered
  cases triggered

end

theorem feed (simulated : t < cfg.numThreads) (count : Nat) : Shape cfg (s.feed cfg t count) := by
  refine ⟨?_, ?_, shape.mapped⟩
  · intro u inside
    by_cases same : u = t
    · subst same
      simp only [State.feed, update_self]
      exact (drop_suffix _ _).trans (shape.files u inside)
    · simp only [State.feed, update_of_ne same]
      exact shape.files u inside
  · refine (forall_update_iff _ _).mpr ⟨?_, fun u _ => shape.queues u⟩
    exact (shape.queues t).append simulated fun e read =>
      ((take_sublist _ _).trans (shape.files t simulated).sublist).filterMap _ |>.subset read

theorem replenish (simulated : t < cfg.numThreads) : Shape cfg (s.replenish cfg t) := by
  unfold State.replenish
  split
  · exact shape.feed simulated readBlock
  · exact shape

theorem congr {s' : State} (files : s'.inputFile = s.inputFile) (queues : s'.eventMap = s.eventMap)
    (threads : s'.threadMap = s.threadMap) : Shape cfg s' := by
  refine ⟨?_, ?_, ?_⟩
  · rw [files]
    exact shape.files
  · rw [queues]
    exact shape.queues
  · rw [threads]
    exact shape.mapped

section
variable (queue : s.eventMap t = e :: rest)
include queue

theorem setSubEvents {subs : List SubEvent} (left : SubsLeft e.kind subs) :
    Shape cfg (s.setSubEvents t e rest subs) := by
  refine ⟨shape.files, ?_, shape.mapped⟩
  have head := shape.queues t
  rw [queue] at head
  exact (forall_update_iff _ _).mpr ⟨head.setSubEvents left, fun u _ => shape.queues u⟩

theorem atHead (created : e.subEventList ≠ none) :
    ∃ top more, AtHead s t e rest top more := by
  have head := shape.queues t
  rw [queue] at head
  cases head with
  | cons _ _ subs _ =>
    cases list : e.subEventList with
    | none => exact absurd list created
    | some all =>
      have left := subs all list
      cases all with
      | nil => exact absurd rfl left.nonempty
      | cons top more => exact ⟨top, more, queue, list⟩

theorem popEvent : Shape cfg (s.popEvent t e rest) := by
  refine ⟨shape.files, ?_, shape.mapped⟩
  have head := shape.queues t
  rw [queue] at head
  exact (forall_update_iff _ _).mpr ⟨head.pop, fun u _ => shape.queues u⟩

theorem finish : Shape cfg (s.finish cfg t e rest) := by
  unfold State.finish
  split
  · exact shape.popEvent queue
  · exact (shape.popEvent queue).replenish (shape.simulated queue)

end

theorem leave (head : AtHead s t e rest top more) : Shape cfg (s.leave cfg t e rest more) := by
  cases more with
  | nil => exact shape.finish head.queue
  | cons next more => exact shape.setSubEvents head.queue ((shape.left head).tail.timed _)

end Shape

end SynchroTrace.Replay
