import SynchroTrace.Replay.Ports

/-!
How a step can end the simulation. Apart from a pthread call that `progressPthreadEvent` refuses,
only what the trace and the pthread file say of threads, addresses, sizes and costs can.
-/

namespace SynchroTrace.Replay
open Outcome Transition List Function

/-- Faults of what is replayed: a thread that does not exist, a read or write without a request to
repeat, or a number of sub-events that does not fit the deque. -/
def inputFaults : List Fault :=
  [.outOfRange, .remainderByZero, .diverges, .dequeSize, .subEventListFull]

abbrev InputFault (f : Fault) : Prop := f ∈ inputFaults

/-- A sub-event of the traces can cost so much that no `Time` holds when it is due. -/
def Config.Overflows (cfg : Config) : Prop :=
  ∃ t < cfg.numThreads, ∃ e ∈ cfg.trace t, ∃ rand subs, subEventsOf e.kind rand = .ok subs ∧
    ∃ se ∈ subs, ∃ now < 2 ^ 53, cfg.dueTime se now < 0

def ReplayFault (cfg : Config) (f : Fault) : Prop :=
  InputFault f ∨ f = .scheduledInPast ∧ cfg.Overflows

theorem cyclicRequest_fails (requests : List SharedInfo) (i : Nat) :
    FailsOnly InputFault (cyclicRequest requests i) := by
  unfold cyclicRequest
  split
  · exact failsOnly_ok _
  · exact failsOnly_error (by decide)

theorem memSubEvent_fails (comp : CompInfo) (reads writes : Nat) (action : MemAction) :
    FailsOnly InputFault (memSubEvent comp reads writes action) := by
  cases action with
  | localRead => exact (cyclicRequest_fails _ _).bind fun _ _ => failsOnly_ok _
  | localWrite => exact (cyclicRequest_fails _ _).bind fun _ _ => failsOnly_ok _

theorem memSubEvents_fails (comp : CompInfo) (capacity : Int) (n reads writes : Nat)
    (selector : MemAction) :
    FailsOnly InputFault (memSubEvents comp capacity n reads writes selector) := by
  induction n generalizing reads writes selector with
  | zero => exact failsOnly_ok _
  | succ n ih =>
    unfold memSubEvents
    split
    · exact failsOnly_error (by decide)
    · refine (memSubEvent_fails _ _ _ _).bind fun _ _ => ?_
      split
      · exact failsOnly_error (by decide)
      · exact (ih _ _ _).bind fun _ _ => failsOnly_ok _

theorem newDeque_fails (size : Nat) : FailsOnly InputFault (newDeque size) := by
  unfold newDeque
  split
  · exact failsOnly_error (by decide)
  · exact failsOnly_ok _

theorem subEventsOf_fails (kind : EventKind) (rand : Nat → Nat) :
    FailsOnly InputFault (subEventsOf kind rand) := by
  cases kind with
  | pthreadApi type addr => exact failsOnly_ok _
  | communication requests =>
    refine (newDeque_fails _).bind fun _ _ => ?_
    split
    · exact failsOnly_error (by decide)
    · exact failsOnly_ok _
  | computation comp =>
    simp only [subEventsOf, compSubEvents]
    split
    · exact failsOnly_ok _
    · refine (newDeque_fails _).bind fun _ _ => ?_
      exact (memSubEvents_fails _ _ _ _ _ _).bind fun _ _ => failsOnly_ok _

theorem subEventsOf_ne_nil {kind : EventKind} {rand : Nat → Nat} {subs : List SubEvent}
    (h : subEventsOf kind rand = .ok subs) : subs ≠ [] := by
  cases kind with
  | pthreadApi type addr =>
    cases h
    simp [pthreadSubEvents]
  | communication requests =>
    rw [commSubEvents_ok h]
    rintro none
    rw [map_eq_nil_iff] at none
    subst none
    cases h
  | computation comp =>
    by_cases busy : comp.totalMemOps = 0
    · simp only [subEventsOf, compSubEvents, busy, if_true] at h
      cases h
      simp
    · obtain ⟨loop, length, _, _, _, _, _, rfl, _⟩ := compSubEvents_mem busy h
      apply ne_nil_of_length_pos
      rw [handOut, spread_length, spread_length]
      omega

section
variable {cfg : Config} {p t : Nat} {time : Int} {s : State} {e : STEvent} {rest : List STEvent}
  {top : SubEvent} {more : List SubEvent}

theorem schedule_fails (idle : s.coreEvents p = none) (future : s.curTick ≤ time ∨ cfg.Overflows) :
    FailsOnly (ReplayFault cfg) (schedule p time s) := by
  unfold schedule
  split
  · exact failsOnly_error (Or.inr ⟨rfl, future.resolve_left (by omega)⟩)
  · rw [idle]
    exact failsOnly_ok _

theorem scheduleIfIdle_fails (future : s.curTick ≤ time ∨ cfg.Overflows) :
    FailsOnly (ReplayFault cfg) (scheduleIfIdle p time s) := by
  unfold scheduleIfIdle
  split
  · exact failsOnly_ok _
  · rename_i idle
    exact schedule_fails (by simpa using idle) future

theorem dueTime_future {rand : Nat → Nat} {subs : List SubEvent} {se : SubEvent} {now : Nat}
    (shape : Shape cfg s) (queue : s.eventMap t = e :: rest)
    (made : subEventsOf e.kind rand = .ok subs) (member : se ∈ subs) (early : now < 2 ^ 53) :
    now ≤ cfg.dueTime se now ∨ cfg.Overflows := by
  by_cases fits : 0 ≤ cfg.dueTime se now
  · exact Or.inl (Config.lt_dueTime early fits).le
  · obtain ⟨simulated, listed⟩ := shape.listed queue
    exact Or.inr ⟨t, simulated, e.toTraceEvent, listed, rand, subs, made, se, member, now, early,
      not_le.mp fits⟩

theorem dueTime_future_left (shape : Shape cfg s) (head : AtHead s t e rest top more) {now : Nat}
    (early : now < 2 ^ 53) :
    ∀ se ∈ top :: more, now ≤ cfg.dueTime se now ∨ cfg.Overflows := by
  intro se member
  obtain ⟨rand, full, made, suffix⟩ := (shape.left head).made
  obtain ⟨given, among, same⟩ := mem_map.mp (suffix.subset (mem_map_of_mem member))
  change now ≤ cfg.dueTime se.plain now ∨ cfg.Overflows
  rw [← same]
  have future := dueTime_future shape head.queue made among early
  exact future

end

section
variable (cfg : Config)
include cfg

theorem checkCommDependency_fails (s : State) (dep : SharedInfo) :
    FailsOnly InputFault (checkCommDependency cfg s dep) := by
  unfold checkCommDependency
  split
  · exact failsOnly_ok _
  · split
    · split <;> exact failsOnly_ok _
    · exact failsOnly_error (by decide)

theorem checkAllCommDependencies_fails (s : State) (deps : List SharedInfo) :
    FailsOnly InputFault (checkAllCommDependencies cfg s deps) := by
  induction deps with
  | nil => exact failsOnly_ok _
  | cons dep rest ih =>
    exact (checkCommDependency_fails cfg s dep).bind fun _ _ => ih.bind fun _ _ => failsOnly_ok _

theorem acceptsThread_fails (s : State) (t : Nat) :
    FailsOnly InputFault (acceptsThread cfg s t) := by
  unfold acceptsThread
  split
  · exact failsOnly_ok _
  · split
    · exact failsOnly_ok _
    · split
      · exact failsOnly_ok _
      · exact failsOnly_ok _
      · exact (checkAllCommDependencies_fails cfg s _).bind fun _ _ => failsOnly_ok _

theorem firstAccepted_fails (s : State) (threads : List Nat) (i : Nat) :
    FailsOnly InputFault (firstAccepted cfg s threads i) := by
  induction threads generalizing i with
  | nil => exact failsOnly_ok _
  | cons t rest ih =>
    refine (acceptsThread_fails cfg s t).bind fun accepted _ => ?_
    cases accepted with
    | true => exact failsOnly_ok _
    | false => exact ih (i + 1)

theorem swapThreads_fails (p : Nat) (s : State) : FailsOnly InputFault (swapThreads cfg p s) := by
  refine (firstAccepted_fails cfg s _ 1).bind fun found _ => ?_
  cases found <;> exact failsOnly_ok _

theorem swapIfStarted_fails (p : Nat) (others : List Nat) (s : State) :
    FailsOnly InputFault (swapIfStarted cfg p others s) := by
  unfold swapIfStarted
  split
  · exact swapThreads_fails cfg p s
  · exact failsOnly_ok _

theorem createSubEventsOf_fails (p t : Nat) (rand : Nat → Nat) {s : State} (shape : Shape cfg s)
    (early : s.curTick < 2 ^ 53) :
    FailsOnly (ReplayFault cfg) (createSubEventsOf cfg p t rand s) := by
  unfold createSubEventsOf
  split
  · exact failsOnly_ok _
  · split
    · exact failsOnly_ok _
    · rename_i queue
      split
      · exact failsOnly_ok _
      · refine (FailsOnly.mono (fun _ => Or.inl) (subEventsOf_fails _ rand)).bind fun subs made => ?_
        cases subs with
        | nil => exact absurd rfl (subEventsOf_ne_nil made)
        | cons top more =>
          exact scheduleIfIdle_fails (dueTime_future shape queue made mem_cons_self early)

theorem createSubEvents_fails (p : Nat) (rand : Nat → Nat) {s : State} (shape : Shape cfg s)
    (early : s.curTick < 2 ^ 53) : FailsOnly (ReplayFault cfg) (createSubEvents cfg p rand s) := by
  unfold createSubEvents
  split
  · exact failsOnly_error (Or.inl (by decide))
  · exact createSubEventsOf_fails cfg p _ rand shape early

theorem threadIndex_fails (id : Int) : FailsOnly InputFault (cfg.threadIndex id) := by
  unfold Config.threadIndex
  split
  · exact failsOnly_ok _
  · exact failsOnly_error (by decide)

end

variable {cfg : Config} {rest : List STEvent}

theorem createSubEventsOf_created {p t : Nat} {rand : Nat → Nat} {s next : State}
    (shape : Shape cfg next) (h : createSubEventsOf cfg p t rand s = .ok next)
    (started : s.threadStartedMap t = true) {e : STEvent}
    (queue : next.eventMap t = e :: rest) : ∃ top more, AtHead next t e rest top more := by
  refine shape.atHead queue ?_
  rcases createSubEventsOf_ok h with ⟨rfl, already⟩ | ⟨_, _, _, _, created⟩
  · exact already started e (by simp [queue])
  · obtain ⟨events, rfl, _⟩ := created.scheduled
    simp only [State.setCoreEvents, State.setSubEvents, update_self, List.cons.injEq] at queue
    obtain ⟨rfl, _⟩ := queue
    simp

theorem stallsHead_fails {s : State} {t : Nat} {e : STEvent}
    {top : SubEvent} {more : List SubEvent} (head : AtHead s t e rest top more) :
    FailsOnly InputFault (stallsHead cfg s e) := by
  unfold stallsHead
  split
  · exact failsOnly_ok _
  · rw [head.subs]
    exact failsOnly_ok _
  · exact (threadIndex_fails cfg _).bind fun _ _ => failsOnly_ok _
  · exact failsOnly_ok _
  · exact failsOnly_ok _

theorem swapStalledThreads_fails {p : Nat} {rand : Nat → Nat} {s : State} (shape : Shape cfg s)
    (early : s.curTick < 2 ^ 53) :
    FailsOnly (ReplayFault cfg) (swapStalledThreads cfg p rand s) := by
  unfold swapStalledThreads
  split
  · exact failsOnly_error (Or.inl (by decide))
  · split
    · exact failsOnly_ok _
    · split
      · exact scheduleIfIdle_fails (Or.inl (by omega))
      · exact failsOnly_ok _
  · rename_i t others _ threads
    split
    · refine (FailsOnly.mono (fun _ => Or.inl) (swapIfStarted_fails cfg p others s)).bind
        fun _ _ => ?_
      exact scheduleIfIdle_fails (Or.inl (by omega))
    · rename_i busy
      obtain ⟨nonempty, started⟩ := not_or.mp busy
      refine (createSubEventsOf_fails cfg p t rand shape early).bind fun next created => ?_
      have placed := (shape.mapped p t (by simp [threads])).2
      have nextShape := (createSubEventsOf_changes placed created).shape shape
      split
      · rename_i empty
        exfalso
        rcases createSubEventsOf_ok created with ⟨rfl, _⟩ | ⟨_, _, _, _, created⟩
        · exact nonempty empty
        · obtain ⟨events, rfl, _⟩ := created.scheduled
          simp [State.setCoreEvents, State.setSubEvents] at empty
      · rename_i e rest queue
        obtain ⟨top, more, head⟩ :=
          createSubEventsOf_created nextShape created (by simpa using started) queue
        refine (FailsOnly.mono (fun _ => Or.inl) (stallsHead_fails head)).bind fun stalls _ => ?_
        cases stalls with
        | false => exact failsOnly_ok _
        | true =>
          refine (FailsOnly.mono (fun _ => Or.inl) (swapThreads_fails cfg p next)).bind
            fun _ _ => ?_
          exact scheduleIfIdle_fails (Or.inl (by omega))

section Progress

variable {cfg : Config} {p t : Nat} {s : State} {e : STEvent} {rest : List STEvent}
  {top : SubEvent} {more : List SubEvent}

section
variable (idle : s.coreEvents p = none) (simulated : t < cfg.numThreads)
  (own : LinesOf cfg t (s.inputFile t)) (owner : ∀ e ∈ rest, e.threadID = t)
include idle simulated own owner

theorem finishEvent_fails : FailsOnly (ReplayFault cfg) (finishEvent cfg p t e rest s) := by
  refine (FailsOnly.mono (fun _ => Or.inl) (swapThreads_fails cfg p _)).bind fun swapped swap => ?_
  obtain ⟨i, rfl⟩ := swapThreads_ok swap
  have queue : (moveThreadToHead p i (s.popEvent t e rest)).eventMap t = rest :=
    update_self ..
  have file : LinesOf cfg t ((moveThreadToHead p i (s.popEvent t e rest)).inputFile t) := own
  cases rest with
  | nil =>
    simp only [replenishHead, queue]
    exact schedule_fails idle (Or.inl (by omega))
  | cons head others =>
    simp only [replenishHead, queue, owner head mem_cons_self,
      replenishThread_eq simulated file, replenish_rotate]
    refine schedule_fails ?_ (Or.inl (by omega))
    rw [State.replenish]
    split <;> exact idle

theorem advanceEvent_fails
    (future : ∀ se ∈ more, s.curTick ≤ cfg.dueTime se s.curTick ∨ cfg.Overflows) :
    FailsOnly (ReplayFault cfg) (advanceEvent cfg p t e rest more s) := by
  cases more with
  | nil => exact finishEvent_fails idle simulated own owner
  | cons next more => exact schedule_fails idle (future next mem_cons_self)

end

/-- `progressPthreadEvent` refuses the call at the head of a started thread. -/
def VisitFault (cfg : Config) (s : State) (f : Fault) : Prop :=
  ∃ t e rest type addr, s.eventMap t = e :: rest ∧ e.kind = .pthreadApi type addr ∧
    s.threadStartedMap t = true ∧
    visitPthread cfg t type addr (fun u => (s.eventMap u).isEmpty) s.toSync = .error f

theorem progressSubEvent_fails {accept : Bool} (shape : Shape cfg s) (early : s.curTick < 2 ^ 53)
    (idle : s.coreEvents p = none) (started : s.threadStartedMap t = true)
    (head : AtHead s t e rest top more) :
    FailsOnly (fun f => ReplayFault cfg f ∨ VisitFault cfg s f)
      (progressSubEvent cfg p t e rest top more accept s) := by
  have future := dueTime_future_left shape head early
  have later := fun se member => future se (mem_cons_of_mem top member)
  have simulated := shape.simulated head.queue
  have own := shape.lines simulated
  have owner := shape.owner_rest head.queue
  have input : ∀ f, ReplayFault cfg f → ReplayFault cfg f ∨ VisitFault cfg s f := fun _ => Or.inl
  unfold progressSubEvent
  split
  · unfold progressPlain
    split
    · rename_i type addr kind
      refine FailsOnly.bind ?_ ?_
      · intro f failed
        rw [shape.owner head.queue] at failed
        exact Or.inr ⟨t, e, rest, type, addr, head.queue, kind, started, failed⟩
      · rintro ⟨sync, visit, seen⟩ _
        refine FailsOnly.mono input ?_
        cases visit with
        | waiting => exact advanceEvent_fails idle simulated own owner future
        | skipped | consumed => exact advanceEvent_fails idle simulated own owner later
    · exact FailsOnly.mono input (advanceEvent_fails idle simulated own owner later)
  · refine FailsOnly.mono input ?_
    unfold progressMessage
    split
    · refine (FailsOnly.mono (fun _ => Or.inl) (checkCommDependency_fails cfg _ _)).bind
        fun _ _ => ?_
      split
      · exact failsOnly_ok _
      · exact schedule_fails idle (Or.inl (Int.le_add_of_nonneg_right (by decide)))
    · split <;> exact failsOnly_ok _

theorem progressEvents_fails {accept : Bool} {others : List Nat} (shape : Shape cfg s)
    (early : s.curTick < 2 ^ 53) (calm : Calm cfg p s) (threads : s.threadMap p = t :: others)
    (created : s.threadStartedMap t = true → ∀ e rest, s.eventMap t = e :: rest → ∃ top more,
      AtHead s t e rest top more)
    (idle : ∀ e rest top more, AtHead s t e rest top more → top.triggerTime ≤ s.curTick →
      s.coreEvents p = none) :
    FailsOnly (fun f => ReplayFault cfg f ∨ VisitFault cfg s f) (progressEvents cfg p accept s) := by
  have placed := (shape.mapped p t (by simp [threads])).2
  unfold progressEvents
  simp only [threads]
  split
  · exact failsOnly_ok _
  · rename_i started
    simp only [Bool.not_eq_false] at started
    split
    · exact failsOnly_ok _
    · rename_i e rest queue
      obtain ⟨top, more, head⟩ := created started e rest queue
      simp only [head.subs]
      split
      · rename_i due
        exact progressSubEvent_fails shape early (idle e rest top more head due.1) started head
      · rename_i notDue
        have untriggered := calm.untriggered t placed e rest top more head
        refine FailsOnly.mono (fun _ => Or.inl) (scheduleIfIdle_fails ?_)
        simp only [untriggered, and_true] at notDue
        exact Or.inl (by omega)

theorem hitCallback_fails {r : Request} (shape : Shape cfg s) (inside : p < cfg.numMapped)
    (waiting : Waiting cfg p s r) {time : Nat} (early : time < 2 ^ 53) :
    FailsOnly (ReplayFault cfg) (hitCallback cfg p
      { s with curTick := time, pending := s.pending.erase r }) := by
  obtain ⟨e, rest, top, more, head, sent⟩ := waiting.sender
  have simulated := shape.simulated head.queue
  obtain ⟨others, threads⟩ := List.head?_eq_some_iff.mp waiting.front
  unfold hitCallback
  simp only [Nat.not_le.mpr inside, if_false, threads, head.queue, head.subs, sent.triggered,
    Bool.true_eq_false]
  apply advanceEvent_fails
  · exact waiting.idle
  · exact simulated
  · exact shape.lines simulated
  · exact shape.owner_rest head.queue
  · exact fun se member => dueTime_future_left shape head early se (mem_cons_of_mem top member)

end Progress

variable {cfg : Config} {t p time : Nat}

theorem visitPthread_error {type : PthreadType} {addr : Nat} {queueEmpty : Nat → Bool} {y : Sync}
    {f : Fault} (h : visitPthread cfg t type addr queueEmpty y = .error f) :
    InputFault f ∨ f = .invalidPthreadEvent ∨
      (f = .mutexNotLocked ∧ type = .mutexUlk ∧ addr ∉ y.mutexLocks) ∨
      (f = .spinNotLocked ∧ type = .spinUlk ∧ addr ∉ y.spinLocks) := by
  cases type with
  | mutexLk | spinLk =>
    simp only [visitPthread] at h
    split at h <;> cases h
  | mutexUlk =>
    simp only [visitPthread] at h
    split at h
    · cases h
    · rename_i free
      cases h
      exact Or.inr (Or.inr (Or.inl ⟨rfl, rfl, free⟩))
  | spinUlk =>
    simp only [visitPthread] at h
    split at h
    · cases h
    · rename_i free
      cases h
      exact Or.inr (Or.inr (Or.inr ⟨rfl, rfl, free⟩))
  | create =>
    left
    exact (threadIndex_fails cfg _).bind (fun _ _ => failsOnly_ok _) f h
  | join =>
    left
    refine (threadIndex_fails cfg _).bind (fun joined _ => ?_) f h
    dsimp only
    split <;> exact failsOnly_ok _
  | barrierWt =>
    left
    simp only [visitPthread, barrierWait] at h
    split at h
    · cases h
    · split at h
      · split at h
        · cases h
        · cases h
          decide
      · cases h
  | condWt | condSg => cases h
  | semInit | semWait | semPost | semGetv | semDest | other =>
    cases h
    exact Or.inr (Or.inl rfl)

/-- How a step from `s` can end the simulation. -/
def StepFault (cfg : Config) (s : State) (f : Fault) : Prop :=
  ReplayFault cfg f ∨ ∃ middle, Changes cfg s middle ∧ VisitFault cfg middle f

variable {s next : State}

theorem createSubEventsOf_sync {rand : Nat → Nat}
    (h : createSubEventsOf cfg p t rand s = .ok next) :
    next.toSync = s.toSync ∧ next.curTick = s.curTick := by
  rcases createSubEventsOf_ok h with ⟨rfl, _⟩ | ⟨e, rest, top, more, created⟩
  · exact ⟨rfl, rfl⟩
  · obtain ⟨events, rfl, _⟩ := created.scheduled
    exact ⟨rfl, rfl⟩

theorem Rescheduled.now (h : Rescheduled p s next) : next.curTick = s.curTick := by
  obtain ⟨i, events, rfl, _⟩ := h
  rfl

theorem FrontProgressed.now {accept : Bool} (h : FrontProgressed cfg p t accept s next) :
    next.curTick = s.curTick := by
  cases h with
  | nothing => rfl
  | later _ _ scheduled => exact scheduled.rescheduled.now
  | due _ _ _ _ progressed =>
    cases progressed with
    | recheck _ _ _ scheduled => exact scheduled.rescheduled.now
    | sent =>
      unfold triggerMsg
      split <;> rfl
    | work _ _ scheduled => exact scheduled.now.trans (Kept.leave cfg _ _).now
    | visit _ _ _ scheduled => exact scheduled.now.trans (Kept.afterVisit cfg _ _ _ _ _ _).now

variable {rand : Nat → Nat → Nat}

theorem wakeup_fails {accept : Bool} (early : s.curTick < 2 ^ 53)
    (shape : Shape cfg s) (calm : Calm cfg p s) (idle : s.coreEvents p = none) :
    FailsOnly (StepFault cfg s) (wakeup cfg p rand accept s) := by
  refine FailsOnly.bind
    (FailsOnly.mono (fun _ => Or.inl) (createSubEvents_fails cfg p _ shape early)) ?_
  intro created create
  have changes := createSubEvents_changes shape create
  have createdShape := changes.shape shape
  obtain ⟨t, others, threads, create⟩ := createSubEvents_ok create
  obtain ⟨sync, now⟩ := createSubEventsOf_sync create
  refine FailsOnly.bind ?_ ?_
  · refine FailsOnly.mono ?_ (progressEvents_fails createdShape (now ▸ early)
      (createSubEventsOf_calm calm create)
      ((congrFun (createSubEventsOf_threadMap create) p).trans threads) ?_ ?_)
    · rintro f (input | refused)
      · exact Or.inl input
      · exact Or.inr ⟨created, changes.changes, refused⟩
    · intro started e rest queue
      rw [sync] at started
      exact createSubEventsOf_created createdShape create started queue
    · intro e rest top more head due
      rw [createSubEventsOf_due early idle create head due]
      exact idle
  · intro moved progress
    have movedShape := (progressEvents_changes createdShape progress).shape createdShape
    obtain ⟨_, _, _, progressed⟩ := progressEvents_ok createdShape progress
    rw [← now, ← progressed.now] at early
    exact FailsOnly.mono (fun _ => Or.inl) (swapStalledThreads_fails movedShape early)

theorem wakeupMaster_fails (early : s.curTick < 2 ^ 53)
    (shape : Shape cfg s) : FailsOnly (ReplayFault cfg) (wakeupMaster cfg rand s) := by
  have filled : ∀ t ∈ List.range cfg.numThreads, ∀ a, Shape cfg a →
      replenishThread cfg t a = .ok (a.replenish cfg t) := fun t member a shape =>
    replenishThread_eq (mem_range.mp member) (shape.lines (mem_range.mp member))
  have keep : ∀ t ∈ List.range cfg.numThreads, ∀ a b, Shape cfg a ∧ a.curTick < 2 ^ 53 →
      replenishThread cfg t a = .ok b → Shape cfg b ∧ b.curTick < 2 ^ 53 := by
    rintro t member a b ⟨shape, early⟩ h
    rw [filled t member a shape] at h
    cases h
    refine ⟨shape.replenish (mem_range.mp member), ?_⟩
    unfold State.replenish
    split <;> exact early
  refine FailsOnly.bind (failsOnly_foldlM _ keep ?_ ⟨shape, early⟩) fun a read => ?_
  · rintro t member a ⟨shape, _⟩
    rw [filled t member a shape]
    exact failsOnly_ok _
  · refine FailsOnly.bind (failsOnly_foldlM (fun a => Shape cfg a ∧ a.curTick < 2 ^ 53) ?_
      (fun p _ a ⟨shape, early⟩ => createSubEvents_fails cfg p _ shape early)
      (foldlM_invariant (fun a => Shape cfg a ∧ a.curTick < 2 ^ 53) keep ⟨shape, early⟩ read))
      fun _ _ => failsOnly_ok _
    rintro p - a b ⟨shape, early⟩ made
    obtain ⟨_, _, _, created⟩ := createSubEvents_ok made
    exact ⟨(createSubEvents_changes shape made).shape shape,
      (createSubEventsOf_sync created).2 ▸ early⟩

theorem perform_fails {a : Action} (shape : Shape cfg s)
    (orderly : Orderly cfg s) (due : a.DueAt cfg s time) :
    FailsOnly (StepFault cfg s) (perform cfg s a time) := by
  have now : Shape cfg { s with curTick := time } := shape.congr rfl rfl rfl
  cases a with
  | master rand => exact FailsOnly.mono (fun _ => Or.inl) (wakeupMaster_fails due.early now)
  | core p rand accept =>
    obtain ⟨inside, scheduled⟩ := due.core
    have popped : Change cfg p { s with curTick := time }
        ({ s with curTick := time }.setCoreEvents (Function.update s.coreEvents p none)) :=
      .coreEvents fun q other => update_of_ne other ..
    have calm := orderly.calm inside scheduled
    refine FailsOnly.mono ?_ (wakeup_fails due.early (popped.shape now) ⟨calm.answered, calm.untriggered⟩
      (update_self ..))
    rintro f (input | ⟨middle, changes, refused⟩)
    · exact Or.inl input
    · exact Or.inr ⟨middle, .head ⟨p, .clock time⟩ (.head ⟨p, popped⟩ changes), refused⟩
  | response request arrival =>
    obtain ⟨inside, waiting⟩ := orderly.waiting due.response
    exact FailsOnly.mono (fun _ => Or.inl) (hitCallback_fails shape inside waiting due.early)

theorem StepFault.not_internal {f : Fault} (h : StepFault cfg s f) :
    f ≠ .emptyDeque ∧ f ≠ .nullSubEventList ∧ f ≠ .alreadyScheduled ∧
      (f = .scheduledInPast → cfg.Overflows) ∧ f ≠ .eventQueueFull := by
  have input : InputFault f → f ≠ .emptyDeque ∧ f ≠ .nullSubEventList ∧ f ≠ .alreadyScheduled ∧
      (f = .scheduledInPast → cfg.Overflows) ∧ f ≠ .eventQueueFull := by
    intro known
    cases f <;> simp_all [InputFault, inputFaults]
  rcases h with (known | ⟨rfl, overflows⟩) | ⟨middle, _, t, e, rest, type, addr, _, _, _, refused⟩
  · exact input known
  · simp [overflows]
  · rcases visitPthread_error refused with known | rfl | ⟨rfl, _⟩ | ⟨rfl, _⟩
    · exact input known
    all_goals simp

theorem leave_subEventsRemoved (cfg : Config) (s : State) (t : Nat) (e : STEvent)
    (rest : List STEvent) (more : List SubEvent) :
    (s.leave cfg t e rest more).subEventsRemoved = s.subEventsRemoved := by
  cases more with
  | nil =>
    simp only [State.leave, State.finish, State.replenish]
    split
    · rfl
    · split <;> rfl
  | cons next more => rfl

theorem hitCallback_removes {r : Request} (shape : Shape cfg s) (waiting : Waiting cfg p s r)
    (h : hitCallback cfg p { s with curTick := time, pending := s.pending.erase r } = .ok next) :
    next.subEventsRemoved r.threadID = s.subEventsRemoved r.threadID + 1 := by
  obtain ⟨e, rest, top, more, head, i, events, rfl, _⟩ := hitCallback_waiting shape waiting h
  simp only [State.setCoreEvents, moveThreadToHead, leave_subEventsRemoved, State.removeSubEvent,
    update_self]
  rfl

/-- Each core has at most one request on its port. The sub-event that sent it stays first until the
response removes it. No step takes an event from an empty queue or schedules an event twice, or in
the past, unless a sub-event costs more than a `Time` holds. -/
theorem responses_reach_their_senders {cfg : Config} {s : State}
    (reach : Reachable (replay cfg) s) :
    (∀ p, (s.pending.filter (·.procID = p)).length ≤ 1) ∧
    (∀ r ∈ s.pending, r.procID < cfg.numMapped ∧ s.coreEvents r.procID = none ∧
      ∃ others e rest top more, s.threadMap r.procID = r.threadID :: others ∧
        s.eventMap r.threadID = e :: rest ∧ e.subEventList = some (top :: more) ∧
        top.msgTriggered = true ∧ top.msg = some r.msg ∧ r.event = e.toTraceEvent ∧
        r.eventIndex = (s.retiredEvents r.threadID).length ∧ r.subEventsLeft = more.length + 1) ∧
    (∀ r arrival time next, (Action.response r arrival).DueAt cfg s time →
      perform cfg s (.response r arrival) time = .ok next →
        next.subEventsRemoved r.threadID = s.subEventsRemoved r.threadID + 1) ∧
    ∀ a time, a.DueAt cfg s time →
      perform cfg s a time ≠ .error .emptyDeque ∧ perform cfg s a time ≠ .error .nullSubEventList ∧
      perform cfg s a time ≠ .error .alreadyScheduled ∧
      (perform cfg s a time = .error .scheduledInPast → cfg.Overflows) := by
  have shape := reachable_shape reach
  have orderly := reachable_orderly reach
  refine ⟨fun p => ?_, fun r sent => ?_, fun r arrival time next due done => ?_,
    fun a time due => ?_⟩
  · by_cases inside : p < cfg.numMapped
    · rcases orderly.settled p inside with calm | ⟨r, waiting⟩
      · simp [calm.answered]
      · simp [waiting.only]
    · have none : s.pending.filter (·.procID = p) = [] := by
        refine filter_eq_nil_iff.mpr fun r sent same => inside ?_
        rw [← of_decide_eq_true same]
        exact orderly.ports r sent
      simp [none]
  · obtain ⟨inside, waiting⟩ := orderly.waiting sent
    obtain ⟨others, threads⟩ := List.head?_eq_some_iff.mp waiting.front
    obtain ⟨e, rest, top, more, head, sender⟩ := waiting.sender
    exact ⟨inside, waiting.idle, others, e, rest, top, more, threads, head.queue, head.subs,
      sender.triggered, sender.message, sender.event, sender.index, sender.subEvent⟩
  · exact hitCallback_removes shape (orderly.waiting due.response).2 done
  · have fails := perform_fails shape orderly due
    refine ⟨fun failed => ?_, fun failed => ?_, fun failed => ?_, fun failed => ?_⟩
    · exact (fails _ failed).not_internal.1 rfl
    · exact (fails _ failed).not_internal.2.1 rfl
    · exact (fails _ failed).not_internal.2.2.1 rfl
    · exact (fails _ failed).not_internal.2.2.2.1 rfl

def readerConfig : Config where
  ruby := .small
  numCpus := 1
  numThreads := 1
  masterWakeupFrequency := 100
  traceFile t := if t = 0 then ["1,1,10,0,1,0 * 64 71".toList] else []

theorem responses_reach_their_senders_reader :
    ∃ s r, Reachable (replay readerConfig) s ∧ r ∈ s.pending ∧ s.coreEvents r.procID = none := by
  have ran : (runFrom readerConfig [.master, .core 0 true]).any
      (fun s => s.pending.length = 1) = true := by decide +kernel
  obtain ⟨s, reach, waits⟩ := runFrom_check (fun _ _ _ _ _ => trivial) ran
  obtain ⟨r, one⟩ := length_eq_one_iff.mp (of_decide_eq_true waits)
  have sent : r ∈ s.pending := by simp [one]
  exact ⟨s, r, reach, sent, ((responses_reach_their_senders reach).2.1 r sent).2.1⟩

def endlessConfig : Config where
  ruby := .small
  numCpus := 1
  numThreads := 1
  traceFile t := if t = 0 then ["1,1,9223372036854775807,0,0,0".toList] else []

/-- The event is due at `2 ^ 63`, which becomes the least `Time`. -/
theorem endless_event_in_past : ∃ s time, Reachable (replay endlessConfig) s ∧
    (Action.master fun _ _ => 0).DueAt endlessConfig s time ∧
    perform endlessConfig s (.master fun _ _ => 0) time = .error .scheduledInPast := by
  have ran : (runFrom endlessConfig []).any (fun s =>
      decide ((Action.master fun _ _ => 0).DueAt endlessConfig s 1) &&
      match perform endlessConfig s (.master fun _ _ => 0) 1 with
      | .error f => f = .scheduledInPast
      | .ok _ => false) = true := by decide +kernel
  obtain ⟨s, reach, checked⟩ := runFrom_check (fun _ _ _ _ _ => trivial) ran
  obtain ⟨due, failed⟩ := Bool.and_eq_true_iff.mp checked
  refine ⟨s, 1, reach, of_decide_eq_true due, ?_⟩
  split at failed
  · rename_i f result
    rw [result, of_decide_eq_true failed]
  · cases failed

end SynchroTrace.Replay
