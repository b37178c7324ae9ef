import SynchroTrace.Replay.Runs
import SynchroTrace.Replay.Threads

/-!
The replay refines the machine of `Threads`: a change is a step of the machine or is not seen there.
-/

namespace SynchroTrace.Replay
open Feed Outcome Transition List STEvent

def State.threads (cfg : Config) (s : State) : Threads where
  sync := s.toSync
  todo t := (s.buffer cfg t).contents
  history := s.history

/-- Every queue is within its capacity, and short only when its file has been read. -/
def Fed (cfg : Config) (s : State) : Prop :=
  ∀ t < cfg.numThreads, WellFed minEventsSize readBlock (s.buffer cfg t)

variable {cfg : Config} {s : State} {t : Nat} {e : STEvent} {rest : List STEvent}

theorem setSubEvents_buffer (queue : s.eventMap t = e :: rest) (subs : List SubEvent) :
    (s.setSubEvents t e rest subs).buffer cfg = s.buffer cfg := by
  funext u
  by_cases same : u = t
  · subst same
    simp [State.buffer, State.queue, State.setSubEvents, State.unread, queue]
  · simp [State.buffer, State.queue, State.setSubEvents, State.unread, same]

theorem popEvent_buffer (cfg : Config) (s : State) (t : Nat) (e : STEvent) (rest : List STEvent) :
    (s.popEvent t e rest).buffer cfg t = ⟨rest.map toTraceEvent, (s.buffer cfg t).source⟩ := by
  simp [State.buffer, State.queue, State.popEvent, State.unread]

variable {u p : Nat}

theorem popEvent_buffer_other (cfg : Config) (s : State) (e : STEvent)
    (rest : List STEvent) (different : u ≠ t) :
    (s.popEvent t e rest).buffer cfg u = s.buffer cfg u := by
  simp [State.buffer, State.queue, State.popEvent, State.unread, different]

theorem finish_buffer (own : LinesOf cfg t (s.inputFile t)) : (s.finish cfg t e rest).buffer cfg t =
      (s.buffer cfg t).next minEventsSize readBlock (rest.map toTraceEvent) := by
  unfold State.finish Buffer.next
  by_cases last : rest = []
  · simp only [last, if_true, map_nil]
    exact popEvent_buffer cfg s t e []
  · have more : rest.map toTraceEvent ≠ [] := by simpa using last
    rw [if_neg last, if_neg more]
    exact (replenish_buffer (s := s.popEvent t e rest) own).trans (by rw [popEvent_buffer])

theorem finish_buffer_other (cfg : Config) (s : State) (e : STEvent) (rest : List STEvent)
    (different : u ≠ t) :
    (s.finish cfg t e rest).buffer cfg u = s.buffer cfg u := by
  unfold State.finish
  split
  · exact popEvent_buffer_other cfg s e rest different
  · rw [replenish_buffer_other cfg _ different, popEvent_buffer_other cfg s e rest different]

theorem buffer_head (queue : s.eventMap t = e :: rest) :
    (s.buffer cfg t).queue = e.toTraceEvent :: rest.map toTraceEvent := by
  simp [State.buffer, State.queue, queue]

theorem Fed.finish (fed : Fed cfg s) (shape : Shape cfg s) (queue : s.eventMap t = e :: rest) :
    Fed cfg (s.finish cfg t e rest) := by
  intro u simulated
  by_cases same : u = t
  · subst same
    rw [finish_buffer (shape.lines simulated)]
    exact (fed u simulated).next (by decide) (by decide) (buffer_head queue)
  · rw [finish_buffer_other cfg s e rest same]
    exact fed u simulated

theorem Fed.congr {s' : State} (fed : Fed cfg s) (same : s'.buffer cfg = s.buffer cfg) :
    Fed cfg s' := by
  unfold Fed
  rw [same]
  exact fed

theorem Fed.leave (fed : Fed cfg s) (shape : Shape cfg s) (queue : s.eventMap t = e :: rest)
    (more : List SubEvent) :
    Fed cfg (s.leave cfg t e rest more) := by
  cases more with
  | nil => exact fed.finish shape queue
  | cons next more => exact fed.congr (setSubEvents_buffer queue _)

variable {next : State}

theorem Change.fed (h : Change cfg p s next) (shape : Shape cfg s)
    (fed : Fed cfg s) : Fed cfg next := by
  cases h with
  | clock | startEvent | stop | coreEvents | answered | rotate => exact fed
  | @replenish t placed simulated =>
    intro u inside
    by_cases same : u = t
    · subst same
      rw [replenish_buffer (shape.lines inside)]
      exact (fed u inside).refill (by decide)
    · rw [replenish_buffer_other cfg s same]
      exact fed u inside
  | create placed queue => exact fed.congr (setSubEvents_buffer queue _)
  | recheck placed head => exact fed.congr (setSubEvents_buffer head.queue _)
  | send accept placed head =>
    cases accept with
    | false => exact fed
    | true => exact fed.congr (setSubEvents_buffer head.queue _)
  | work placed head =>
    apply Fed.leave
    · exact fed
    · exact shape.congr rfl rfl rfl
    · exact head.queue
  | @visit _ _ _ _ _ _ _ _ visit _ placed head =>
    cases visit with
    | waiting => exact fed.congr (setSubEvents_buffer head.queue _)
    | skipped | consumed =>
      apply Fed.leave
      · exact fed
      · exact shape.congr rfl rfl rfl
      · exact head.queue
  | respond placed head =>
    apply Fed.leave
    · exact fed
    · exact shape.congr rfl rfl rfl
    · exact head.queue

theorem foldl_replenish_buffer {threads : List Nat} (distinct : threads.Nodup)
    (simulated : ∀ t ∈ threads, t < cfg.numThreads) (shape : Shape cfg s) (t : Nat) :
    (threads.foldl (fun s t => s.replenish cfg t) s).buffer cfg t =
      if t ∈ threads then (s.buffer cfg t).refill minEventsSize readBlock else s.buffer cfg t := by
  induction threads generalizing s with
  | nil => simp
  | cons u rest ih =>
    obtain ⟨notLater, distinct⟩ := nodup_cons.mp distinct
    have inside := simulated u mem_cons_self
    rw [foldl_cons, ih distinct (fun t later => simulated t (mem_cons_of_mem _ later))
      (shape.replenish inside)]
    by_cases same : t = u
    · subst same
      simp [notLater, replenish_buffer (shape.lines inside)]
    · simp [same, replenish_buffer_other cfg s same]

theorem initState_fed (h : initState cfg = .ok s) : Fed cfg s := by
  rw [initState_eq] at h
  cases h
  intro t simulated
  rw [foldl_replenish_buffer nodup_range (fun _ member => mem_range.mp member)
    (blank_shape cfg), if_pos (mem_range.mpr simulated)]
  exact refill_wellFed (by decide) (Nat.zero_le _)

variable {allowed : State → Action → Prop}

theorem reachable_fed (reach : ReachableVia (replay cfg) allowed s) : Fed cfg s :=
  reachable_of_changes (Fed cfg) (fun _ => initState_fed)
    (fun _ _ _ shape change fed => change.fed shape fed) reach

theorem Fed.todo_eq_nil (fed : Fed cfg s) (simulated : t < cfg.numThreads) :
    (s.threads cfg).todo t = [] ↔ s.eventMap t = [] := by
  have empty : (s.buffer cfg t).queue = [] ↔ s.eventMap t = [] := by
    simp [State.buffer, State.queue]
  exact ((fed t simulated).contents_eq_nil (by decide)).trans empty

theorem todo_head (cfg : Config) (queue : s.eventMap t = e :: rest) :
    ∃ later, (s.threads cfg).todo t = e.toTraceEvent :: later :=
  ⟨_, by simp only [State.threads, Buffer.contents, buffer_head queue, cons_append]; rfl⟩

theorem threads_setSubEvents (queue : s.eventMap t = e :: rest) (subs : List SubEvent) :
    (s.setSubEvents t e rest subs).threads cfg = s.threads cfg := by
  unfold State.threads
  rw [setSubEvents_buffer queue]
  rfl

theorem finish_history (cfg : Config) (s : State) (t : Nat) (e : STEvent) (rest : List STEvent) :
    (s.finish cfg t e rest).history = s.history ++ [.retired t e.toTraceEvent] ∧
      (s.finish cfg t e rest).toSync = s.toSync := by
  unfold State.finish State.replenish
  split
  · exact ⟨rfl, rfl⟩
  · split <;> exact ⟨rfl, rfl⟩

theorem leave_history (cfg : Config) (s : State) (t : Nat) (e : STEvent) (rest : List STEvent)
    (more : List SubEvent) : (s.leave cfg t e rest more).history =
      s.history ++ if more = [] then [.retired t e.toTraceEvent] else [] := by
  cases more with
  | nil => exact (finish_history cfg s t e rest).1
  | cons next more => exact (append_nil _).symm

theorem leave_sync (cfg : Config) (s : State) (t : Nat) (e : STEvent) (rest : List STEvent)
    (more : List SubEvent) : (s.leave cfg t e rest more).toSync = s.toSync := by
  cases more with
  | nil => exact (finish_history cfg s t e rest).2
  | cons next more => rfl

theorem threads_finish (shape : Shape cfg s) (queue : s.eventMap t = e :: rest) :
    ∃ later, (s.threads cfg).todo t = e.toTraceEvent :: later ∧
      (s.finish cfg t e rest).threads cfg = (s.threads cfg).retire t e.toTraceEvent later := by
  have own := shape.lines (shape.simulated queue)
  obtain ⟨history, sync⟩ := finish_history cfg s t e rest
  refine ⟨((s.buffer cfg t).next minEventsSize readBlock (rest.map toTraceEvent)).contents,
    next_contents (buffer_head queue), ?_⟩
  have todo : (fun u => ((s.finish cfg t e rest).buffer cfg u).contents) =
      Function.update (fun u => (s.buffer cfg u).contents) t
        ((s.buffer cfg t).next minEventsSize readBlock (rest.map toTraceEvent)).contents := by
    funext u
    by_cases same : u = t
    · subst same
      rw [Function.update_self, finish_buffer own]
    · rw [Function.update_of_ne same, finish_buffer_other cfg s e rest same]
  unfold State.threads Threads.retire
  rw [todo, history, sync]

theorem threads_leave (shape : Shape cfg s) (queue : s.eventMap t = e :: rest)
    (more : List SubEvent) :
    (s.leave cfg t e rest more).threads cfg = s.threads cfg ∨
      ∃ later, (s.threads cfg).todo t = e.toTraceEvent :: later ∧
        (s.leave cfg t e rest more).threads cfg =
          (s.threads cfg).retire t e.toTraceEvent later := by
  cases more with
  | nil => exact Or.inr (threads_finish shape queue)
  | cons next more => exact Or.inl (threads_setSubEvents queue _)

theorem checkCommDependency_satisfied (fed : Fed cfg s) {dep : SharedInfo} {answer : Bool}
    (h : checkCommDependency cfg s dep = .ok answer) :
    answer = true ↔ (s.threads cfg).Satisfied cfg dep := by
  unfold checkCommDependency at h
  unfold Threads.Satisfied
  split at h
  · rename_i system
    cases h
    simp [system]
  · rename_i producer
    split at h
    · rename_i simulated
      cases queue : s.eventMap dep.prodThreadID with
      | nil =>
        have ended := (fed.todo_eq_nil simulated).mpr queue
        simp only [queue] at h
        cases h
        simp [simulated, ended]
      | cons e rest =>
        obtain ⟨later, next⟩ := todo_head cfg queue
        simp only [queue] at h
        cases h
        simp [simulated, producer, next]
    · cases h

variable {more : List SubEvent}

theorem triggerMsg_threads (cfg : Config) {procID : Nat} {top : SubEvent}
    (queue : s.eventMap t = e :: rest) (count : ThreadStats → ThreadStats) (msg : Msg)
    (accept : Bool) :
    (triggerMsg count procID t e rest top more msg accept s).threads cfg =
      { s.threads cfg with history := s.history ++
          [.sent (s.packet procID t e more msg) (s.threadMutexMap t) accept] } := by
  cases accept with
  | false => rfl
  | true =>
    have same : (s.setSubEvents t e rest ({ top with msgTriggered := true } :: more)).buffer cfg =
        s.buffer cfg := setSubEvents_buffer queue _
    exact congrArg (fun b => Threads.mk s.toSync (fun u => (b u).contents) (s.history ++
      [.sent (s.packet procID t e more msg) (s.threadMutexMap t) true])) same

theorem threads_replenish (shape : Shape cfg s) (simulated : t < cfg.numThreads) :
    (s.replenish cfg t).threads cfg = s.threads cfg := by
  have todo : (fun u => ((s.replenish cfg t).buffer cfg u).contents) =
      fun u => (s.buffer cfg u).contents := by
    funext u
    by_cases same : u = t
    · subst same
      rw [replenish_buffer (shape.lines simulated), refill_contents]
    · rw [replenish_buffer_other cfg s same]
  unfold State.threads
  rw [todo]
  unfold State.replenish
  split <;> rfl

theorem threads_visit {top : SubEvent} {type : PthreadType} {addr : Nat}
    {sync : Sync} {visit : Visit} {seen : List Obs} (shape : Shape cfg s) (fed : Fed cfg s)
    (head : AtHead s t e rest top more) (kind : e.kind = .pthreadApi type addr)
    (started : s.threadStartedMap t = true)
    (visited : visitPthread cfg e.threadID type addr (fun u => (s.eventMap u).isEmpty) s.toSync =
      .ok (sync, visit, seen)) :
    Threads.Step cfg (s.threads cfg)
      ((s.afterVisit cfg t e rest top more sync seen visit).threads cfg) := by
  obtain ⟨rfl, _⟩ := shape.pthread head kind
  rw [shape.owner head.queue] at visited
  have call : Call cfg t addr (fun u => (s.threads cfg).todo u = []) s.toSync type sync visit seen :=
    (visitPthread_call visited).congr fun u simulated => by
      rw [fed.todo_eq_nil simulated]
      exact List.isEmpty_iff
  have simulated := shape.simulated head.queue
  cases visit with
  | waiting =>
    obtain ⟨later, next⟩ := todo_head cfg head.queue
    have stays : (s.afterVisit cfg t e rest top [] sync seen .waiting).threads cfg =
        (s.threads cfg).visited t e.toTraceEvent later sync seen .waiting := by
      apply threads_setSubEvents
      exact head.queue
    rw [stays]
    exact .visit simulated next kind started call
  | skipped =>
    have after : Shape cfg
        ({ s with toSync := sync, history := s.history ++ seen }.removeSubEvent t) :=
      shape.congr rfl rfl rfl
    obtain ⟨later, next, retired⟩ := threads_finish after head.queue
    have leaves : (s.afterVisit cfg t e rest top [] sync seen .skipped).threads cfg =
        (s.threads cfg).visited t e.toTraceEvent later sync seen .skipped := retired
    rw [leaves]
    exact .visit simulated next kind started call
  | consumed =>
    have after : Shape cfg (({ s with
        toSync := sync, history := s.history ++ seen }.removeSubEvent t).countSubEvent e.threadID) :=
      shape.congr rfl rfl rfl
    obtain ⟨later, next, retired⟩ := threads_finish after head.queue
    have leaves : (s.afterVisit cfg t e rest top [] sync seen .consumed).threads cfg =
        (s.threads cfg).visited t e.toTraceEvent later sync seen .consumed := retired
    rw [leaves]
    exact .visit simulated next kind started call

theorem Change.threads (h : Change cfg p s next) (shape : Shape cfg s) (fed : Fed cfg s) :
    next.threads cfg = s.threads cfg ∨ Threads.Step cfg (s.threads cfg) (next.threads cfg) := by
  cases h with
  | clock | startEvent | stop | coreEvents | answered | rotate => exact Or.inl rfl
  | replenish placed simulated => exact Or.inl (threads_replenish shape simulated)
  | create placed queue => exact Or.inl (threads_setSubEvents queue _)
  | recheck placed head => exact Or.inl (threads_setSubEvents head.queue _)
  | @send t _ _ top _ _ accept placed head untriggered message satisfied =>
    obtain ⟨later, next⟩ := todo_head cfg head.queue
    right
    rw [triggerMsg_threads cfg (s := s.updateStats t (·.countOps top)) head.queue]
    refine Threads.Step.send accept (shape.simulated head.queue) next rfl fun requests kind => ?_
    rcases satisfied requests kind with passed | held
    · exact Or.inl ((checkCommDependency_satisfied fed passed).mp rfl)
    · exact Or.inr held
  | @work t e rest top more placed head untriggered message kind =>
    have same : Shape cfg (((s.updateStats t (·.countOps top)).removeSubEvent t).countSubEvent t) :=
      shape.congr rfl rfl rfl
    rcases threads_leave same head.queue more with stays | ⟨later, next, retired⟩
    · exact Or.inl stays
    · right
      rw [retired]
      exact .work (shape.simulated head.queue) next kind
  | @visit t e rest top more type addr sync visit seen placed head untriggered message kind started
      visited =>
    have same : Shape cfg (s.updateStats t (·.countOps top)) := shape.congr rfl rfl rfl
    exact Or.inr (threads_visit same fed head kind started visited)
  | @respond t e rest top more placed head triggered =>
    have same : Shape cfg (((s.recordRTT t).countSubEvent t).removeSubEvent t) :=
      shape.congr rfl rfl rfl
    have kind := shape.kind_of_triggered head triggered
    rcases threads_leave same head.queue more with stays | ⟨later, next, retired⟩
    · exact Or.inl stays
    · right
      rw [retired]
      exact .work (shape.simulated head.queue) next kind

theorem leave_grows {before : List Obs} (grown : before <+: s.history) :
    before <+: (s.leave cfg t e rest more).history := by
  rw [leave_history]
  exact grown.trans (prefix_append _ _)

theorem Change.history_grows (h : Change cfg p s next) :
    s.history <+: next.history := by
  have same := prefix_refl s.history
  cases h with
  | clock | startEvent | stop | coreEvents | answered | rotate | create | recheck => exact same
  | replenish =>
    unfold State.replenish
    split <;> exact same
  | send accept => cases accept <;> exact prefix_append _ _
  | work | respond =>
    apply leave_grows
    exact same
  | @visit _ _ _ _ _ _ _ _ visit seen =>
    cases visit <;>
    · apply leave_grows
      exact prefix_append s.history seen

def Threads.start (cfg : Config) : Threads := (State.blank cfg).threads cfg

theorem initState_threads (h : initState cfg = .ok s) : s.threads cfg = Threads.start cfg := by
  rw [initState_eq] at h
  cases h
  have both : ∀ s : State, Shape cfg s → ∀ threads : List Nat, (∀ t ∈ threads, t < cfg.numThreads) →
      (threads.foldl (fun s t => s.replenish cfg t) s).threads cfg = s.threads cfg := by
    intro s shape threads simulated
    induction threads generalizing s with
    | nil => rfl
    | cons t rest ih =>
      have inside := simulated t mem_cons_self
      rw [foldl_cons, ih _ (shape.replenish inside)
        fun t later => simulated t (mem_cons_of_mem _ later)]
      exact threads_replenish shape inside
  exact both _ (blank_shape cfg) _ fun _ member => mem_range.mp member

theorem Changes.threads (h : Changes cfg s next) (shape : Shape cfg s) (fed : Fed cfg s) :
    Relation.ReflTransGen (Threads.Step cfg) (s.threads cfg) (next.threads cfg) := by
  refine (steps_invariant (fun u => Shape cfg u ∧ Fed cfg u ∧
    Relation.ReflTransGen (Threads.Step cfg) (s.threads cfg) (u.threads cfg)) ?_ h
      ⟨shape, fed, .refl⟩).2.2
  rintro s next ⟨p, change⟩ ⟨shape, fed, steps⟩
  refine ⟨change.shape shape, change.fed shape fed, ?_⟩
  rcases change.threads shape fed with same | step
  · rwa [same]
  · exact steps.tail step

theorem reachable_threads (reach : ReachableVia (replay cfg) allowed s) :
    Relation.ReflTransGen (Threads.Step cfg) (Threads.start cfg) (s.threads cfg) := by
  refine reach.invariant (fun s =>
    Relation.ReflTransGen (Threads.Step cfg) (Threads.start cfg) (s.threads cfg)) ?_ ?_
  · intro s start
    have filled : initState cfg = .ok s := start
    rw [initState_threads filled]
  · intro s a next before _ steps taken
    obtain ⟨time, _, done⟩ := taken
    have shape := reachable_shape before
    exact steps.trans ((perform_changes shape done).threads shape (reachable_fed before))

end SynchroTrace.Replay
