import SynchroTrace.Replay.Frames

/-!
Requests and responses. A core has at most one request on its port; while it waits for the
response its event is not scheduled and the thread that sent the request stays at the front.
-/

namespace SynchroTrace.Replay
open Outcome Transition List

/-- The head event of the thread does not wait for a response. -/
def Untriggered (s : State) (t : Nat) : Prop :=
  ∀ e rest top more, AtHead s t e rest top more → top.msgTriggered = false

structure Calm (cfg : Config) (p : Nat) (s : State) : Prop where
  answered : s.pending.filter (·.procID = p) = []
  untriggered : ∀ t, t % cfg.numMapped = p → Untriggered s t

structure SentBy (s : State) (r : Request) (e : STEvent) (top : SubEvent) (more : List SubEvent) :
    Prop where
  triggered : top.msgTriggered = true
  message : top.msg = some r.msg
  event : r.event = e.toTraceEvent
  index : r.eventIndex = (s.retiredEvents r.threadID).length
  subEvent : r.subEventsLeft = more.length + 1

/-- The core waits for the response to `r`, its only request. -/
structure Waiting (cfg : Config) (p : Nat) (s : State) (r : Request) : Prop where
  only : s.pending.filter (·.procID = p) = [r]
  front : (s.threadMap p).head? = some r.threadID
  idle : s.coreEvents p = none
  started : s.threadStartedMap r.threadID = true
  sender : ∃ e rest top more, AtHead s r.threadID e rest top more ∧ SentBy s r e top more
  others : ∀ t, t % cfg.numMapped = p → t ≠ r.threadID → Untriggered s t

def Settled (cfg : Config) (p : Nat) (s : State) : Prop :=
  Calm cfg p s ∨ ∃ r, Waiting cfg p s r

variable {s next : State} {t : Nat}

theorem Untriggered.congr (h : Untriggered s t)
    (same : next.eventMap t = s.eventMap t) : Untriggered next t := by
  unfold Untriggered AtHead
  rw [same]
  exact h

variable {cfg : Config}

theorem Settled.local {p q : Nat} (settled : Settled cfg q s)
    (mapped : ∀ t ∈ s.threadMap q, t % cfg.numMapped = q) (frame : Local cfg p s next)
    (other : q ≠ p) : Settled cfg q next := by
  have outside : ∀ t, t % cfg.numMapped = q → t % cfg.numMapped ≠ p := by
    rintro t rfl
    exact other
  rcases settled with calm | ⟨r, waiting⟩
  · left
    refine ⟨(frame.pending q other).trans calm.answered, fun t placed => ?_⟩
    exact (calm.untriggered t placed).congr (frame.queues t (outside t placed))
  · right
    have placed := outside _ (mapped r.threadID (List.mem_of_head? waiting.front))
    obtain ⟨e, rest, top, more, head, sent⟩ := waiting.sender
    refine ⟨r, ?_, ?_, ?_, ?_, ?_, ?_⟩
    · exact (frame.pending q other).trans waiting.only
    · rw [frame.threads q other]
      exact waiting.front
    · exact (frame.events q other).trans waiting.idle
    · exact frame.started _ placed waiting.started
    · refine ⟨e, rest, top, more, ⟨(frame.queues _ placed).trans head.queue, head.subs⟩, ?_⟩
      exact { sent with index := by rw [frame.retired _ placed]; exact sent.index }
    · exact fun t on different =>
        (waiting.others t on different).congr (frame.queues t (outside t on))

theorem untriggered_of_fresh
    (fresh : ∀ e ∈ s.eventMap t, e.subEventList = none) : Untriggered s t := by
  intro e rest top more head
  have created := fresh e (by rw [head.queue]; exact mem_cons_self)
  rw [head.subs] at created
  cases created

variable {rest : List STEvent} {e : STEvent}

theorem setSubEvents_untriggered
    {top : SubEvent} (more : List SubEvent) (untriggered : top.msgTriggered = false) :
    Untriggered (s.setSubEvents t e rest (top :: more)) t := by
  rintro e' rest' top' more' ⟨queue, subs⟩
  simp only [State.setSubEvents, Function.update_self, List.cons.injEq] at queue
  obtain ⟨rfl, rfl⟩ := queue
  cases subs
  exact untriggered

theorem replenish_fresh {u : Nat} (fresh : ∀ e ∈ s.eventMap u, e.subEventList = none) :
    ∀ e ∈ (s.replenish cfg t).eventMap u, e.subEventList = none := by
  unfold State.replenish
  split
  · by_cases same : u = t
    · subst same
      intro e member
      simp only [State.feed, Function.update_self, mem_append] at member
      rcases member with old | read
      · exact fresh e old
      · obtain ⟨_, _, rfl⟩ := mem_map.mp read
        rfl
    · simp only [State.feed, Function.update_of_ne same]
      exact fresh
  · exact fresh

theorem finish_fresh (shape : Shape cfg s) (queue : s.eventMap t = e :: rest) :
    ∀ e' ∈ (s.finish cfg t e rest).eventMap t, e'.subEventList = none := by
  have fresh : ∀ e' ∈ (s.popEvent t e rest).eventMap t, e'.subEventList = none := by
    have head := shape.queues t
    rw [queue] at head
    cases head with
    | cons _ _ _ fresh =>
      intro e' member
      simp only [State.popEvent, Function.update_self] at member
      exact (fresh e' member).2
  unfold State.finish
  split
  · exact fresh
  · exact replenish_fresh fresh

theorem leave_untriggered {top : SubEvent} {more : List SubEvent} (shape : Shape cfg s)
    (head : AtHead s t e rest top more) : Untriggered (s.leave cfg t e rest more) t := by
  cases more with
  | nil => exact untriggered_of_fresh (finish_fresh shape head.queue)
  | cons next more =>
    exact setSubEvents_untriggered more ((shape.left head).untriggered next mem_cons_self)

section Outcomes

variable {cfg : Config} {p t : Nat} {s next : State} {e : STEvent} {rest : List STEvent}
  {top : SubEvent} {more : List SubEvent} {accept : Bool}

theorem Kept.calm (kept : Kept t s next) (answered : s.pending.filter (·.procID = p) = [])
    (others : ∀ u, u % cfg.numMapped = p → u ≠ t → Untriggered s u) (head : Untriggered next t) :
    Calm cfg p next := by
  refine ⟨by rw [kept.pending]; exact answered, fun u placed => ?_⟩
  by_cases same : u = t
  · subst same
    exact head
  · exact (others u placed same).congr (kept.queues u same)

theorem Scheduled.calm (h : Scheduled p s next) (calm : Calm cfg p s) : Calm cfg p next := by
  obtain ⟨events, rfl, _⟩ := h
  exact ⟨calm.answered, calm.untriggered⟩

theorem Scheduled.isSome (h : Scheduled p s next) : (next.coreEvents p).isSome := by
  obtain ⟨events, rfl, scheduled, _⟩ := h
  exact scheduled

theorem moveThreadToHead_calm (i : Nat) (calm : Calm cfg p s) :
    Calm cfg p (moveThreadToHead p i s) :=
  ⟨calm.answered, calm.untriggered⟩

theorem Rescheduled.calm (h : Rescheduled p s next) (calm : Calm cfg p s) : Calm cfg p next := by
  obtain ⟨i, scheduled⟩ := h
  exact scheduled.calm (moveThreadToHead_calm i calm)

theorem Rescheduled.isSome (h : Rescheduled p s next) : (next.coreEvents p).isSome := by
  obtain ⟨i, scheduled⟩ := h
  exact scheduled.isSome

theorem afterVisit_untriggered (shape : Shape cfg s) (head : AtHead s t e rest top more)
    (untriggered : top.msgTriggered = false) (sync : Sync) (seen : List Obs) (visit : Visit) :
    Untriggered (s.afterVisit cfg t e rest top more sync seen visit) t := by
  cases visit with
  | waiting => exact setSubEvents_untriggered more untriggered
  | skipped =>
    apply leave_untriggered
    · exact shape.congr rfl rfl rfl
    · exact head
  | consumed =>
    apply leave_untriggered
    · exact shape.congr rfl rfl rfl
    · exact head

variable {others : List Nat} {rand : Nat → Nat}

theorem triggerMsg_waiting {msg : Msg} (calm : Calm cfg p s) (threads : s.threadMap p = t :: others)
    (idle : s.coreEvents p = none) (started : s.threadStartedMap t = true)
    (message : top.msg = some msg) (count : ThreadStats → ThreadStats) :
    Waiting cfg p (triggerMsg count p t e rest top more msg true s)
      (s.packet p t e more msg) := by
  have kept : Kept t s (s.setSubEvents t e rest ({ top with msgTriggered := true } :: more)) :=
    .setSubEvents s _
  refine ⟨?_, ?_, idle, started, ?_, fun u placed other => ?_⟩
  · have sent : (s.packet p t e more msg).procID = p := rfl
    simp [triggerMsg, State.setSubEvents, calm.answered, sent]
  · simp [triggerMsg, State.setSubEvents, State.updateStats, threads, State.packet]
  · refine ⟨{ e with subEventList := some ({ top with msgTriggered := true } :: more) }, rest,
      { top with msgTriggered := true }, more, ⟨Function.update_self .., rfl⟩, rfl, message, rfl,
      ?_, rfl⟩
    simp [State.packet, triggerMsg, State.retiredEvents, State.setSubEvents, State.updateStats]
  · exact (calm.untriggered u placed).congr (kept.queues u other)

inductive Moved (cfg : Config) (p t : Nat) (accept : Bool) (s : State) : State → Prop where
  | nothing (idle : s.threadStartedMap t = true → s.eventMap t = []) : Moved cfg p t accept s s
  | scheduled {next : State} (calm : Calm cfg p next) (scheduled : (next.coreEvents p).isSome) :
      Moved cfg p t accept s next
  | waiting {next : State} {r : Request} (waiting : Waiting cfg p next r) :
      Moved cfg p t accept s next
  | refused {e : STEvent} {rest : List STEvent} {top : SubEvent} {more : List SubEvent} {msg : Msg}
      (refused : accept = false) (started : s.threadStartedMap t = true)
      (head : AtHead s t e rest top more) (due : top.triggerTime ≤ s.curTick)
      (untriggered : top.msgTriggered = false) (message : top.msg = some msg)
      (satisfied : ∀ requests, e.kind = .communication requests →
        checkCommDependency cfg s msg.thisMsg = .ok true ∨ s.threadMutexMap t = true) :
      Moved cfg p t accept s
        (triggerMsg (msgCounter e.kind msg.msgType) p t e rest top more msg false
          (s.updateStats t (·.countOps top)))

/-- A due sub-event leaves its core scheduled or waiting for a response, unless the port refuses
its request. -/
theorem Progressed.moved (h : Progressed cfg p t e rest top more accept s next)
    (shape : Shape cfg s) (calm : Calm cfg p s) (threads : s.threadMap p = t :: others)
    (idle : s.coreEvents p = none) (started : s.threadStartedMap t = true)
    (head : AtHead s t e rest top more) (due : top.triggerTime ≤ s.curTick)
    (untriggered : top.msgTriggered = false) :
    Moved cfg p t accept s next := by
  have others := fun u placed (_ : u ≠ t) => calm.untriggered u placed
  cases h with
  | recheck message kind blocked scheduled =>
    refine .scheduled (scheduled.calm ?_) scheduled.isSome
    apply Kept.calm (.setSubEvents _ _)
    · exact calm.answered
    · exact others
    · exact setSubEvents_untriggered more untriggered
  | work message kind scheduled =>
    refine .scheduled (scheduled.calm ?_) scheduled.isSome
    apply Kept.calm (.leave cfg _ more)
    · exact calm.answered
    · exact others
    · apply leave_untriggered
      · exact shape.congr rfl rfl rfl
      · exact head
  | visit message kind visited scheduled =>
    refine .scheduled (scheduled.calm ?_) scheduled.isSome
    apply Kept.calm (.afterVisit cfg _ top more _ _ _)
    · exact calm.answered
    · exact others
    · apply afterVisit_untriggered
      · exact shape.congr rfl rfl rfl
      · exact head
      · exact untriggered
  | @sent msg message satisfied =>
    cases accept with
    | false => exact .refused rfl started head due untriggered message satisfied
    | true =>
      refine .waiting (r := (s.updateStats t (·.countOps top)).packet p t e more msg) ?_
      apply triggerMsg_waiting
      · exact ⟨calm.answered, calm.untriggered⟩
      · exact threads
      · exact idle
      · exact started
      · exact message

theorem Created.calm {rest : List STEvent} (h : Created cfg p t s next e rest top more)
    (calm : Calm cfg p s) : Calm cfg p next := by
  obtain ⟨rand, made⟩ := h.made
  refine h.scheduled.calm (Kept.calm (.setSubEvents s _) calm.answered ?_ ?_)
  · exact fun u placed _ => calm.untriggered u placed
  · exact setSubEvents_untriggered more (subEventsOf_untriggered made top mem_cons_self)

theorem createSubEventsOf_calm (calm : Calm cfg p s)
    (h : createSubEventsOf cfg p t rand s = .ok next) : Calm cfg p next := by
  rcases createSubEventsOf_ok h with ⟨rfl, _⟩ | ⟨e, rest, top, more, created⟩
  · exact calm
  · exact created.calm calm

theorem createSubEventsOf_again (h : createSubEventsOf cfg p t rand s = .ok next)
    (head : AtHead s t e rest top more) :
    next = s := by
  rcases createSubEventsOf_ok h with ⟨rfl, _⟩ | ⟨e', rest', top', more', created⟩
  · rfl
  · have queue := created.queue
    rw [head.queue] at queue
    cases queue
    have new := created.new
    rw [head.subs] at new
    cases new

theorem createSubEventsOf_due (early : s.curTick < 2 ^ 53) (idle : s.coreEvents p = none)
    (h : createSubEventsOf cfg p t rand s = .ok next) (head : AtHead next t e rest top more)
    (due : top.triggerTime ≤ next.curTick) : next = s := by
  rcases createSubEventsOf_ok h with ⟨rfl, _⟩ | ⟨e', rest', top', more', created⟩
  · rfl
  · obtain ⟨events, rfl, _⟩ := created.scheduled
    obtain ⟨queue, subs⟩ := head
    simp only [State.setCoreEvents, State.setSubEvents, Function.update_self,
      List.cons.injEq] at queue
    obtain ⟨rfl, rfl⟩ := queue
    cases subs
    have later := Config.lt_dueTime early ((Int.natCast_nonneg _).trans (created.future idle))
    simp only [Config.timed, State.setCoreEvents, State.setSubEvents] at due
    omega

theorem createSubEvents_settled (settled : Settled cfg p s)
    (h : createSubEvents cfg p rand s = .ok next) : Settled cfg p next := by
  obtain ⟨t, others, threads, h⟩ := createSubEvents_ok h
  rcases settled with calm | ⟨r, waiting⟩
  · exact Or.inl (createSubEventsOf_calm calm h)
  · obtain ⟨e, rest, top, more, head, _⟩ := waiting.sender
    have front := waiting.front
    rw [threads] at front
    cases front
    rw [createSubEventsOf_again h head]
    exact Or.inr ⟨r, waiting⟩

theorem Swapped.calm (h : Swapped cfg p t others s next) (calm : Calm cfg p s) :
    Calm cfg p next := by
  cases h with
  | alone => exact calm
  | aloneAtBarrier _ _ _ scheduled => exact scheduled.calm calm
  | makeRoom _ _ swap scheduled =>
    obtain ⟨i, rfl⟩ := swapIfStarted_ok swap
    exact scheduled.calm (moveThreadToHead_calm i calm)
  | stay _ _ created => exact createSubEventsOf_calm calm created
  | stalled _ _ created _ _ swapped =>
    exact (swapAndSchedule_ok swapped).calm (createSubEventsOf_calm calm created)

theorem Swapped.same {top : SubEvent} {more : List SubEvent} (h : Swapped cfg p t others s next)
    (started : s.threadStartedMap t = true) (head : AtHead s t e rest top more)
    (kind : ∀ type addr, e.kind ≠ .pthreadApi type addr)
    (patient : ∀ requests, e.kind = .communication requests → others ≠ [] →
      top.msgTriggered = true ∨ s.curTick ≤ top.initialTriggerTime + maxCommWait) :
    next = s := by
  cases h with
  | alone => rfl
  | aloneAtBarrier _ queue barrier =>
    rw [head.queue] at queue
    cases queue
    cases event : e.kind with
    | pthreadApi type addr => exact absurd event (kind type addr)
    | computation | communication => simp [EventKind.isBarrierWait, event] at barrier
  | makeRoom _ idle =>
    rcases idle with empty | stopped
    · rw [head.queue] at empty
      cases empty
    · rw [started] at stopped
      cases stopped
  | stay _ _ created => exact createSubEventsOf_again created head
  | stalled several _ created queue stalls =>
    rw [createSubEventsOf_again created head] at queue stalls
    rw [head.queue] at queue
    cases queue
    exfalso
    cases event : e.kind with
    | computation comp => simp [stallsHead, event] at stalls
    | communication requests =>
      simp only [stallsHead, event, head.subs, Except.ok.injEq, Bool.and_eq_true,
        Bool.not_eq_true', decide_eq_true_eq] at stalls
      rcases patient requests event several with triggered | soon
      · rw [triggered] at stalls
        cases stalls.1
      · omega
    | pthreadApi type addr => exact kind type addr event

theorem Swapped.waiting {r : Request} (h : Swapped cfg p t others s next) (shape : Shape cfg s)
    (threads : s.threadMap p = t :: others) (waiting : Waiting cfg p s r) :
    next = s := by
  obtain ⟨e, rest, top, more, head, sent⟩ := waiting.sender
  have front := waiting.front
  rw [threads] at front
  cases front
  exact h.same waiting.started head (shape.kind_of_triggered head sent.triggered)
    fun _ _ _ => .inl sent.triggered

structure Wakeup (cfg : Config) (p : Nat) (accept : Bool) (s next : State) (t : Nat)
    (others : List Nat) (created moved : State) : Prop where
  threads : s.threadMap p = t :: others
  create : ∃ rand, createSubEventsOf cfg p t rand s = .ok created
  same : created.threadMap = s.threadMap
  progress : FrontProgressed cfg p t accept created moved
  swap : ∃ u rest, moved.threadMap p = u :: rest ∧ Swapped cfg p u rest moved next

theorem createSubEventsOf_threadMap (h : createSubEventsOf cfg p t rand s = .ok next) :
    next.threadMap = s.threadMap := by
  rcases createSubEventsOf_ok h with ⟨rfl, _⟩ | ⟨e, rest, top, more, created⟩
  · rfl
  · obtain ⟨events, rfl, _⟩ := created.scheduled
    rfl

variable {rand : Nat → Nat → Nat}

theorem wakeup_ok (shape : Shape cfg s) (h : wakeup cfg p rand accept s = .ok next) :
    ∃ t others created moved, Wakeup cfg p accept s next t others created moved := by
  obtain ⟨created, create, h⟩ := bind_ok h
  obtain ⟨moved, progress, h⟩ := bind_ok h
  have createdShape := (createSubEvents_changes shape create).shape shape
  obtain ⟨t, others, threads, create⟩ := createSubEvents_ok create
  have same := createSubEventsOf_threadMap create
  obtain ⟨t', others', threads', progressed⟩ := progressEvents_ok createdShape progress
  rw [same, threads] at threads'
  cases threads'
  exact ⟨t, others, created, moved, threads, ⟨_, create⟩, same, progressed, swapStalledThreads_ok h⟩

/-- A core that is woken up has no request on its port, and its event is not scheduled when a
sub-event is due. -/
theorem Wakeup.moved {created moved : State} (h : Wakeup cfg p accept s next t others created moved)
    (early : s.curTick < 2 ^ 53) (shape : Shape cfg s) (calm : Calm cfg p s)
    (idle : s.coreEvents p = none) :
    Calm cfg p created ∧ Shape cfg moved ∧ Moved cfg p t accept created moved := by
  obtain ⟨rand, create⟩ := h.create
  have placed := (shape.mapped p t (by simp [h.threads])).2
  have createdShape := (createSubEventsOf_changes placed create).shape shape
  have createdCalm := createSubEventsOf_calm calm create
  refine ⟨createdCalm, (h.progress.changes placed).shape createdShape, ?_⟩
  cases h.progress with
  | nothing idle => exact .nothing idle
  | later head notDue scheduled => exact .scheduled (scheduled.calm createdCalm) scheduled.isSome
  | due started head due untriggered progressed =>
    have same := createSubEventsOf_due early idle create head due
    subst same
    exact progressed.moved shape calm h.threads idle started head due untriggered

theorem wakeup_settled (early : s.curTick < 2 ^ 53) (shape : Shape cfg s) (calm : Calm cfg p s)
    (idle : s.coreEvents p = none) (h : wakeup cfg p rand accept s = .ok next) :
    Settled cfg p next := by
  obtain ⟨t, others, created, moved, woken⟩ := wakeup_ok shape h
  obtain ⟨createdCalm, movedShape, outcome⟩ := woken.moved early shape calm idle
  obtain ⟨u, rest, threads, swap⟩ := woken.swap
  cases outcome with
  | nothing => exact Or.inl (swap.calm createdCalm)
  | scheduled calm => exact Or.inl (swap.calm calm)
  | refused => exact Or.inl (swap.calm ⟨createdCalm.answered, createdCalm.untriggered⟩)
  | @waiting _ r waiting =>
    rw [swap.waiting movedShape threads waiting]
    exact Or.inr ⟨r, waiting⟩

theorem hitCallback_waiting {r : Request} (shape : Shape cfg s) (waiting : Waiting cfg p s r)
    {time : Nat}
    (h : hitCallback cfg p { s with curTick := time, pending := s.pending.erase r } = .ok next) :
    ∃ e rest top more, AtHead s r.threadID e rest top more ∧
      Rescheduled p ((((State.recordRTT { s with curTick := time, pending := s.pending.erase r }
        r.threadID).countSubEvent r.threadID).removeSubEvent r.threadID).leave cfg r.threadID e rest
          more) next := by
  have now : Shape cfg { s with curTick := time, pending := s.pending.erase r } :=
    shape.congr rfl rfl rfl
  obtain ⟨t, others, e, rest, top, more, threads, head, outcome⟩ := hitCallback_ok now h
  have front := waiting.front
  rw [threads] at front
  cases front
  obtain ⟨e', rest', top', more', head', sent⟩ := waiting.sender
  have queue := head'.queue
  rw [head.queue] at queue
  cases queue
  have subs := head'.subs
  rw [head.subs] at subs
  cases subs
  rcases outcome with ⟨untriggered, _⟩ | ⟨_, scheduled⟩
  · rw [sent.triggered] at untriggered
    cases untriggered
  · exact ⟨e, rest, top, more, head, scheduled⟩

theorem hitCallback_settled {r : Request} (shape : Shape cfg s) (waiting : Waiting cfg p s r)
    {time : Nat}
    (h : hitCallback cfg p { s with curTick := time, pending := s.pending.erase r } = .ok next) :
    Calm cfg p next ∧ (next.coreEvents p).isSome := by
  obtain ⟨e, rest, top, more, head, scheduled⟩ := hitCallback_waiting shape waiting h
  refine ⟨scheduled.calm ?_, scheduled.isSome⟩
  apply Kept.calm (.leave cfg _ more)
  · have left := filter_erase (·.procID = p) r s.pending
    rw [waiting.only, erase_cons_head] at left
    exact left
  · exact waiting.others
  · apply leave_untriggered
    · exact shape.congr rfl rfl rfl
    · exact head

end Outcomes

end SynchroTrace.Replay
