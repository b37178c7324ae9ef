import SynchroTrace.Replay.Faults

/-!
Cores that are never taken up again. A core with an event under way is scheduled or waits for a
response, except after its port has refused a request: nobody sends the request again.
-/

namespace SynchroTrace.Replay
open Outcome Transition

def STEvent.awaitsResponse (e : STEvent) : Bool :=
  e.subEventList.any fun subs => subs.head?.any (·.msgTriggered)

/-- The front thread of the core is started and its head event has its sub-events, but the core is
neither scheduled nor waits for a response. -/
def State.stranded (s : State) (p : Nat) : Bool :=
  (s.coreEvents p).isNone && (s.threadMap p).head?.any fun t => s.threadStartedMap t &&
    (s.eventMap t).head?.any fun e => e.subEventsCreated && !e.awaitsResponse

variable {s : State} {p t : Nat}

theorem stranded_iff : s.stranded p = true ↔
    s.coreEvents p = none ∧ ∃ t e rest, (s.threadMap p).head? = some t ∧
      s.threadStartedMap t = true ∧ s.eventMap t = e :: rest ∧ e.subEventList ≠ none ∧
      e.awaitsResponse = false := by
  simp only [State.stranded, Bool.and_eq_true, Option.isNone_iff_eq_none, Option.any_eq_true,
    List.head?_eq_some_iff, STEvent.subEventsCreated, Bool.not_eq_true', Option.isSome_iff_ne_none]
  constructor
  · rintro ⟨idle, t, front, started, e, ⟨rest, queue⟩, created, silent⟩
    exact ⟨idle, t, e, rest, front, started, queue, created, silent⟩
  · rintro ⟨idle, t, e, rest, front, started, queue, created, silent⟩
    exact ⟨idle, t, front, started, e, ⟨rest, queue⟩, created, silent⟩

/-- The port refuses the request of a sub-event that is due, and no other thread is let in. -/
def StrandsCore (cfg : Config) (s : State) : Action → Prop
  | .core p _ accept => accept = false ∧ ∃ time t others e rest top more msg,
      s.coreEvents p = some time ∧ s.threadMap p = t :: others ∧ s.threadStartedMap t = true ∧
      AtHead s t e rest top more ∧ top.triggerTime ≤ time ∧ top.msgTriggered = false ∧
      top.msg = some msg ∧
      (∀ requests, e.kind = .communication requests →
        checkCommDependency cfg s msg.thisMsg = .ok true ∨ s.threadMutexMap t = true) ∧
      ∀ requests, e.kind = .communication requests → others ≠ [] →
        time ≤ top.initialTriggerTime + maxCommWait
  | _ => False

/-- A thread that is stopped with an event under way is at a barrier. -/
def StoppedAtBarrier (s : State) : Prop :=
  ∀ t e rest top more, AtHead s t e rest top more → s.threadStartedMap t = false →
    e.kind.isBarrierWait = true

variable {e : STEvent} {rest : List STEvent} {top : SubEvent} {more : List SubEvent}

variable {rest' : List STEvent}

theorem atHead_setSubEvents {e' : STEvent}
    {subs : List SubEvent} (head : AtHead (s.setSubEvents t e rest subs) t e' rest' top more) :
    e'.kind = e.kind ∧ subs = top :: more := by
  obtain ⟨queue, created⟩ := head
  simp only [State.setSubEvents, Function.update_self, List.cons.injEq] at queue
  obtain ⟨rfl, rfl⟩ := queue
  exact ⟨rfl, Option.some.inj created⟩

variable {cfg : Config}

theorem atHead_leave {e' : STEvent}
    {more' : List SubEvent} (shape : Shape cfg s) (queue : s.eventMap t = e :: rest)
    (head : AtHead (s.leave cfg t e rest more) t e' rest' top more') : e'.kind = e.kind := by
  cases more with
  | nil =>
    have fresh := finish_fresh shape queue e' (by
      rw [show (s.finish cfg t e rest).eventMap t = e' :: rest' from head.queue]
      exact List.mem_cons_self)
    rw [head.subs] at fresh
    cases fresh
  | cons next more => exact (atHead_setSubEvents head).1

theorem replenish_atHead {u : Nat} (head : AtHead (s.replenish cfg t) u e rest top more) :
    ∃ earlier, AtHead s u e earlier top more := by
  cases queue : s.eventMap u with
  | nil =>
    have none : ∀ e ∈ s.eventMap u, e.subEventList = none := by simp [queue]
    have fresh := replenish_fresh none e (by rw [head.queue]; exact List.mem_cons_self)
    rw [head.subs] at fresh
    cases fresh
  | cons e' earlier =>
    obtain ⟨later, filled⟩ := replenish_head cfg t queue
    rw [head.queue] at filled
    cases filled
    exact ⟨earlier, queue, head.subs⟩

theorem Call.stops {addr : Nat} {Ended : Nat → Prop} {y sync : Sync}
    {type : PthreadType} {visit : Visit} {seen : List Obs}
    (h : Call cfg t addr Ended y type sync visit seen) (started : y.threadStartedMap t = true)
    (stopped : sync.threadStartedMap t = false) : type = .barrierWt := by
  cases h with
  | barrierPass | barrierArrive | barrierRelease => rfl
  | create =>
    simp only [Function.update_apply, started, ite_self] at stopped
    cases stopped
  | _ =>
    rw [started] at stopped
    cases stopped

theorem StoppedAtBarrier.visit {cfg : Config} {s : State} (before : StoppedAtBarrier s)
    (shape : Shape cfg s) {t : Nat} (head : AtHead s t e rest top more) {type : PthreadType}
    {addr : Nat} (kind : e.kind = .pthreadApi type addr) (started : s.threadStartedMap t = true)
    {Ended : Nat → Prop} {sync : Sync} {visit : Visit} {seen : List Obs}
    (call : Call cfg t addr Ended s.toSync type sync visit seen) :
    StoppedAtBarrier ((s.updateStats t (·.countOps top)).afterVisit cfg t e rest top more sync seen
      visit) := by
  obtain ⟨rfl, _⟩ := shape.pthread head kind
  have after : ((s.updateStats t (·.countOps top)).afterVisit cfg t e rest top [] sync seen
      visit).threadStartedMap = sync.threadStartedMap := by
    cases visit <;> simp only [State.afterVisit, leave_sync] <;> rfl
  intro u e' rest' top' more' now stopped
  rw [after] at stopped
  by_cases this : u = t
  · subst this
    have type := call.stops started stopped
    subst type
    have same : e'.kind = e.kind := by
      cases visit with
      | waiting => exact (atHead_setSubEvents now).1
      | skipped | consumed =>
        apply atHead_leave _ _ now
        · exact shape.congr rfl rfl rfl
        · exact head.queue
    rw [same, kind]
    rfl
  · refine before u e' rest' top' more' ⟨?_, now.subs⟩ ?_
    · have queue := now.queue
      rwa [(Kept.afterVisit cfg _ _ _ _ _ _).queues u this] at queue
    · by_contra running
      have still := call.started this (by simpa using running)
      rw [still] at stopped
      cases stopped

theorem Change.stoppedAtBarrier {next : State} (h : Change cfg p s next)
    (shape : Shape cfg s) (before : StoppedAtBarrier s) : StoppedAtBarrier next := by
  -- what is left of the head event of `t` belongs to the same event
  have keep : ∀ {t : Nat} {e : STEvent} {rest : List STEvent} {top : SubEvent}
      {more : List SubEvent} {after : State}, AtHead s t e rest top more →
      (∀ u, u ≠ t → after.eventMap u = s.eventMap u) →
      after.threadStartedMap = s.threadStartedMap →
      (∀ e' rest' top' more', AtHead after t e' rest' top' more' → e'.kind = e.kind) →
      StoppedAtBarrier after := by
    intro t e rest top more after head others sync same u e' rest' top' more' now stopped
    rw [sync] at stopped
    by_cases this : u = t
    · subst this
      rw [same _ _ _ _ now]
      exact before u e rest top more head stopped
    · exact before u e' rest' top' more' ⟨(others u this).symm.trans now.queue, now.subs⟩ stopped
  cases h with
  | clock | startEvent | stop | coreEvents | answered | rotate => exact before
  | replenish =>
    intro u e rest top more head stopped
    obtain ⟨earlier, head⟩ := replenish_atHead head
    refine before u e earlier top more head ?_
    unfold State.replenish at stopped
    split at stopped <;> exact stopped
  | @create t e rest _ top more placed queue new started made =>
    intro u e' rest' top' more' now stopped
    have different : u ≠ t := by
      rintro rfl
      exact Bool.false_ne_true (stopped.symm.trans started)
    have same : (s.setSubEvents t e rest (cfg.timed top s.curTick :: more)).eventMap u =
      s.eventMap u := Function.update_of_ne different ..
    exact before u e' rest' top' more' ⟨same.symm.trans now.queue, now.subs⟩ stopped
  | recheck placed head =>
    exact keep head (fun u other => Function.update_of_ne other ..) rfl
      fun _ _ _ _ now => (atHead_setSubEvents now).1
  | send accept placed head =>
    cases accept with
    | false => exact before
    | true =>
      exact keep head (fun u other => Function.update_of_ne other ..) rfl
        fun _ _ _ _ now => (atHead_setSubEvents now).1
  | work placed head | respond placed head =>
    refine keep head (fun u other => (Kept.leave cfg _ _).queues u other) ?_ fun _ _ _ _ now => ?_
    · rw [leave_sync]
      rfl
    · apply atHead_leave _ _ now
      · exact shape.congr rfl rfl rfl
      · exact head.queue
  | @visit t e rest top more type addr sync visit seen placed head untriggered message kind started
      visited =>
    rw [shape.owner head.queue] at visited
    exact before.visit shape head kind started (visitPthread_call visited)

theorem reachable_stoppedAtBarrier {allowed : State → Action → Prop}
    (reach : ReachableVia (replay cfg) allowed s) : StoppedAtBarrier s := by
  refine reachable_of_blank StoppedAtBarrier ?_
    (fun _ _ _ shape change before => change.stoppedAtBarrier shape before) reach
  rintro t e rest top more ⟨queue, _⟩
  cases queue

/-- The core is scheduled or waits for a response, if its front thread has an event under way. -/
def Awake (p : Nat) (s : State) : Prop :=
  ∀ t e rest top more, (s.threadMap p).head? = some t → AtHead s t e rest top more →
    (s.coreEvents p).isSome ∨ top.msgTriggered = true

section Awake

variable {cfg : Config} {p t : Nat} {s next : State} {accept : Bool}

theorem Awake.ofScheduled (scheduled : (s.coreEvents p).isSome) : Awake p s :=
  fun _ _ _ _ _ _ _ => Or.inl scheduled

theorem Awake.local {q : Nat} (awake : Awake q s)
    (mapped : ∀ t ∈ s.threadMap q, t % cfg.numMapped = q) (frame : Local cfg p s next)
    (other : q ≠ p) : Awake q next := by
  intro t e rest top more front head
  rw [frame.threads q other] at front
  have placed : t % cfg.numMapped ≠ p := by
    rw [mapped t (List.mem_of_head? front)]
    exact other
  have queue := head.queue
  rw [frame.queues t placed] at queue
  rw [frame.events q other]
  exact awake t e rest top more front ⟨queue, head.subs⟩

theorem Awake.replenish (awake : Awake p s) (t : Nat) : Awake p (s.replenish cfg t) := by
  have same : (s.replenish cfg t).threadMap = s.threadMap ∧
      (s.replenish cfg t).coreEvents = s.coreEvents := by
    unfold State.replenish
    split <;> exact ⟨rfl, rfl⟩
  intro u e rest top more front head
  obtain ⟨earlier, head⟩ := replenish_atHead head
  rw [same.1] at front
  rw [same.2]
  exact awake u e earlier top more front head

theorem createSubEventsOf_awake {rand : Nat → Nat} (awake : Awake p s)
    (h : createSubEventsOf cfg p t rand s = .ok next) : Awake p next := by
  rcases createSubEventsOf_ok h with ⟨rfl, _⟩ | ⟨e, rest, top, more, created⟩
  · exact awake
  · exact .ofScheduled created.scheduled.isSome

theorem Waiting.awake {r : Request} (waiting : Waiting cfg p s r) : Awake p s := by
  intro t e rest top more front head
  obtain ⟨e', rest', top', more', sender, sent⟩ := waiting.sender
  rw [waiting.front] at front
  cases front
  obtain ⟨_, _, rfl, _⟩ := AtHead.unique sender head
  exact Or.inr sent.triggered

theorem Swapped.isSome {others : List Nat} (h : Swapped cfg p t others s next)
    (scheduled : (s.coreEvents p).isSome) : (next.coreEvents p).isSome := by
  cases h with
  | alone => exact scheduled
  | aloneAtBarrier _ _ _ scheduled => exact scheduled.isSome
  | makeRoom _ _ _ scheduled => exact scheduled.isSome
  | stay _ _ created =>
    rcases createSubEventsOf_ok created with ⟨rfl, _⟩ | ⟨_, _, _, _, created⟩
    · exact scheduled
    · exact created.scheduled.isSome
  | stalled _ _ _ _ _ swapped => exact (swapAndSchedule_ok swapped).isSome

theorem Swapped.awake_of_idle {others : List Nat} (h : Swapped cfg p t others s next)
    (threads : s.threadMap p = t :: others) (barrier : StoppedAtBarrier s)
    (idle : s.threadStartedMap t = true → s.eventMap t = []) : Awake p next := by
  cases h with
  | alone single noBarrier =>
    intro u e rest top more front head
    rw [threads] at front
    cases front
    have stopped : s.threadStartedMap t = false := by
      by_contra running
      have empty := idle (by simpa using running)
      rw [head.queue] at empty
      cases empty
    have atBarrier := barrier t e rest top more head stopped
    rw [noBarrier e (by simp [head.queue])] at atBarrier
    cases atBarrier
  | aloneAtBarrier _ _ _ scheduled => exact .ofScheduled scheduled.isSome
  | makeRoom _ _ _ scheduled => exact .ofScheduled scheduled.isSome
  | stay several started created queue =>
    rcases createSubEventsOf_ok created with ⟨rfl, _⟩ | ⟨_, _, _, _, created⟩
    · rw [idle started] at queue
      cases queue
    · exact .ofScheduled created.scheduled.isSome
  | stalled _ _ _ _ _ swapped => exact .ofScheduled (swapAndSchedule_ok swapped).isSome

variable {rand : Nat → Nat → Nat}

theorem wakeup_awake {time : Nat} (early : time < 2 ^ 53) (shape : Shape cfg s)
    (calm : Calm cfg p s) (barrier : StoppedAtBarrier s) (scheduled : s.coreEvents p = some time)
    (safe : ¬ StrandsCore cfg s (.core p rand accept))
    (h : wakeup cfg p rand accept { s with
      curTick := time, coreEvents := Function.update s.coreEvents p none } = .ok next) :
    Awake p next := by
  have now : Shape cfg { s with
      curTick := time, coreEvents := Function.update s.coreEvents p none } := shape.congr rfl rfl rfl
  obtain ⟨t, others, created, moved, woken⟩ := wakeup_ok now h
  obtain ⟨_, movedShape, outcome⟩ := woken.moved early now
    ⟨calm.answered, calm.untriggered⟩ (Function.update_self ..)
  obtain ⟨rand', create⟩ := woken.create
  have front : s.threadMap p = t :: others := woken.threads
  have placed := (shape.mapped p t (by simp [front])).2
  have createdBarrier : StoppedAtBarrier created :=
    (createSubEventsOf_changes placed create).changes.invariant StoppedAtBarrier
      (fun _ _ _ shape change before => change.stoppedAtBarrier shape before) now barrier
  obtain ⟨u, rest, threads, swap⟩ := woken.swap
  cases outcome with
  | nothing idle =>
    rw [woken.same, woken.threads] at threads
    cases threads
    exact swap.awake_of_idle (woken.same ▸ woken.threads) createdBarrier idle
  | scheduled _ scheduled => exact .ofScheduled (swap.isSome scheduled)
  | waiting waiting =>
    rw [swap.waiting movedShape threads waiting]
    exact waiting.awake
  | @refused e rest' top more msg refused started head due untriggered message satisfied =>
    have same := createSubEventsOf_due early (Function.update_self ..) create head due
    subst same
    have first : t :: others = u :: rest := woken.threads.symm.trans threads
    cases first
    -- the request is not sent again: the core is stranded unless the thread is swapped out
    have stranded : (∀ requests, e.kind = .communication requests → others ≠ [] →
        time ≤ top.initialTriggerTime + maxCommWait) → Awake p next := by
      intro stays
      exact absurd ⟨refused, time, t, others, e, rest', top, more, msg, scheduled, woken.threads,
        started, head, due, untriggered, message, satisfied, stays⟩ safe
    cases swap with
    | alone single => exact stranded fun _ _ several => absurd single several
    | aloneAtBarrier _ _ _ scheduled => exact .ofScheduled scheduled.isSome
    | makeRoom _ _ _ scheduled => exact .ofScheduled scheduled.isSome
    | stay several _ again queue busy =>
      refine stranded fun requests kind _ => ?_
      rw [createSubEventsOf_again again head] at queue busy
      have front := head.queue.symm.trans queue
      cases front
      simp only [stallsHead, kind, head.subs, untriggered, Bool.not_false, Bool.true_and,
        Except.ok.injEq] at busy
      exact Int.not_lt.mp (of_decide_eq_false busy)
    | stalled _ _ _ _ _ swapped => exact .ofScheduled (swapAndSchedule_ok swapped).isSome

theorem wakeupMaster_awake (shape : Shape cfg s)
    (awake : ∀ q, Awake q s) (h : wakeupMaster cfg rand s = .ok next) : ∀ q, Awake q next := by
  refine wakeupMaster_invariant (fun s => ∀ q, Awake q s) h shape
    (fun s t awake q => (awake q).replenish t) ?_ (fun s start stop awake => awake) awake
  intro s next p rand shape inside made awake q
  by_cases same : q = p
  · subst same
    obtain ⟨t, others, threads, made⟩ := createSubEvents_ok made
    exact createSubEventsOf_awake (awake q) made
  · exact (awake q).local (fun t on => (shape.mapped q t on).2)
      ((createSubEvents_changes shape made).local shape) same

theorem perform_awake {a : Action} {time : Nat} (shape : Shape cfg s) (orderly : Orderly cfg s)
    (barrier : StoppedAtBarrier s) (due : a.DueAt cfg s time) (safe : ¬ StrandsCore cfg s a)
    (awake : ∀ q, Awake q s) (h : perform cfg s a time = .ok next) : ∀ q, Awake q next := by
  cases a with
  | master rand =>
    exact wakeupMaster_awake (s := { s with curTick := time }) (shape.congr rfl rfl rfl) awake h
  | core p rand accept =>
    intro q
    by_cases same : q = p
    · subst same
      obtain ⟨inside, scheduled⟩ := due.core
      exact wakeup_awake due.early shape (orderly.calm inside scheduled) barrier scheduled safe h
    · exact (awake q).local (fun t on => (shape.mapped q t on).2)
        ((perform_coreChanges rfl shape h).local shape) same
  | response request arrival =>
    intro q
    by_cases same : q = request.procID
    · subst same
      obtain ⟨_, waiting⟩ := orderly.waiting due.response
      exact .ofScheduled (hitCallback_settled shape waiting h).2
    · exact (awake q).local (fun t on => (shape.mapped q t on).2)
        ((perform_coreChanges rfl shape h).local shape) same

end Awake

variable {cfg : Config} {s next : State}

theorem initState_awake (h : initState cfg = .ok s) (p : Nat) :
    Awake p s := by
  rw [initState_eq] at h
  cases h
  refine List.foldlRecOn (motive := fun s : State => Awake p s) _ _ ?_ fun s awake t _ =>
    awake.replenish t
  rintro t e rest top more _ ⟨queue, _⟩
  cases queue

theorem FrontProgressed.refused {cfg : Config} {p t : Nat} {s next : State} {msg : Msg}
    (h : FrontProgressed cfg p t false s next) (started : s.threadStartedMap t = true)
    (head : AtHead s t e rest top more) (due : top.triggerTime ≤ s.curTick)
    (untriggered : top.msgTriggered = false) (message : top.msg = some msg)
    (satisfied : ∀ requests, e.kind = .communication requests →
      checkCommDependency cfg s msg.thisMsg = .ok true ∨ s.threadMutexMap t = true) :
    next = triggerMsg (msgCounter e.kind msg.msgType) p t e rest top more msg false
      (s.updateStats t (·.countOps top)) := by
  cases h with
  | nothing idle =>
    rw [head.queue] at idle
    cases idle started
  | later other notDue =>
    obtain ⟨rfl, rfl, rfl, rfl⟩ := AtHead.unique head other
    exact absurd ⟨due, untriggered⟩ notDue
  | due _ other _ _ progressed =>
    obtain ⟨rfl, rfl, rfl, rfl⟩ := AtHead.unique head other
    cases progressed with
    | recheck same kind blocked =>
      rw [message] at same
      cases same
      rcases satisfied _ kind with passed | held
      · rw [passed] at blocked
        cases blocked.1
      · rw [held] at blocked
        cases blocked.2
    | sent same =>
      rw [message] at same
      cases same
      rfl
    | work silent | visit silent =>
      rw [message] at silent
      cases silent

theorem Swapped.stays {p t : Nat} {others : List Nat} {msg : Msg}
    (h : Swapped cfg p t others s next) (shape : Shape cfg s)
    (started : s.threadStartedMap t = true) (head : AtHead s t e rest top more)
    (message : top.msg = some msg)
    (early : ∀ requests, e.kind = .communication requests → others ≠ [] →
      s.curTick ≤ top.initialTriggerTime + maxCommWait) :
    next = s :=
  h.same started head (shape.kind_of_message head message) fun requests kind several =>
    .inr (early requests kind several)

theorem strandsCore_stranded {a : Action} {time : Nat}
    (shape : Shape cfg s) (strands : StrandsCore cfg s a) (due : a.DueAt cfg s time)
    (h : perform cfg s a time = .ok next) : ∃ p < cfg.numMapped, next.stranded p = true := by
  cases a with
  | master | response => exact strands.elim
  | core p rand accept =>
    obtain ⟨rfl, time', t, others, e, rest, top, more, msg, scheduled, threads, started, head, early,
      untriggered, message, satisfied, stays⟩ := strands
    obtain ⟨inside, now⟩ := due.core
    rw [scheduled] at now
    cases now
    have present : Shape cfg { s with
      curTick := time, coreEvents := Function.update s.coreEvents p none } := shape.congr rfl rfl rfl
    obtain ⟨t', others', created, moved, woken⟩ := wakeup_ok present h
    have front := woken.threads
    rw [threads] at front
    cases front
    obtain ⟨rand', create⟩ := woken.create
    have same := createSubEventsOf_again create head
    subst same
    have refused := woken.progress.refused started head early untriggered message satisfied
    obtain ⟨u, rest', threads', swap⟩ := woken.swap
    rw [refused] at threads' swap
    have front : t :: others = u :: rest' := threads.symm.trans threads'
    cases front
    have left := swap.stays (present.congr rfl rfl rfl) started head message stays
    subst left
    refine ⟨p, inside, stranded_iff.mpr ⟨Function.update_self .., t, e, rest, ?_, started, head.queue,
      ?_, ?_⟩⟩
    · simp [triggerMsg, State.updateStats, threads]
    · simp [head.subs]
    · simp [STEvent.awaitsResponse, head.subs, untriggered]

end SynchroTrace.Replay
