import SynchroTrace.Replay.Conservation

/-!
`worker_thread_count`: a create that retires adds one, and every visit to a join takes one away.
-/

namespace SynchroTrace.Replay
open History Outcome Transition List

def Obs.call? (type : PthreadType) : Obs → Option Nat
  | .retired _ e =>
    match e.kind with
    | .pthreadApi called addr => if called = type then some addr else none
    | _ => none
  | _ => none

def calls (type : PthreadType) (history : List Obs) : List Nat := history.filterMap (Obs.call? type)

@[simp] theorem calls_append (type : PthreadType) (before after : List Obs) :
    calls type (before ++ after) = calls type before ++ calls type after :=
  filterMap_append

def Obs.isJoinPending : Obs → Bool
  | .joinPending _ => true
  | _ => false

/-- How often a join was visited while the joined thread was running. -/
def joinPolls (history : List Obs) : Nat := history.countP Obs.isJoinPending

@[simp] theorem joinPolls_append (before after : List Obs) :
    joinPolls (before ++ after) = joinPolls before + joinPolls after :=
  countP_append

def workers (history : List Obs) : Int :=
  (calls .create history).length - (calls .join history).length - joinPolls history

theorem workers_nil : workers [] = 0 := rfl

@[simp] theorem workers_append (before after : List Obs) :
    workers (before ++ after) = workers before + workers after := by
  simp only [workers, calls_append, joinPolls_append, length_append]
  omega

variable {e : TraceEvent} {addr : Nat} {type : PthreadType} {Ended : Nat → Prop} {visit : Visit}
  {seen : List Obs}

theorem calls_join {t : Nat} (kind : e.kind = .pthreadApi .join addr) :
    calls .create [.retired t e] = [] ∧ calls .join [.retired t e] = [addr] := by
  simp [calls, Obs.call?, kind]

def RetiresJoin (x : Obs) : Prop := ∃ t e addr, x = .retired t e ∧ e.kind = .pthreadApi .join addr

/-- "Last Thread Joined" comes right before a join that retires and leaves no worker. -/
def Reported (before : List Obs) (x : Obs) : Prop :=
  before.getLast? = some .lastThreadJoined ↔ RetiresJoin x ∧
    (calls .create (before ++ [x])).length = (calls .join (before ++ [x])).length

/-- Every report belongs to a join that has retired. -/
def Reports (history : List Obs) : Prop :=
  Throughout Reported history ∧ history.getLast? ≠ some .lastThreadJoined

theorem Reports.quiet {history more : List Obs} (h : Reports history)
    (each : ∀ x ∈ more, ¬ RetiresJoin x ∧ x ≠ .lastThreadJoined) : Reports (history ++ more) := by
  induction more generalizing history with
  | nil => simpa using h
  | cons x rest ih =>
    obtain ⟨noJoin, noReport⟩ := each x mem_cons_self
    rw [← singleton_append, ← append_assoc]
    refine ih ⟨throughout_snoc.mpr ⟨h.1, ?_⟩, ?_⟩ fun y later => each y (mem_cons_of_mem _ later)
    · exact ⟨fun reported => absurd reported h.2, fun joins => absurd joins.1 noJoin⟩
    · simpa using noReport

theorem Reports.join {history : List Obs} (h : Reports history) {t : Nat}
    (kind : e.kind = .pthreadApi .join addr)
    (last : (calls .create history).length = (calls .join history).length + 1) :
    Reports (history ++ [.lastThreadJoined] ++ [.retired t e]) := by
  refine ⟨throughout_snoc.mpr ⟨throughout_snoc.mpr ⟨h.1, ?_⟩, ?_⟩, by simp⟩
  · refine ⟨fun reported => absurd reported h.2, ?_⟩
    rintro ⟨⟨_, _, _, same, _⟩, _⟩
    cases same
  · refine iff_of_true (by simp) ⟨⟨t, e, addr, rfl, kind⟩, ?_⟩
    have silent : ∀ type, calls type [.lastThreadJoined] = [] := fun _ => rfl
    simp only [calls_append, silent, calls_join kind, length_append, length_nil, length_singleton]
    omega

theorem Reports.joinMore {history : List Obs} (h : Reports history) {t : Nat}
    (kind : e.kind = .pthreadApi .join addr)
    (left : (calls .create history).length ≠ (calls .join history).length + 1) :
    Reports (history ++ [.retired t e]) := by
  refine ⟨throughout_snoc.mpr ⟨h.1, iff_of_false h.2 ?_⟩, by simp⟩
  rintro ⟨_, even⟩
  simp only [calls_append, calls_join kind, length_append, length_nil, length_singleton] at even
  omega

def visitObs (t : Nat) (e : TraceEvent) (seen : List Obs) : Visit → List Obs
  | .waiting => seen
  | .skipped | .consumed => seen ++ [.retired t e]

theorem visited_history (a : Threads) (t : Nat) (e : TraceEvent) (rest : List TraceEvent)
    (sync : Sync) (seen : List Obs) (visit : Visit) :
    (a.visited t e rest sync seen visit).sync = sync ∧
      (a.visited t e rest sync seen visit).history = a.history ++ visitObs t e seen visit := by
  cases visit <;> simp [Threads.visited, Threads.retire, visitObs]

theorem workers_retired {t : Nat} (kind : e.kind = .pthreadApi type addr) :
    workers [.retired t e] = if type = .create then 1 else if type = .join then -1 else 0 := by
  by_cases create : type = .create
  · simp [workers, calls, Obs.call?, joinPolls, Obs.isJoinPending, kind, create]
  · by_cases join : type = .join <;>
      simp [workers, calls, Obs.call?, joinPolls, Obs.isJoinPending, kind, create, join]

variable {cfg : Config}

theorem Call.counts {t : Nat} {y sync : Sync}
    (h : Call cfg t addr Ended y type sync visit seen) (kind : e.kind = .pthreadApi type addr) :
    sync.workerThreadCount = y.workerThreadCount + workers (visitObs t e seen visit) := by
  have retired := workers_retired (t := t) kind
  have arrive : (y.arrive t addr).workerThreadCount = y.workerThreadCount := by
    unfold Sync.arrive
    split <;> rfl
  cases h with
  | lockBusy | spinBusy => rw [visitObs, workers_nil, add_zero]
  | barrierArrive | barrierRelease => exact arrive.trans (add_zero _).symm
  | create =>
    rw [visitObs, workers_append, retired]
    split <;> rfl
  | joinBusy =>
    rw [visitObs]
    split <;> rfl
  | join =>
    rw [visitObs, workers_append, retired]
    split <;> rfl
  | condition which =>
    rcases which with rfl | rfl <;> rw [visitObs, nil_append, retired] <;> simp
  | _ => simp [visitObs, retired]

structure Accounted (a : Threads) : Prop where
  count : a.sync.workerThreadCount = workers a.history
  reports : joinPolls a.history = 0 → Reports a.history

theorem mem_visitObs {t : Nat} {x : Obs} (h : x ∈ visitObs t e seen visit) :
    x ∈ seen ∨ x = .retired t e := by
  cases visit with
  | waiting => exact Or.inl h
  | skipped | consumed => simpa [visitObs] using h

theorem Call.seen_quiet {t : Nat} {y sync : Sync}
    (h : Call cfg t addr Ended y type sync visit seen) (other : type ≠ .join) :
    .lastThreadJoined ∉ seen := by
  cases h with
  | joinBusy | join => exact absurd rfl other
  | create => split <;> simp
  | _ => simp

theorem Call.reports {t : Nat} {y sync : Sync}
    (h : Call cfg t addr Ended y type sync visit seen) (kind : e.kind = .pthreadApi type addr)
    {history : List Obs} (count : y.workerThreadCount = workers history) (reports : Reports history)
    (noPolls : joinPolls (history ++ visitObs t e seen visit) = 0) :
    Reports (history ++ visitObs t e seen visit) := by
  by_cases join : type = .join
  · subst join
    cases h with
    | joinBusy =>
      have none := countP_eq_zero.mp noPolls (.joinPending t) (by simp [visitObs])
      exact absurd rfl none
    | join =>
      have calm : joinPolls history = 0 := by
        rw [joinPolls_append] at noPolls
        omega
      unfold workers at count
      split
      · rw [visitObs, ← append_assoc]
        exact reports.join kind (by omega)
      · exact reports.joinMore kind (by omega)
    | condition which => rcases which with same | same <;> cases same
  · refine reports.quiet fun x member => ?_
    rcases mem_visitObs member with new | rfl
    · refine ⟨?_, fun same => h.seen_quiet join (same ▸ new)⟩
      rintro ⟨u, e', addr', rfl, _⟩
      exact h.seen_not_retired new u e' rfl
    · refine ⟨?_, by simp⟩
      rintro ⟨u, e', addr', same, joins⟩
      cases same
      rw [kind] at joins
      cases joins
      exact join rfl

theorem Threads.Step.accounted {a next : Threads} (h : Threads.Step cfg a next)
    (before : Accounted a) : Accounted next := by
  cases h with
  | @work t e rest simulated head kind =>
    have silent : ∀ type, calls type [.retired t e] = [] := by
      intro type
      cases event : e.kind with
      | pthreadApi called addr => exact absurd event (kind called addr)
      | computation | communication => simp [calls, Obs.call?, event]
    constructor
    · have same : workers [.retired t e] = 0 := by
        simp [workers, silent, joinPolls, Obs.isJoinPending]
      rw [Threads.retire, workers_append, same, add_zero]
      exact before.count
    · intro noPolls
      rw [Threads.retire, joinPolls_append] at noPolls
      refine (before.reports (by omega)).quiet fun x member => ?_
      rw [mem_singleton.mp member]
      refine ⟨?_, by simp⟩
      rintro ⟨_, _, addr, same, join⟩
      cases same
      exact kind _ _ join
  | send accept =>
    constructor
    · rw [workers_append]
      exact before.count.trans (add_zero _).symm
    · intro noPolls
      rw [joinPolls_append] at noPolls
      refine (before.reports (by omega)).quiet fun x member => ?_
      rw [mem_singleton.mp member]
      refine ⟨?_, by simp⟩
      rintro ⟨_, _, _, same, _⟩
      cases same
  | @visit t e rest type addr sync visit seen simulated head kind started call =>
    obtain ⟨sameSync, sameHistory⟩ := visited_history a t e rest sync seen visit
    constructor
    · rw [sameSync, sameHistory, workers_append, call.counts kind, before.count]
    · intro noPolls
      rw [sameHistory] at noPolls ⊢
      have earlier : joinPolls a.history = 0 := by
        rw [joinPolls_append] at noPolls
        omega
      exact call.reports kind before.count (before.reports earlier) noPolls

theorem reachable_accounted {allowed : State → Action → Prop} {s : State}
    (reach : ReachableVia (replay cfg) allowed s) : Accounted (s.threads cfg) :=
  steps_invariant Accounted (fun _ _ step before => step.accounted before)
    (reachable_threads reach) ⟨rfl, fun _ => ⟨throughout_nil, by simp [Threads.start, State.threads,
      State.blank]⟩⟩

/-- The thread is about to visit a join of a thread that still has events queued. -/
def JoinWaits (cfg : Config) (s : State) (t time : Nat) : Prop :=
  ∃ e rest top more addr u, s.threadStartedMap t = true ∧ AtHead s t e rest top more ∧
    top.triggerTime ≤ time ∧ e.kind = .pthreadApi .join addr ∧
    cfg.threadIndex (cfg.addresstoIdMap addr) = .ok u ∧ s.eventMap u ≠ []

/-- The wakeup of a core whose front thread is about to visit such a join. -/
def WaitsForJoin (cfg : Config) (s : State) : Action → Prop
  | .core p _ _ => ∃ time t others, s.coreEvents p = some time ∧ s.threadMap p = t :: others ∧
      JoinWaits cfg s t time
  | _ => False

theorem leave_polls (cfg : Config) (s : State) (t : Nat) (e : STEvent) (rest : List STEvent)
    (more : List SubEvent) : joinPolls (s.leave cfg t e rest more).history = joinPolls s.history := by
  rw [leave_history, joinPolls_append]
  split <;> rfl

theorem afterVisit_polls (cfg : Config) (s : State) (t : Nat) (e : STEvent) (rest : List STEvent)
    (top : SubEvent) (more : List SubEvent) (sync : Sync) (seen : List Obs) (visit : Visit) :
    joinPolls (s.afterVisit cfg t e rest top more sync seen visit).history =
      joinPolls s.history + joinPolls seen := by
  rw [← joinPolls_append]
  cases visit <;> exact leave_polls ..

theorem triggerMsg_polls (count : ThreadStats → ThreadStats) (p t : Nat) (e : STEvent)
    (rest : List STEvent) (top : SubEvent) (more : List SubEvent) (msg : Msg) (accept : Bool)
    (s : State) :
    joinPolls (triggerMsg count p t e rest top more msg accept s).history = joinPolls s.history := by
  cases accept <;> exact (joinPolls_append ..).trans (add_zero _)

theorem Call.polls {t : Nat} {y sync : Sync}
    (h : Call cfg t addr Ended y type sync visit seen) :
    (type = .join ∧ ∃ u, cfg.threadIndex (cfg.addresstoIdMap addr) = .ok u ∧ ¬ Ended u) ∧
        joinPolls seen = 1 ∨
      ¬ (type = .join ∧ ∃ u, cfg.threadIndex (cfg.addresstoIdMap addr) = .ok u ∧ ¬ Ended u) ∧
        joinPolls seen = 0 := by
  cases h with
  | joinBusy joined running =>
    refine Or.inl ⟨⟨rfl, _, joined, running⟩, ?_⟩
    split <;> rfl
  | join joined ended =>
    refine Or.inr ⟨?_, by split <;> rfl⟩
    rintro ⟨_, u, same, running⟩
    rw [joined] at same
    cases same
    exact running ended
  | create => exact Or.inr ⟨by simp, by split <;> rfl⟩
  | condition which => exact Or.inr ⟨by rcases which with rfl | rfl <;> simp, rfl⟩
  | _ => exact Or.inr ⟨by simp, rfl⟩

theorem FrontProgressed.polls {p t : Nat} {accept : Bool} {s next : State}
    (h : FrontProgressed cfg p t accept s next) (shape : Shape cfg s) :
    JoinWaits cfg s t s.curTick ∧ joinPolls next.history = joinPolls s.history + 1 ∨
      ¬ JoinWaits cfg s t s.curTick ∧ joinPolls next.history = joinPolls s.history := by
  cases h with
  | nothing idle =>
    refine Or.inr ⟨?_, rfl⟩
    rintro ⟨e, rest, top, more, addr, u, started, head, _⟩
    have empty := idle started
    rw [head.queue] at empty
    cases empty
  | later head notDue scheduled =>
    obtain ⟨events, rfl, _⟩ := scheduled
    refine Or.inr ⟨?_, rfl⟩
    rintro ⟨e, rest, top, more, addr, u, _, head', due, kind, _⟩
    obtain ⟨rfl, rfl, rfl, rfl⟩ := AtHead.unique head head'
    exact notDue ⟨due, (shape.pthread head kind).2.2⟩
  | @due _ e rest top more started head due untriggered progressed =>
    -- the head event decides whether this is a visit to a join
    have other : (∀ addr, e.kind ≠ .pthreadApi .join addr) → ¬ JoinWaits cfg s t s.curTick := by
      rintro different ⟨e', rest', top', more', addr, u, _, head', _, kind, _⟩
      obtain ⟨rfl, rfl, rfl, rfl⟩ := AtHead.unique head head'
      exact different addr kind
    cases progressed with
    | recheck message kind blocked scheduled =>
      obtain ⟨events, rfl, _⟩ := scheduled
      exact Or.inr ⟨other (by simp [kind]), rfl⟩
    | sent message =>
      exact Or.inr ⟨other (shape.kind_of_message head message _), triggerMsg_polls ..⟩
    | work message kind scheduled =>
      obtain ⟨i, events, rfl, _⟩ := scheduled
      exact Or.inr ⟨other fun addr => kind _ addr, leave_polls ..⟩
    | @visit _ type addr sync visit seen message kind visited scheduled =>
      obtain ⟨i, events, rfl, _⟩ := scheduled
      have polled := afterVisit_polls cfg (s.updateStats t (·.countOps top)) t e rest top more sync
        seen visit
      have waits : JoinWaits cfg s t s.curTick ↔ type = .join ∧
          ∃ u, cfg.threadIndex (cfg.addresstoIdMap addr) = .ok u ∧
            ¬ (s.eventMap u).isEmpty = true := by
        constructor
        · rintro ⟨e', rest', top', more', addr', u, _, head', _, kind', joined, running⟩
          obtain ⟨rfl, rfl, rfl, rfl⟩ := AtHead.unique head head'
          rw [kind] at kind'
          cases kind'
          exact ⟨rfl, u, joined, by simpa using running⟩
        · rintro ⟨rfl, u, joined, running⟩
          exact ⟨e, rest, top, more, addr, u, started, head, due, kind, joined, by simpa using running⟩
      rw [waits]
      rcases (visitPthread_call visited).polls with ⟨early, once⟩ | ⟨fine, none⟩
      · exact Or.inl ⟨early, polled.trans (by rw [once]; rfl)⟩
      · exact Or.inr ⟨fine, polled.trans (by rw [none]; rfl)⟩

section Steps

variable {cfg : Config} {p t : Nat} {s next : State}

theorem createSubEventsOf_history {rand : Nat → Nat}
    (h : createSubEventsOf cfg p t rand s = .ok next) : next.history = s.history := by
  rcases createSubEventsOf_ok h with ⟨rfl, _⟩ | ⟨e, rest, top, more, created⟩
  · rfl
  · obtain ⟨events, rfl, _⟩ := created.scheduled
    rfl

theorem Swapped.history {others : List Nat} (h : Swapped cfg p t others s next) :
    next.history = s.history := by
  cases h with
  | alone => rfl
  | aloneAtBarrier _ _ _ scheduled =>
    obtain ⟨events, rfl, _⟩ := scheduled
    rfl
  | makeRoom _ _ swap scheduled =>
    obtain ⟨i, rfl⟩ := swapIfStarted_ok swap
    obtain ⟨events, rfl, _⟩ := scheduled
    rfl
  | stay _ _ created => exact createSubEventsOf_history created
  | stalled _ _ created _ _ swapped =>
    have same := createSubEventsOf_history created
    obtain ⟨i, events, rfl, _⟩ := swapAndSchedule_ok swapped
    exact same

theorem wakeupMaster_history {rand : Nat → Nat → Nat} (shape : Shape cfg s)
    (h : wakeupMaster cfg rand s = .ok next) : next.history = s.history := by
  refine wakeupMaster_invariant (fun a => a.history = s.history) h shape ?_ ?_
    (fun a start stop same => same) rfl
  · intro a t same
    refine Eq.trans ?_ same
    unfold State.replenish
    split <;> rfl
  · intro a b p rand _ _ made same
    obtain ⟨t, others, _, made⟩ := createSubEvents_ok made
    exact (createSubEventsOf_history made).trans same

theorem wakeup_polls {rand : Nat → Nat → Nat} {accept : Bool} {time : Nat}
    (early : time < 2 ^ 53) (shape : Shape cfg s)
    (scheduled : s.coreEvents p = some time)
    (h : wakeup cfg p rand accept { s with
      curTick := time, coreEvents := Function.update s.coreEvents p none } = .ok next) :
    WaitsForJoin cfg s (.core p rand accept) ∧ joinPolls next.history = joinPolls s.history + 1 ∨
      ¬ WaitsForJoin cfg s (.core p rand accept) ∧
        joinPolls next.history = joinPolls s.history := by
  have now : Shape cfg { s with
      curTick := time, coreEvents := Function.update s.coreEvents p none } := shape.congr rfl rfl rfl
  obtain ⟨t, others, created, moved, woken⟩ := wakeup_ok now h
  obtain ⟨rand', create⟩ := woken.create
  obtain ⟨u, rest, _, swap⟩ := woken.swap
  have front : s.threadMap p = t :: others := woken.threads
  have placed := (shape.mapped p t (by simp [front])).2
  have createdShape := (createSubEventsOf_changes placed create).shape now
  have unchanged := createSubEventsOf_history create
  have before : created.history = s.history := unchanged
  -- a sub-event that has just been created is not due
  have waits : WaitsForJoin cfg s (.core p rand accept) ↔ JoinWaits cfg created t created.curTick := by
    constructor
    · rintro ⟨time', t', others', due, threads, waits⟩
      rw [scheduled] at due
      cases due
      rw [front] at threads
      cases threads
      have ⟨e, rest, top, more, addr, u, started, head, _⟩ := waits
      have same := createSubEventsOf_again create head
      subst same
      exact waits
    · rintro ⟨e, rest, top, more, addr, u, started, head, due, kind, joined, running⟩
      have same := createSubEventsOf_due early (Function.update_self ..) create head due
      subst same
      exact ⟨time, t, others, scheduled, front, e, rest, top, more, addr, u, started, head, due, kind,
        joined, running⟩
  rw [waits, swap.history, ← before]
  exact woken.progress.polls createdShape

theorem perform_polls {a : Action} {time : Nat} (shape : Shape cfg s) (due : a.DueAt cfg s time)
    (h : perform cfg s a time = .ok next) :
    WaitsForJoin cfg s a ∧ joinPolls next.history = joinPolls s.history + 1 ∨
      ¬ WaitsForJoin cfg s a ∧ joinPolls next.history = joinPolls s.history := by
  cases a with
  | master rand =>
    refine Or.inr ⟨id, ?_⟩
    have now : Shape cfg { s with curTick := time } := shape.congr rfl rfl rfl
    rw [wakeupMaster_history now h]
  | core p rand accept => exact wakeup_polls due.early shape due.core.2 h
  | response request arrival =>
    have now : Shape cfg { s with curTick := time, pending := s.pending.erase request } :=
      shape.congr rfl rfl rfl
    obtain ⟨t, others, e, rest, top, more, _, _, outcome⟩ := hitCallback_ok now h
    refine Or.inr ⟨id, ?_⟩
    rcases outcome with ⟨_, rfl⟩ | ⟨_, i, events, rfl, _⟩
    · rfl
    · exact leave_polls ..

end Steps

theorem reachable_polls {s : State}
    (reach : ReachableVia (replay cfg) (fun s a => ¬ WaitsForJoin cfg s a) s) :
    joinPolls s.history = 0 := by
  refine reach.invariant (fun s => joinPolls s.history = 0) ?_ ?_
  · intro s start
    have same : s.history = [] := congrArg Threads.history (initState_threads start)
    rw [same]
    rfl
  · intro s a next before permitted none taken
    obtain ⟨time, due, done⟩ := taken
    rcases perform_polls (reachable_shape before) due done with ⟨waits, _⟩ | ⟨_, same⟩
    · exact absurd waits permitted
    · exact same.trans none

theorem reachable_of_polls {s : State} (reach : Reachable (replay cfg) s)
    (none : joinPolls s.history = 0) :
    ReachableVia (replay cfg) (fun s a => ¬ WaitsForJoin cfg s a) s := by
  induction reach with
  | initial start => exact .initial start
  | @step s a next before _ taken ih =>
    have ⟨time, due, done⟩ := taken
    rcases perform_polls (reachable_shape before) due done with ⟨_, once⟩ | ⟨fine, same⟩
    · omega
    · exact .step (ih (same.symm.trans none)) fine taken

/-- A thread has been joined at most as often as it has been created. -/
def JoinsFollowCreates (cfg : Config) (history : List Obs) : Prop :=
  ∀ id, ((calls .join history).map cfg.addresstoIdMap).count id ≤
    ((calls .create history).map cfg.addresstoIdMap).count id

theorem JoinsFollowCreates.length_le {history : List Obs}
    (h : JoinsFollowCreates cfg history) :
    (calls .join history).length ≤ (calls .create history).length := by
  have sub := (subperm_ext_iff.mpr fun id _ => h id).length_le
  simpa using sub

def joinConfig (reads : Bool) : Config where
  ruby := .small
  numCpus := 2
  numThreads := 2
  masterWakeupFrequency := 2
  addresstoIdMap addr := if addr = 7 then 1 else 0
  traceFile t :=
    if t = 0 then ["1,1,pth_ty:3 ^ 7".toList, "2,1,pth_ty:4 ^ 7".toList]
    else if t = 1 ∧ reads then ["1,2,10,0,1,0 * 64 71".toList] else []
  valid := by cases reads <;> decide +kernel

end SynchroTrace.Replay
