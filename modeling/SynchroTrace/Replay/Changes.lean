import Mathlib.Data.List.Rotate
import SynchroTrace.Replay.Queues

namespace SynchroTrace.Replay
open Outcome Transition Function

def msgCounter (kind : EventKind) (msgType : DtReqType) (st : ThreadStats) : ThreadStats :=
  match kind, msgType with
  | .communication _, _ => { st with sharedReads := st.sharedReads + 1 }
  | _, .write => { st with localWrites := st.localWrites + 1 }
  | _, .read => { st with localReads := st.localReads + 1 }

variable (cfg : Config)

def State.afterVisit (s : State) (threadID : Nat) (e : STEvent)
    (rest : List STEvent) (top : SubEvent) (more : List SubEvent) (sync : Sync) (seen : List Obs) :
    Visit → State
  | .waiting =>
    { s with toSync := sync, history := s.history ++ seen }.leave cfg threadID e rest (top :: more)
  | .skipped =>
    ({ s with toSync := sync, history := s.history ++ seen }.removeSubEvent threadID).leave cfg
      threadID e rest more
  | .consumed =>
    (({ s with toSync := sync, history := s.history ++ seen }.removeSubEvent threadID).countSubEvent
      e.threadID).leave cfg threadID e rest more

def State.setCoreEvents (s : State) (events : Nat → Option Nat) : State :=
  { s with coreEvents := events }

/-- One change of the state, made for core `p`: by the core itself or by the master event. -/
inductive Change (cfg : Config) (p : Nat) (s : State) : State → Prop where
  | clock (time : Nat) : Change cfg p s { s with curTick := time }
  | startEvent (time : Nat) : Change cfg p s { s with startEvent := time }
  | stop (done : ∀ i < cfg.numThreads, s.eventMap i = []) : Change cfg p s { s with stopped := true }
  | coreEvents {events : Nat → Option Nat} (only : ∀ q, q ≠ p → events q = s.coreEvents q) :
      Change cfg p s (s.setCoreEvents events)
  | answered (request : Request) (sender : request.procID = p) :
      Change cfg p s { s with pending := s.pending.erase request }
  | rotate (i : Nat) : Change cfg p s (moveThreadToHead p i s)
  | replenish {t : Nat} (placed : t % cfg.numMapped = p) (simulated : t < cfg.numThreads) :
      Change cfg p s (s.replenish cfg t)
  | create {t : Nat} {e : STEvent} {rest : List STEvent} {rand : Nat → Nat} {top : SubEvent}
      {more : List SubEvent} (placed : t % cfg.numMapped = p) (queue : s.eventMap t = e :: rest)
      (new : e.subEventList = none) (started : s.threadStartedMap t = true)
      (made : subEventsOf e.kind rand = .ok (top :: more)) :
      Change cfg p s (s.setSubEvents t e rest (cfg.timed top s.curTick :: more))
  | recheck {t : Nat} {e rest top more requests} (placed : t % cfg.numMapped = p)
      (head : AtHead s t e rest top more) (untriggered : top.msgTriggered = false)
      (kind : e.kind = .communication requests) :
      Change cfg p s ((s.updateStats t (·.countOps top)).setSubEvents t e rest
        ({ top with triggerTime := s.curTick + 1 } :: more))
  | send {t : Nat} {e rest top more msg} (accept : Bool) (placed : t % cfg.numMapped = p)
      (head : AtHead s t e rest top more) (untriggered : top.msgTriggered = false)
      (message : top.msg = some msg)
      (satisfied : ∀ requests, e.kind = .communication requests →
        checkCommDependency cfg s msg.thisMsg = .ok true ∨ s.threadMutexMap t = true) :
      Change cfg p s (triggerMsg (msgCounter e.kind msg.msgType) p t e rest top more msg accept
        (s.updateStats t (·.countOps top)))
  | work {t : Nat} {e rest top more} (placed : t % cfg.numMapped = p)
      (head : AtHead s t e rest top more) (untriggered : top.msgTriggered = false)
      (message : top.msg = none) (kind : ∀ type addr, e.kind ≠ .pthreadApi type addr) :
      Change cfg p s ((((s.updateStats t (·.countOps top)).removeSubEvent t).countSubEvent t).leave
        cfg t e rest more)
  | visit {t : Nat} {e rest top more type addr sync visit seen}
      (placed : t % cfg.numMapped = p) (head : AtHead s t e rest top more)
      (untriggered : top.msgTriggered = false) (message : top.msg = none)
      (kind : e.kind = .pthreadApi type addr) (started : s.threadStartedMap t = true)
      (visited : visitPthread cfg e.threadID type addr (fun u => (s.eventMap u).isEmpty) s.toSync =
        .ok (sync, visit, seen)) :
      Change cfg p s ((s.updateStats t (·.countOps top)).afterVisit cfg t e rest top more sync seen
        visit)
  | respond {t : Nat} {e rest top more} (placed : t % cfg.numMapped = p)
      (head : AtHead s t e rest top more) (triggered : top.msgTriggered = true) :
      Change cfg p s ((((s.recordRTT t).countSubEvent t).removeSubEvent t).leave cfg t e rest more)

abbrev CoreChanges (p : Nat) : State → State → Prop :=
  Relation.ReflTransGen (Change cfg p)

abbrev Changes : State → State → Prop :=
  Relation.ReflTransGen fun s next => ∃ p, Change cfg p s next

variable {cfg : Config} {p t : Nat} {s next : State} {e : STEvent} {rest : List STEvent}
  {top : SubEvent} {more : List SubEvent} {rand : Nat → Nat} {accept : Bool}

theorem Change.changes (h : Change cfg p s next) : CoreChanges cfg p s next :=
  .single h

theorem CoreChanges.changes (h : CoreChanges cfg p s next) : Changes cfg s next :=
  steps_invariant (Changes cfg s) (fun _ _ change before => before.tail ⟨p, change⟩) h .refl

theorem triggerMsg_shape {procID : Nat} {msg : Msg} (shape : Shape cfg s)
    (head : AtHead s t e rest top more) (message : top.msg = some msg)
    (count : ThreadStats → ThreadStats) (accept : Bool) :
    Shape cfg (triggerMsg count procID t e rest top more msg accept s) := by
  cases accept with
  | false => exact shape.congr rfl rfl rfl
  | true =>
    have left : SubsLeft e.kind ({ top with msgTriggered := true } :: more) :=
      (shape.left head).setHead rfl fun _ => by simp [SubEvent.containsMsg, message]
    exact (shape.setSubEvents head.queue left).congr rfl rfl rfl

theorem afterVisit_shape (shape : Shape cfg s) (head : AtHead s t e rest top more) (sync : Sync)
    (seen : List Obs) (visit : Visit) :
    Shape cfg (s.afterVisit cfg t e rest top more sync seen visit) := by
  cases visit with
  | waiting =>
    apply Shape.setSubEvents
    · exact shape.congr rfl rfl rfl
    · exact head.queue
    · exact (shape.left head).timed _
  | skipped => exact Shape.leave (shape.congr rfl rfl rfl) head
  | consumed => exact Shape.leave (shape.congr rfl rfl rfl) head

theorem Change.shape (h : Change cfg p s next) (shape : Shape cfg s) : Shape cfg next := by
  cases h with
  | clock | startEvent | stop | coreEvents | answered => exact shape.congr rfl rfl rfl
  | rotate i =>
    refine ⟨shape.files, shape.queues, fun core t member => ?_⟩
    by_cases same : core = p
    · subst same
      simp only [moveThreadToHead, update_self, List.mem_rotate] at member
      exact shape.mapped core t member
    · simp only [moveThreadToHead, update_of_ne same] at member
      exact shape.mapped core t member
  | replenish placed simulated => exact shape.replenish simulated
  | create placed queue new started made =>
    exact shape.setSubEvents queue ((subsLeft_create made (List.cons_ne_nil _ _)).timed _)
  | recheck placed head =>
    apply Shape.setSubEvents
    · exact shape.congr rfl rfl rfl
    · exact head.queue
    · have sent := (shape.left head).sent _ List.mem_cons_self
      exact (shape.left head).setHead rfl sent
  | send accept placed head untriggered message =>
    apply triggerMsg_shape
    · exact shape.congr rfl rfl rfl
    · exact head
    · exact message
  | work placed head => exact Shape.leave (shape.congr rfl rfl rfl) head
  | visit placed head =>
    apply afterVisit_shape
    · exact shape.congr rfl rfl rfl
    · exact head
  | respond placed head => exact Shape.leave (shape.congr rfl rfl rfl) head

theorem Changes.shape (h : Changes cfg s next) (shape : Shape cfg s) : Shape cfg next :=
  steps_invariant (Shape cfg) (fun _ _ ⟨_, change⟩ before => change.shape before) h shape

theorem CoreChanges.shape (h : CoreChanges cfg p s next) (shape : Shape cfg s) : Shape cfg next :=
  Changes.shape h.changes shape

/-- The core is scheduled: it was before, or it is now and not for the past. -/
def Scheduled (p : Nat) (s next : State) : Prop :=
  ∃ events : Nat → Option Nat, next = s.setCoreEvents events ∧ (events p).isSome ∧
    (∀ q, q ≠ p → events q = s.coreEvents q) ∧
    ∀ time, events p = some time → s.coreEvents p = some time ∨ s.curTick ≤ time

/-- The core is scheduled, after the thread at position `i` has been moved to the front. -/
def Rescheduled (p : Nat) (s next : State) : Prop :=
  ∃ i, Scheduled p (moveThreadToHead p i s) next

theorem moveThreadToHead_zero (p : Nat) (s : State) : moveThreadToHead p 0 s = s := by
  simp [moveThreadToHead]

theorem Scheduled.rescheduled (h : Scheduled p s next) : Rescheduled p s next :=
  ⟨0, by rwa [moveThreadToHead_zero]⟩

theorem Scheduled.changes (h : Scheduled p s next) : CoreChanges cfg p s next := by
  obtain ⟨events, rfl, _, only, _⟩ := h
  exact (Change.coreEvents only).changes

theorem Rescheduled.changes (h : Rescheduled p s next) : CoreChanges cfg p s next := by
  obtain ⟨i, scheduled⟩ := h
  exact (Change.rotate i).changes.trans scheduled.changes

theorem schedule_ok {time : Int} (h : schedule p time s = .ok next) : Scheduled p s next := by
  unfold schedule at h
  split at h
  · cases h
  · split at h
    · cases h
    · rename_i future _
      cases h
      refine ⟨Function.update s.coreEvents p (some time.toNat), rfl, ?_, ?_, ?_⟩
      · rw [update_self]
        rfl
      · exact fun q other => update_of_ne other ..
      · intro due taken
        rw [update_self] at taken
        cases taken
        exact Or.inr (by omega)

theorem scheduleIfIdle_future {time : Int} (h : scheduleIfIdle p time s = .ok next)
    (idle : s.coreEvents p = none) : s.curTick ≤ time := by
  unfold scheduleIfIdle schedule at h
  rw [idle] at h
  split at h
  · rename_i scheduled
    cases scheduled
  · split at h
    · cases h
    · omega

theorem scheduleIfIdle_ok {time : Int} (h : scheduleIfIdle p time s = .ok next) :
    Scheduled p s next := by
  unfold scheduleIfIdle at h
  split at h
  · rename_i scheduled
    cases h
    exact ⟨s.coreEvents, rfl, scheduled, fun _ _ => rfl, fun _ due => Or.inl due⟩
  · exact schedule_ok h

theorem swapThreads_ok (h : swapThreads cfg p s = .ok next) :
    ∃ i, next = moveThreadToHead p i s := by
  unfold swapThreads at h
  obtain ⟨found, search, h⟩ := bind_ok h
  cases found with
  | none => exact ⟨0, by rw [pure_ok h, moveThreadToHead_zero]⟩
  | some i => exact ⟨i, pure_ok h⟩

theorem moveThreadToHead_rescheduled {i : Nat} (h : Rescheduled p (moveThreadToHead p i s) next) :
    Rescheduled p s next := by
  obtain ⟨j, scheduled⟩ := h
  refine ⟨i + j, ?_⟩
  have twice : moveThreadToHead p j (moveThreadToHead p i s) = moveThreadToHead p (i + j) s := by
    simp only [moveThreadToHead, update_self, update_idem, List.rotate_rotate]
  rwa [twice] at scheduled

theorem swapAndSchedule_ok (h : swapAndSchedule cfg p s = .ok next) : Rescheduled p s next := by
  obtain ⟨middle, swap, h⟩ := bind_ok h
  obtain ⟨i, rfl⟩ := swapThreads_ok swap
  exact ⟨i, scheduleIfIdle_ok h⟩

theorem swapIfStarted_ok {others : List Nat} (h : swapIfStarted cfg p others s = .ok next) :
    ∃ i, next = moveThreadToHead p i s := by
  unfold swapIfStarted at h
  split at h
  · exact swapThreads_ok h
  · cases h
    exact ⟨0, (moveThreadToHead_zero p s).symm⟩

structure Created (cfg : Config) (p t : Nat) (s next : State) (e : STEvent) (rest : List STEvent)
    (top : SubEvent) (more : List SubEvent) : Prop where
  started : s.threadStartedMap t = true
  queue : s.eventMap t = e :: rest
  new : e.subEventList = none
  made : ∃ rand, subEventsOf e.kind rand = .ok (top :: more)
  scheduled : Scheduled p (s.setSubEvents t e rest (cfg.timed top s.curTick :: more)) next
  future : s.coreEvents p = none → s.curTick ≤ cfg.dueTime top s.curTick

theorem Created.changes (h : Created cfg p t s next e rest top more)
    (placed : t % cfg.numMapped = p) :
    CoreChanges cfg p s next := by
  obtain ⟨rand, made⟩ := h.made
  exact (Change.create placed h.queue h.new h.started made).changes.trans h.scheduled.changes

theorem createSubEventsOf_ok (h : createSubEventsOf cfg p t rand s = .ok next) :
    (next = s ∧ (s.threadStartedMap t = true → ∀ e ∈ (s.eventMap t).head?,
      e.subEventList ≠ none)) ∨ ∃ e rest top more, Created cfg p t s next e rest top more := by
  unfold createSubEventsOf at h
  split at h
  · rename_i stopped
    cases h
    exact Or.inl ⟨rfl, by simp [stopped]⟩
  · rename_i started
    split at h
    · rename_i empty
      cases h
      exact Or.inl ⟨rfl, by simp [empty]⟩
    · rename_i e rest queue
      split at h
      · rename_i created
        cases h
        refine Or.inl ⟨rfl, fun _ head member none => ?_⟩
        rw [queue, List.head?_cons, Option.mem_some] at member
        subst member
        simp [STEvent.subEventsCreated, none] at created
      · rename_i new
        obtain ⟨subs, made, h⟩ := bind_ok h
        cases subs with
        | nil => cases h
        | cons top more =>
          have future := scheduleIfIdle_future h
          refine Or.inr ⟨e, rest, top, more, by simpa using started, queue, ?_, ⟨rand, made⟩,
            scheduleIfIdle_ok h, future⟩
          simpa [STEvent.subEventsCreated] using new

theorem createSubEventsOf_changes (placed : t % cfg.numMapped = p)
    (h : createSubEventsOf cfg p t rand s = .ok next) :
    CoreChanges cfg p s next := by
  rcases createSubEventsOf_ok h with ⟨rfl, _⟩ | ⟨e, rest, top, more, created⟩
  · exact .refl
  · exact created.changes placed

theorem createSubEvents_ok (h : createSubEvents cfg p rand s = .ok next) :
    ∃ t others, s.threadMap p = t :: others ∧ createSubEventsOf cfg p t rand s = .ok next := by
  unfold createSubEvents at h
  split at h
  · cases h
  · rename_i t others threads
    exact ⟨t, others, threads, h⟩

theorem createSubEvents_changes (shape : Shape cfg s) (h : createSubEvents cfg p rand s = .ok next) :
    CoreChanges cfg p s next := by
  obtain ⟨t, others, threads, h⟩ := createSubEvents_ok h
  exact createSubEventsOf_changes (shape.mapped p t (by simp [threads])).2 h

/-- What `swapStalledThreads` does on a core whose threads are `t :: others`. -/
inductive Swapped (cfg : Config) (p t : Nat) (others : List Nat) (s : State) : State → Prop where
  | alone (single : others = [])
      (noBarrier : ∀ e ∈ (s.eventMap t).head?, e.kind.isBarrierWait = false) :
      Swapped cfg p t others s s
  | aloneAtBarrier {next : State} {e : STEvent} {rest : List STEvent} (single : others = [])
      (queue : s.eventMap t = e :: rest) (barrier : e.kind.isBarrierWait = true)
      (scheduled : Scheduled p s next) : Swapped cfg p t others s next
  | makeRoom {middle next : State} (several : others ≠ [])
      (idle : s.eventMap t = [] ∨ s.threadStartedMap t = false)
      (swap : swapIfStarted cfg p others s = .ok middle) (scheduled : Scheduled p middle next) :
      Swapped cfg p t others s next
  | stay {rand : Nat → Nat} {next : State} {e : STEvent} {rest : List STEvent}
      (several : others ≠ []) (started : s.threadStartedMap t = true)
      (created : createSubEventsOf cfg p t rand s = .ok next) (queue : next.eventMap t = e :: rest)
      (busy : stallsHead cfg next e = .ok false) : Swapped cfg p t others s next
  | stalled {rand : Nat → Nat} {middle next : State} {e : STEvent} {rest : List STEvent}
      (several : others ≠ []) (started : s.threadStartedMap t = true)
      (created : createSubEventsOf cfg p t rand s = .ok middle)
      (queue : middle.eventMap t = e :: rest) (stalls : stallsHead cfg middle e = .ok true)
      (swapped : swapAndSchedule cfg p middle = .ok next) : Swapped cfg p t others s next

theorem swapStalledThreads_ok (h : swapStalledThreads cfg p rand s = .ok next) :
    ∃ t others, s.threadMap p = t :: others ∧ Swapped cfg p t others s next := by
  unfold swapStalledThreads at h
  split at h
  · cases h
  · rename_i t threads
    refine ⟨t, [], threads, ?_⟩
    split at h
    · rename_i empty
      cases h
      exact .alone rfl (by simp [empty])
    · rename_i e rest queue
      split at h
      · rename_i barrier
        exact .aloneAtBarrier rfl queue barrier (scheduleIfIdle_ok h)
      · rename_i noBarrier
        cases h
        exact .alone rfl (by simpa [queue] using noBarrier)
  · rename_i t others several threads
    refine ⟨t, others, threads, ?_⟩
    have several : others ≠ [] := by
      rintro rfl
      exact several rfl
    split at h
    · rename_i idle
      obtain ⟨middle, swap, h⟩ := bind_ok h
      exact .makeRoom several idle swap (scheduleIfIdle_ok h)
    · rename_i busy
      have started : s.threadStartedMap t = true := by simpa using (not_or.mp busy).2
      obtain ⟨middle, created, h⟩ := bind_ok h
      split at h
      · cases h
      · rename_i e rest queue
        obtain ⟨stalls, decision, h⟩ := bind_ok h
        cases stalls with
        | true => exact .stalled several started created queue decision h
        | false =>
          cases h
          exact .stay several started created queue decision

theorem Swapped.changes {others : List Nat} (h : Swapped cfg p t others s next)
    (placed : t % cfg.numMapped = p) :
    CoreChanges cfg p s next := by
  cases h with
  | alone => exact .refl
  | aloneAtBarrier _ _ _ scheduled => exact scheduled.changes
  | makeRoom _ _ swap scheduled =>
    obtain ⟨i, rfl⟩ := swapIfStarted_ok swap
    exact Rescheduled.changes ⟨i, scheduled⟩
  | stay _ _ created => exact createSubEventsOf_changes placed created
  | stalled _ _ created _ _ swapped =>
    exact (createSubEventsOf_changes placed created).trans (swapAndSchedule_ok swapped).changes

theorem swapStalledThreads_changes (shape : Shape cfg s)
    (h : swapStalledThreads cfg p rand s = .ok next) :
    CoreChanges cfg p s next := by
  obtain ⟨t, others, threads, swapped⟩ := swapStalledThreads_ok h
  exact swapped.changes (shape.mapped p t (by simp [threads])).2

theorem replenish_rotate (cfg : Config) (p i t : Nat) (s : State) :
    (moveThreadToHead p i s).replenish cfg t = moveThreadToHead p i (s.replenish cfg t) := by
  by_cases short : (s.eventMap t).length < minEventsSize
  · have short' : ((moveThreadToHead p i s).eventMap t).length < minEventsSize := short
    rw [State.replenish, State.replenish, if_pos short', if_pos short]
    rfl
  · have enough : ¬ ((moveThreadToHead p i s).eventMap t).length < minEventsSize := short
    rw [State.replenish, State.replenish, if_neg enough, if_neg short]

theorem finishEvent_ok (h : finishEvent cfg p t e rest s = .ok next)
    (simulated : t < cfg.numThreads) (own : LinesOf cfg t (s.inputFile t))
    (owner : ∀ e ∈ rest, e.threadID = t) : Rescheduled p (s.finish cfg t e rest) next := by
  unfold finishEvent at h
  obtain ⟨swapped, swap, h⟩ := bind_ok h
  obtain ⟨i, rfl⟩ := swapThreads_ok swap
  obtain ⟨filled, refill, h⟩ := bind_ok h
  have queue : (moveThreadToHead p i (s.popEvent t e rest)).eventMap t = rest :=
    update_self ..
  have scheduled := (schedule_ok h).rescheduled
  suffices same : filled = moveThreadToHead p i (s.finish cfg t e rest) by
    rw [same] at scheduled
    exact moveThreadToHead_rescheduled scheduled
  cases rest with
  | nil =>
    simp only [replenishHead, queue] at refill
    cases refill
    rfl
  | cons head others =>
    have file : LinesOf cfg t ((moveThreadToHead p i (s.popEvent t e (head :: others))).inputFile t) :=
      own
    simp only [replenishHead, queue, owner head List.mem_cons_self,
      replenishThread_eq simulated file, replenish_rotate] at refill
    cases refill
    rfl

theorem advanceEvent_ok (h : advanceEvent cfg p t e rest more s = .ok next)
    (simulated : t < cfg.numThreads) (own : LinesOf cfg t (s.inputFile t))
    (owner : ∀ e ∈ rest, e.threadID = t) : Rescheduled p (s.leave cfg t e rest more) next := by
  cases more with
  | nil => exact finishEvent_ok h simulated own owner
  | cons first more => exact (schedule_ok h).rescheduled

theorem progressPthreadEvent_ok {type : PthreadType} {addr : Nat}
    (h : progressPthreadEvent cfg p t e rest type addr top more s = .ok next)
    (simulated : t < cfg.numThreads) (own : LinesOf cfg t (s.inputFile t))
    (owner : ∀ e ∈ rest, e.threadID = t) :
    ∃ sync visit seen,
      visitPthread cfg e.threadID type addr (fun u => (s.eventMap u).isEmpty) s.toSync =
        .ok (sync, visit, seen) ∧
      Rescheduled p (s.afterVisit cfg t e rest top more sync seen visit) next ∧
      (visit = .waiting → Scheduled p (s.afterVisit cfg t e rest top more sync seen visit) next) := by
  obtain ⟨⟨sync, visit, seen⟩, visited, h⟩ := bind_ok h
  refine ⟨sync, visit, seen, visited, ?_⟩
  cases visit with
  | waiting => exact ⟨(schedule_ok h).rescheduled, fun _ => schedule_ok h⟩
  | skipped => exact ⟨advanceEvent_ok h simulated own owner, nofun⟩
  | consumed => exact ⟨advanceEvent_ok h simulated own owner, nofun⟩

/-- What becomes of the first sub-event of a head event that is due. -/
inductive Progressed (cfg : Config) (p t : Nat) (e : STEvent) (rest : List STEvent) (top : SubEvent)
    (more : List SubEvent) (accept : Bool) (s : State) : State → Prop where
  | recheck {next : State} {requests : List SharedInfo} {msg : Msg} (message : top.msg = some msg)
      (kind : e.kind = .communication requests)
      (blocked : checkCommDependency cfg s msg.thisMsg = .ok false ∧ s.threadMutexMap t = false)
      (scheduled : Scheduled p ((s.updateStats t (·.countOps top)).setSubEvents t e rest
        ({ top with triggerTime := s.curTick + 1 } :: more)) next) :
      Progressed cfg p t e rest top more accept s next
  | sent {msg : Msg} (message : top.msg = some msg)
      (satisfied : ∀ requests, e.kind = .communication requests →
        checkCommDependency cfg s msg.thisMsg = .ok true ∨ s.threadMutexMap t = true) :
      Progressed cfg p t e rest top more accept s
        (triggerMsg (msgCounter e.kind msg.msgType) p t e rest top more msg accept
          (s.updateStats t (·.countOps top)))
  | work {next : State} (message : top.msg = none)
      (kind : ∀ type addr, e.kind ≠ .pthreadApi type addr)
      (scheduled : Rescheduled p
        ((((s.updateStats t (·.countOps top)).removeSubEvent t).countSubEvent t).leave cfg t e rest
          more) next) : Progressed cfg p t e rest top more accept s next
  | visit {next : State} {type : PthreadType} {addr : Nat} {sync : Sync} {visit : Visit}
      {seen : List Obs} (message : top.msg = none) (kind : e.kind = .pthreadApi type addr)
      (visited : visitPthread cfg e.threadID type addr (fun u => (s.eventMap u).isEmpty) s.toSync =
        .ok (sync, visit, seen))
      (scheduled : Rescheduled p
        ((s.updateStats t (·.countOps top)).afterVisit cfg t e rest top more sync seen visit) next)
      (stays : visit = .waiting → Scheduled p
        ((s.updateStats t (·.countOps top)).afterVisit cfg t e rest top more sync seen visit) next) :
      Progressed cfg p t e rest top more accept s next

theorem progressMessage_ok {msg : Msg}
    (h : progressMessage cfg p t e rest top more msg accept (s.updateStats t (·.countOps top)) = .ok next)
    (message : top.msg = some msg) :
    Progressed cfg p t e rest top more accept s next := by
  have sent := fun satisfied : ∀ requests, e.kind = .communication requests →
      checkCommDependency cfg s msg.thisMsg = .ok true ∨ s.threadMutexMap t = true =>
    (Progressed.sent message satisfied : Progressed cfg p t e rest top more accept s _)
  unfold progressMessage at h
  split at h
  · rename_i requests kind
    obtain ⟨satisfied, check, h⟩ := bind_ok h
    split at h
    · rename_i ready
      rw [pure_ok h]
      simp only [kind] at sent
      refine sent fun _ _ => ?_
      rcases Bool.or_eq_true_iff.mp ready with rfl | held
      · exact Or.inl check
      · exact Or.inr held
    · rename_i waits
      have blocked : satisfied = false ∧ s.threadMutexMap t = false :=
        Bool.or_eq_false_iff.mp (Bool.eq_false_iff.mpr waits)
      exact .recheck message kind ⟨by rw [← blocked.1]; exact check, blocked.2⟩ (schedule_ok h)
  · rename_i notComm
    have plain := sent fun requests kind => absurd kind (notComm requests)
    split at h
    all_goals
      rename_i type
      rw [type] at plain
      rw [pure_ok h]
      cases kind : e.kind with
      | communication requests => exact absurd kind (notComm requests)
      | computation | pthreadApi =>
        rw [kind] at plain
        exact plain

theorem progressSubEvent_ok (shape : Shape cfg s) (queue : s.eventMap t = e :: rest)
    (h : progressSubEvent cfg p t e rest top more accept s = .ok next) :
    Progressed cfg p t e rest top more accept s next := by
  have simulated := shape.simulated queue
  have own := shape.lines simulated
  have owner := shape.owner_rest queue
  unfold progressSubEvent at h
  split at h
  · rename_i message
    unfold progressPlain at h
    split at h
    · rename_i type addr kind
      obtain ⟨sync, visit, seen, visited, after, stays⟩ :=
        progressPthreadEvent_ok h simulated own owner
      exact .visit message kind visited after stays
    · rename_i kind
      exact .work message kind (advanceEvent_ok h simulated own owner)
  · rename_i msg message
    exact progressMessage_ok h message

theorem Progressed.changes (h : Progressed cfg p t e rest top more accept s next)
    (placed : t % cfg.numMapped = p) (head : AtHead s t e rest top more)
    (untriggered : top.msgTriggered = false) (started : s.threadStartedMap t = true) :
    CoreChanges cfg p s next := by
  cases h with
  | recheck message kind blocked scheduled =>
    exact (Change.recheck placed head untriggered kind).changes.trans scheduled.changes
  | sent message satisfied =>
    exact (Change.send accept placed head untriggered message satisfied).changes
  | work message kind scheduled =>
    exact (Change.work placed head untriggered message kind).changes.trans scheduled.changes
  | visit message kind visited scheduled =>
    exact (Change.visit placed head untriggered message kind started visited).changes.trans
      scheduled.changes

/-- What `progressEvents` does on a core whose front thread is `t`. -/
inductive FrontProgressed (cfg : Config) (p t : Nat) (accept : Bool) (s : State) : State → Prop where
  | nothing (idle : s.threadStartedMap t = true → s.eventMap t = []) :
      FrontProgressed cfg p t accept s s
  | later {next : State} {e rest top more} (head : AtHead s t e rest top more)
      (notDue : ¬ (top.triggerTime ≤ s.curTick ∧ top.msgTriggered = false))
      (scheduled : Scheduled p s next) : FrontProgressed cfg p t accept s next
  | due {next : State} {e rest top more} (started : s.threadStartedMap t = true)
      (head : AtHead s t e rest top more)
      (due : top.triggerTime ≤ s.curTick) (untriggered : top.msgTriggered = false)
      (progressed : Progressed cfg p t e rest top more accept s next) :
      FrontProgressed cfg p t accept s next

theorem progressEvents_ok (shape : Shape cfg s) (h : progressEvents cfg p accept s = .ok next) :
    ∃ t others, s.threadMap p = t :: others ∧ FrontProgressed cfg p t accept s next := by
  unfold progressEvents at h
  split at h
  · cases h
  · rename_i t others threads
    refine ⟨t, others, threads, ?_⟩
    split at h
    · rename_i stopped
      cases h
      exact .nothing (by simp [stopped])
    · rename_i started
      split at h
      · rename_i empty
        cases h
        exact .nothing fun _ => empty
      · rename_i e rest queue
        split at h
        · cases h
        · cases h
        · rename_i top more subs
          split at h
          · rename_i due
            exact .due (by simpa using started) ⟨queue, subs⟩ due.1 due.2
              (progressSubEvent_ok shape queue h)
          · rename_i notDue
            exact .later ⟨queue, subs⟩ notDue (scheduleIfIdle_ok h)

theorem FrontProgressed.changes (h : FrontProgressed cfg p t accept s next)
    (placed : t % cfg.numMapped = p) :
    CoreChanges cfg p s next := by
  cases h with
  | nothing => exact .refl
  | later _ _ scheduled => exact scheduled.changes
  | due started head _ untriggered progressed =>
    exact progressed.changes placed head untriggered started

theorem progressEvents_changes (shape : Shape cfg s) (h : progressEvents cfg p accept s = .ok next) :
    CoreChanges cfg p s next := by
  obtain ⟨t, others, threads, progressed⟩ := progressEvents_ok shape h
  exact progressed.changes (shape.mapped p t (by simp [threads])).2

theorem hitCallback_ok (shape : Shape cfg s) (h : hitCallback cfg p s = .ok next) :
    ∃ t others e rest top more, s.threadMap p = t :: others ∧ AtHead s t e rest top more ∧
      ((top.msgTriggered = false ∧ next = s) ∨ (top.msgTriggered = true ∧
        Rescheduled p ((((s.recordRTT t).countSubEvent t).removeSubEvent t).leave cfg t e rest more)
          next)) := by
  unfold hitCallback at h
  split at h
  · cases h
  · split at h
    · cases h
    · rename_i t others threads
      split at h
      · cases h
      · rename_i e rest queue
        split at h
        · cases h
        · cases h
        · rename_i top more subs
          refine ⟨t, others, e, rest, top, more, threads, ⟨queue, subs⟩, ?_⟩
          split at h
          · rename_i untriggered
            cases h
            exact Or.inl ⟨untriggered, rfl⟩
          · rename_i triggered
            have simulated := shape.simulated queue
            exact Or.inr ⟨by simpa using triggered,
              advanceEvent_ok h simulated (shape.lines simulated) (shape.owner_rest queue)⟩

theorem hitCallback_changes (shape : Shape cfg s) (h : hitCallback cfg p s = .ok next) :
    CoreChanges cfg p s next := by
  obtain ⟨t, others, e, rest, top, more, threads, head, outcome⟩ := hitCallback_ok shape h
  have placed := (shape.mapped p t (by simp [threads])).2
  rcases outcome with ⟨_, rfl⟩ | ⟨triggered, scheduled⟩
  · exact .refl
  · exact (Change.respond placed head triggered).changes.trans scheduled.changes

end SynchroTrace.Replay
