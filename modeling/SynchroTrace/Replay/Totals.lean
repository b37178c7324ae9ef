import SynchroTrace.Replay.Conservation

/-!
What has been counted of a thread and what its events and lines still owe make up the total of its
trace.
-/

namespace SynchroTrace.Replay
open Outcome Transition List Function SubEvent

def Tally.stat : Tally → ThreadStats → UInt64
  | .iops, st => st.numIOPS
  | .flops, st => st.numFLOPS
  | .localReads, st => st.localReads
  | .localWrites, st => st.localWrites
  | .sharedReads, st => st.sharedReads

def Tally.ofSubs (c : Tally) (kind : EventKind) (subs : List SubEvent) : Nat :=
  (subs.map fun se => if se.msgTriggered then 0 else c.ofSub kind se).sum

theorem Tally.ofSubs_untriggered (c : Tally) (kind : EventKind) {subs : List SubEvent}
    (untriggered : ∀ se ∈ subs, se.msgTriggered = false) :
    c.ofSubs kind subs = (subs.map (c.ofSub kind)).sum := by
  refine congrArg List.sum (map_congr_left fun se member => ?_)
  rw [untriggered se member]
  rfl

theorem Tally.ofSubs_cons (c : Tally) (kind : EventKind) (top : SubEvent) (more : List SubEvent) :
    c.ofSubs kind (top :: more) =
      (if top.msgTriggered then 0 else c.ofSub kind top) + c.ofSubs kind more := by
  simp [Tally.ofSubs]

theorem Tally.ofSub_timed (c : Tally) (kind : EventKind) (se : SubEvent) (trigger initial : Int) :
    c.ofSub kind { se with triggerTime := trigger, initialTriggerTime := initial } =
      c.ofSub kind se := by
  cases c <;> cases kind <;> rfl

def STEvent.owed (c : Tally) (e : STEvent) : Nat :=
  match e.subEventList with
  | none => c.made e.kind
  | some subs => c.ofSubs e.kind subs

def State.owed (cfg : Config) (s : State) (c : Tally) (t : Nat) : Nat :=
  ((s.eventMap t).map (STEvent.owed c)).sum + ((s.unread cfg t).map fun e => c.made e.kind).sum

section Owed

variable {cfg : Config} {s next : State} {c : Tally} {t u : Nat} {e : STEvent}
  {rest : List STEvent}

theorem owed_congr (queue : next.eventMap t = s.eventMap t)
    (file : next.inputFile t = s.inputFile t) : next.owed cfg c t = s.owed cfg c t := by
  unfold State.owed State.unread
  rw [queue, file]

theorem replenish_owed (own : LinesOf cfg u (s.inputFile u)) :
    (s.replenish cfg u).owed cfg c t = s.owed cfg c t := by
  unfold State.replenish
  split
  · by_cases same : t = u
    · subst same
      have fresh : ∀ events : List TraceEvent,
          (queued events).map (STEvent.owed c) = events.map fun e => c.made e.kind := by
        intro events
        simp [queued, STEvent.owed, comp_def]
      have whole := congrArg (fun events => (events.map fun e => c.made e.kind).sum)
        (take_append_drop readBlock (fileEvents cfg.ruby (s.inputFile t)))
      simp only [map_append, sum_append] at whole
      simp only [State.owed, State.unread, State.feed, update_self, map_append,
        sum_append, fresh, fileEvents_take own, fileEvents_drop own]
      omega
    · exact owed_congr (update_of_ne same ..) (update_of_ne same ..)
  · rfl

theorem setSubEvents_owed (queue : s.eventMap t = e :: rest) (subs : List SubEvent) :
    (s.setSubEvents t e rest subs).owed cfg c t + e.owed c =
      s.owed cfg c t + c.ofSubs e.kind subs := by
  have head : STEvent.owed c { e with subEventList := some subs } = c.ofSubs e.kind subs := rfl
  simp only [State.owed, State.unread, State.setSubEvents, update_self, queue,
    map_cons, sum_cons, head]
  omega

theorem finish_owed (shape : Shape cfg s) (queue : s.eventMap t = e :: rest) :
    (s.finish cfg t e rest).owed cfg c t + e.owed c = s.owed cfg c t := by
  have popped : (s.popEvent t e rest).owed cfg c t + e.owed c = s.owed cfg c t := by
    simp only [State.owed, State.unread, State.popEvent, update_self, queue, map_cons, sum_cons]
    omega
  unfold State.finish
  split
  · exact popped
  · rw [replenish_owed ((shape.popEvent queue).lines (shape.simulated queue))]
    exact popped

theorem leave_owed (shape : Shape cfg s) {top : SubEvent} {more : List SubEvent}
    (head : AtHead s t e rest top more) :
    (s.leave cfg t e rest more).owed cfg c t +
      (if top.msgTriggered then 0 else c.ofSub e.kind top) = s.owed cfg c t := by
  have all : e.owed c = c.ofSubs e.kind (top :: more) := by
    unfold STEvent.owed
    rw [head.subs]
  rw [Tally.ofSubs_cons] at all
  cases more with
  | nil =>
    have finished := finish_owed (c := c) shape head.queue
    rw [all] at finished
    exact finished
  | cons next more =>
    have left : (s.setSubEvents t e rest (cfg.timed next s.curTick :: more)).owed cfg c t + _ = _ :=
      setSubEvents_owed head.queue _
    have same : c.ofSubs e.kind (cfg.timed next s.curTick :: more) =
        c.ofSubs e.kind (next :: more) := by
      rw [Tally.ofSubs_cons, Tally.ofSubs_cons, Config.timed, Tally.ofSub_timed]
    rw [State.leave]
    omega

end Owed

section Counted

variable (c : Tally) (st : ThreadStats) {kind : EventKind} {top : SubEvent}

theorem countOps_silent (kind : EventKind) (message : top.msg = none) :
    c.stat (st.countOps top) = c.stat st + UInt64.ofNat (c.ofSub kind top) := by
  cases c <;> cases kind <;>
    simp [Tally.stat, Tally.ofSub, ThreadStats.countOps, containsMsg, sends, message]

theorem countOps_sent {msg : Msg} (message : top.msg = some msg)
    (plain : ∀ type addr, kind ≠ .pthreadApi type addr) :
    c.stat (msgCounter kind msg.msgType (st.countOps top)) =
      c.stat st + UInt64.ofNat (c.ofSub kind top) := by
  cases kind with
  | pthreadApi type addr => exact absurd rfl (plain type addr)
  | communication requests =>
    cases c <;> simp [Tally.stat, Tally.ofSub, ThreadStats.countOps, containsMsg,
      msgCounter, message]
  | computation comp =>
    cases type : msg.msgType <;> cases c <;> simp [Tally.stat, Tally.ofSub, ThreadStats.countOps,
      sends, msgCounter, message, type]

end Counted

theorem SubsLeft.no_ops {kind : EventKind} {top : SubEvent} {more : List SubEvent}
    (left : SubsLeft kind (top :: more)) (other : ∀ comp, kind ≠ .computation comp) :
    top.numIOPS = 0 ∧ top.numFLOPS = 0 := by
  obtain ⟨rand, full, made, suffix⟩ := left.made
  have none : ∀ se ∈ full, se.numIOPS = 0 ∧ se.numFLOPS = 0 := by
    cases kind with
    | computation comp => exact absurd rfl (other comp)
    | communication requests =>
      rw [commSubEvents_ok made]
      simp
    | pthreadApi type addr =>
      cases made
      simp [pthreadSubEvents]
  obtain ⟨se, member, same⟩ := mem_map.mp (suffix.subset mem_cons_self)
  have iops := congrArg SubEvent.numIOPS same
  have flops := congrArg SubEvent.numFLOPS same
  exact ⟨iops.symm.trans (none se member).1, flops.symm.trans (none se member).2⟩

/-- What has been counted and what is still owed make up the total of the trace. -/
def Balanced (cfg : Config) (c : Tally) (s : State) : Prop :=
  ∀ t, c.stat (s.threadStatistics t) + UInt64.ofNat (s.owed cfg c t) =
    UInt64.ofNat ((cfg.trace t).map fun e => c.made e.kind).sum

variable {s next : State} {cfg : Config} {c : Tally}

theorem Balanced.pay {t : Nat} (paid : Nat) (before : Balanced cfg c s)
    (stat : c.stat (next.threadStatistics t) = c.stat (s.threadStatistics t) + UInt64.ofNat paid)
    (owed : next.owed cfg c t + paid = s.owed cfg c t)
    (others : ∀ u, u ≠ t → c.stat (next.threadStatistics u) = c.stat (s.threadStatistics u) ∧
      next.owed cfg c u = s.owed cfg c u) :
    Balanced cfg c next := by
  intro u
  by_cases same : u = t
  · subst same
    rw [← before u, stat, ← owed, UInt64.add_assoc, ← UInt64.ofNat_add, Nat.add_comm]
  · rw [(others u same).1, (others u same).2]
    exact before u

theorem Balanced.congr (before : Balanced cfg c s)
    (stat : ∀ u, c.stat (next.threadStatistics u) = c.stat (s.threadStatistics u))
    (queues : next.eventMap = s.eventMap) (files : next.inputFile = s.inputFile) :
    Balanced cfg c next := by
  intro u
  have same : next.owed cfg c u = s.owed cfg c u := owed_congr (by rw [queues]) (by rw [files])
  rw [stat u, same]
  exact before u

theorem countNone_stat (c : Tally) (s : State) {t : Nat} {top : SubEvent}
    (none : top.numIOPS = 0 ∧ top.numFLOPS = 0) (u : Nat) :
    c.stat ((s.updateStats t (·.countOps top)).threadStatistics u) =
      c.stat (s.threadStatistics u) := by
  by_cases same : u = t
  · subst same
    cases c <;> simp [State.updateStats, Tally.stat, ThreadStats.countOps, none]
  · simp [State.updateStats, same]

theorem countSubEvent_stat (c : Tally) (s : State) (t u : Nat) :
    c.stat ((s.countSubEvent t).threadStatistics u) = c.stat (s.threadStatistics u) := by
  by_cases same : u = t
  · subst same
    cases c <;> simp [State.countSubEvent, State.updateStats, Tally.stat]
  · simp [State.countSubEvent, State.updateStats, same]

theorem recordRTT_stat (c : Tally) (s : State) (t u : Nat) :
    c.stat ((s.recordRTT t).threadStatistics u) = c.stat (s.threadStatistics u) := by
  by_cases same : u = t
  · subst same
    cases c <;> simp [State.recordRTT, State.updateStats, Tally.stat]
  · simp [State.recordRTT, State.updateStats, same]

theorem leave_stats (cfg : Config) (s : State) (t : Nat) (e : STEvent) (rest : List STEvent)
    (more : List SubEvent) : (s.leave cfg t e rest more).threadStatistics = s.threadStatistics := by
  cases more with
  | nil =>
    rw [State.leave]
    unfold State.finish State.replenish
    split
    · rfl
    · split <;> rfl
  | cons next more => rfl

theorem Kept.owed {t : Nat} (kept : Kept t s next)
    {u : Nat} (other : u ≠ t) : next.owed cfg c u = s.owed cfg c u :=
  owed_congr (kept.queues u other) (kept.files u other)

def Obs.isRefused : Obs → Bool
  | .sent _ _ accepted => !accepted
  | _ => false

section Change

variable {cfg : Config} {c : Tally} {s : State} {t : Nat} {e : STEvent} {rest : List STEvent}
  {top : SubEvent} {more : List SubEvent}

theorem AtHead.owed (head : AtHead s t e rest top more) :
    e.owed c = (if top.msgTriggered then 0 else c.ofSub e.kind top) + c.ofSubs e.kind more := by
  rw [← Tally.ofSubs_cons]
  unfold STEvent.owed
  rw [head.subs]

section
variable (before : Balanced cfg c s)
include before

theorem Balanced.rewrite (head : AtHead s t e rest top more) {again : SubEvent}
    (triggered : again.msgTriggered = top.msgTriggered)
    (same : c.ofSub e.kind again = c.ofSub e.kind top) :
    Balanced cfg c (s.setSubEvents t e rest (again :: more)) := by
  refine before.pay (t := t) 0 (UInt64.add_zero _).symm ?_ fun u other => ⟨rfl, ?_⟩
  · have left : (s.setSubEvents t e rest (again :: more)).owed cfg c t + _ = _ :=
      setSubEvents_owed head.queue _
    rw [Tally.ofSubs_cons, triggered, same] at left
    have all : e.owed c = _ := head.owed
    omega
  · exact (Kept.setSubEvents s _).owed other

section
variable (shape : Shape cfg s) (head : AtHead s t e rest top more)
include shape head

theorem Balanced.leave {counted : State} (queues : counted.eventMap = s.eventMap)
    (files : counted.inputFile = s.inputFile) (threads : counted.threadMap = s.threadMap)
    (stat : c.stat (counted.threadStatistics t) = c.stat (s.threadStatistics t) +
      UInt64.ofNat (if top.msgTriggered then 0 else c.ofSub e.kind top))
    (others : ∀ u, u ≠ t → c.stat (counted.threadStatistics u) = c.stat (s.threadStatistics u)) :
    Balanced cfg c (counted.leave cfg t e rest more) := by
  have same : ∀ u, counted.owed cfg c u = s.owed cfg c u :=
    fun u => owed_congr (by rw [queues]) (by rw [files])
  have now : AtHead counted t e rest top more := ⟨by rw [queues]; exact head.queue, head.subs⟩
  refine before.pay (if top.msgTriggered then 0 else c.ofSub e.kind top) (t := t) ?_ ?_
    fun u other => ⟨?_, ?_⟩
  · rw [leave_stats]
    exact stat
  · rw [leave_owed (shape.congr files queues threads) now, same]
  · rw [leave_stats]
    exact others u other
  · rw [(Kept.leave cfg counted more).owed other, same]

theorem Balanced.afterVisit {type : PthreadType} {addr : Nat}
    (kind : e.kind = .pthreadApi type addr) (sync : Sync) (seen : List Obs) (visit : Visit) :
    Balanced cfg c ((s.updateStats t (·.countOps top)).afterVisit cfg t e rest top more sync seen
      visit) := by
  have left := shape.left head
  have none := left.no_ops fun comp => by simp [kind]
  have nothing : c.ofSub e.kind top = 0 := by
    rw [kind]
    cases c <;> simp [Tally.ofSub, none]
  have counted := countNone_stat (t := t) c s none
  have untriggered : ∀ flag : Bool, UInt64.ofNat (if flag then 0 else c.ofSub e.kind top) = 0 := by
    simp [nothing]
  cases visit with
  | waiting =>
    apply Balanced.rewrite
    · exact before.congr counted rfl rfl
    · exact head
    · rfl
    · exact Tally.ofSub_timed ..
  | skipped =>
    refine before.leave shape head rfl rfl rfl ?_ fun u _ => counted u
    rw [untriggered, UInt64.add_zero]
    exact counted t
  | consumed =>
    refine before.leave shape head rfl rfl rfl ?_ fun u _ => ?_
    · rw [untriggered, UInt64.add_zero, countSubEvent_stat]
      exact counted t
    · rw [countSubEvent_stat]
      exact counted u

theorem Balanced.sent (untriggered : top.msgTriggered = false) {msg : Msg}
    (message : top.msg = some msg) (p : Nat) :
    Balanced cfg c (triggerMsg (msgCounter e.kind msg.msgType) p t e rest top more msg true
      (s.updateStats t (·.countOps top))) := by
  refine before.pay (c.ofSub e.kind top) (t := t) ?_ ?_ fun u other => ⟨?_, ?_⟩
  · simp only [triggerMsg, State.updateStats, State.setSubEvents, update_self]
    exact countOps_sent c _ message (shape.kind_of_message head message)
  · have left : (s.setSubEvents t e rest ({ top with msgTriggered := true } :: more)).owed cfg c t
        + _ = _ := setSubEvents_owed head.queue _
    have all : e.owed c = _ := head.owed
    rw [Tally.ofSubs_cons] at left
    simp only [untriggered, Bool.false_eq_true, if_true, if_false] at left all
    have same : (triggerMsg (msgCounter e.kind msg.msgType) p t e rest top more msg true
        (s.updateStats t (·.countOps top))).owed cfg c t =
        (s.setSubEvents t e rest ({ top with msgTriggered := true } :: more)).owed cfg c t := rfl
    omega
  · simp [triggerMsg, State.updateStats, State.setSubEvents, other]
  · exact owed_congr (update_of_ne other ..) rfl

end

theorem Balanced.create (queue : s.eventMap t = e :: rest) (new : e.subEventList = none)
    {rand : Nat → Nat} (made : subEventsOf e.kind rand = .ok (top :: more)) :
    Balanced cfg c (s.setSubEvents t e rest (cfg.timed top s.curTick :: more)) := by
  refine before.pay (t := t) 0 (UInt64.add_zero _).symm ?_ fun u other => ⟨rfl, ?_⟩
  · have left : (s.setSubEvents t e rest (cfg.timed top s.curTick :: more)).owed cfg c t + _ = _ :=
      setSubEvents_owed queue _
    have all : e.owed c = c.made e.kind := by
      unfold STEvent.owed
      rw [new]
    have handed : c.ofSubs e.kind (cfg.timed top s.curTick :: more) = c.made e.kind := by
      rw [Tally.ofSubs_cons, Config.timed, Tally.ofSub_timed, c.made_eq made,
        ← c.ofSubs_untriggered e.kind (subEventsOf_untriggered made), Tally.ofSubs_cons]
    omega
  · exact (Kept.setSubEvents s _).owed other

end

theorem Change.balanced {p : Nat} {next : State} (h : Change cfg p s next) (shape : Shape cfg s)
    (accepted : ∀ x ∈ next.history, x.isRefused = false) (before : Balanced cfg c s) :
    Balanced cfg c next := by
  cases h with
  | clock | startEvent | stop | coreEvents | answered | rotate => exact before
  | @replenish t placed simulated =>
    intro u
    have same : (s.replenish cfg t).threadStatistics = s.threadStatistics := by
      unfold State.replenish
      split <;> rfl
    rw [same, replenish_owed (shape.lines simulated)]
    exact before u
  | create placed queue new started made => exact before.create queue new made
  | @recheck t e rest top more requests placed head untriggered kind =>
    have none := (shape.left head).no_ops fun comp => by simp [kind]
    apply Balanced.rewrite
    · refine before.congr (fun u => ?_) rfl rfl
      exact countNone_stat c s none u
    · exact head
    · rfl
    · exact Tally.ofSub_timed ..
  | send accept placed head untriggered message =>
    cases accept with
    | false =>
      have refused := accepted (.sent _ _ false) (mem_append_right _ (mem_singleton_self _))
      cases refused
    | true => exact before.sent shape head untriggered message p
  | @work t e rest top more placed head untriggered message kind =>
    refine before.leave shape head rfl rfl rfl ?_ fun u other => ?_
    · rw [countSubEvent_stat, untriggered]
      simp only [State.removeSubEvent, State.updateStats, update_self]
      exact countOps_silent c _ e.kind message
    · rw [countSubEvent_stat]
      simp [State.removeSubEvent, State.updateStats, other]
  | visit placed head untriggered message kind => exact before.afterVisit shape head kind _ _ _
  | @respond t e rest top more placed head triggered =>
    have same : ∀ u, c.stat ((((s.recordRTT t).countSubEvent t).removeSubEvent t).threadStatistics u)
        = c.stat (s.threadStatistics u) := by
      intro u
      simp only [State.removeSubEvent, countSubEvent_stat, recordRTT_stat]
    refine before.leave shape head rfl rfl rfl ?_ fun u _ => same u
    rw [same, triggered]
    exact (UInt64.add_zero _).symm

end Change

theorem reachable_balanced {cfg : Config} {allowed : State → Action → Prop} {s : State}
    (reach : ReachableVia (replay cfg) allowed s)
    (accepted : ∀ x ∈ s.history, x.isRefused = false) (c : Tally) : Balanced cfg c s := by
  refine reachable_of_blank (fun s => (∀ x ∈ s.history, x.isRefused = false) → Balanced cfg c s)
    ?_ ?_ reach accepted
  · intro _ t
    have nothing : c.stat ((State.blank cfg).threadStatistics t) = 0 := by cases c <;> rfl
    rw [nothing, UInt64.zero_add]
    exact congrArg UInt64.ofNat (Nat.zero_add _)
  · intro p s next shape change before accepted
    refine change.balanced shape accepted (before fun x member => ?_)
    exact accepted x (change.history_grows.subset member)

theorem stopped_owed {cfg : Config} {s : State} (reach : Reachable (replay cfg) s)
    (stopped : s.stopped = true) (c : Tally) {t : Nat} (simulated : t < cfg.numThreads) :
    s.owed cfg c t = 0 := by
  have ended : s.queue t ++ s.unread cfg t = [] := reachable_stopped reach stopped t simulated
  obtain ⟨queue, file⟩ := append_eq_nil_iff.mp ended
  have empty : s.eventMap t = [] := map_eq_nil_iff.mp queue
  simp [State.owed, empty, file]

def wrapConfig : Config where
  ruby := .small
  numCpus := 1
  numThreads := 1
  masterWakeupFrequency := 100
  traceFile t := if t = 0 then ["1,1,10,0,18446744073709551615,1".toList] else []

/-- `P_COND_WT` and `P_COND_SG`, whose sub-event `progressPthreadEvent` pops on its own. -/
def EventKind.isCondition : EventKind → Bool
  | .pthreadApi .condWt _ | .pthreadApi .condSg _ => true
  | _ => false

def conditions (history : List Obs) (t : Nat) : Nat :=
  (retiredBy history t).countP (·.kind.isCondition)

/-- The sub-events removed are those counted and those of the condition events. -/
def SubEventsCounted (s : State) : Prop :=
  ∀ t, (s.threadStatistics t).numSubEvents + UInt64.ofNat (conditions s.history t) =
    UInt64.ofNat (s.subEventsRemoved t)

theorem conditions_append (before after : List Obs) (t : Nat) :
    conditions (before ++ after) t = conditions before t + conditions after t := by
  rw [conditions, retiredBy_append, countP_append]
  rfl

theorem conditions_quiet {seen : List Obs} {t : Nat} (none : retiredBy seen t = []) :
    conditions seen t = 0 := by
  rw [conditions, none]
  rfl

theorem conditions_retired (t : Nat) (e : TraceEvent) (u : Nat) :
    conditions [.retired t e] u = if t = u ∧ e.kind.isCondition = true then 1 else 0 := by
  by_cases same : t = u <;> simp [conditions, same, countP_cons]

section SubEvents

variable {cfg : Config} {s next : State} {t : Nat} {e : STEvent} {rest : List STEvent}
  {top : SubEvent} {more : List SubEvent}

theorem SubEventsCounted.congr (h : SubEventsCounted s)
    (stats : ∀ u, (next.threadStatistics u).numSubEvents = (s.threadStatistics u).numSubEvents)
    (history : ∀ u, conditions next.history u = conditions s.history u)
    (removed : next.subEventsRemoved = s.subEventsRemoved) : SubEventsCounted next := by
  intro u
  rw [stats, history, removed]
  exact h u

theorem SubEventsCounted.leave (h : SubEventsCounted s) {counted : State}
    (single : e.kind.isCondition = true → more = [])
    (stats : ∀ u, (counted.threadStatistics u).numSubEvents =
      (s.threadStatistics u).numSubEvents + if u = t ∧ e.kind.isCondition = false then 1 else 0)
    (history : ∀ u, conditions counted.history u = conditions s.history u)
    (removed : ∀ u, counted.subEventsRemoved u = s.subEventsRemoved u + if u = t then 1 else 0) :
    SubEventsCounted (counted.leave cfg t e rest more) := by
  intro u
  have retired : conditions (counted.leave cfg t e rest more).history u =
      conditions s.history u + if u = t ∧ e.kind.isCondition = true then 1 else 0 := by
    rw [leave_history, conditions_append, history]
    split
    · rw [conditions_retired]
      simp only [eq_comm]
    · rename_i left
      have plain : e.kind.isCondition = false := by
        cases known : e.kind.isCondition with
        | false => rfl
        | true => exact absurd (single known) left
      simp [plain, conditions]
  rw [leave_stats, leave_subEventsRemoved, stats, retired, removed, UInt64.ofNat_add,
    UInt64.ofNat_add, ← h u]
  by_cases same : u = t
  · cases e.kind.isCondition <;> simp [same] <;> ac_rfl
  · simp [same]

theorem Call.skipped_iff {addr : Nat} {Ended : Nat → Prop} {y sync : Sync} {type : PthreadType}
    {visit : Visit} {seen : List Obs} (h : Call cfg t addr Ended y type sync visit seen) :
    visit = .skipped ↔ type = .condWt ∨ type = .condSg := by
  cases h with
  | condition which => exact iff_of_true rfl which
  | _ => simp

theorem isCondition_of_pthread {type : PthreadType} {addr : Nat}
    (kind : e.kind = .pthreadApi type addr) :
    e.kind.isCondition = true ↔ type = .condWt ∨ type = .condSg := by
  rw [kind]
  cases type <;> simp [EventKind.isCondition]

theorem isCondition_of_plain (kind : ∀ type addr, e.kind ≠ .pthreadApi type addr) :
    e.kind.isCondition = false := by
  unfold EventKind.isCondition
  split
  · exact absurd ‹_› (kind _ _)
  · exact absurd ‹_› (kind _ _)
  · rfl

theorem SubEventsCounted.visit (h : SubEventsCounted s) (shape : Shape cfg s)
    (head : AtHead s t e rest top more) {type : PthreadType} {addr : Nat}
    (kind : e.kind = .pthreadApi type addr) {Ended : Nat → Prop} {sync : Sync} {visit : Visit}
    {seen : List Obs} (call : Call cfg t addr Ended s.toSync type sync visit seen) :
    SubEventsCounted ((s.updateStats t (·.countOps top)).afterVisit cfg t e rest top more sync seen
      visit) := by
  obtain ⟨rfl, _⟩ := shape.pthread head kind
  have owner := shape.owner head.queue
  have same : ∀ u, ((s.updateStats t (·.countOps top)).threadStatistics u).numSubEvents =
      (s.threadStatistics u).numSubEvents := by
    intro u
    by_cases this : u = t <;> simp [State.updateStats, ThreadStats.countOps, this]
  have quiet : ∀ u, conditions (s.history ++ seen) u = conditions s.history u := by
    intro u
    rw [conditions_append, conditions_quiet (call.retires_none u), Nat.add_zero]
  have condition := isCondition_of_pthread kind
  cases visit with
  | waiting => exact h.congr same quiet rfl
  | skipped =>
    have known := condition.mpr (call.skipped_iff.mp rfl)
    refine h.leave (fun _ => rfl) (fun u => ?_) quiet fun u => ?_
    · rw [known]
      exact (same u).trans (by simp)
    · by_cases this : u = t <;> simp [State.removeSubEvent, State.updateStats, this]
  | consumed =>
    have plain : e.kind.isCondition = false := by
      rw [Bool.eq_false_iff]
      intro known
      cases call.skipped_iff.mpr (condition.mp known)
    refine h.leave (fun _ => rfl) (fun u => ?_) quiet fun u => ?_
    · rw [plain, ← same u]
      by_cases this : u = t <;>
        simp [State.countSubEvent, State.removeSubEvent, State.updateStats, owner, this]
    · by_cases this : u = t <;>
        simp [State.countSubEvent, State.removeSubEvent, State.updateStats, this]

theorem Change.subEventsCounted {p : Nat} (change : Change cfg p s next) (shape : Shape cfg s)
    (h : SubEventsCounted s) : SubEventsCounted next := by
  cases change with
  | clock | startEvent | stop | coreEvents | answered | rotate | create => exact h
  | replenish =>
    unfold State.replenish
    split <;> exact h
  | @recheck t _ _ top =>
    refine h.congr (fun u => ?_) (fun u => rfl) rfl
    by_cases this : u = t <;> simp [State.setSubEvents, State.updateStats, ThreadStats.countOps, this]
  | @send t e _ top _ msg accept =>
    have count : ∀ st, (msgCounter e.kind msg.msgType st).numSubEvents = st.numSubEvents := by
      intro st
      unfold msgCounter
      split <;> rfl
    refine h.congr (fun u => ?_) (fun u => ?_) ?_
    · cases accept <;> by_cases this : u = t <;>
        simp [triggerMsg, State.setSubEvents, State.updateStats, ThreadStats.countOps, count, this]
    · cases accept <;> simp [triggerMsg, State.updateStats, State.setSubEvents, conditions]
    · cases accept <;> rfl
  | @work t e _ top more placed head untriggered message kind =>
    have plain := isCondition_of_plain kind
    refine h.leave (by simp [plain]) (fun u => ?_) (fun u => rfl) fun u => ?_
    · by_cases this : u = t <;> simp [State.countSubEvent, State.removeSubEvent, State.updateStats,
        ThreadStats.countOps, plain, this]
    · by_cases this : u = t <;>
        simp [State.countSubEvent, State.removeSubEvent, State.updateStats, this]
  | visit placed head untriggered message kind started visited =>
    rw [shape.owner head.queue] at visited
    exact h.visit shape head kind (visitPthread_call visited)
  | @respond t e _ top more placed head triggered =>
    have plain := isCondition_of_plain (shape.kind_of_triggered head triggered)
    refine h.leave (by simp [plain]) (fun u => ?_) (fun u => rfl) fun u => ?_
    · by_cases this : u = t <;> simp [State.countSubEvent, State.removeSubEvent, State.updateStats,
        State.recordRTT, plain, this]
    · by_cases this : u = t <;> simp [State.countSubEvent, State.removeSubEvent, State.updateStats,
        State.recordRTT, this]

end SubEvents

theorem reachable_subEventsCounted {cfg : Config} {allowed : State → Action → Prop} {s : State}
    (reach : ReachableVia (replay cfg) allowed s) : SubEventsCounted s :=
  reachable_of_blank SubEventsCounted (fun _ => rfl)
    (fun _ _ _ shape change before => change.subEventsCounted shape before) reach

def signalConfig : Config where
  ruby := .small
  numCpus := 1
  numThreads := 1
  masterWakeupFrequency := 100
  traceFile t := if t = 0 then ["1,1,pth_ty:7 ^ 64".toList] else []

end SynchroTrace.Replay
