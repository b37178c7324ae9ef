import SynchroTrace.Replay.Refinement

namespace SynchroTrace.Replay
open Outcome Transition List Function

/-- Only core `p` and the threads placed on it have changed. A thread of another core may have been
started, but not stopped. -/
structure Local (cfg : Config) (p : Nat) (s next : State) : Prop where
  threads : ∀ q, q ≠ p → next.threadMap q = s.threadMap q
  events : ∀ q, q ≠ p → next.coreEvents q = s.coreEvents q
  pending : ∀ q, q ≠ p → next.pending.filter (·.procID = q) = s.pending.filter (·.procID = q)
  queues : ∀ t, t % cfg.numMapped ≠ p → next.eventMap t = s.eventMap t
  retired : ∀ t, t % cfg.numMapped ≠ p → next.retiredEvents t = s.retiredEvents t
  started : ∀ t, t % cfg.numMapped ≠ p → s.threadStartedMap t = true →
    next.threadStartedMap t = true

namespace Local

variable {cfg : Config} {p t : Nat} {s next : State} {e : STEvent} {rest : List STEvent}

theorem refl (cfg : Config) (p : Nat) (s : State) : Local cfg p s s :=
  ⟨fun _ _ => rfl, fun _ _ => rfl, fun _ _ => rfl, fun _ _ => rfl, fun _ _ => rfl,
    fun _ _ started => started⟩

theorem trans {middle : State} (first : Local cfg p s middle) (second : Local cfg p middle next) :
    Local cfg p s next where
  threads q other := (second.threads q other).trans (first.threads q other)
  events q other := (second.events q other).trans (first.events q other)
  pending q other := (second.pending q other).trans (first.pending q other)
  queues t other := (second.queues t other).trans (first.queues t other)
  retired t other := (second.retired t other).trans (first.retired t other)
  started t other before := second.started t other (first.started t other before)

theorem updateStats (cfg : Config) (p : Nat) (s : State) (t : Nat)
    (f : ThreadStats → ThreadStats) : Local cfg p s (s.updateStats t f) :=
  { refl cfg p s with }

theorem removeSubEvent (cfg : Config) (p : Nat) (s : State) (t : Nat) :
    Local cfg p s (s.removeSubEvent t) :=
  { refl cfg p s with }

theorem recordRTT (cfg : Config) (p : Nat) (s : State) (t : Nat) : Local cfg p s (s.recordRTT t) :=
  { refl cfg p s with }

variable (placed : t % cfg.numMapped = p)
include placed

theorem ofQueue (q : List STEvent) :
    Local cfg p s { s with eventMap := Function.update s.eventMap t q } := by
  refine { refl cfg p s with queues := fun u other => update_of_ne ?_ .. }
  rintro rfl
  exact other placed

theorem setSubEvents (subs : List SubEvent) : Local cfg p s (s.setSubEvents t e rest subs) :=
  ofQueue placed _

theorem replenish : Local cfg p s (s.replenish cfg t) := by
  unfold State.replenish
  split
  · exact { ofQueue placed _ with }
  · exact refl cfg p s

theorem popEvent : Local cfg p s (s.popEvent t e rest) := by
  refine { ofQueue placed rest with retired := fun u other => ?_ }
  have different : t ≠ u := by
    rintro rfl
    exact other placed
  simp [State.retiredEvents, State.popEvent, different]

theorem finish : Local cfg p s (s.finish cfg t e rest) := by
  unfold State.finish
  split
  · exact popEvent placed
  · exact (popEvent placed).trans (replenish placed)

theorem leave (more : List SubEvent) : Local cfg p s (s.leave cfg t e rest more) := by
  cases more with
  | nil => exact finish placed
  | cons next more => exact setSubEvents placed _

end Local

theorem filter_erase {α : Type*} [DecidableEq α] (keep : α → Bool) (a : α) (items : List α) :
    (items.erase a).filter keep = (items.filter keep).erase a := by
  induction items with
  | nil => rfl
  | cons b rest ih =>
    by_cases same : b = a
    · subst same
      by_cases kept : keep b = true
      · simp [kept]
      · have absent : b ∉ rest.filter keep := fun member => kept (mem_filter.mp member).2
        simp [kept, erase_of_not_mem absent]
    · rw [erase_cons_tail (by simpa using same), filter_cons, filter_cons, ih]
      split
      · rw [erase_cons_tail (by simpa using same)]
      · rfl

variable {cfg : Config} {t addr p : Nat} {Ended : Nat → Prop}

theorem Call.started {y sync : Sync} {type : PthreadType} {visit : Visit} {seen : List Obs}
    (h : Call cfg t addr Ended y type sync visit seen) {u : Nat} (other : u ≠ t)
    (before : y.threadStartedMap u = true) : sync.threadStartedMap u = true := by
  have arrive : (y.arrive t addr).threadStartedMap u = true := by
    unfold Sync.arrive
    split
    · exact before
    · exact (update_of_ne other ..).trans before
  cases h with
  | create =>
    simp only [update_apply]
    split
    · rfl
    · exact before
  | barrierArrive => exact arrive
  | barrierRelease =>
    simp only [Sync.release]
    split
    · rfl
    · exact arrive
  | _ => exact before

variable {s next : State} {more : List SubEvent} {rest : List STEvent}

theorem triggerMsg_local {e : STEvent} {top : SubEvent} (placed : t % cfg.numMapped = p)
    (count : ThreadStats → ThreadStats) (msg : Msg) (accept : Bool) :
    Local cfg p s (triggerMsg count p t e rest top more msg accept s) := by
  have retired : ∀ u, (triggerMsg count p t e rest top more msg accept s).retiredEvents u =
      s.retiredEvents u := by
    intro u
    cases accept <;> simp [triggerMsg, State.retiredEvents, State.updateStats, State.setSubEvents]
  cases accept with
  | false => exact { Local.refl cfg p s with retired := fun u _ => retired u }
  | true =>
    have queue : Local cfg p s (s.setSubEvents t e rest ({ top with msgTriggered := true } :: more)) :=
      .setSubEvents placed _
    refine { queue with retired := fun u _ => retired u, pending := fun q other => ?_ }
    simp [triggerMsg, State.setSubEvents, State.packet, Ne.symm other]

theorem afterVisit_local {e : STEvent} {top : SubEvent} {type : PthreadType} {sync : Sync}
    {visit : Visit} {seen : List Obs} (placed : t % cfg.numMapped = p)
    (call : Call cfg t addr Ended s.toSync type sync visit seen) :
    Local cfg p s (s.afterVisit cfg t e rest top more sync seen visit) := by
  have visited : Local cfg p s { s with toSync := sync, history := s.history ++ seen } := by
    refine { Local.refl cfg p s with retired := fun u _ => ?_, started := fun u other => ?_ }
    · simp [State.retiredEvents, call.retires_none]
    · refine call.started ?_
      rintro rfl
      exact other placed
  cases visit with
  | waiting => exact visited.trans (.leave placed (top :: more))
  | skipped => exact visited.trans <| (Local.removeSubEvent cfg p _ t).trans (.leave placed more)
  | consumed =>
    exact visited.trans <| (Local.removeSubEvent cfg p _ t).trans <|
      (Local.updateStats cfg p _ _ _).trans (.leave placed more)

theorem Change.local (h : Change cfg p s next) (shape : Shape cfg s) : Local cfg p s next := by
  cases h with
  | clock | startEvent | stop => exact { Local.refl cfg p s with }
  | coreEvents only => exact { Local.refl cfg p s with events := only }
  | answered request sender =>
    refine { Local.refl cfg p s with pending := fun q other => ?_ }
    have absent : request ∉ s.pending.filter (·.procID = q) := by
      intro member
      exact other (by simpa [sender, eq_comm] using (mem_filter.mp member).2)
    exact (filter_erase _ _ _).trans (erase_of_not_mem absent)
  | rotate i =>
    exact { Local.refl cfg p s with threads := fun q other => update_of_ne other .. }
  | replenish placed => exact Local.replenish placed
  | create placed => exact .setSubEvents placed _
  | recheck placed => exact (Local.updateStats cfg p s _ _).trans (.setSubEvents placed _)
  | send accept placed =>
    exact (Local.updateStats cfg p s _ _).trans (triggerMsg_local placed _ _ accept)
  | work placed =>
    exact (Local.updateStats cfg p s _ _).trans <| (Local.removeSubEvent cfg p _ _).trans <|
      (Local.updateStats cfg p _ _ _).trans (.leave placed _)
  | visit placed head _ _ kind _ visited =>
    rw [shape.owner head.queue] at visited
    exact (Local.updateStats cfg p s _ _).trans
      (afterVisit_local placed (visitPthread_call visited))
  | respond placed =>
    exact (Local.recordRTT cfg p s _).trans <| (Local.updateStats cfg p _ _ _).trans <|
      (Local.removeSubEvent cfg p _ _).trans (.leave placed _)

theorem CoreChanges.local (h : CoreChanges cfg p s next)
    (shape : Shape cfg s) : Local cfg p s next := by
  refine (steps_invariant (fun u => Shape cfg u ∧ Local cfg p s u) ?_ h
    ⟨shape, Local.refl cfg p s⟩).2
  rintro s next change ⟨shape, before⟩
  exact ⟨change.shape shape, before.trans (change.local shape)⟩

structure Kept (t : Nat) (s next : State) : Prop where
  pending : next.pending = s.pending
  threads : next.threadMap = s.threadMap
  events : next.coreEvents = s.coreEvents
  now : next.curTick = s.curTick
  stopped : next.stopped = s.stopped
  queues : ∀ u, u ≠ t → next.eventMap u = s.eventMap u
  files : ∀ u, u ≠ t → next.inputFile u = s.inputFile u

namespace Kept

variable {cfg : Config} {t : Nat} {s next : State} {e : STEvent} {rest : List STEvent}

theorem setSubEvents (s : State) (subs : List SubEvent) : Kept t s (s.setSubEvents t e rest subs) :=
  ⟨rfl, rfl, rfl, rfl, rfl, fun _ other => update_of_ne other .., fun _ _ => rfl⟩

theorem finish (cfg : Config) (s : State) : Kept t s (s.finish cfg t e rest) := by
  have popped : Kept t s (s.popEvent t e rest) :=
    ⟨rfl, rfl, rfl, rfl, rfl, fun _ other => update_of_ne other .., fun _ _ => rfl⟩
  unfold State.finish State.replenish
  split
  · exact popped
  · split
    · refine { popped with queues := fun u other => ?_, files := fun u other => ?_ }
      · exact (update_of_ne other ..).trans (popped.queues u other)
      · exact (update_of_ne other ..).trans (popped.files u other)
    · exact popped

theorem leave (cfg : Config) (s : State) (more : List SubEvent) :
    Kept t s (s.leave cfg t e rest more) := by
  cases more with
  | nil => exact finish cfg s
  | cons next more => exact setSubEvents s _

theorem afterVisit (cfg : Config) (s : State) (top : SubEvent) (more : List SubEvent)
    (sync : Sync) (seen : List Obs) (visit : Visit) :
    Kept t s (s.afterVisit cfg t e rest top more sync seen visit) := by
  cases visit with
  | waiting => exact { leave cfg _ (top :: more) with }
  | skipped => exact { leave cfg _ more with }
  | consumed => exact { leave cfg _ more with }

end Kept

end SynchroTrace.Replay
