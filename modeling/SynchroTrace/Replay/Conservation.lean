import SynchroTrace.Lib.History
import SynchroTrace.Replay.Faults

namespace SynchroTrace.Replay
open History Outcome Transition List

variable {cfg : Config} {allowed : State → Action → Prop} {a next : Threads}

theorem Threads.Step.conserves (h : Threads.Step cfg a next) (t : Nat) :
    retiredBy next.history t ++ next.todo t = retiredBy a.history t ++ a.todo t := by
  have retire : ∀ (b : Threads) (u : Nat) (e : TraceEvent) (rest : List TraceEvent),
      b.todo u = e :: rest → retiredBy (b.retire u e rest).history t ++ (b.retire u e rest).todo t =
        retiredBy b.history t ++ b.todo t := by
    intro b u e rest head
    by_cases same : u = t
    · subst same
      simp [Threads.retire, head]
    · simp [Threads.retire, same, Function.update_of_ne (Ne.symm same)]
  cases h with
  | work simulated head kind => exact retire a _ _ _ head
  | @visit u e rest type addr sync visit seen simulated head kind started call =>
    have visited := retire { a with sync, history := a.history ++ seen } u e rest head
    simp only [retiredBy_append, call.retires_none, append_nil] at visited
    cases visit with
    | waiting => simp [Threads.visited, call.retires_none]
    | skipped => exact visited
    | consumed => exact visited
  | send => simp

theorem start_conserves (cfg : Config) (t : Nat) :
    retiredBy (Threads.start cfg).history t ++ (Threads.start cfg).todo t = cfg.trace t := by
  simp [Threads.start, State.threads, State.blank, State.buffer, State.queue, State.unread,
    Feed.Buffer.contents, Config.trace]

variable {s : State}

theorem reachable_conserves (reach : ReachableVia (replay cfg) allowed s) (t : Nat) :
    s.retiredEvents t ++ (s.threads cfg).todo t = cfg.trace t := by
  refine steps_invariant (fun a => retiredBy a.history t ++ a.todo t = cfg.trace t) ?_
    (reachable_threads reach) (start_conserves cfg t)
  intro a next step before
  rw [step.conserves]
  exact before

theorem retired_of_empty (reach : ReachableVia (replay cfg) allowed s) {t : Nat}
    (simulated : t < cfg.numThreads) (empty : s.eventMap t = []) :
    s.retiredEvents t = cfg.trace t := by
  have conserved := reachable_conserves reach t
  rwa [((reachable_fed reach).todo_eq_nil simulated).mpr empty, append_nil] at conserved

theorem Change.stopped {p : Nat} {next : State} (h : Change cfg p s next)
    (stopped : next.stopped = true) :
    s.stopped = true ∨ ∀ i < cfg.numThreads, s.eventMap i = [] := by
  cases h with
  | stop done => exact Or.inr done
  | clock | startEvent | coreEvents | answered | rotate | create | recheck => exact Or.inl stopped
  | replenish =>
    unfold State.replenish at stopped
    split at stopped <;> exact Or.inl stopped
  | send accept => cases accept <;> exact Or.inl stopped
  | work | respond =>
    rw [(Kept.leave cfg _ _).stopped] at stopped
    exact Or.inl stopped
  | visit =>
    rw [(Kept.afterVisit cfg _ _ _ _ _ _).stopped] at stopped
    exact Or.inl stopped

theorem Threads.Step.todo_ne_nil (h : Threads.Step cfg a next) :
    ∃ t < cfg.numThreads, a.todo t ≠ [] := by
  cases h with
  | work simulated head => exact ⟨_, simulated, by simp [head]⟩
  | visit simulated head => exact ⟨_, simulated, by simp [head]⟩
  | send _ simulated head => exact ⟨_, simulated, by simp [head]⟩

theorem reachable_stopped (reach : ReachableVia (replay cfg) allowed s) (stopped : s.stopped =
      true) :
    ∀ t < cfg.numThreads, (s.threads cfg).todo t = [] := by
  refine (reachable_of_changes (fun s => Fed cfg s ∧ (s.stopped = true →
    ∀ t < cfg.numThreads, (s.threads cfg).todo t = [])) ?_ ?_ reach).2 stopped
  · intro s start
    refine ⟨initState_fed start, fun stopped => ?_⟩
    have running : s.stopped = false := by
      rw [initState_eq] at start
      cases start
      refine List.foldlRecOn (motive := fun s : State => s.stopped = false) _ _ rfl ?_
      intro s running t _
      unfold State.replenish
      split <;> exact running
    rw [running] at stopped
    cases stopped
  · rintro p s next shape change ⟨fed, before⟩
    refine ⟨change.fed shape fed, fun stopped => ?_⟩
    have ended : ∀ t < cfg.numThreads, (s.threads cfg).todo t = [] := by
      rcases change.stopped stopped with earlier | empty
      · exact before earlier
      · exact fun t simulated => (fed.todo_eq_nil simulated).mpr (empty t simulated)
    rcases change.threads shape fed with same | step
    · rw [same]
      exact ended
    · obtain ⟨t, simulated, left⟩ := step.todo_ne_nil
      exact absurd (ended t simulated) left

def JoinsEnded (cfg : Config) (before : List Obs) (x : Obs) : Prop :=
  ∀ t e addr, x = .retired t e → e.kind = .pthreadApi .join addr →
    ∃ u, cfg.threadIndex (cfg.addresstoIdMap addr) = .ok u ∧ retiredBy before u = cfg.trace u

theorem Call.seen_not_retired {t addr : Nat} {Ended : Nat → Prop} {y sync : Sync}
    {type : PthreadType} {visit : Visit} {seen : List Obs}
    (h : Call cfg t addr Ended y type sync visit seen) {x : Obs} (member : x ∈ seen) (u : Nat)
    (e : TraceEvent) : x ≠ .retired u e := by
  rintro rfl
  have none := h.retires_none u
  have some : e ∈ retiredBy seen u := mem_filterMap.mpr ⟨_, member, by simp⟩
  rw [none] at some
  cases some

theorem Threads.Step.joins (h : Threads.Step cfg a next)
    (conserved : ∀ t, retiredBy a.history t ++ a.todo t = cfg.trace t)
    (before : Throughout (JoinsEnded cfg) a.history) :
    Throughout (JoinsEnded cfg) next.history := by
  cases h with
  | @work t e rest simulated head kind =>
    refine throughout_snoc.mpr ⟨before, fun t' e' addr same join => ?_⟩
    cases same
    exact absurd join (kind _ _)
  | send =>
    refine throughout_snoc.mpr ⟨before, fun t' e' addr same => ?_⟩
    cases same
  | @visit t e rest type addr sync visit seen simulated head kind started call =>
    have seenBefore : Throughout (JoinsEnded cfg) (a.history ++ seen) :=
      before.append fun _ x member t' e' _ same => absurd same (call.seen_not_retired member t' e')
    have retired : visit ≠ .waiting → JoinsEnded cfg (a.history ++ seen) (.retired t e) := by
      intro done t' e' addr' same join
      cases same
      rw [kind] at join
      cases join
      have none := call.retires_none
      cases call with
      | joinBusy => exact absurd rfl done
      | @join u joined ended =>
        refine ⟨u, joined, ?_⟩
        have whole := conserved u
        rw [ended, append_nil] at whole
        rw [retiredBy_append, none, append_nil, whole]
      | condition which => rcases which with same | same <;> cases same
    cases visit with
    | waiting => exact seenBefore
    | skipped => exact throughout_snoc.mpr ⟨seenBefore, retired (by simp)⟩
    | consumed => exact throughout_snoc.mpr ⟨seenBefore, retired (by simp)⟩

theorem reachable_joins (reach : ReachableVia (replay cfg) allowed s) :
    Throughout (JoinsEnded cfg) s.history := by
  refine (steps_invariant (fun a => (∀ t, retiredBy a.history t ++ a.todo t = cfg.trace t) ∧
    Throughout (JoinsEnded cfg) a.history) ?_ (reachable_threads reach) ⟨?_, throughout_nil⟩).2
  · rintro a next step ⟨conserved, joins⟩
    exact ⟨fun t => (step.conserves t).trans (conserved t), step.joins conserved joins⟩
  · exact start_conserves cfg

end SynchroTrace.Replay
