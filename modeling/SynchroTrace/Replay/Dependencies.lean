import SynchroTrace.Replay.Conservation

namespace SynchroTrace.Replay
open History Outcome Transition List

def Config.Increasing (cfg : Config) : Prop :=
  ∀ t < cfg.numThreads, (cfg.trace t).Pairwise fun e later => e.eventID < later.eventID

instance (cfg : Config) : Decidable cfg.Increasing :=
  inferInstanceAs (Decidable (∀ t < cfg.numThreads, _))

def RetiredUpTo (cfg : Config) (history : List Obs) (t n : Nat) : Prop :=
  ∀ e ∈ cfg.trace t, e.eventID ≤ n → e ∈ retiredBy history t

/-- Of a list with increasing numbers, the first `retired` of which are gone: the next one is past
`n` exactly when none up to `n` is left. -/
theorem next_past_iff {retired todo : List TraceEvent}
    (increasing : (retired ++ todo).Pairwise fun e later => e.eventID < later.eventID) (n : Nat) :
    (∀ e ∈ todo.head?, n < e.eventID) ↔ ∀ e ∈ retired ++ todo, e.eventID ≤ n → e ∈ retired := by
  obtain ⟨_, ordered, across⟩ := pairwise_append.mp increasing
  constructor
  · intro past e member small
    rcases mem_append.mp member with done | left
    · exact done
    · cases todo with
      | nil => cases left
      | cons first rest =>
        have beyond := past first rfl
        rcases mem_cons.mp left with rfl | later
        · omega
        · have := rel_of_pairwise_cons ordered later
          omega
  · intro gone e next
    obtain ⟨rest, rfl⟩ := List.head?_eq_some_iff.mp next
    by_contra small
    have done := gone e (by simp) (by omega)
    have := across e done e mem_cons_self
    omega

variable {cfg : Config} {dep : SharedInfo}

theorem satisfied_iff {a : Threads} (increasing : cfg.Increasing)
    (conserved : ∀ t, retiredBy a.history t ++ a.todo t = cfg.trace t)
    (simulated : dep.prodThreadID < cfg.numThreads) (notSystem : dep.prodThreadID ≠ osThreadID) :
    a.Satisfied cfg dep ↔ RetiredUpTo cfg a.history dep.prodThreadID dep.prodEventID := by
  have ordered := increasing _ simulated
  rw [← conserved] at ordered
  unfold Threads.Satisfied RetiredUpTo
  rw [← conserved, ← next_past_iff ordered]
  simp [simulated, notSystem]

theorem later_history {s next : State} (reach : Reachable (replay cfg) s)
    (later : Later (replay cfg) s next) : s.history <+: next.history := by
  induction later with
  | refl => exact prefix_refl _
  | tail before taken ih =>
    obtain ⟨a, time, due, done⟩ := taken
    have shape := reachable_shape (Later.reachable before reach)
    exact steps_invariant (fun b : State => s.history <+: b.history)
      (fun _ _ ⟨_, change⟩ grown => grown.trans change.history_grows) (perform_changes shape done) ih

theorem RetiredUpTo.mono {history more : List Obs} {t n : Nat} (h : RetiredUpTo cfg history t n)
    (grown : history <+: more) : RetiredUpTo cfg more t n := by
  obtain ⟨added, rfl⟩ := grown
  intro e member small
  rw [retiredBy_append]
  exact mem_append_left _ (h e member small)

/-- A read of a communication event, sent by a thread that is not marked as holding a mutex, comes
after the event that it depends on. -/
def ReadAfterProducer (cfg : Config) (before : List Obs) (x : Obs) : Prop :=
  ∀ r accepted requests, x = .sent r false accepted → r.event.kind = .communication requests →
    r.msg.thisMsg.prodThreadID < cfg.numThreads → r.msg.thisMsg.prodThreadID ≠ osThreadID →
      RetiredUpTo cfg before r.msg.thisMsg.prodThreadID r.msg.thisMsg.prodEventID

theorem Call.seen_not_sent {t addr : Nat} {Ended : Nat → Prop} {y sync : Sync} {type : PthreadType}
    {visit : Visit} {seen : List Obs} (h : Call cfg t addr Ended y type sync visit seen) {x : Obs}
    (member : x ∈ seen) (r : Request) (held accepted : Bool) : x ≠ .sent r held accepted := by
  rintro rfl
  cases h with
  | create | join => split at member <;> simp at member
  | joinBusy => split at member <;> simp at member
  | _ => simp at member

theorem Threads.Step.reads {a next : Threads} (h : Threads.Step cfg a next)
    (increasing : cfg.Increasing) (conserved : ∀ t, retiredBy a.history t ++ a.todo t = cfg.trace t)
    (before : Throughout (ReadAfterProducer cfg) a.history) :
    Throughout (ReadAfterProducer cfg) next.history := by
  have retired : ∀ history t e, ReadAfterProducer cfg history (.retired t e) := by
    intro history t e r accepted requests same
    cases same
  cases h with
  | work => exact throughout_snoc.mpr ⟨before, retired _ _ _⟩
  | @visit t e rest type addr sync visit seen simulated head kind started call =>
    have seenBefore : Throughout (ReadAfterProducer cfg) (a.history ++ seen) :=
      before.append fun _ x member r accepted _ same =>
        absurd same (call.seen_not_sent member r false accepted)
    cases visit with
    | waiting => exact seenBefore
    | skipped | consumed => exact throughout_snoc.mpr ⟨seenBefore, retired _ _ _⟩
  | @send request rest accept simulated head index satisfied =>
    refine throughout_snoc.mpr ⟨before, fun r accepted requests same kind producer notSystem => ?_⟩
    simp only [Obs.sent.injEq] at same
    obtain ⟨rfl, held, _⟩ := same
    rcases satisfied requests kind with passed | mutex
    · exact (satisfied_iff increasing conserved producer notSystem).mp passed
    · rw [held] at mutex
      cases mutex

variable {allowed : State → Action → Prop}

theorem reachable_reads {s : State} (increasing : cfg.Increasing)
    (reach : ReachableVia (replay cfg) allowed s) :
    Throughout (ReadAfterProducer cfg) s.history := by
  refine (steps_invariant (fun a => (∀ t, retiredBy a.history t ++ a.todo t = cfg.trace t) ∧
    Throughout (ReadAfterProducer cfg) a.history) ?_ (reachable_threads reach)
      ⟨start_conserves cfg, throughout_nil⟩).2
  rintro a next step ⟨conserved, reads⟩
  exact ⟨fun t => (step.conserves t).trans (conserved t), step.reads increasing conserved reads⟩

theorem checkCommDependency_ok (s : State) (simulated : dep.prodThreadID < cfg.numThreads) :
    ∃ answer, checkCommDependency cfg s dep = .ok answer := by
  unfold checkCommDependency
  simp only [simulated, if_true]
  split
  · exact ⟨_, rfl⟩
  · split <;> exact ⟨_, rfl⟩

theorem checkCommDependency_iff {s : State}
    (increasing : cfg.Increasing) (reach : ReachableVia (replay cfg) allowed s)
    (simulated : dep.prodThreadID < cfg.numThreads) (notSystem : dep.prodThreadID ≠ osThreadID) :
    checkCommDependency cfg s dep = .ok true ↔
      RetiredUpTo cfg s.history dep.prodThreadID dep.prodEventID := by
  obtain ⟨answer, checked⟩ := checkCommDependency_ok s simulated
  have conserved : ∀ t, retiredBy (s.threads cfg).history t ++ (s.threads cfg).todo t =
      cfg.trace t := reachable_conserves reach
  have meaning := (checkCommDependency_satisfied (reachable_fed reach) checked).trans
    (satisfied_iff increasing conserved simulated notSystem)
  rw [checked, Except.ok.injEq]
  exact meaning

def producerConfig : Config where
  ruby := .small
  numCpus := 2
  numThreads := 2
  masterWakeupFrequency := 100
  addresstoIdMap addr := if addr = 7 then 1 else 0
  traceFile t :=
    if t = 0 then ["1,1,pth_ty:3 ^ 7".toList, "2,1,3,0,0,0".toList]
    else if t = 1 then ["1,2 # 1 2 64 71".toList] else []

end SynchroTrace.Replay
