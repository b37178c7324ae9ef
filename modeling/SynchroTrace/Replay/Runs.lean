import SynchroTrace.Replay.Changes

namespace SynchroTrace.Replay
open Outcome Transition List

variable {cfg : Config} {s next : State} {rand : Nat → Nat → Nat} {allowed : State → Action → Prop}

theorem replenishEvents_changes (shape : Shape cfg s) (h : replenishEvents cfg s = .ok next) :
    Changes cfg s next := by
  refine foldlM_invariant (Changes cfg s) (fun t member a b before filled => ?_) .refl h
  have simulated := mem_range.mp member
  rw [replenishThread_eq simulated ((before.shape shape).lines simulated)] at filled
  cases filled
  exact before.tail ⟨_, .replenish rfl simulated⟩

theorem createAllSubEvents_changes (shape : Shape cfg s)
    (h : createAllSubEvents cfg rand s = .ok next) : Changes cfg s next :=
  foldlM_invariant (Changes cfg s) (fun _ _ _ _ before created =>
    before.trans (createSubEvents_changes (before.shape shape) created).changes) .refl h

theorem checkCompletion_changes (cfg : Config) (s : State) :
    Changes cfg s (checkCompletion cfg s) := by
  unfold checkCompletion
  split
  · rename_i done
    exact .single ⟨0, .stop done.1⟩
  · exact .refl

theorem wakeupMaster_changes (shape : Shape cfg s) (h : wakeupMaster cfg rand s = .ok next) :
    Changes cfg s next := by
  obtain ⟨filled, refill, h⟩ := bind_ok h
  obtain ⟨created, create, h⟩ := bind_ok h
  rw [pure_ok h]
  have first := replenishEvents_changes shape refill
  exact first.trans <| (createAllSubEvents_changes (first.shape shape) create).trans <|
    (checkCompletion_changes cfg created).tail ⟨0, .startEvent _⟩

variable (Inv : State → Prop)

theorem wakeupMaster_invariant (h : wakeupMaster cfg rand s = .ok next)
    (shape : Shape cfg s) (fill : ∀ s t, Inv s → Inv (s.replenish cfg t))
    (create : ∀ s next p rand, Shape cfg s → p < cfg.numMapped →
      createSubEvents cfg p rand s = .ok next → Inv s → Inv next)
    (clock : ∀ s start stop, Inv s → Inv { s with startEvent := start, stopped := stop })
    (before : Inv s) : Inv next := by
  obtain ⟨filled, refill, h⟩ := bind_ok h
  obtain ⟨created, made, h⟩ := bind_ok h
  have afterFill : Shape cfg filled ∧ Inv filled := by
    refine foldlM_invariant (fun s => Shape cfg s ∧ Inv s) ?_ ⟨shape, before⟩ refill
    rintro t member a b ⟨shape, inv⟩ filled
    have simulated := mem_range.mp member
    rw [replenishThread_eq simulated (shape.lines simulated)] at filled
    cases filled
    exact ⟨shape.replenish simulated, fill a t inv⟩
  have afterCreate : Shape cfg created ∧ Inv created := by
    refine foldlM_invariant (fun s => Shape cfg s ∧ Inv s) ?_ afterFill made
    rintro p member a b ⟨shape, inv⟩ made
    exact ⟨(createSubEvents_changes shape made).shape shape,
      create a b p _ shape (mem_range.mp member) made inv⟩
  rw [pure_ok h]
  unfold checkCompletion
  split <;> exact clock created _ _ afterCreate.2

variable {p time : Nat}

theorem wakeup_changes {accept : Bool} (shape : Shape cfg s)
    (h : wakeup cfg p rand accept s = .ok next) :
    CoreChanges cfg p s next := by
  obtain ⟨created, create, h⟩ := bind_ok h
  obtain ⟨moved, progress, h⟩ := bind_ok h
  have first := createSubEvents_changes shape create
  have second : CoreChanges cfg p s moved :=
    first.trans (progressEvents_changes (first.shape shape) progress)
  exact second.trans (swapStalledThreads_changes (second.shape shape) h)

def Action.core? : Action → Option Nat
  | .master _ => none
  | .core procID _ _ => some procID
  | .response request _ => some request.procID

theorem perform_coreChanges {a : Action} (actor : a.core? = some p)
    (shape : Shape cfg s) (h : perform cfg s a time = .ok next) :
    CoreChanges cfg p s next := by
  have now : Shape cfg { s with curTick := time } := shape.congr rfl rfl rfl
  cases a with
  | master rand => cases actor
  | core procID rand accept =>
    cases actor
    have popped : Change cfg p { s with curTick := time }
        ({ s with curTick := time }.setCoreEvents (Function.update s.coreEvents p none)) :=
      .coreEvents fun q other => Function.update_of_ne other ..
    exact (Change.clock time).changes.trans <| popped.changes.trans <|
      wakeup_changes (popped.shape now) h
  | response request arrival =>
    cases actor
    have answered : Change cfg request.procID { s with curTick := time } _ :=
      .answered request rfl
    exact (Change.clock time).changes.trans <| answered.changes.trans <|
      hitCallback_changes (answered.shape now) h

theorem perform_changes {a : Action} (shape : Shape cfg s)
    (h : perform cfg s a time = .ok next) : Changes cfg s next := by
  cases actor : a.core? with
  | some p => exact (perform_coreChanges actor shape h).changes
  | none =>
    cases a with
    | master rand =>
      have now : Shape cfg { s with curTick := time } := shape.congr rfl rfl rfl
      exact .head ⟨0, .clock time⟩ (wakeupMaster_changes now h)
    | core => cases actor
    | response => cases actor

theorem initialThreadMapping_eq (cfg : Config) (procID : Nat) : initialThreadMapping cfg procID =
      (List.range cfg.numThreads).filter (· % cfg.numMapped = procID) := by
  have folded : ∀ (threads : List Nat) (threadMap : Nat → List Nat),
      threads.foldl (fun threadMap i => Function.update threadMap (i % cfg.numMapped)
        (threadMap (i % cfg.numMapped) ++ [i])) threadMap procID =
      threadMap procID ++ threads.filter (· % cfg.numMapped = procID) := by
    intro threads
    induction threads with
    | nil => simp
    | cons i rest ih =>
      intro threadMap
      rw [foldl_cons, ih]
      by_cases same : i % cfg.numMapped = procID
      · simp [← same]
      · simp [same, Function.update_of_ne (Ne.symm same)]
  exact (folded _ _).trans (nil_append _)

theorem blank_shape (cfg : Config) : Shape cfg (State.blank cfg) := by
  refine ⟨fun t _ => suffix_refl _, fun t => .empty, fun procID t member => ?_⟩
  change t ∈ initialThreadMapping cfg procID at member
  rw [initialThreadMapping_eq] at member
  obtain ⟨inside, placed⟩ := mem_filter.mp member
  exact ⟨mem_range.mp inside, by simpa using placed⟩

theorem generateEventQueue_eq {threads : List Nat} (distinct : threads.Nodup)
    (simulated : ∀ t ∈ threads, t < cfg.numThreads) (shape : Shape cfg s)
    (empty : ∀ t ∈ threads, s.eventMap t = []) :
    threads.foldlM (fun s t => readEventFile cfg t s) s =
      .ok (threads.foldl (fun s t => s.replenish cfg t) s) := by
  induction threads generalizing s with
  | nil => rfl
  | cons t rest ih =>
    have inside := simulated t mem_cons_self
    have none := empty t mem_cons_self
    obtain ⟨notLater, distinct⟩ := nodup_cons.mp distinct
    have filled : readEventFile cfg t s = .ok (s.replenish cfg t) := by
      rw [State.replenish, none]
      exact readLines_eq inside readBlock (shape.lines inside) (by simp [none, maxEventsSize])
    rw [foldlM_cons, foldl_cons, filled]
    refine ih distinct (fun u later => simulated u (mem_cons_of_mem _ later))
      (shape.replenish inside) fun u later => ?_
    have other : u ≠ t := fun same => notLater (same ▸ later)
    have same := replenish_buffer_other cfg s other
    simpa [State.buffer, State.queue, empty u (mem_cons_of_mem _ later)] using
      congrArg Feed.Buffer.queue same

theorem initState_eq (cfg : Config) : initState cfg =
      .ok ((List.range cfg.numThreads).foldl (fun s t => s.replenish cfg t) (State.blank cfg)) :=
  generateEventQueue_eq nodup_range (fun _ member => mem_range.mp member)
    (blank_shape cfg) fun _ _ => rfl

theorem initState_changes (h : initState cfg = .ok s) : Changes cfg (State.blank cfg) s := by
  rw [initState_eq] at h
  cases h
  refine List.foldlRecOn (List.range cfg.numThreads) _ .refl fun s before t member => ?_
  exact before.tail ⟨_, .replenish rfl (mem_range.mp member)⟩

theorem reachable_shape (reach : ReachableVia (replay cfg) allowed s) : Shape cfg s := by
  refine reach.invariant (Shape cfg) ?_ ?_
  · intro s start
    have filled : initState cfg = .ok s := start
    exact (initState_changes filled).shape (blank_shape cfg)
  · intro s a next _ _ shape taken
    obtain ⟨time, _, done⟩ := taken
    exact (perform_changes shape done).shape shape

theorem Changes.invariant (h : Changes cfg s next)
    (keep : ∀ p s next, Shape cfg s → Change cfg p s next → Inv s → Inv next) (shape : Shape cfg s)
    (before : Inv s) : Inv next := by
  refine (steps_invariant (fun s => Shape cfg s ∧ Inv s) ?_ h ⟨shape, before⟩).2
  exact fun s next ⟨p, change⟩ both => ⟨change.shape both.1, keep p s next both.1 change both.2⟩

/-- A property that every change keeps holds in every reachable state if it does once the queues
have been filled. -/
theorem reachable_of_changes (initial : ∀ s, initState cfg = .ok s → Inv s)
    (keep : ∀ p s next, Shape cfg s → Change cfg p s next → Inv s → Inv next)
    (reach : ReachableVia (replay cfg) allowed s) : Inv s := by
  refine reach.invariant Inv initial fun s a next before _ inv taken => ?_
  obtain ⟨time, _, done⟩ := taken
  have shape := reachable_shape before
  exact (perform_changes shape done).invariant Inv keep shape inv

theorem reachable_of_blank (blank : Inv (State.blank cfg))
    (keep : ∀ p s next, Shape cfg s → Change cfg p s next → Inv s → Inv next)
    (reach : ReachableVia (replay cfg) allowed s) : Inv s :=
  reachable_of_changes Inv
    (fun _ start => (initState_changes start).invariant Inv keep (blank_shape cfg) blank) keep reach

end SynchroTrace.Replay
