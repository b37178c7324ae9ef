import SynchroTrace.Replay.Cores

namespace SynchroTrace.Replay
open Outcome Transition

/-- Every core is calm or waits for one response, and there are no other requests. -/
structure Orderly (cfg : Config) (s : State) : Prop where
  settled : ∀ p < cfg.numMapped, Settled cfg p s
  ports : ∀ r ∈ s.pending, r.procID < cfg.numMapped

variable {cfg : Config} {s next : State} {p u time : Nat}

theorem Orderly.ofCore (orderly : Orderly cfg s) (shape : Shape cfg s)
    (frame : Local cfg p s next) (inside : p < cfg.numMapped) (own : Settled cfg p next) :
    Orderly cfg next := by
  constructor
  · intro q simulated
    by_cases same : q = p
    · subst same
      exact own
    · exact (orderly.settled q simulated).local (fun t on => (shape.mapped q t on).2) frame same
  · intro r sent
    by_cases same : r.procID = p
    · rw [same]
      exact inside
    · have kept : r ∈ next.pending.filter (·.procID = r.procID) :=
        List.mem_filter.mpr ⟨sent, by simp⟩
      rw [frame.pending _ same] at kept
      exact orderly.ports r (List.mem_filter.mp kept).1

theorem replenish_head (cfg : Config) (t : Nat) {e : STEvent} {rest : List STEvent}
    (queue : s.eventMap u = e :: rest) :
    ∃ later, (s.replenish cfg t).eventMap u = e :: later := by
  unfold State.replenish
  split
  · by_cases same : u = t
    · subst same
      exact ⟨_, by simp only [State.feed, Function.update_self, queue, List.cons_append]; rfl⟩
    · exact ⟨rest, by simp only [State.feed, Function.update_of_ne same, queue]⟩
  · exact ⟨rest, queue⟩

theorem replenish_untriggered {t : Nat} (h : Untriggered s u) :
    Untriggered (s.replenish cfg t) u := by
  cases queue : s.eventMap u with
  | nil =>
    refine untriggered_of_fresh (replenish_fresh ?_)
    simp [queue]
  | cons e rest =>
    obtain ⟨later, filled⟩ := replenish_head cfg t queue
    rintro e' rest' top more ⟨head, subs⟩
    rw [filled] at head
    cases head
    exact h e rest top more ⟨queue, subs⟩

theorem Orderly.congr (orderly : Orderly cfg s) (pending : next.pending = s.pending)
    (threads : next.threadMap = s.threadMap) (events : next.coreEvents = s.coreEvents)
    (sync : next.toSync = s.toSync) (history : next.history = s.history)
    (heads : ∀ t e rest, s.eventMap t = e :: rest → ∃ later, next.eventMap t = e :: later)
    (untriggered : ∀ t, Untriggered s t → Untriggered next t) : Orderly cfg next := by
  refine ⟨fun p inside => ?_, by rw [pending]; exact orderly.ports⟩
  rcases orderly.settled p inside with calm | ⟨r, waiting⟩
  · left
    refine ⟨by rw [pending]; exact calm.answered, fun t placed => ?_⟩
    exact untriggered t (calm.untriggered t placed)
  · right
    obtain ⟨e, rest, top, more, head, sent⟩ := waiting.sender
    obtain ⟨later, filled⟩ := heads _ e rest head.queue
    refine ⟨r, ?_, ?_, ?_, ?_, ⟨e, later, top, more, ⟨filled, head.subs⟩, ?_⟩, ?_⟩
    · rw [pending]
      exact waiting.only
    · rw [threads]
      exact waiting.front
    · rw [events]
      exact waiting.idle
    · rw [sync]
      exact waiting.started
    · refine { sent with index := ?_ }
      rw [sent.index, State.retiredEvents, State.retiredEvents, history]
    · exact fun t placed other => untriggered t (waiting.others t placed other)

theorem Orderly.replenish (orderly : Orderly cfg s) (t : Nat) :
    Orderly cfg (s.replenish cfg t) := by
  have same : (s.replenish cfg t).pending = s.pending ∧
      (s.replenish cfg t).threadMap = s.threadMap ∧
      (s.replenish cfg t).coreEvents = s.coreEvents ∧
      (s.replenish cfg t).toSync = s.toSync ∧ (s.replenish cfg t).history = s.history := by
    unfold State.replenish
    split <;> exact ⟨rfl, rfl, rfl, rfl, rfl⟩
  obtain ⟨pending, threads, events, sync, history⟩ := same
  exact orderly.congr pending threads events sync history
    (fun _ _ _ queue => replenish_head cfg t queue) fun _ => replenish_untriggered

theorem Orderly.clock (orderly : Orderly cfg s)
    (same : ∃ now start stop, next = { s with curTick := now, startEvent := start, stopped := stop }) :
    Orderly cfg next := by
  obtain ⟨now, start, stop, rfl⟩ := same
  exact orderly.congr rfl rfl rfl rfl rfl (fun _ _ rest queue => ⟨rest, queue⟩)
    fun _ untriggered => untriggered

variable {rand : Nat → Nat → Nat}

theorem wakeupMaster_orderly (shape : Shape cfg s)
    (orderly : Orderly cfg s) (h : wakeupMaster cfg rand s = .ok next) :
    Orderly cfg next := by
  refine wakeupMaster_invariant (Orderly cfg) h shape (fun s t orderly => orderly.replenish t) ?_ ?_
    orderly
  · intro s next p rand shape inside made orderly
    have changes := createSubEvents_changes shape made
    exact orderly.ofCore shape (changes.local shape) inside
      (createSubEvents_settled (orderly.settled p inside) made)
  · exact fun s start stop orderly => orderly.clock ⟨_, _, _, rfl⟩

theorem initState_orderly (h : initState cfg = .ok s) : Orderly cfg s := by
  rw [initState_eq] at h
  cases h
  have blank : Orderly cfg (State.blank cfg) :=
    ⟨fun p _ => Or.inl ⟨rfl, fun t _ => untriggered_of_fresh (by simp [State.blank])⟩,
      by simp [State.blank]⟩
  exact List.foldlRecOn _ _ blank fun s orderly t _ => orderly.replenish t

theorem Action.DueAt.core {accept : Bool} (due : (Action.core p rand accept).DueAt cfg s time) :
    p < cfg.numMapped ∧ s.coreEvents p = some time := by
  obtain ⟨taken, _⟩ := due
  simp only [Action.time] at taken
  split at taken
  · rename_i inside
    exact ⟨inside, taken⟩
  · cases taken

theorem Action.DueAt.early {a : Action} (due : a.DueAt cfg s time) : time < 2 ^ 53 := due.2.2.2

theorem Action.DueAt.response {r : Request} {arrival : Nat}
    (due : (Action.response r arrival).DueAt cfg s time) : r ∈ s.pending := by
  obtain ⟨taken, _⟩ := due
  simp only [Action.time] at taken
  split at taken
  · rename_i sent
    exact sent.1
  · cases taken

theorem Orderly.calm (orderly : Orderly cfg s) (inside : p < cfg.numMapped)
    (scheduled : s.coreEvents p = some time) : Calm cfg p s := by
  rcases orderly.settled p inside with calm | ⟨r, waiting⟩
  · exact calm
  · rw [waiting.idle] at scheduled
    cases scheduled

theorem Orderly.waiting (orderly : Orderly cfg s) {r : Request} (sent : r ∈ s.pending) :
    r.procID < cfg.numMapped ∧ Waiting cfg r.procID s r := by
  have inside := orderly.ports r sent
  have own : r ∈ s.pending.filter (·.procID = r.procID) := List.mem_filter.mpr ⟨sent, by simp⟩
  refine ⟨inside, ?_⟩
  rcases orderly.settled r.procID inside with calm | ⟨r', waiting⟩
  · rw [calm.answered] at own
    cases own
  · have same := waiting.only
    rw [same, List.mem_singleton] at own
    rw [← own] at waiting
    exact waiting

/-- A step keeps the ports in order. A core whose event is due is calm; a response goes to the core
that waits for it. -/
theorem perform_orderly {a : Action} (shape : Shape cfg s) (orderly : Orderly cfg s)
    (due : a.DueAt cfg s time) (h : perform cfg s a time = .ok next) : Orderly cfg next := by
  have now : Shape cfg { s with curTick := time } := shape.congr rfl rfl rfl
  cases a with
  | master rand => exact wakeupMaster_orderly now (orderly.clock ⟨_, _, _, rfl⟩) h
  | core p rand accept =>
    obtain ⟨inside, scheduled⟩ := due.core
    have calm := orderly.calm inside scheduled
    refine orderly.ofCore shape ((perform_coreChanges rfl shape h).local shape) inside ?_
    apply wakeup_settled _ _ _ _ h
    · exact due.early
    · exact shape.congr rfl rfl rfl
    · exact ⟨calm.answered, calm.untriggered⟩
    · exact Function.update_self ..
  | response request arrival =>
    obtain ⟨inside, waiting⟩ := orderly.waiting due.response
    refine orderly.ofCore shape ((perform_coreChanges rfl shape h).local shape) inside ?_
    exact Or.inl (hitCallback_settled shape waiting h).1

theorem reachable_orderly {allowed : State → Action → Prop}
    (reach : ReachableVia (replay cfg) allowed s) : Orderly cfg s := by
  refine reach.invariant (Orderly cfg) (fun s start => initState_orderly start) ?_
  intro s a next before _ orderly taken
  obtain ⟨time, due, done⟩ := taken
  exact perform_orderly (reachable_shape before) orderly due done

end SynchroTrace.Replay
