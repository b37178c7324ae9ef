import SynchroTrace.Lib.Barrier
import SynchroTrace.Replay.Conservation

namespace SynchroTrace.Replay
open Function (update)
open History Outcome Transition List

def EventKind.barrier? : EventKind → Option Nat
  | .pthreadApi .barrierWt pthAddr => some pthAddr
  | _ => none

variable {b t : Nat} {cfg : Config} {seen : List Obs} {a : Threads} {rest : List TraceEvent}

theorem EventKind.barrier?_eq_some {kind : EventKind} :
    kind.barrier? = some b ↔ kind = .pthreadApi .barrierWt b := by
  unfold EventKind.barrier?
  split <;> simp_all

def waits (history : List Obs) (t b : Nat) : Nat :=
  (retiredBy history t).countP (·.kind.barrier? = some b)

def releases (history : List Obs) (b : Nat) : Nat := history.count (.released b)

@[simp] theorem waits_append (before after : List Obs) (t b : Nat) :
    waits (before ++ after) t b = waits before t b + waits after t b := by
  simp [waits]

@[simp] theorem releases_append (before after : List Obs) (b : Nat) :
    releases (before ++ after) b = releases before b + releases after b := by
  simp [releases]

theorem waits_retired (u : Nat) (e : TraceEvent) (t b : Nat) :
    waits [.retired u e] t b = if u = t ∧ e.kind.barrier? = some b then 1 else 0 := by
  unfold waits
  rw [retiredBy_retired]
  by_cases same : u = t <;> simp [same, countP_cons]

@[simp] theorem releases_retired (u : Nat) (e : TraceEvent) (b : Nat) :
    releases [.retired u e] b = 0 := by
  simp [releases]

/-- Thread `t` was at its `k`-th wait on barrier `b`, and that wait has been visited. -/
def Reached (cfg : Config) (history : List Obs) (t b k : Nat) : Prop :=
  ∃ earlier later, history = earlier ++ .arrived t b :: later ∧ waits earlier t b + 1 = k ∧
    ∃ e, (cfg.trace t)[(retiredBy earlier t).length]? = some e ∧ e.kind = .pthreadApi .barrierWt b

variable {history : List Obs}

theorem Reached.append {k : Nat} (h : Reached cfg history t b k)
    (more : List Obs) : Reached cfg (history ++ more) t b k := by
  obtain ⟨earlier, later, rfl, rest⟩ := h
  exact ⟨earlier, later ++ more, by simp, rest⟩

def Config.members (cfg : Config) (b : Nat) : Set Nat := {t | (t : Int) ∈ cfg.barrierMap b}

def Threads.barriers (cfg : Config) (a : Threads) : Barrier.State Nat Nat where
  next t := (a.todo t).head?.bind (·.kind.barrier?)
  waiting b := {t | (t : Int) ∈ a.sync.threadWaitMap b}
  passing t := a.sync.threadContMap t = true
  rounds := releases a.history
  passed := waits a.history
  reached := Reached cfg a.history

variable {sync y : Sync}

theorem barriers_observe (cfg : Config) (a : Threads)
    (waiting : sync.threadWaitMap = a.sync.threadWaitMap)
    (passing : sync.threadContMap = a.sync.threadContMap) (retires : ∀ t, retiredBy seen t = [])
    (none : ∀ b, releases seen b = 0) :
    Barrier.Step cfg.members (a.barriers cfg)
      (Threads.barriers cfg { a with sync, history := a.history ++ seen }) := by
  have same : Threads.barriers cfg { a with sync, history := a.history ++ seen } =
      { a.barriers cfg with reached := Reached cfg (a.history ++ seen) } := by
    have passed : waits (a.history ++ seen) = waits a.history := by
      funext t b
      simp [waits, retires]
    have rounds : releases (a.history ++ seen) = releases a.history := by
      funext b
      simp [none]
    unfold Threads.barriers
    rw [waiting, passing, passed, rounds]
  rw [same]
  exact .reach _ fun t b k reached => Reached.append reached seen

theorem retire_next (cfg : Config) (a : Threads) (t : Nat) (e : TraceEvent)
    (rest : List TraceEvent) : ((a.retire t e rest).barriers cfg).next =
      update (a.barriers cfg).next t (rest.head?.bind (·.kind.barrier?)) := by
  funext u
  by_cases same : u = t
  · subst same
    simp [Threads.barriers, Threads.retire]
  · simp [Threads.barriers, Threads.retire, same]

variable {e : TraceEvent}

theorem retire_barriers (cfg : Config) (head : a.todo t = e :: rest)
    (other : e.kind.barrier? = none) :
    Relation.ReflTransGen (Barrier.Step cfg.members) (a.barriers cfg)
      ((a.retire t e rest).barriers cfg) := by
  have elsewhere : (a.barriers cfg).next t = none := by
    simp [Threads.barriers, head, other]
  have passed : waits (a.retire t e rest).history = waits a.history := by
    funext u b
    simp [Threads.retire, waits_retired, other]
  have rounds : releases (a.retire t e rest).history = releases a.history := by
    funext b
    simp [Threads.retire]
  refine .head (.reach (Reached cfg (a.retire t e rest).history) fun u b k reached =>
    Reached.append reached _) ?_
  refine .single ?_
  have moved : (a.retire t e rest).barriers cfg = { (a.barriers cfg) with
        next := update (a.barriers cfg).next t (rest.head?.bind (·.kind.barrier?))
        reached := Reached cfg (a.retire t e rest).history } := by
    rw [← retire_next]
    unfold Threads.barriers
    rw [passed, rounds]
    rfl
  rw [moved]
  exact .move t _ elsewhere

theorem pass_barriers (cfg : Config) (head : a.todo t = e :: rest)
    (kind : e.kind = .pthreadApi .barrierWt b) (released : a.sync.threadContMap t = true) :
    Relation.ReflTransGen (Barrier.Step cfg.members) (a.barriers cfg)
      (Threads.barriers cfg (Threads.retire { a with sync := { a.sync with
        threadContMap := update a.sync.threadContMap t false } } t e rest)) := by
  have wait := EventKind.barrier?_eq_some.mpr kind
  have here : (a.barriers cfg).next t = some b := by
    simp [Threads.barriers, head, wait]
  refine .head (.reach (Reached cfg (a.history ++ [.retired t e])) fun u c k reached =>
    Reached.append reached _) (.single ?_)
  have passing : (fun u => update a.sync.threadContMap t false u = true) =
      fun u => u ≠ t ∧ a.sync.threadContMap u = true := by
    funext u
    by_cases same : u = t <;> simp [same]
  have passed : waits (a.history ++ [.retired t e]) =
      fun u c => if u = t ∧ c = b then waits a.history u c + 1 else waits a.history u c := by
    funext u c
    rw [waits_append, waits_retired, wait]
    by_cases same : u = t ∧ c = b
    · simp [same]
    · have different : ¬ (t = u ∧ some b = some c) := by
        rintro ⟨rfl, same'⟩
        exact same ⟨rfl, (Option.some.inj same').symm⟩
      rw [if_neg same, if_neg different, Nat.add_zero]
  have rounds : releases (a.history ++ [.retired t e]) = releases a.history := by
    funext c
    simp
  have gone : Threads.barriers cfg (Threads.retire { a with sync := { a.sync with
      threadContMap := update a.sync.threadContMap t false } } t e rest) =
      Barrier.State.pass { a.barriers cfg with reached := Reached cfg (a.history ++ [.retired t e]) }
        t b (rest.head?.bind (·.kind.barrier?)) := by
    have next := retire_next cfg { a with sync := { a.sync with
      threadContMap := update a.sync.threadContMap t false } } t e rest
    exact Barrier.State.ext next rfl passing rounds passed rfl
  rw [gone]
  exact .pass t b _ here released

theorem arrive_barriers
    (conserved : retiredBy a.history t ++ a.todo t = cfg.trace t) (head : a.todo t = e :: rest)
    (kind : e.kind = .pthreadApi .barrierWt b) (blocked : a.sync.threadContMap t = false) :
    Relation.ReflTransGen (Barrier.Step cfg.members) (a.barriers cfg)
      (Threads.barriers cfg
        { a with sync := a.sync.arrive t b, history := a.history ++ [.arrived t b] }) := by
  have here : (a.barriers cfg).next t = some b := by
    simp [Threads.barriers, head, EventKind.barrier?_eq_some.mpr kind]
  have reached : Reached cfg (a.history ++ [.arrived t b]) t b (waits a.history t b + 1) :=
    ⟨a.history, [], rfl, rfl, e, by simp [← conserved, head], kind⟩
  refine .head (.reach (Reached cfg (a.history ++ [.arrived t b])) fun u c k reached =>
    Reached.append reached _) (.single ?_)
  have waiting : (fun c => {u : Nat | (u : Int) ∈ (a.sync.arrive t b).threadWaitMap c}) =
      update (a.barriers cfg).waiting b (insert t ((a.barriers cfg).waiting b)) := by
    funext c
    ext u
    by_cases same : c = b
    · subst same
      by_cases there : (t : Int) ∈ a.sync.threadWaitMap c
      · simp [Sync.arrive, there, Threads.barriers]
      · simp [Sync.arrive, there, Threads.barriers]
    · by_cases there : (t : Int) ∈ a.sync.threadWaitMap b <;>
        simp [Sync.arrive, there, same, Threads.barriers]
  have passing : (a.sync.arrive t b).threadContMap = a.sync.threadContMap := by
    unfold Sync.arrive
    split <;> rfl
  have passed : waits (a.history ++ [.arrived t b]) = waits a.history := by
    funext u c
    simp [waits, retiredBy]
  have rounds : releases (a.history ++ [.arrived t b]) = releases a.history := by
    funext c
    simp [releases]
  have arrived : Threads.barriers cfg
      { a with sync := a.sync.arrive t b, history := a.history ++ [.arrived t b] } =
      { a.barriers cfg with
        waiting := update (a.barriers cfg).waiting b
          (insert t ((a.barriers cfg).waiting b))
        reached := Reached cfg (a.history ++ [.arrived t b]) } := by
    rw [← waiting]
    unfold Threads.barriers
    rw [passing, passed, rounds]
  rw [arrived]
  exact .arrive t b here (by simp [Threads.barriers, blocked]) reached

theorem release_barriers (complete : checkBarriers cfg b a.sync = true) :
    Relation.ReflTransGen (Barrier.Step cfg.members) (a.barriers cfg)
      (Threads.barriers cfg
        { a with sync := a.sync.release cfg b, history := a.history ++ [.released b] }) := by
  have all : cfg.members b ⊆ (a.barriers cfg).waiting b := by
    intro t member
    have subset := Finset.sdiff_eq_empty_iff_subset.mp (of_decide_eq_true complete)
    exact subset member
  refine .head (.reach (Reached cfg (a.history ++ [.released b])) fun u c k reached =>
    Reached.append reached _) (.single ?_)
  have waiting : (fun c => {u : Nat | (u : Int) ∈ (a.sync.release cfg b).threadWaitMap c}) =
      update (a.barriers cfg).waiting b ∅ := by
    funext c
    by_cases same : c = b
    · subst same
      simp [Sync.release]
    · simp [Sync.release, same, Threads.barriers]
  have passing : (fun u => (a.sync.release cfg b).threadContMap u = true) =
      fun u => u ∈ cfg.members b ∨ a.sync.threadContMap u = true := by
    funext u
    by_cases member : (u : Int) ∈ cfg.barrierMap b <;>
      simp [Sync.release, Config.members, member]
  have passed : waits (a.history ++ [.released b]) = waits a.history := by
    funext u c
    simp [waits, retiredBy]
  have rounds : releases (a.history ++ [.released b]) =
      update (releases a.history) b (releases a.history b + 1) := by
    funext c
    by_cases same : c = b
    · subst same
      simp [releases]
    · simp [releases, same, Ne.symm same]
  have released : Threads.barriers cfg
      { a with sync := a.sync.release cfg b, history := a.history ++ [.released b] } =
      Barrier.State.release
        { a.barriers cfg with reached := Reached cfg (a.history ++ [.released b]) }
        cfg.members b := by
    exact Barrier.State.ext rfl waiting passing rounds passed rfl
  rw [released]
  exact .release b all

variable {addr u : Nat} {Ended : Nat → Prop} {type : PthreadType} {visit : Visit}

theorem Call.other_barriers
    (h : Call cfg t addr Ended y type sync visit seen) (other : type ≠ .barrierWt) :
    sync.threadWaitMap = y.threadWaitMap ∧ sync.threadContMap = y.threadContMap ∧
      ∀ b, releases seen b = 0 := by
  cases h with
  | barrierPass | barrierArrive | barrierRelease => exact absurd rfl other
  | create | join | joinBusy =>
    refine ⟨rfl, rfl, fun b => ?_⟩
    split <;> simp [releases]
  | _ => exact ⟨rfl, rfl, fun b => rfl⟩

variable {next : Threads}

theorem Threads.Step.barriers (h : Threads.Step cfg a next)
    (conserved : ∀ t, retiredBy a.history t ++ a.todo t = cfg.trace t) :
    Relation.ReflTransGen (Barrier.Step cfg.members) (a.barriers cfg) (next.barriers cfg) := by
  cases h with
  | work simulated head kind =>
    refine retire_barriers cfg head ?_
    cases wait : EventKind.barrier? _ with
    | none => rfl
    | some b => exact absurd (EventKind.barrier?_eq_some.mp wait) (kind _ _)
  | send =>
    exact .single (barriers_observe cfg a rfl rfl (fun t => by simp) fun b => by simp [releases])
  | @visit t e rest type addr sync visit seen simulated head kind started call =>
    by_cases wait : type = .barrierWt
    · subst wait
      cases call with
      | barrierPass released =>
        have passed := pass_barriers cfg head kind released
        simpa [Threads.visited] using passed
      | barrierArrive blocked missing => exact arrive_barriers (conserved t) head kind blocked
      | barrierRelease blocked complete valid =>
        have arrived := arrive_barriers (conserved t) head kind blocked
        have released := arrived.trans (release_barriers complete)
        simpa [Threads.visited] using released
      | condition which => rcases which with same | same <;> cases same
    · obtain ⟨waiting, passing, none⟩ := call.other_barriers wait
      have observed := barriers_observe cfg a waiting passing call.retires_none none
      have other : e.kind.barrier? = .none := by
        rw [kind]
        unfold EventKind.barrier?
        split
        · rename_i same
          cases same
          exact absurd rfl wait
        · rfl
      have retired := retire_barriers cfg (a := { a with sync, history := a.history ++ seen })
        head other
      cases visit with
      | waiting => exact .single observed
      | skipped => exact .head observed retired
      | consumed => exact .head observed retired

theorem start_barriers (cfg : Config) :
    Barrier.Safe cfg.members ((Threads.start cfg).barriers cfg) :=
  Barrier.safe_of_untouched (fun _ => by simp [Threads.barriers, Threads.start, State.threads,
    State.blank]) (fun _ => by simp [Threads.barriers, Threads.start, State.threads, State.blank])
    (fun _ => rfl) fun _ _ => rfl

/-- A wait is retired when every thread of the barrier has come to its wait of the same round, and a
barrier is released when they have all retired the wait of the round before. -/
def RoundsOrdered (cfg : Config) (before : List Obs) : Obs → Prop
  | .retired t e => ∀ b, e.kind = .pthreadApi .barrierWt b → ∀ id ∈ cfg.barrierMap b,
      ∃ u < cfg.numThreads, id = (u : Int) ∧ Reached cfg before u b (waits before t b + 1)
  | .released b => ∀ id ∈ cfg.barrierMap b,
      ∃ u < cfg.numThreads, id = (u : Int) ∧ waits before u b = releases before b
  | _ => True

theorem members_simulated (ordered : Throughout (RoundsOrdered cfg) history)
    (some : 0 < releases history b) :
    ∀ id ∈ cfg.barrierMap b, ∃ u < cfg.numThreads, id = (u : Int) := by
  obtain ⟨before, after, split⟩ := append_of_mem (count_pos_iff.mp some)
  intro id member
  obtain ⟨u, simulated, same, _⟩ := ordered before _ after split id member
  exact ⟨u, simulated, same⟩

theorem pass_ordered (safe : Barrier.Safe cfg.members (a.barriers cfg))
    (ordered : Throughout (RoundsOrdered cfg) a.history) (head : a.todo t = e :: rest)
    (kind : e.kind = .pthreadApi .barrierWt b) (released : a.sync.threadContMap t = true) :
    RoundsOrdered cfg a.history (.retired t e) := by
  intro c same id member
  rw [kind] at same
  cases same
  obtain ⟨c, here, _, round⟩ := safe.passing t released
  have at_b : (a.barriers cfg).next t = some b := by
    simp [Threads.barriers, head, EventKind.barrier?_eq_some.mpr kind]
  rw [at_b] at here
  cases here
  have current : releases a.history b = waits a.history t b + 1 := round
  obtain ⟨u, simulated, rfl⟩ := members_simulated ordered (by omega) id member
  refine ⟨u, simulated, rfl, safe.reached b _ ?_ u member⟩
  show waits a.history t b < releases a.history b
  omega

theorem release_ordered (safe : Barrier.Safe cfg.members (a.barriers cfg))
    (complete : checkBarriers cfg b a.sync = true)
    (valid : ∀ id ∈ cfg.barrierMap b, 0 ≤ id ∧ id < cfg.numThreads) :
    RoundsOrdered cfg a.history (.released b) := by
  intro id member
  obtain ⟨nonneg, bound⟩ := valid id member
  obtain ⟨u, rfl⟩ := Int.eq_ofNat_of_zero_le nonneg
  have subset := Finset.sdiff_eq_empty_iff_subset.mp (of_decide_eq_true complete)
  obtain ⟨_, blocked, _⟩ := safe.waiting b u (subset member)
  have level := safe.level b u member fun both => blocked both.1
  exact ⟨u, by omega, rfl, level.symm⟩

theorem Call.other_ordered (h : Call cfg t addr Ended y type sync visit seen)
    (other : type ≠ .barrierWt) (before : List Obs) : ∀ x ∈ seen, RoundsOrdered cfg before x := by
  intro x member
  cases x with
  | retired u e => exact absurd rfl (h.seen_not_retired member u e)
  | released b =>
    have none := (h.other_barriers other).2.2 b
    exact absurd member (count_eq_zero.mp none)
  | _ => trivial

theorem Threads.Step.ordered (h : Threads.Step cfg a next)
    (conserved : ∀ t, retiredBy a.history t ++ a.todo t = cfg.trace t)
    (safe : Barrier.Safe cfg.members (a.barriers cfg))
    (before : Throughout (RoundsOrdered cfg) a.history) :
    Throughout (RoundsOrdered cfg) next.history := by
  have other : ∀ history t e, (∀ b, e.kind ≠ .pthreadApi .barrierWt b) →
      RoundsOrdered cfg history (.retired t e) :=
    fun history t e other b wait => absurd wait (other b)
  cases h with
  | work simulated head kind =>
    exact throughout_snoc.mpr ⟨before, other _ _ _ fun b => kind _ b⟩
  | send => exact throughout_snoc.mpr ⟨before, trivial⟩
  | @visit t e rest type addr sync visit seen simulated head kind started call =>
    by_cases wait : type = .barrierWt
    · subst wait
      cases call with
      | barrierPass released =>
        have last := pass_ordered safe before head kind released
        simpa [Threads.visited, Threads.retire] using throughout_snoc.mpr ⟨before, last⟩
      | barrierArrive blocked missing => exact throughout_snoc.mpr ⟨before, trivial⟩
      | barrierRelease blocked complete valid =>
        have arrived := steps_invariant _ (fun _ _ step safe => step.safe safe)
          (arrive_barriers (conserved t) head kind blocked) safe
        have last := release_ordered arrived complete valid
        have first : Throughout (RoundsOrdered cfg) (a.history ++ [.arrived t addr]) :=
          throughout_snoc.mpr ⟨before, trivial⟩
        simpa [Threads.visited] using throughout_snoc.mpr ⟨first, last⟩
      | condition which => rcases which with same | same <;> cases same
    · have seenBefore := before.append fun before => call.other_ordered wait before
      have retired : ∀ history, RoundsOrdered cfg history (.retired t e) := by
        refine fun history => other history t e fun b same => wait ?_
        rw [kind] at same
        cases same
        rfl
      cases visit with
      | waiting => exact seenBefore
      | skipped | consumed => exact throughout_snoc.mpr ⟨seenBefore, retired _⟩

/-- A barrier of the thread was released, and the thread has not come to a barrier since. -/
def ReleasedSince (cfg : Config) (history : List Obs) (u : Nat) : Prop :=
  Since (fun x => ∃ b, x = .released b ∧ (u : Int) ∈ cfg.barrierMap b)
    (fun x => ∃ b, x = .arrived u b) history

theorem Call.runs (h : Call cfg t addr Ended y type sync visit seen)
    (before : ReleasedSince cfg history u → y.threadStartedMap u = true)
    (since : ReleasedSince cfg (history ++ seen) u) : sync.threadStartedMap u = true := by
  unfold ReleasedSince at before since
  have other : ∀ x : Obs, (∀ b, x ≠ .released b) → Since (fun x => ∃ b, x = .released b ∧
      (u : Int) ∈ cfg.barrierMap b) (fun x => ∃ b, x = .arrived u b) (history ++ [x]) →
      y.threadStartedMap u = true := by
    intro x noRelease since
    rcases since_snoc.mp since with ⟨b, released, _⟩ | ⟨earlier, _⟩
    · exact absurd released (noRelease b)
    · exact before earlier
  cases h with
  | create =>
    have running : y.threadStartedMap u = true := by
      split at since
      · exact before (by simpa using since)
      · exact other _ (by simp) since
    simp only [Function.update_apply, running, ite_self]
  | join =>
    split at since
    · exact other _ (by simp) since
    · exact before (by simpa using since)
  | joinBusy =>
    split at since
    · rw [← singleton_append, ← append_assoc] at since
      rcases since_snoc.mp since with ⟨b, released, _⟩ | ⟨earlier, _⟩
      · cases released
      · exact other _ (by simp) earlier
    · exact other _ (by simp) since
  | barrierArrive blocked missing =>
    rcases since_snoc.mp since with ⟨b, released, _⟩ | ⟨earlier, notHere⟩
    · cases released
    · have different : u ≠ t := by
        rintro rfl
        exact notHere ⟨addr, rfl⟩
      have running := before earlier
      unfold Sync.arrive
      split
      · exact running
      · simpa [different] using running
  | barrierRelease blocked complete valid =>
    by_cases member : (u : Int) ∈ cfg.barrierMap addr
    · simp [Sync.release, member]
    · rw [← singleton_append, ← append_assoc] at since
      rcases since_snoc.mp since with ⟨b, released, inside⟩ | ⟨earlier, _⟩
      · cases released
        exact absurd inside member
      · rcases since_snoc.mp earlier with ⟨b, released, _⟩ | ⟨earlier, notHere⟩
        · cases released
        · have different : u ≠ t := by
            rintro rfl
            exact notHere ⟨addr, rfl⟩
          have running := before earlier
          simp only [Sync.release, member, if_false]
          unfold Sync.arrive
          split
          · exact running
          · simpa [different] using running
  | _ => exact before (by simpa using since)

theorem Threads.Step.runs (h : Threads.Step cfg a next)
    (before : ReleasedSince cfg a.history u → a.sync.threadStartedMap u = true)
    (since : ReleasedSince cfg next.history u) : next.sync.threadStartedMap u = true := by
  have retired : ∀ history t e, ReleasedSince cfg (history ++ [.retired t e]) u →
      ReleasedSince cfg history u := by
    intro history t e since
    rcases since_snoc.mp since with ⟨b, released, _⟩ | ⟨earlier, _⟩
    · cases released
    · exact earlier
  cases h with
  | work => exact before (retired _ _ _ since)
  | send =>
    rcases since_snoc.mp since with ⟨b, released, _⟩ | ⟨earlier, _⟩
    · cases released
    · exact before earlier
  | @visit _ _ _ _ _ _ visit _ _ _ _ _ call =>
    cases visit with
    | waiting => exact call.runs before since
    | skipped | consumed => exact call.runs before (retired _ _ _ since)

variable {allowed : State → Action → Prop} {s : State}

theorem reachable_barriers (reach : ReachableVia (replay cfg) allowed s) :
    Barrier.Safe cfg.members ((s.threads cfg).barriers cfg) ∧
      Throughout (RoundsOrdered cfg) s.history := by
  refine (steps_invariant (fun a => (∀ t, retiredBy a.history t ++ a.todo t = cfg.trace t) ∧
    Barrier.Safe cfg.members (a.barriers cfg) ∧ Throughout (RoundsOrdered cfg) a.history) ?_
      (reachable_threads reach) ⟨start_conserves cfg, start_barriers cfg, throughout_nil⟩).2
  rintro a next step ⟨conserved, safe, ordered⟩
  refine ⟨fun t => (step.conserves t).trans (conserved t), ?_, step.ordered conserved safe ordered⟩
  exact steps_invariant _ (fun _ _ moved safe => moved.safe safe) (step.barriers conserved) safe

theorem reachable_runs
    (reach : ReachableVia (replay cfg) allowed s) (since : ReleasedSince cfg s.history u) :
    s.threadStartedMap u = true := by
  refine steps_invariant (fun a => ReleasedSince cfg a.history u → a.sync.threadStartedMap u = true)
    (fun a next step before => step.runs before) (reachable_threads reach) ?_ since
  intro none
  exact absurd none not_since_nil

def State.AtBarrier (s : State) (t b : Nat) : Prop :=
  ∃ e rest, s.eventMap t = e :: rest ∧ e.kind = .pthreadApi .barrierWt b

theorem atBarrier_iff (fed : Fed cfg s) (simulated : t < cfg.numThreads) :
    ((s.threads cfg).barriers cfg).next t = some b ↔ s.AtBarrier t b := by
  cases queue : s.eventMap t with
  | nil => simp [Threads.barriers, (fed.todo_eq_nil simulated).mpr queue, State.AtBarrier, queue]
  | cons e rest =>
    obtain ⟨later, next⟩ := todo_head cfg queue
    simp [Threads.barriers, next, State.AtBarrier, queue, EventKind.barrier?_eq_some]

def barrierConfig : Config where
  ruby := .small
  numCpus := 2
  numThreads := 2
  masterWakeupFrequency := 2
  addresstoIdMap addr := if addr = 7 then 1 else 0
  barrierMap addr := if addr = 9 then {0, 1} else ∅
  traceFile t :=
    if t = 0 then ["1,1,pth_ty:3 ^ 7".toList, "2,1,pth_ty:5 ^ 9".toList]
    else if t = 1 then ["1,2,pth_ty:5 ^ 9".toList] else []

end SynchroTrace.Replay
