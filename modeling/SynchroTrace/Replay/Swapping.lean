import SynchroTrace.Replay.Barriers
import SynchroTrace.Replay.Locks
import SynchroTrace.Replay.Stranding

namespace SynchroTrace.Replay
open Outcome Transition List Option

variable {cfg : Config} {s next : State}

theorem Change.rotates {p : Nat} (h : Change cfg p s next) (q : Nat) :
    next.threadMap q ~r s.threadMap q := by
  cases h with
  | rotate i =>
    by_cases same : q = p
    · simp [moveThreadToHead, same]
    · simp [moveThreadToHead, same, IsRotated.refl]
  | clock | startEvent | stop | coreEvents | answered | create | recheck => rfl
  | replenish =>
    unfold State.replenish
    split <;> rfl
  | send accept => cases accept <;> rfl
  | work | respond =>
    rw [(Kept.leave cfg _ _).threads]
    rfl
  | visit =>
    rw [(Kept.afterVisit cfg _ _ _ _ _ _).threads]
    rfl

theorem reachable_rotated {allowed : State → Action → Prop}
    (reach : ReachableVia (replay cfg) allowed s) (p : Nat) :
    s.threadMap p ~r (List.range cfg.numThreads).filter (· % cfg.numMapped = p) := by
  rw [← initialThreadMapping_eq]
  exact reachable_of_blank (fun s => s.threadMap p ~r initialThreadMapping cfg p) (.refl _)
    (fun _ _ _ _ change before => (change.rotates p).trans before) reach

theorem reachable_distinct {allowed : State → Action → Prop}
    (reach : ReachableVia (replay cfg) allowed s) (p : Nat) : (s.threadMap p).Nodup := by
  rw [(reachable_rotated reach p).nodup_iff]
  exact nodup_range.filter _

theorem acceptsThread_started {t : Nat}
    (h : acceptsThread cfg s t = .ok true) : s.threadStartedMap t = true := by
  unfold acceptsThread at h
  split at h
  · cases h
  · rename_i started
    simpa using started

theorem firstAccepted_some {threads : List Nat} {i : Nat}
    {found : Option Nat} (h : firstAccepted cfg s threads i = .ok found)
    (ready : ∃ u ∈ threads, acceptsThread cfg s u = .ok true) :
    ∃ k < threads.length, found = some (i + k) := by
  induction threads generalizing i with
  | nil =>
    obtain ⟨u, none, _⟩ := ready
    cases none
  | cons t rest ih =>
    obtain ⟨accepted, first, h⟩ := bind_ok h
    cases accepted with
    | true => exact ⟨0, by simp, pure_ok h⟩
    | false =>
      obtain ⟨u, member, accepts⟩ := ready
      have later : u ∈ rest := by
        rcases mem_cons.mp member with rfl | later
        · rw [first] at accepts
          cases accepts
        · exact later
      obtain ⟨k, inside, rfl⟩ := ih h ⟨u, later, accepts⟩
      exact ⟨k + 1, by simpa using inside, by rw [Nat.add_assoc, Nat.add_comm 1]⟩

theorem swapThreads_moves {p t : Nat} {others : List Nat} (threads : s.threadMap p = t :: others)
    (ready : ∃ u ∈ others, acceptsThread cfg s u = .ok true) (h : swapThreads cfg p s = .ok next) :
    ∃ u ∈ others, (next.threadMap p).head? = some u := by
  unfold swapThreads at h
  obtain ⟨found, search, h⟩ := bind_ok h
  rw [threads, tail_cons] at search
  obtain ⟨k, inside, rfl⟩ := firstAccepted_some search ready
  have same := pure_ok h
  subst same
  refine ⟨others[k], getElem_mem inside, ?_⟩
  simp only [moveThreadToHead, Function.update_self, threads]
  rw [List.head?_rotate (by simp; omega)]
  simp [Nat.add_comm 1, inside]

structure Alike (t : Nat) (s next : State) : Prop where
  threads : next.threadMap = s.threadMap
  heads : ∀ u, (next.eventMap u).head?.map STEvent.toTraceEvent =
    (s.eventMap u).head?.map STEvent.toTraceEvent
  mutex : next.threadMutexMap = s.threadMutexMap
  started : ∀ u, u ≠ t → next.threadStartedMap u = s.threadStartedMap u

section Alike

variable {cfg : Config} {p t : Nat} {s middle next : State} {e : STEvent} {rest : List STEvent}

theorem Alike.trans (first : Alike t s middle) (second : Alike t middle next) : Alike t s next where
  threads := second.threads.trans first.threads
  heads u := (second.heads u).trans (first.heads u)
  mutex := second.mutex.trans first.mutex
  started u other := (second.started u other).trans (first.started u other)

theorem Alike.setSubEvents (queue : s.eventMap t = e :: rest) (subs : List SubEvent) :
    Alike t s (s.setSubEvents t e rest subs) := by
  refine ⟨rfl, fun u => ?_, rfl, fun _ _ => rfl⟩
  by_cases same : u = t
  · subst same
    simp [State.setSubEvents, queue]
  · simp [State.setSubEvents, same]

theorem Alike.scheduled (h : Scheduled p s next) : Alike t s next := by
  obtain ⟨events, rfl, _⟩ := h
  exact ⟨rfl, fun _ => rfl, rfl, fun _ _ => rfl⟩

theorem createSubEventsOf_alike {rand : Nat → Nat}
    (h : createSubEventsOf cfg p t rand s = .ok next) : Alike t s next := by
  rcases createSubEventsOf_ok h with ⟨rfl, _⟩ | ⟨e, rest, top, more, created⟩
  · exact ⟨rfl, fun _ => rfl, rfl, fun _ _ => rfl⟩
  · exact (Alike.setSubEvents created.queue _).trans (.scheduled created.scheduled)

theorem Alike.queues (h : Alike t s next) (u : Nat) : (s.eventMap u = [] ∧ next.eventMap u = []) ∨
      ∃ e rest e' rest', s.eventMap u = e :: rest ∧ next.eventMap u = e' :: rest' ∧
        e'.toTraceEvent = e.toTraceEvent := by
  have heads := h.heads u
  cases before : s.eventMap u with
  | nil =>
    rw [before, List.head?_nil, map_none, map_eq_none_iff, List.head?_eq_none_iff] at heads
    exact .inl ⟨rfl, heads⟩
  | cons e rest =>
    rw [before, List.head?_cons, map_some, map_eq_some_iff] at heads
    obtain ⟨e', now, same⟩ := heads
    obtain ⟨rest', now⟩ := List.head?_eq_some_iff.mp now
    exact .inr ⟨e, rest, e', rest', rfl, now, same⟩

theorem Alike.checkCommDependency (h : Alike t s next) (dep : SharedInfo) :
    checkCommDependency cfg next dep = checkCommDependency cfg s dep := by
  unfold Replay.checkCommDependency
  rcases h.queues dep.prodThreadID with ⟨before, now⟩ | ⟨e, rest, e', rest', before, now, same⟩
  · rw [before, now]
  · rw [before, now]
    simp only [same]

theorem Alike.acceptsThread (h : Alike t s next) {u : Nat} (other : u ≠ t) :
    acceptsThread cfg next u = acceptsThread cfg s u := by
  have deps : ∀ requests, checkAllCommDependencies cfg next requests =
      checkAllCommDependencies cfg s requests := by
    intro requests
    induction requests with
    | nil => rfl
    | cons dep rest ih => rw [checkAllCommDependencies, checkAllCommDependencies,
        h.checkCommDependency, ih]
  unfold Replay.acceptsThread
  rw [h.started u other, h.mutex]
  rcases h.queues u with ⟨before, now⟩ | ⟨e, rest, e', rest', before, now, same⟩
  · rw [before, now]
  · rw [before, now]
    simp only [same, deps]

end Alike

/-- The head event `e` of thread `t` cannot be completed at the given time: a lock of a mutex that
is held, by a thread not marked as holding one; a join of a thread that has not ended; or a barrier
wait that has stopped the thread, or that does not complete the barrier. -/
inductive GivesWay (cfg : Config) (s : State) (t time : Nat) (e : STEvent) : Prop where
  | mutex {addr : Nat} (kind : e.kind = .pthreadApi .mutexLk addr) (held : addr ∈ s.mutexLocks)
      (unmarked : s.threadMutexMap t = false)
  | join {addr u : Nat} (kind : e.kind = .pthreadApi .join addr)
      (joined : cfg.threadIndex (cfg.addresstoIdMap addr) = .ok u) (running : s.eventMap u ≠ [])
  | stopped {addr : Nat} (kind : e.kind = .pthreadApi .barrierWt addr)
      (stopped : s.threadStartedMap t = false)
  | arrives {addr : Nat} {top : SubEvent} {more : List SubEvent}
      (kind : e.kind = .pthreadApi .barrierWt addr) (subs : e.subEventList = some (top :: more))
      (due : top.triggerTime ≤ time) (unreleased : s.threadContMap t = false)
      (new : (t : Int) ∉ s.threadWaitMap addr)
      (missing : checkBarriers cfg addr (s.toSync.arrive t addr) = false)

/-- `swapStalledThreads` lets another thread in, going by the head event `e` of thread `t`. -/
def MakesRoom (cfg : Config) (s : State) (t : Nat) (e : TraceEvent) : Prop :=
  s.threadStartedMap t = false ∨
    (∃ addr, e.kind = .pthreadApi .mutexLk addr ∧ s.threadMutexMap t = false) ∨
    ∃ addr u, e.kind = .pthreadApi .join addr ∧ cfg.threadIndex (cfg.addresstoIdMap addr) = .ok u

section GivesWay

variable {cfg : Config} {p t : Nat} {others : List Nat} {s next : State} {e : STEvent}
  {rest : List STEvent} {accept : Bool}

theorem Alike.head (h : Alike t s next) (queue : s.eventMap t = e :: rest) :
    ∃ e' rest', next.eventMap t = e' :: rest' ∧ e'.toTraceEvent = e.toTraceEvent := by
  have heads := h.heads t
  rw [queue, List.head?_cons, map_some, map_eq_some_iff] at heads
  obtain ⟨e', now, same⟩ := heads
  obtain ⟨rest', now⟩ := List.head?_eq_some_iff.mp now
  exact ⟨e', rest', now, same⟩

theorem Swapped.moves (h : Swapped cfg p t others s next) (shape : Shape cfg s)
    (threads : s.threadMap p = t :: others) (distinct : t ∉ others)
    (queue : s.eventMap t = e :: rest) (room : MakesRoom cfg s t e.toTraceEvent)
    (ready : ∃ u ∈ others, acceptsThread cfg s u = .ok true) :
    ∃ u ∈ others, (next.threadMap p).head? = some u := by
  have several : others ≠ [] := by
    obtain ⟨u, member, _⟩ := ready
    exact ne_nil_of_mem member
  have keep : ∀ {middle next : State}, Scheduled p middle next →
      (∃ u ∈ others, (middle.threadMap p).head? = some u) →
      ∃ u ∈ others, (next.threadMap p).head? = some u := by
    rintro middle next ⟨events, rfl, _⟩ moved
    exact moved
  -- a started thread is only swapped out for its head event
  have stalls : ∀ {middle : State} {e' : STEvent}, Alike t s middle →
      e'.toTraceEvent = e.toTraceEvent → s.threadStartedMap t = true →
      stallsHead cfg middle e' = .ok true := by
    intro middle e' alike same started
    have owner : e'.threadID = t := (congrArg TraceEvent.threadID same).trans (shape.owner queue)
    have kindSame : e'.kind = e.kind := congrArg TraceEvent.kind same
    rcases room with stopped | ⟨addr, kind, unmarked⟩ | ⟨addr, u, kind, joined⟩
    · rw [started] at stopped
      cases stopped
    · simp [stallsHead, kindSame.trans kind, owner, alike.mutex, unmarked]
    · simp only [stallsHead, kindSame.trans kind, joined]
      rfl
  cases h with
  | alone single | aloneAtBarrier single => exact absurd single several
  | makeRoom _ _ swap scheduled =>
    refine keep scheduled (swapThreads_moves threads ready ?_)
    obtain ⟨u, member, accepts⟩ := ready
    have started := any_eq_true.mpr ⟨u, member, acceptsThread_started accepts⟩
    rwa [swapIfStarted, if_pos started] at swap
  | stay _ started created now busy =>
    have alike := createSubEventsOf_alike created
    obtain ⟨e', rest', now', same⟩ := alike.head queue
    rw [now] at now'
    cases now'
    rw [stalls alike same started] at busy
    cases busy
  | stalled _ _ created _ _ swapped =>
    have alike := createSubEventsOf_alike created
    obtain ⟨swappedState, swap, schedule⟩ := bind_ok swapped
    have front := (congrFun alike.threads p).trans threads
    refine keep (scheduleIfIdle_ok schedule) (swapThreads_moves front ?_ swap)
    · obtain ⟨u, member, accepts⟩ := ready
      refine ⟨u, member, ?_⟩
      rw [alike.acceptsThread (fun same => distinct (same ▸ member))]
      exact accepts

theorem Alike.refl (t : Nat) (s : State) : Alike t s s :=
  ⟨rfl, fun _ => rfl, rfl, fun _ _ => rfl⟩

theorem Call.waits {addr : Nat} {Ended : Nat → Prop} {y sync : Sync} {type : PthreadType}
    {seen : List Obs} (h : Call cfg t addr Ended y type sync .waiting seen)
    (noRelease : ∀ b, .released b ∉ seen) :
    sync.threadMutexMap = y.threadMutexMap ∧
      ∀ u, u ≠ t → sync.threadStartedMap u = y.threadStartedMap u := by
  cases h with
  | lockBusy | spinBusy | joinBusy => exact ⟨rfl, fun _ _ => rfl⟩
  | barrierArrive =>
    unfold Sync.arrive
    split
    · exact ⟨rfl, fun _ _ => rfl⟩
    · exact ⟨rfl, fun u other => Function.update_of_ne other ..⟩
  | barrierRelease => exact absurd (by simp) (noRelease addr)

theorem GivesWay.visit {type : PthreadType} {addr : Nat} {sync : Sync} {visit : Visit}
    {seen : List Obs} (way : GivesWay cfg s t s.curTick e) (started : s.threadStartedMap t = true)
    (kind : e.kind = .pthreadApi type addr)
    (call : Call cfg t addr (fun u => (s.eventMap u).isEmpty = true) s.toSync type sync visit seen) :
    visit = .waiting ∧ (∀ b, .released b ∉ seen) ∧ (sync.threadStartedMap t = false ∨
      type = .mutexLk ∧ s.threadMutexMap t = false ∨
      type = .join ∧ ∃ u, cfg.threadIndex (cfg.addresstoIdMap addr) = .ok u) := by
  cases way with
  | mutex same held unmarked =>
    rw [kind] at same
    cases same
    cases call with
    | lockBusy => exact ⟨rfl, by simp, Or.inr (Or.inl ⟨rfl, unmarked⟩)⟩
    | lock free => exact absurd held free
    | condition which => rcases which with same | same <;> cases same
  | join same joined running =>
    rw [kind] at same
    cases same
    cases call with
    | joinBusy =>
      refine ⟨rfl, fun b => ?_, Or.inr (Or.inr ⟨rfl, _, joined⟩)⟩
      split <;> simp
    | join joined' ended =>
      rw [joined] at joined'
      cases joined'
      exact absurd (List.isEmpty_iff.mp ended) running
    | condition which => rcases which with same | same <;> cases same
  | stopped _ stopped =>
    rw [started] at stopped
    cases stopped
  | arrives same _ _ unreleased new missing =>
    rw [kind] at same
    cases same
    cases call with
    | barrierPass released =>
      rw [unreleased] at released
      cases released
    | barrierArrive =>
      refine ⟨rfl, by simp, Or.inl ?_⟩
      simp [Sync.arrive, new]
    | barrierRelease _ complete =>
      rw [missing] at complete
      cases complete
    | condition which => rcases which with same | same <;> cases same

theorem GivesWay.progress (way : GivesWay cfg s t s.curTick e) (shape : Shape cfg s)
    (queue : s.eventMap t = e :: rest) (h : FrontProgressed cfg p t accept s next) :
    Alike t s next ∧ MakesRoom cfg next t e.toTraceEvent := by
  -- nothing happens: the thread is not started, or its event is not due
  have idle : (∀ top more, AtHead s t e rest top more →
      ¬ (top.triggerTime ≤ s.curTick ∧ top.msgTriggered = false) ∨ s.threadStartedMap t = false) →
      MakesRoom cfg s t e.toTraceEvent := by
    intro idle
    cases way with
    | mutex kind _ unmarked => exact Or.inr (Or.inl ⟨_, kind, unmarked⟩)
    | join kind joined => exact Or.inr (Or.inr ⟨_, _, kind, joined⟩)
    | stopped _ stopped => exact Or.inl stopped
    | arrives kind subs due =>
      have untriggered := (shape.pthread ⟨queue, subs⟩ kind).2.2
      rcases idle _ _ ⟨queue, subs⟩ with notDue | stopped
      · exact absurd ⟨due, untriggered⟩ notDue
      · exact Or.inl stopped
  cases h with
  | nothing none =>
    refine ⟨.refl t s, idle fun _ _ _ => Or.inr ?_⟩
    by_contra running
    rw [none (by simpa using running)] at queue
    cases queue
  | later head notDue scheduled =>
    obtain ⟨events, rfl, _⟩ := scheduled
    refine ⟨⟨rfl, fun _ => rfl, rfl, fun _ _ => rfl⟩, idle fun top more other => Or.inl ?_⟩
    obtain ⟨_, _, rfl, _⟩ := AtHead.unique head other
    exact notDue
  | @due _ e' rest' top more started head due untriggered progressed =>
    have same := head.queue.symm.trans queue
    cases same
    have pthread : ∃ type addr, e.kind = .pthreadApi type addr := by
      cases way with
      | mutex kind | join kind | stopped kind | arrives kind => exact ⟨_, _, kind⟩
    obtain ⟨type, addr, kind⟩ := pthread
    cases progressed with
    | recheck _ other =>
      rw [kind] at other
      cases other
    | sent message => exact absurd kind (shape.kind_of_message head message type addr)
    | work _ other => exact absurd kind (other type addr)
    | @visit _ type' addr' sync visit seen message other visited scheduled stays =>
      rw [kind] at other
      cases other
      rw [shape.owner queue] at visited
      have call := visitPthread_call visited
      obtain ⟨rfl, noRelease, room⟩ := way.visit started kind call
      obtain ⟨mutex, others⟩ := call.waits noRelease
      obtain ⟨events, rfl, _⟩ := stays rfl
      refine ⟨⟨rfl, (Alike.setSubEvents queue _).heads, mutex, others⟩, ?_⟩
      rcases room with stopped | ⟨rfl, unmarked⟩ | ⟨rfl, u, joined⟩
      · exact Or.inl stopped
      · exact Or.inr (Or.inl ⟨addr, kind, (congrFun mutex t).trans unmarked⟩)
      · exact Or.inr (Or.inr ⟨addr, u, kind, joined⟩)

theorem GivesWay.create {rand : Nat → Nat} (way : GivesWay cfg s t s.curTick e)
    (queue : s.eventMap t = e :: rest) (h : createSubEventsOf cfg p t rand s = .ok next) :
    ∃ e' rest', next.eventMap t = e' :: rest' ∧ e'.toTraceEvent = e.toTraceEvent ∧
      GivesWay cfg next t next.curTick e' := by
  have alike := createSubEventsOf_alike h
  have sync := (createSubEventsOf_sync h).1
  obtain ⟨e', rest', now, same⟩ := alike.head queue
  have kindSame : e'.kind = e.kind := congrArg TraceEvent.kind same
  refine ⟨e', rest', now, same, ?_⟩
  cases way with
  | mutex kind held unmarked =>
    exact .mutex (kindSame.trans kind) (by rw [sync]; exact held) (by rw [sync]; exact unmarked)
  | @join _ u kind joined running =>
    refine .join (kindSame.trans kind) joined fun ended => running ?_
    have heads := alike.heads u
    rw [ended, List.head?_nil, map_none, eq_comm, map_eq_none_iff, List.head?_eq_none_iff] at heads
    exact heads
  | stopped kind stopped =>
    exact .stopped (kindSame.trans kind) (by rw [sync]; exact stopped)
  | arrives kind subs due unreleased new missing =>
    have unchanged := createSubEventsOf_again h ⟨queue, subs⟩
    subst unchanged
    rw [queue] at now
    cases now
    exact .arrives kind subs due unreleased new missing

end GivesWay

def sharedBarrierConfig : Config :=
  { barrierConfig with numCpus := 1, valid := ⟨by decide, barrierConfig.valid.2⟩ }

/-- Threads 0 and 2 on core 0, thread 1 on core 1. While thread 0, which has locked mutex 11, waits
for thread 1 to end, thread 2 takes lock 12; then thread 0 asks for it. -/
def nestedConfig (lock : LockKind) : Config where
  ruby := .small
  numCpus := 2
  numThreads := 3
  masterWakeupFrequency := 3
  addresstoIdMap addr := if addr = 7 then 1 else if addr = 8 then 2 else 0
  traceFile t :=
    let code := match lock with
      | .mutex => "1"
      | .spin => "8"
    if t = 0 then ["1,1,pth_ty:1 ^ 11".toList, "2,1,pth_ty:3 ^ 7".toList,
      "3,1,pth_ty:3 ^ 8".toList, "4,1,pth_ty:4 ^ 7".toList,
      ("5,1,pth_ty:" ++ code ++ " ^ 12").toList]
    else if t = 1 then ["1,2,1,0,0,0".toList]
    else if t = 2 then [("1,3,pth_ty:" ++ code ++ " ^ 12").toList, "2,3,pth_ty:4 ^ 7".toList]
    else []
  valid := by cases lock <;> decide

def nestedScript : LockKind → List Turn
  | .mutex => [.master, .core 0 true, .core 0 true, .core 0 true, .master, .core 0 true,
      .core 0 true, .core 1 true, .core 0 true, .core 1 true, .master, .core 0 true]
  | .spin => [.master, .core 0 true, .core 0 true, .core 0 true, .master, .core 0 true,
      .core 0 true, .core 1 true, .core 0 true, .core 1 true, .master]

/-- Thread 0, in front, asks for lock 12. Thread 2 of the same core has taken it and is ready. -/
def Contended (lock : LockKind) (s : State) : Prop :=
  s.threadMap 0 = [0, 2] ∧
    (s.eventMap 0).head?.map (·.kind) = some (.pthreadApi lock.lockType 12) ∧
    12 ∈ lock.table s.toSync ∧ s.retiredEvents 2 = [⟨1, 2, .pthreadApi lock.lockType 12⟩] ∧
    (acceptsThread (nestedConfig lock) s 2).toOption = some true

instance (lock : LockKind) (s : State) : Decidable (Contended lock s) :=
  inferInstanceAs (Decidable (_ ∧ _))

def WaiterStays (lock : LockKind) : Prop :=
  ∃ s next, Reachable (replay (nestedConfig lock)) s ∧ Contended lock s ∧
    (replay (nestedConfig lock)).step s (.core 0 (fun _ _ => 0) true) next ∧
    next.threadMap 0 = [0, 2]

end SynchroTrace.Replay
