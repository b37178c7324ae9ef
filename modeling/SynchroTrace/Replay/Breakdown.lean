import Mathlib.Algebra.BigOperators.Group.List.Basic
import Mathlib.Tactic.Ring
import SynchroTrace.Lib.Outcome
import SynchroTrace.Replay.SubEvents

namespace SynchroTrace.Replay
open Outcome List Nat

def SubEvent.sends (type : DtReqType) (se : SubEvent) : Bool := se.msg.any (·.msgType = type)

def MemAction.reqType : MemAction → DtReqType
  | .localRead => .read
  | .localWrite => .write

variable {comp : CompInfo} {capacity : Int} {reads writes : Nat} {selector : MemAction}
  {subs : List SubEvent} {rand : Nat → Nat} {kind : EventKind}

def CompInfo.requests (comp : CompInfo) : MemAction → List SharedInfo
  | .localRead => comp.compReadEvents
  | .localWrite => comp.compWriteEvents

theorem cyclicRequest_ok {requests : List SharedInfo} {i : Nat} {request : SharedInfo}
    (h : cyclicRequest requests i = .ok request) : requests ≠ [] := by
  rintro rfl
  cases h

theorem memSubEvents_succ {n : Nat}
    (h : memSubEvents comp capacity (n + 1) reads writes selector = .ok subs) :
    ∃ (action : MemAction) (request : SharedInfo) (rest : List SubEvent),
      memTypeToInsert reads writes comp.maxLocReads comp.maxLocWrites selector = some action ∧
      ((reads + writes : Nat) < capacity ∧ comp.requests action ≠ []) ∧
      memSubEvents comp capacity n (reads + if action = .localRead then 1 else 0)
        (writes + if action = .localWrite then 1 else 0) selector.flip = .ok rest ∧
      subs = { numIOPS := comp.compIOPS / comp.totalMemOps
               numFLOPS := comp.compFLOPS / comp.totalMemOps
               numMemOps := 0, msg := some ⟨action.reqType, request⟩ } :: rest := by
  unfold memSubEvents at h
  split at h
  · cases h
  · rename_i action inserted
    obtain ⟨se, made, h⟩ := bind_ok h
    split at h
    · cases h
    · rename_i room
      obtain ⟨rest, others, h⟩ := bind_ok h
      have list := pure_ok h
      cases action with
      | localRead =>
        obtain ⟨request, found, made⟩ := bind_ok made
        exact ⟨.localRead, request, rest, inserted, ⟨by omega, cyclicRequest_ok found⟩, others,
          by rw [list, pure_ok made]; rfl⟩
      | localWrite =>
        obtain ⟨request, found, made⟩ := bind_ok made
        exact ⟨.localWrite, request, rest, inserted, ⟨by omega, cyclicRequest_ok found⟩, others,
          by rw [list, pure_ok made]; rfl⟩

theorem memTypeToInsert_some {maxReads maxWrites : Nat} {action : MemAction}
    (h : memTypeToInsert reads writes maxReads maxWrites selector = some action) :
    (action = .localRead ∧ reads < maxReads) ∨
      (action = .localWrite ∧ writes < maxWrites % 2 ^ 32) := by
  unfold memTypeToInsert at h
  cases selector <;> simp only at h <;> split at h <;> try split at h
  all_goals cases h
  all_goals simp_all

section
variable {n : Nat} (h : memSubEvents comp capacity n reads writes selector = .ok subs)
include h

theorem memSubEvents_length : subs.length = n := by
  induction n generalizing reads writes selector subs with
  | zero =>
    cases h
    rfl
  | succ n ih =>
    obtain ⟨_, _, rest, _, _, others, rfl⟩ := memSubEvents_succ h
    rw [length_cons, ih others]

theorem memSubEvents_shares :
    ∀ se ∈ subs, se.msgTriggered = false ∧ se.numIOPS = comp.compIOPS / comp.totalMemOps ∧
      se.numFLOPS = comp.compFLOPS / comp.totalMemOps := by
  induction n generalizing reads writes selector subs with
  | zero =>
    cases h
    simp
  | succ n ih =>
    obtain ⟨_, _, rest, _, _, others, rfl⟩ := memSubEvents_succ h
    intro se member
    rcases mem_cons.mp member with rfl | later
    · exact ⟨rfl, rfl, rfl⟩
    · exact ih others se later

theorem memSubEvents_requests (action : MemAction)
    (some : 0 < subs.countP (·.sends action.reqType)) : comp.requests action ≠ [] := by
  induction n generalizing reads writes selector subs with
  | zero =>
    cases h
    cases some
  | succ n ih =>
    obtain ⟨made, _, rest, _, ⟨_, nonempty⟩, others, rfl⟩ := memSubEvents_succ h
    by_cases here : made = action
    · exact here ▸ nonempty
    · refine ih others ?_
      rwa [countP_cons_of_neg] at some
      cases made <;> cases action <;> simp_all [SubEvent.sends, MemAction.reqType]

theorem memSubEvents_capacity : n = 0 ∨ (reads + writes + n : Nat) ≤ capacity := by
  induction n generalizing reads writes selector subs with
  | zero => exact Or.inl rfl
  | succ n ih =>
    obtain ⟨action, _, rest, _, room, others, _⟩ := memSubEvents_succ h
    right
    rcases ih others with last | fits
    · omega
    · cases action <;> simp only [if_true, if_false, reduceCtorEq] at fits <;> omega

end

theorem memSubEvents_counts {n : Nat} (fewReads : reads ≤ comp.maxLocReads)
    (fewWrites : writes ≤ comp.maxLocWrites)
    (h : memSubEvents comp capacity n reads writes selector = .ok subs) :
    reads + subs.countP (·.sends .read) ≤ comp.maxLocReads ∧
      writes + subs.countP (·.sends .write) ≤ comp.maxLocWrites ∧
      subs.countP (·.sends .read) + subs.countP (·.sends .write) = n := by
  induction n generalizing reads writes selector subs with
  | zero =>
    cases h
    simpa using ⟨fewReads, fewWrites⟩
  | succ n ih =>
    obtain ⟨action, request, rest, inserted, _, others, rfl⟩ := memSubEvents_succ h
    have small := mod_le comp.maxLocWrites (2 ^ 32)
    rcases memTypeToInsert_some inserted with ⟨rfl, left⟩ | ⟨rfl, left⟩
    · have counts := ih (by simp; omega) (by simpa using fewWrites) others
      simp [SubEvent.sends, MemAction.reqType] at counts ⊢
      omega
    · have counts := ih (by simpa using fewReads) (by simp; omega) others
      simp [SubEvent.sends, MemAction.reqType] at counts ⊢
      omega

variable {α β : Type*}

theorem map_modify_of_same {f : α → α} {g : α → β} (same : ∀ a, g (f a) = g a)
    (items : List α) (i : Nat) : (items.modify i f).map g = items.map g := by
  induction items generalizing i with
  | nil => simp
  | cons item rest ih => cases i <;> simp [same, ih]

theorem sum_modify_succ {f : α → α} {g : α → Nat} (more : ∀ a, g (f a) = g a + 1)
    {items : List α} {i : Nat} (inside : i < items.length) :
    ((items.modify i f).map g).sum = (items.map g).sum + 1 := by
  induction items generalizing i with
  | nil => simp at inside
  | cons item rest ih =>
    cases i with
    | zero =>
      simp only [modify_zero_cons, map_cons, sum_cons, more]
      omega
    | succ i =>
      have rest := ih (lt_of_succ_lt_succ inside)
      simp only [modify_succ_cons, map_cons, sum_cons, rest]
      omega

variable (bump : SubEvent → SubEvent)

theorem spread_map {g : SubEvent → β}
    (same : ∀ se, g (bump se) = g se) (total : Nat) (rand : Nat → Nat) (n : Nat)
    (subs : List SubEvent) : (spread bump total rand n subs).map g = subs.map g := by
  induction n generalizing subs with
  | zero => rfl
  | succ n ih => rw [spread, ih, map_modify_of_same same]

theorem spread_length (total : Nat) (rand : Nat → Nat) (n : Nat)
    (subs : List SubEvent) : (spread bump total rand n subs).length = subs.length := by
  induction n generalizing subs with
  | zero => rfl
  | succ n ih => rw [spread, ih, length_modify]

theorem spread_sum {g : SubEvent → Nat}
    (more : ∀ se, g (bump se) = g se + 1) (some : 0 < subs.length) (rand : Nat → Nat) (n : Nat) :
    ((spread bump subs.length rand n subs).map g).sum = (subs.map g).sum + n := by
  suffices every : ∀ list : List SubEvent, list.length = subs.length →
      ((spread bump subs.length rand n list).map g).sum = (list.map g).sum + n from every subs rfl
  induction n with
  | zero => simp [spread]
  | succ n ih =>
    intro list same
    have inside : rand n % subs.length < list.length := by
      rw [same]
      exact mod_lt _ some
    rw [spread, ih _ (by rw [length_modify, same]), sum_modify_succ more inside]
    omega

/-- The statistics of a thread that its trace determines. -/
inductive Tally where
  | iops | flops | localReads | localWrites | sharedReads
  deriving DecidableEq, Repr

def Tally.ofEvent : Tally → EventKind → Nat
  | .iops, .computation comp => comp.compIOPS
  | .flops, .computation comp => comp.compFLOPS
  | .localReads, .computation comp => max comp.compMemReads comp.compReadEvents.length
  | .localWrites, .computation comp => max comp.compMemWrites comp.compWriteEvents.length
  | .sharedReads, .communication requests => requests.length
  | _, _ => 0

def Tally.ofSub : Tally → EventKind → SubEvent → Nat
  | .iops, _, se => se.numIOPS
  | .flops, _, se => se.numFLOPS
  | .sharedReads, .communication _, se => if se.containsMsg then 1 else 0
  | .localReads, .computation _, se => if se.sends .read then 1 else 0
  | .localWrites, .computation _, se => if se.sends .write then 1 else 0
  | _, _, _ => 0

/-- The number of memory operations of a computation event is an `unsigned long`. -/
def CompInfo.Fits (comp : CompInfo) : Prop := comp.maxLocReads + comp.maxLocWrites < 2 ^ 64

instance (comp : CompInfo) : Decidable comp.Fits := inferInstanceAs (Decidable (_ < _))

theorem CompInfo.maxLocReads_eq (comp : CompInfo) :
    comp.maxLocReads = max comp.compMemReads comp.compReadEvents.length := by
  unfold CompInfo.maxLocReads
  split <;> omega

theorem CompInfo.maxLocWrites_eq (comp : CompInfo) :
    comp.maxLocWrites = max comp.compMemWrites comp.compWriteEvents.length := by
  unfold CompInfo.maxLocWrites
  split <;> omega

theorem newDeque_lt {size : Nat} (h : newDeque size = .ok capacity) : capacity < 2 ^ 31 := by
  unfold newDeque at h
  split at h
  · cases h
  · rw [← Except.ok.inj h]
    exact Int.bmod_lt (by decide)

/-- The sub-events of the loop with the operations left over by the division. -/
def handOut (comp : CompInfo) (loop : List SubEvent) (rand : Nat → Nat) : List SubEvent :=
  spread SubEvent.addFLOP loop.length (fun j => rand (comp.compIOPS % loop.length + j))
    (comp.compFLOPS % loop.length)
    (spread SubEvent.addIOP loop.length rand (comp.compIOPS % loop.length) loop)

variable {loop : List SubEvent}

theorem compSubEvents_eq (busy : comp.totalMemOps ≠ 0)
    (size : comp.totalMemOps < 2 ^ 31) (deque : newDeque comp.totalMemOps = .ok capacity)
    (pushed : memSubEvents comp capacity comp.totalMemOps 0 0 .localWrite = .ok loop)
    (rand : Nat → Nat) : compSubEvents comp rand = .ok (handOut comp loop rand) := by
  have iopsLeft := mod_lt comp.compIOPS (Nat.pos_of_ne_zero busy)
  have flopsLeft := mod_lt comp.compFLOPS (Nat.pos_of_ne_zero busy)
  unfold compSubEvents
  rw [if_neg busy, deque]
  dsimp only [bind, Except.bind]
  rw [pushed]
  dsimp only
  rw [mod_eq_of_lt (show comp.compIOPS % comp.totalMemOps < 2 ^ 32 by omega),
    mod_eq_of_lt (show comp.compFLOPS % comp.totalMemOps < 2 ^ 32 by omega), handOut,
    memSubEvents_length pushed]
  rfl

/-- The sub-events of the loop, with the operations left over handed out. The deque's size is an
`int`, so there are fewer than `2 ^ 31`. -/
theorem compSubEvents_mem (busy : comp.totalMemOps ≠ 0) (h : compSubEvents comp rand = .ok subs) :
    ∃ loop : List SubEvent, loop.length = comp.totalMemOps ∧ comp.totalMemOps < 2 ^ 31 ∧
      (∀ se ∈ loop, se.msgTriggered = false ∧ se.numIOPS = comp.compIOPS / comp.totalMemOps ∧
        se.numFLOPS = comp.compFLOPS / comp.totalMemOps) ∧
      loop.countP (·.sends .read) ≤ comp.maxLocReads ∧
      loop.countP (·.sends .write) ≤ comp.maxLocWrites ∧
      loop.countP (·.sends .read) + loop.countP (·.sends .write) = comp.totalMemOps ∧
      subs = handOut comp loop rand ∧
      ∀ rand', compSubEvents comp rand' = .ok (handOut comp loop rand') := by
  have made := h
  unfold compSubEvents at h
  simp only [busy, if_false] at h
  obtain ⟨capacity, deque, h⟩ := bind_ok h
  obtain ⟨loop, pushed, h⟩ := bind_ok h
  have size : comp.totalMemOps < 2 ^ 31 := by
    have room := memSubEvents_capacity pushed
    have bound := newDeque_lt deque
    omega
  have length := memSubEvents_length pushed
  obtain ⟨reads, writes, all⟩ := memSubEvents_counts (Nat.zero_le _) (Nat.zero_le _) pushed
  have always := compSubEvents_eq busy size deque pushed
  refine ⟨loop, length, size, memSubEvents_shares pushed, by omega, by omega, all, ?_, always⟩
  rw [always rand] at made
  exact (Except.ok.inj made).symm

theorem sum_map_const {items : List α} {g : α → Nat} {c : Nat}
    (same : ∀ a ∈ items, g a = c) : (items.map g).sum = items.length * c := by
  rw [map_congr_left same, map_const', sum_replicate, nsmul_eq_mul, cast_id]

theorem sum_map_ite (items : List α) (p : α → Bool) :
    (items.map fun a => if p a then 1 else 0).sum = items.countP p := by
  induction items with
  | nil => rfl
  | cons a rest ih =>
    simp only [map_cons, sum_cons, countP_cons, ih]
    omega

theorem compSubEvents_untriggered (h : compSubEvents comp rand = .ok subs) :
    ∀ se ∈ subs, se.msgTriggered = false := by
  by_cases busy : comp.totalMemOps = 0
  · simp only [compSubEvents, busy, if_true] at h
    cases h
    simp
  · obtain ⟨loop, _, _, shares, _, _, _, rfl, _⟩ := compSubEvents_mem busy h
    intro se member
    have flag := mem_map_of_mem (f := SubEvent.msgTriggered) member
    rw [handOut, spread_map SubEvent.addFLOP (fun _ => rfl),
      spread_map SubEvent.addIOP (fun _ => rfl)] at flag
    obtain ⟨old, inLoop, same⟩ := mem_map.mp flag
    rw [← same, (shares old inLoop).1]

theorem commSubEvents_ok {requests : List SharedInfo} (h : commSubEvents requests = .ok subs) :
    subs = requests.map fun request =>
      { numIOPS := 0, numFLOPS := 0, numMemOps := 0, msg := some ⟨.read, request⟩ } := by
  obtain ⟨_, _, h⟩ := bind_ok h
  split at h
  · cases h
  · exact pure_ok h

theorem subEventsOf_untriggered (h : subEventsOf kind rand = .ok subs) :
    ∀ se ∈ subs, se.msgTriggered = false := by
  cases kind with
  | computation comp => exact compSubEvents_untriggered h
  | communication requests =>
    rw [commSubEvents_ok h]
    simp
  | pthreadApi type addr =>
    cases h
    simp [pthreadSubEvents]

theorem handOut_tally (c : Tally) (kind : EventKind) (comp : CompInfo)
    (some : 0 < loop.length) (rand : Nat → Nat) :
    ((handOut comp loop rand).map (c.ofSub kind)).sum = (loop.map (c.ofSub kind)).sum +
      match c with
      | .iops => comp.compIOPS % loop.length
      | .flops => comp.compFLOPS % loop.length
      | _ => 0 := by
  unfold handOut
  cases c with
  | iops =>
    rw [spread_map SubEvent.addFLOP (fun _ => rfl)]
    exact spread_sum SubEvent.addIOP (fun _ => rfl) some rand _
  | flops =>
    let first := spread SubEvent.addIOP loop.length rand (comp.compIOPS % loop.length) loop
    have length : first.length = loop.length := spread_length ..
    have same : first.map SubEvent.numFLOPS = loop.map SubEvent.numFLOPS :=
      spread_map SubEvent.addIOP (fun _ => rfl) ..
    have handed : ((spread SubEvent.addFLOP first.length
        (fun j => rand (comp.compIOPS % loop.length + j)) (comp.compFLOPS % loop.length) first).map
          SubEvent.numFLOPS).sum = _ := spread_sum SubEvent.addFLOP (fun _ => rfl) (by omega) _ _
    rw [length, same] at handed
    exact handed
  | localReads | localWrites | sharedReads =>
    rw [spread_map SubEvent.addFLOP (fun se => by cases kind <;> rfl),
      spread_map SubEvent.addIOP (fun se => by cases kind <;> rfl)]
    rfl

/-- The counts of memory operations are those of the trace unless their sum wraps. -/
def Tally.Exact : Tally → EventKind → Prop
  | .localReads, .computation comp => comp.Fits
  | .localWrites, .computation comp => comp.Fits
  | _, _ => True

variable {c : Tally}

theorem compSubEvents_tally (h : compSubEvents comp rand = .ok subs)
    (exact : c.Exact (.computation comp)) :
    (subs.map (c.ofSub (.computation comp))).sum = c.ofEvent (.computation comp) := by
  by_cases busy : comp.totalMemOps = 0
  · simp only [compSubEvents, busy, if_true] at h
    cases h
    have none : comp.Fits → comp.maxLocReads = 0 ∧ comp.maxLocWrites = 0 := by
      intro fits
      rw [CompInfo.totalMemOps, mod_eq_of_lt fits] at busy
      omega
    rw [CompInfo.maxLocReads_eq, CompInfo.maxLocWrites_eq] at none
    cases c with
    | iops | flops => rfl
    | sharedReads => rfl
    | localReads => exact (none exact).1.symm
    | localWrites => exact (none exact).2.symm
  · obtain ⟨loop, length, _, shares, reads, writes, all, rfl, _⟩ := compSubEvents_mem busy h
    rw [handOut_tally c _ comp (by omega)]
    have whole : comp.Fits → comp.totalMemOps = comp.maxLocReads + comp.maxLocWrites :=
      fun fits => mod_eq_of_lt fits
    rw [CompInfo.maxLocReads_eq] at reads whole
    rw [CompInfo.maxLocWrites_eq] at writes whole
    cases c with
    | iops =>
      have divided := sum_map_const fun se member => (shares se member).2.1
      rw [← length] at divided
      exact (congrArg (· + _) divided).trans (div_add_mod ..)
    | flops =>
      have divided := sum_map_const fun se member => (shares se member).2.2
      rw [← length] at divided
      exact (congrArg (· + _) divided).trans (div_add_mod ..)
    | sharedReads =>
      have none := sum_map_const fun (se : SubEvent) (_ : se ∈ loop) =>
        show Tally.sharedReads.ofSub (.computation comp) se = 0 from rfl
      rw [none]
      rfl
    | localReads =>
      have counted : (loop.map (Tally.localReads.ofSub (.computation comp))).sum = _ :=
        sum_map_ite loop (·.sends .read)
      have total := whole exact
      simp only [Tally.ofEvent]
      omega
    | localWrites =>
      have counted : (loop.map (Tally.localWrites.ofSub (.computation comp))).sum = _ :=
        sum_map_ite loop (·.sends .write)
      have total := whole exact
      simp only [Tally.ofEvent]
      omega

theorem subEventsOf_tally (h : subEventsOf kind rand = .ok subs) (exact : c.Exact kind) :
    (subs.map (c.ofSub kind)).sum = c.ofEvent kind := by
  cases kind with
  | computation comp => exact compSubEvents_tally h exact
  | communication requests =>
    rw [commSubEvents_ok h, map_map]
    cases c with
    | sharedReads => exact (sum_map_const fun _ _ => rfl).trans (Nat.mul_one _)
    | iops | flops | localReads | localWrites => exact sum_map_const fun _ _ => rfl
  | pthreadApi type addr =>
    cases h
    cases c <;> rfl

theorem subEventsOf_rand (h : subEventsOf kind rand = .ok subs) (rand' : Nat → Nat) :
    ∃ subs', subEventsOf kind rand' = .ok subs' ∧
      ∀ c : Tally, (subs'.map (c.ofSub kind)).sum = (subs.map (c.ofSub kind)).sum := by
  cases kind with
  | communication | pthreadApi => exact ⟨subs, h, fun _ => rfl⟩
  | computation comp =>
    by_cases busy : comp.totalMemOps = 0
    · refine ⟨subs, ?_, fun _ => rfl⟩
      rw [← h]
      simp only [subEventsOf, compSubEvents, busy, if_true]
    · obtain ⟨loop, length, _, _, _, _, _, rfl, always⟩ := compSubEvents_mem busy h
      refine ⟨_, always rand', fun c => ?_⟩
      rw [handOut_tally c _ comp (by omega), handOut_tally c _ comp (by omega)]

def Tally.made (c : Tally) (kind : EventKind) : Nat :=
  match subEventsOf kind fun _ => 0 with
  | .ok subs => (subs.map (c.ofSub kind)).sum
  | .error _ => c.ofEvent kind

theorem Tally.made_eq (c : Tally) (h : subEventsOf kind rand = .ok subs) :
    c.made kind = (subs.map (c.ofSub kind)).sum := by
  obtain ⟨subs', made, same⟩ := subEventsOf_rand h fun _ => 0
  rw [Tally.made, made]
  exact same c

theorem Tally.Exact.made_eq (exact : c.Exact kind) : c.made kind = c.ofEvent kind := by
  unfold Tally.made
  split
  · rename_i made
    exact subEventsOf_tally made exact
  · rfl

end SynchroTrace.Replay
