import SynchroTrace.Replay.Breakdown
import SynchroTrace.Replay.StaticDeque

namespace SynchroTrace.Replay
open Outcome StaticDeque List

def orFault {α : Type} (fault : Fault) (result : Except Failure α) : Except Fault α :=
  result.mapError fun _ => fault

def pushed (d : StaticDeque SubEvent) (se : SubEvent) : Except Fault (StaticDeque SubEvent) :=
  (orFault .subEventListFull (d.pushBack se).1).map fun _ => (d.pushBack se).2

def insertMemOps (comp : CompInfo) :
    Nat → Nat → Nat → MemAction → StaticDeque SubEvent → Except Fault (StaticDeque SubEvent)
  | 0, _, _, _, d => .ok d
  | n + 1, reads, writes, selector, d => do
    let action ← (memTypeToInsert reads writes comp.maxLocReads comp.maxLocWrites selector).elim
      (.error .diverges) .ok
    let se ← memSubEvent comp reads writes action
    let d ← pushed d se
    insertMemOps comp n (reads + if action = .localRead then 1 else 0)
      (writes + if action = .localWrite then 1 else 0) selector.flip d

def spreadOver (bump : SubEvent → SubEvent) (total : Nat) (rand : Nat → Nat) :
    Nat → StaticDeque SubEvent → Except Fault (StaticDeque SubEvent)
  | 0, d => .ok d
  | n + 1, d => do
    spreadOver bump total rand n
      (← orFault .outOfRange (d.modifyAt (toInt32 (rand n % total : Nat)) bump))

def compSubEventDeque (memory : Nat → SubEvent) (comp : CompInfo) (rand : Nat → Nat) :
    Except Fault (StaticDeque SubEvent) :=
  let total := comp.totalMemOps
  if total = 0 then do
    let d ← orFault .dequeSize (new memory 1)
    pushed d { numIOPS := comp.compIOPS, numFLOPS := comp.compFLOPS, numMemOps := 0, msg := none }
  else do
    let d ← orFault .dequeSize (new memory (toInt32 total))
    let d ← insertMemOps comp total 0 0 .localWrite d
    let iopsRem := comp.compIOPS % total % 2 ^ 32
    let flopsRem := comp.compFLOPS % total % 2 ^ 32
    let d ← spreadOver SubEvent.addIOP total rand iopsRem d
    spreadOver SubEvent.addFLOP total (fun j => rand (iopsRem + j)) flopsRem d

section Deque
variable {d : StaticDeque SubEvent} {n : Nat} {xs : List SubEvent}

theorem pushed_room (rep : Represents d n xs) (room : xs.length < n) (se : SubEvent) :
    ∃ d', pushed d se = .ok d' ∧ Represents d' n (xs ++ [se]) := by
  obtain ⟨answer, rep'⟩ := rep.pushBack_room room se
  exact ⟨_, by rw [pushed, answer]; rfl, rep'⟩

theorem pushed_full (rep : Represents d n xs) (full : ¬ xs.length < n) (se : SubEvent) :
    pushed d se = .error .subEventListFull := by
  rw [pushed, (rep.push_full full se).2]
  rfl

theorem memSubEvents_eq (comp : CompInfo) (capacity : Int) (left reads writes : Nat)
    (selector : MemAction) :
    memSubEvents comp capacity (left + 1) reads writes selector = (do
      let action ← (memTypeToInsert reads writes comp.maxLocReads comp.maxLocWrites selector).elim
        (.error .diverges) .ok
      let se ← memSubEvent comp reads writes action
      if capacity ≤ (reads + writes : Nat) then .error .subEventListFull
      else return se :: (← memSubEvents comp capacity left
        (reads + if action = .localRead then 1 else 0)
        (writes + if action = .localWrite then 1 else 0) selector.flip)) := by
  rw [memSubEvents]
  cases memTypeToInsert reads writes comp.maxLocReads comp.maxLocWrites selector with
  | none => rfl
  | some action => cases action <;> rfl

theorem insertMemOps_matches (comp : CompInfo) {left reads writes : Nat} {selector : MemAction}
    (rep : Represents d n xs) (length : xs.length = reads + writes) :
    Matches (fun d subs => Represents d n (xs ++ subs))
      (insertMemOps comp left reads writes selector d)
      (memSubEvents comp n left reads writes selector) := by
  induction left generalizing reads writes selector d xs with
  | zero =>
    rw [insertMemOps, memSubEvents]
    exact .ok (by rwa [append_nil])
  | succ left ih =>
    rw [insertMemOps, memSubEvents_eq]
    refine (Matches.refl _).bind fun action _ _ same => ?_
    subst same
    refine (Matches.refl _).bind fun se _ _ same => ?_
    subst same
    by_cases room : xs.length < n
    · obtain ⟨d', done, rep'⟩ := pushed_room rep room se
      have fits : ¬ (n : Int) ≤ (reads + writes : Nat) := by omega
      rw [done, if_neg fits]
      refine (ih rep' ?_).bind_pure fun d subs rep => ?_
      · rw [length_append, length]
        cases action <;> simp <;> omega
      · rwa [append_assoc] at rep
    · have full : (n : Int) ≤ (reads + writes : Nat) := by omega
      rw [pushed_full rep room, if_pos full]
      exact .error _

theorem spreadOver_represents (bump : SubEvent → SubEvent) (rand : Nat → Nat) (count : Nat)
    (rep : Represents d n xs) (length : xs.length = n) (pos : 0 < n) (small : n < 2 ^ 31) :
    ∃ d', spreadOver bump n rand count d = .ok d' ∧
      Represents d' n (spread bump n rand count xs) := by
  induction count generalizing d xs with
  | zero => exact ⟨d, rfl, rep⟩
  | succ count ih =>
    have inside : rand count % n < xs.length := by
      rw [length]
      exact Nat.mod_lt _ pos
    have index : toInt32 (rand count % n : Nat) = (rand count % n : Nat) :=
      toInt32_eq (by omega) (by omega)
    obtain ⟨k, slot, read, write⟩ := rep.slot inside
    obtain ⟨d', written, rep'⟩ := write (bump xs[rand count % n])
    have modified : d.modifyAt (toInt32 (rand count % n : Nat)) bump = .ok d' := by
      rw [modifyAt, index, slot]
      show (d.read k >>= _) = _
      rw [read]
      exact written
    rw [spreadOver, spread, modified]
    refine ih ?_ (by rw [length_modify, length])
    rwa [List.modify_eq_set_getElem?, List.getElem?_eq_getElem inside]

variable (memory : Nat → SubEvent)

theorem orFault_new (fault : Fault) {n : Nat} (pos : 0 < n) :
    ∃ d, orFault fault (new memory n) = .ok d ∧ Represents d n [] := by
  obtain ⟨d, created, rep⟩ := new_represents memory pos
  exact ⟨d, by rw [created]; rfl, rep⟩

theorem newDeque_matches (size : Nat) :
    Matches (fun d (capacity : Int) => ∃ n : Nat, capacity = n ∧ Represents d n [])
      (orFault .dequeSize (new memory (toInt32 size))) (newDeque size) := by
  unfold newDeque
  by_cases positive : toInt32 size ≤ 0
  · rw [if_pos positive, new, if_pos positive]
    exact .error _
  · obtain ⟨n, isN⟩ := Int.eq_ofNat_of_zero_le (Int.le_of_lt (Int.not_le.mp positive))
    rw [if_neg positive]
    rw [isN] at positive ⊢
    obtain ⟨d, created, rep⟩ := orFault_new memory .dequeSize (n := n) (by omega)
    rw [created]
    exact .ok ⟨n, rfl, rep⟩

theorem compSubEventDeque_matches (comp : CompInfo) (rand : Nat → Nat) :
    Matches (fun d subs => Represents d subs.length subs) (compSubEventDeque memory comp rand)
      (compSubEvents comp rand) := by
  unfold compSubEventDeque compSubEvents
  by_cases idle : comp.totalMemOps = 0
  · rw [if_pos idle, if_pos idle]
    obtain ⟨d, created, rep⟩ := orFault_new memory .dequeSize Nat.one_pos
    obtain ⟨d', done, rep'⟩ := pushed_room rep Nat.one_pos
      { numIOPS := comp.compIOPS, numFLOPS := comp.compFLOPS, numMemOps := 0, msg := none }
    show Matches _ (orFault .dequeSize (new memory ((1 : Nat) : Int)) >>= _) _
    rw [created]
    show Matches _ (pushed d _) _
    rw [done]
    exact .ok rep'
  · rw [if_neg idle, if_neg idle]
    refine (newDeque_matches memory _).bind fun d capacity deque ⟨n, isN, rep⟩ => ?_
    subst isN
    refine (insertMemOps_matches comp rep rfl).bind fun d subs loop rep => ?_
    have length := memSubEvents_length loop
    have whole : comp.totalMemOps = n := by
      have room := memSubEvents_capacity loop
      have size := newDeque_lt deque
      unfold newDeque at deque
      split at deque
      · cases deque
      · have isN := Except.ok.inj deque
        rw [toInt32_eq (by omega) (by omega)] at isN
        omega
    have small : n < 2 ^ 31 := by exact_mod_cast newDeque_lt deque
    rw [nil_append] at rep
    rw [whole] at length ⊢
    obtain ⟨d, iops, rep⟩ := spreadOver_represents .addIOP rand (comp.compIOPS % n % 2 ^ 32) rep
      length (by omega) small
    obtain ⟨d, flops, rep⟩ := spreadOver_represents .addFLOP
      (fun j => rand (comp.compIOPS % n % 2 ^ 32 + j)) (comp.compFLOPS % n % 2 ^ 32) rep
      (by rw [spread_length, length]) (by omega) small
    dsimp only
    rw [iops]
    show Matches _ (spreadOver _ n _ _ _) (.ok _)
    rw [flops]
    refine .ok ?_
    rwa [spread_length, spread_length, length]

end Deque

def alternate {α : Type} : List α → List α → List α
  | [], ys => ys
  | x :: xs, ys => x :: alternate ys xs
termination_by xs ys => xs.length + ys.length

/-- The messages of `count` operations of one kind, the first of them the given one. -/
def turns (type : DtReqType) (requests : List SharedInfo) (first count : Nat) : List (Option Msg) :=
  (List.range' first count).map fun k => requests[k % requests.length]?.map (Msg.mk type)

structure CompInfo.Expandable (comp : CompInfo) : Prop where
  reads : 0 < comp.maxLocReads → comp.compReadEvents ≠ []
  writes : 0 < comp.maxLocWrites → comp.compWriteEvents ≠ []
  total : comp.maxLocReads + comp.maxLocWrites < 2 ^ 31

/-- The messages that are still to be inserted, the selected kind first. -/
def toInsert (comp : CompInfo) (reads writes : Nat) : MemAction → List (Option Msg)
  | .localWrite => alternate
      (turns .write comp.compWriteEvents writes (comp.maxLocWrites - writes))
      (turns .read comp.compReadEvents reads (comp.maxLocReads - reads))
  | .localRead => alternate
      (turns .read comp.compReadEvents reads (comp.maxLocReads - reads))
      (turns .write comp.compWriteEvents writes (comp.maxLocWrites - writes))

@[simp] theorem alternate_nil {α : Type} (xs : List α) : alternate xs [] = xs := by
  cases xs <;> simp [alternate]

theorem length_alternate {α : Type} (xs ys : List α) :
    (alternate xs ys).length = xs.length + ys.length := by
  fun_induction alternate xs ys with
  | case1 ys => simp
  | case2 x xs ys ih =>
    rw [length_cons, ih, length_cons]
    omega

variable (type : DtReqType) (requests : List SharedInfo)

theorem length_turns (first count : Nat) :
    (turns type requests first count).length = count := by
  rw [turns, length_map, length_range']

theorem turns_cons {first last : Nat} (h : first < last) :
    turns type requests first (last - first) =
      requests[first % requests.length]?.map (Msg.mk type) ::
        turns type requests (first + 1) (last - (first + 1)) := by
  have count : last - first = last - (first + 1) + 1 := by omega
  rw [turns, count, range'_succ]
  rfl

theorem turns_nil {first last : Nat}
    (h : ¬ first < last) : turns type requests first (last - first) = [] := by
  rw [Nat.sub_eq_zero_of_le (Nat.not_lt.mp h)]
  rfl

def CompInfo.nextMsg (comp : CompInfo) (reads writes : Nat) : MemAction → Option Msg
  | .localRead => comp.compReadEvents[reads % comp.compReadEvents.length]?.map (Msg.mk .read)
  | .localWrite => comp.compWriteEvents[writes % comp.compWriteEvents.length]?.map (Msg.mk .write)

section Loop
variable {comp : CompInfo} {reads writes : Nat} {selector action : MemAction}

theorem cyclicRequest_found {requests : List SharedInfo} (some : requests ≠ []) (i : Nat) :
    ∃ request, requests[i % requests.length]? = .some request ∧
      cyclicRequest requests i = .ok request := by
  have inside := Nat.mod_lt i (length_pos_iff.mpr some)
  refine ⟨_, List.getElem?_eq_getElem inside, ?_⟩
  rw [cyclicRequest, List.getElem?_eq_getElem inside]

theorem handOut_msgs (comp : CompInfo) (loop : List SubEvent) (rand : Nat → Nat) :
    (handOut comp loop rand).map (·.msg) = loop.map (·.msg) := by
  rw [handOut, spread_map .addFLOP (fun _ => rfl), spread_map .addIOP (fun _ => rfl)]

section
variable (expandable : comp.Expandable)
include expandable

theorem CompInfo.Expandable.totalMemOps :
    comp.totalMemOps = comp.maxLocReads + comp.maxLocWrites :=
  Nat.mod_eq_of_lt (by have := expandable.total; omega)

theorem CompInfo.Expandable.fewWrites :
    comp.maxLocWrites % 2 ^ 32 = comp.maxLocWrites :=
  Nat.mod_eq_of_lt (by have := expandable.total; omega)

theorem memTypeToInsert_exists (fewReads : reads ≤ comp.maxLocReads)
    (left : reads + writes < comp.maxLocReads + comp.maxLocWrites) (selector : MemAction) :
    ∃ action,
      memTypeToInsert reads writes comp.maxLocReads comp.maxLocWrites selector = some action := by
  unfold memTypeToInsert
  rw [expandable.fewWrites]
  by_cases readsLeft : reads < comp.maxLocReads
  · by_cases writesLeft : writes < comp.maxLocWrites <;> cases selector <;>
      simp [readsLeft, writesLeft]
  · have writesLeft : writes < comp.maxLocWrites := by omega
    cases selector <;> simp [readsLeft, writesLeft]

theorem toInsert_succ
    (inserted : memTypeToInsert reads writes comp.maxLocReads comp.maxLocWrites selector =
      some action) :
    toInsert comp reads writes selector = comp.nextMsg reads writes action ::
      toInsert comp (reads + if action = .localRead then 1 else 0)
        (writes + if action = .localWrite then 1 else 0) selector.flip := by
  unfold memTypeToInsert at inserted
  rw [expandable.fewWrites] at inserted
  cases selector with
  | localWrite =>
    dsimp only at inserted
    by_cases writesLeft : writes < comp.maxLocWrites
    · rw [if_pos writesLeft] at inserted
      cases inserted
      rw [toInsert, turns_cons _ _ writesLeft, alternate]
      rfl
    · rw [if_neg writesLeft] at inserted
      by_cases readsLeft : reads < comp.maxLocReads
      · rw [if_pos readsLeft] at inserted
        cases inserted
        simp [toInsert, turns_nil _ _ writesLeft, turns_cons _ _ readsLeft, alternate,
          MemAction.flip, CompInfo.nextMsg]
      · rw [if_neg readsLeft] at inserted
        cases inserted
  | localRead =>
    dsimp only at inserted
    by_cases readsLeft : reads < comp.maxLocReads
    · rw [if_pos readsLeft] at inserted
      cases inserted
      rw [toInsert, turns_cons _ _ readsLeft, alternate]
      rfl
    · rw [if_neg readsLeft] at inserted
      by_cases writesLeft : writes < comp.maxLocWrites
      · rw [if_pos writesLeft] at inserted
        cases inserted
        simp [toInsert, turns_nil _ _ readsLeft, turns_cons _ _ writesLeft, alternate,
          MemAction.flip, CompInfo.nextMsg]
      · rw [if_neg writesLeft] at inserted
        cases inserted

theorem memSubEvent_found
    (inserted : memTypeToInsert reads writes comp.maxLocReads comp.maxLocWrites selector =
      some action) :
    ∃ se, memSubEvent comp reads writes action = .ok se ∧
      se.msg = comp.nextMsg reads writes action := by
  rcases memTypeToInsert_some inserted with ⟨rfl, left⟩ | ⟨rfl, left⟩
  · obtain ⟨request, entry, found⟩ := cyclicRequest_found (expandable.reads (by omega)) reads
    exact ⟨_, by rw [memSubEvent, found]; rfl, by rw [CompInfo.nextMsg, entry]; rfl⟩
  · rw [expandable.fewWrites] at left
    obtain ⟨request, entry, found⟩ := cyclicRequest_found (expandable.writes (by omega)) writes
    exact ⟨_, by rw [memSubEvent, found]; rfl, by rw [CompInfo.nextMsg, entry]; rfl⟩

/-- By induction on the number of operations to go: the selector flips at each, and so does the
list that `alternate` takes from. -/
theorem memSubEvents_msgs {n left : Nat} (fewReads : reads ≤ comp.maxLocReads)
    (fewWrites : writes ≤ comp.maxLocWrites)
    (toGo : reads + writes + left = comp.maxLocReads + comp.maxLocWrites)
    (capacity : comp.maxLocReads + comp.maxLocWrites ≤ n) :
    ∃ subs, memSubEvents comp n left reads writes selector = .ok subs ∧
      subs.map (·.msg) = toInsert comp reads writes selector := by
  induction left generalizing reads writes selector with
  | zero =>
    have noReads : comp.maxLocReads - reads = 0 := by omega
    have noWrites : comp.maxLocWrites - writes = 0 := by omega
    refine ⟨[], rfl, ?_⟩
    cases selector <;> simp [toInsert, noReads, noWrites, turns]
  | succ left ih =>
    have some : reads + writes < comp.maxLocReads + comp.maxLocWrites := by omega
    obtain ⟨action, inserted⟩ := memTypeToInsert_exists expandable fewReads some selector
    obtain ⟨se, made, msg⟩ := memSubEvent_found expandable inserted
    have room : ¬ (n : Int) ≤ (reads + writes : Nat) := by omega
    have kind := memTypeToInsert_some inserted
    rw [expandable.fewWrites] at kind
    obtain ⟨subs, others, msgs⟩ := @ih (reads + if action = .localRead then 1 else 0)
      (writes + if action = .localWrite then 1 else 0) selector.flip
      (by rcases kind with ⟨rfl, _⟩ | ⟨rfl, _⟩ <;> simp <;> omega)
      (by rcases kind with ⟨rfl, _⟩ | ⟨rfl, _⟩ <;> simp <;> omega)
      (by rcases kind with ⟨rfl, _⟩ | ⟨rfl, _⟩ <;> simp <;> omega)
    refine ⟨se :: subs, ?_, ?_⟩
    · rw [memSubEvents_eq, inserted]
      show (memSubEvent comp reads writes action >>= _) = _
      rw [made]
      show ite _ _ _ = _
      rw [if_neg room, others]
      rfl
    · rw [toInsert_succ expandable inserted, map_cons, msg, msgs]

theorem CompInfo.Expandable.fits : comp.Fits := by
  have := expandable.total
  unfold CompInfo.Fits
  omega

end

theorem newDeque_small {size : Nat} (pos : 0 < size) (small : size < 2 ^ 31) :
    newDeque size = .ok (size : Int) := by
  have same : toInt32 size = size := toInt32_eq (by omega) (by omega)
  rw [newDeque, same, if_neg (by omega)]

theorem compSubEvents_msgs (expandable : comp.Expandable)
    (busy : 0 < comp.maxLocReads + comp.maxLocWrites) (rand : Nat → Nat) :
    ∃ subs, compSubEvents comp rand = .ok subs ∧
      subs.map (·.msg) = alternate (turns .write comp.compWriteEvents 0 comp.maxLocWrites)
        (turns .read comp.compReadEvents 0 comp.maxLocReads) := by
  have whole := expandable.totalMemOps
  have small := expandable.total
  rw [← whole] at busy small
  have deque := newDeque_small busy small
  obtain ⟨loop, pushed, msgs⟩ := @memSubEvents_msgs comp 0 0 .localWrite expandable _ _
    (Nat.zero_le _) (Nat.zero_le _) ((Nat.zero_add _).trans whole) (Nat.le_of_eq whole.symm)
  refine ⟨_, compSubEvents_eq (Nat.ne_of_gt busy) small deque pushed rand, ?_⟩
  rw [handOut_msgs, msgs]
  rfl

/-- An event whose memory operations can all be made is broken into one sub-event for each, a
write and a read in turn, that add up to the event. -/
theorem createSubEvents_conserves (memory : Nat → SubEvent) (comp : CompInfo) (rand : Nat → Nat)
    (expandable : comp.Expandable) (busy : 0 < comp.maxLocReads + comp.maxLocWrites) :
    ∃ d subs, compSubEventDeque memory comp rand = .ok d ∧ Represents d subs.length subs ∧
      subs.length = max comp.compMemReads comp.compReadEvents.length
        + max comp.compMemWrites comp.compWriteEvents.length ∧
      subs.countP (·.sends .read) = max comp.compMemReads comp.compReadEvents.length ∧
      subs.countP (·.sends .write) = max comp.compMemWrites comp.compWriteEvents.length ∧
      subs.map (·.msg) = alternate
        (turns .write comp.compWriteEvents 0 (max comp.compMemWrites comp.compWriteEvents.length))
        (turns .read comp.compReadEvents 0 (max comp.compMemReads comp.compReadEvents.length)) ∧
      (subs.map (·.numIOPS)).sum = comp.compIOPS ∧
      (subs.map (·.numFLOPS)).sum = comp.compFLOPS := by
  obtain ⟨subs, created, msgs⟩ := compSubEvents_msgs expandable busy rand
  obtain ⟨d, deque, rep⟩ := (compSubEventDeque_matches memory comp rand).of_ok created
  rw [CompInfo.maxLocReads_eq, CompInfo.maxLocWrites_eq] at msgs
  have reads := compSubEvents_tally (c := .localReads) created expandable.fits
  have writes := compSubEvents_tally (c := .localWrites) created expandable.fits
  refine ⟨d, subs, deque, rep, ?_, ?_, ?_, msgs, compSubEvents_tally (c := .iops) created trivial,
    compSubEvents_tally (c := .flops) created trivial⟩
  · have length := congrArg List.length msgs
    rw [length_map, length_alternate, length_turns, length_turns] at length
    rw [length, Nat.add_comm]
  · exact (sum_map_ite subs _).symm.trans reads
  · exact (sum_map_ite subs _).symm.trans writes

theorem createSubEvents_conserves_three :
    ∃ d subs, compSubEventDeque (fun _ => ⟨0, 0, 0, none, false, 0, 0⟩)
        ⟨7, 4, 1, 2, [⟨0, 0, 64, 8⟩], [⟨0, 0, 0, 4⟩]⟩ (fun k => 5 * k) = .ok d ∧
      Represents d 3 subs ∧ (subs.map (·.numIOPS)).sum = 7 := by
  obtain ⟨d, subs, deque, rep, length, _, _, _, iops, _⟩ := createSubEvents_conserves
    (fun _ => ⟨0, 0, 0, none, false, 0, 0⟩) ⟨7, 4, 1, 2, [⟨0, 0, 64, 8⟩], [⟨0, 0, 0, 4⟩]⟩
    (fun k => 5 * k) ⟨fun _ => cons_ne_nil _ _, fun _ => cons_ne_nil _ _, by decide⟩
    (by decide)
  rw [length] at rep
  exact ⟨d, subs, deque, rep, iops⟩

/-- The counts and the selector before iteration `j` of the loop. -/
def beforeInsert (comp : CompInfo) : Nat → Option (Nat × Nat × MemAction)
  | 0 => some (0, 0, .localWrite)
  | j + 1 => do
    let (reads, writes, selector) ← beforeInsert comp j
    let action ← memTypeToInsert reads writes comp.maxLocReads comp.maxLocWrites selector
    return (reads + if action = .localRead then 1 else 0,
      writes + if action = .localWrite then 1 else 0, selector.flip)

def CompInfo.Available (comp : CompInfo) (reads writes : Nat) : MemAction → Prop
  | .localRead => reads < comp.maxLocReads
  | .localWrite => writes < comp.maxLocWrites

theorem memTypeToInsert_available (expandable : comp.Expandable)
    (inserted : memTypeToInsert reads writes comp.maxLocReads comp.maxLocWrites selector =
      some action) :
    comp.Available reads writes action := by
  rcases memTypeToInsert_some inserted with ⟨rfl, left⟩ | ⟨rfl, left⟩
  · exact left
  · rwa [expandable.fewWrites] at left

theorem beforeInsert_some (expandable : comp.Expandable) {j : Nat}
    (early : j ≤ comp.maxLocReads + comp.maxLocWrites) :
    ∃ reads writes selector, beforeInsert comp j = some (reads, writes, selector) ∧
      reads ≤ comp.maxLocReads ∧ writes ≤ comp.maxLocWrites ∧ reads + writes = j := by
  induction j with
  | zero => exact ⟨0, 0, .localWrite, rfl, Nat.zero_le _, Nat.zero_le _, rfl⟩
  | succ j ih =>
    obtain ⟨reads, writes, selector, before, fewReads, fewWrites, made⟩ := ih (by omega)
    have some : reads + writes < comp.maxLocReads + comp.maxLocWrites := by omega
    obtain ⟨action, inserted⟩ := memTypeToInsert_exists expandable fewReads some selector
    have available := memTypeToInsert_available expandable inserted
    refine ⟨_, _, selector.flip, by rw [beforeInsert, before]; exact congrArg (· >>= _) inserted,
      ?_⟩
    cases action <;> simp [CompInfo.Available] at available ⊢ <;> omega

theorem compSubEvents_total (expandable : comp.Expandable) (rand : Nat → Nat) :
    ∃ subs, compSubEvents comp rand = .ok subs := by
  by_cases idle : comp.totalMemOps = 0
  · exact ⟨_, by rw [compSubEvents, if_pos idle]⟩
  · rw [expandable.totalMemOps] at idle
    obtain ⟨subs, created, _⟩ := compSubEvents_msgs expandable (Nat.pos_of_ne_zero idle) rand
    exact ⟨subs, created⟩

theorem processCompEvent_kind {ruby : Ruby} {line : Line} {e : TraceEvent}
    (accepted : processCompEvent ruby line = .ok e) : ∃ comp, e.kind = .computation comp := by
  rw [processCompEvent_eq] at accepted
  obtain ⟨_, _, accepted⟩ := bind_ok accepted
  obtain ⟨_, _, accepted⟩ := bind_ok accepted
  obtain ⟨_, _, accepted⟩ := bind_ok accepted
  obtain ⟨_, _, accepted⟩ := bind_ok accepted
  obtain ⟨_, _, accepted⟩ := bind_ok accepted
  obtain ⟨_, _, accepted⟩ := bind_ok accepted
  exact ⟨_, by rw [pure_ok accepted]⟩

theorem CompInfo.Expandable.of_ok (fits : comp.Fits) {rand : Nat → Nat} {subs : List SubEvent}
    (h : compSubEvents comp rand = .ok subs) : comp.Expandable := by
  have whole : comp.totalMemOps = comp.maxLocReads + comp.maxLocWrites := Nat.mod_eq_of_lt fits
  by_cases idle : comp.totalMemOps = 0
  · exact ⟨by omega, by omega, by omega⟩
  · simp only [compSubEvents, idle, if_false] at h
    obtain ⟨capacity, deque, h⟩ := bind_ok h
    obtain ⟨loop, pushed, -⟩ := bind_ok h
    obtain ⟨reads, writes, all⟩ := memSubEvents_counts (Nat.zero_le _) (Nat.zero_le _) pushed
    have room := memSubEvents_capacity pushed
    have bound := newDeque_lt deque
    refine ⟨fun some => ?_, fun some => ?_, by omega⟩
    · apply memSubEvents_requests pushed .localRead
      show 0 < countP (·.sends .read) loop
      omega
    · apply memSubEvents_requests pushed .localWrite
      show 0 < countP (·.sends .write) loop
      omega

end Loop

end SynchroTrace.Replay
