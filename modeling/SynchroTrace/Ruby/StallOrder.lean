import Mathlib.Data.List.Perm.Lattice
import SynchroTrace.Lib.Transition
import SynchroTrace.Ruby.MessageBuffer

namespace SynchroTrace.Ruby
open Function (update update_of_ne)
open Transition MessageBuffer List Outcome PriorityQueue Nat Message MessageBufferNode

/-- The buffer and its consumer. Nothing reads the last two fields. -/
structure Consumption (μ : Type) where
  globals : Globals
  buffer : MessageBuffer μ
  blocked : Nat → Bool
  enqueued : List μ
  popped : List μ

namespace Consumption
variable {μ : Type} (address : μ → Nat)

inductive Step (μ : Type) where
  | advance (time : Nat) (warmupEnabled : Bool)
  | enqueue (message : Message μ) (delta : Nat) (draws : Nat × Nat × Nat)
  | consume
  | block (addr : Nat)
  | unblock (addr : Nat)

def perform (s : Consumption μ) : Step μ → Except MessageBuffer.Fault (Consumption μ)
  | .advance time warmupEnabled => do
    require (s.globals.time ≤ time) .assertion
    return { s with globals := { s.globals with time, warmupEnabled } }
  | .enqueue message delta draws => do
    let buffer ← s.buffer.enqueue s.globals message delta draws
    return { s with buffer, enqueued := s.enqueued ++ [message.payload] }
  | .consume =>
    match s.buffer.prioHeap.items with
    | [] => .error .assertion
    | node :: _ =>
      if s.blocked (address node.message.payload) then do
        let buffer ← s.buffer.stallMessage s.globals (address node.message.payload)
        return { s with buffer }
      else do
        let (message, buffer) ← s.buffer.pop s.globals
        return { s with buffer, popped := s.popped ++ [message.payload] }
  | .block addr => .ok { s with blocked := update s.blocked addr true }
  | .unblock addr =>
    let s := { s with blocked := update s.blocked addr false }
    if addr ∈ s.buffer.stallMsgMap.map Prod.fst then do
      let buffer ← s.buffer.reanalyzeMessages s.globals addr
      return { s with buffer }
    else .ok s

structure Initial (s : Consumption μ) : Prop where
  heap : s.buffer.prioHeap.items = []
  stallMap : s.buffer.stallMsgMap = []
  counter : s.buffer.msgCounter = 0
  lastArrival : s.buffer.lastArrivalTime = 0
  strict : s.buffer.strictFifo = true
  fixed : s.globals.randomization = false ∨ s.buffer.randomization = false
  enqueued : s.enqueued = []
  popped : s.popped = []

end Consumption

def stalling {μ : Type} (address : μ → Nat) : System (Consumption μ) (Consumption.Step μ) :=
  ofFunction Consumption.Initial (Consumption.perform address)

namespace Consumption
variable {μ : Type} {address : μ → Nat} {s s' : Consumption μ}

abbrev StallMap (μ : Type) := List (Nat × List (Message μ))

def Sorted (map : StallMap μ) : Prop := (map.map Prod.fst).Pairwise (· < ·)

variable {map : StallMap μ} {addr : Nat} {message : Message μ}

theorem mem_stall {a : Nat} :
    a ∈ (stall addr message map).map Prod.fst ↔ a = addr ∨ a ∈ map.map Prod.fst := by
  induction map with
  | nil => simp [stall]
  | cons entry rest ih =>
    obtain ⟨b, messages⟩ := entry
    unfold stall
    split_ifs with below above
    · simp
    · simp only [map_cons, mem_cons, ih]
      tauto
    · have same : b = addr := by omega
      simp [same]

theorem Sorted.stall (sorted : Sorted map) : Sorted (stall addr message map) := by
  induction map with
  | nil => simp [Sorted, MessageBuffer.stall]
  | cons entry rest ih =>
    obtain ⟨b, messages⟩ := entry
    obtain ⟨first, others⟩ := pairwise_cons.mp sorted
    unfold MessageBuffer.stall
    split_ifs with below above
    · refine pairwise_cons.mpr ⟨fun a member => ?_, sorted⟩
      obtain rfl | member := mem_cons.mp member
      · exact below
      · exact Nat.lt_trans below (first a member)
    · refine pairwise_cons.mpr ⟨fun a member => ?_, ih others⟩
      obtain rfl | member := mem_stall.mp member
      · exact above
      · exact first a member
    · exact sorted

theorem stalled_of_not_mem {a : Nat} (absent : a ∉ map.map Prod.fst) : stalled map a = [] := by
  induction map with
  | nil => rfl
  | cons entry rest ih =>
    obtain ⟨different, absent⟩ := not_or.mp (mt mem_cons.mpr absent)
    rw [stalled, if_neg (Ne.symm different), ih absent]

theorem stalled_stall (sorted : Sorted map) (a : Nat) : stalled (stall addr message map) a =
      if a = addr then stalled map a ++ [message] else stalled map a := by
  induction map with
  | nil => simp [stall, stalled, eq_comm]
  | cons entry rest ih =>
    obtain ⟨b, messages⟩ := entry
    obtain ⟨first, others⟩ := pairwise_cons.mp sorted
    have ih := ih others
    unfold stall
    split_ifs with below here above here here
    · have absent : a ∉ ((b, messages) :: rest).map Prod.fst := by
        subst here
        intro member
        obtain rfl | member := mem_cons.mp member
        · exact Nat.lt_irrefl _ below
        · exact Nat.lt_asymm below (first a member)
      rw [stalled_of_not_mem absent, stalled, if_pos here.symm]
      rfl
    · rw [stalled, if_neg (Ne.symm here)]
    · rw [stalled, stalled, if_neg (by omega), if_neg (by omega), ih, if_pos here]
    · rw [stalled, stalled, ih, if_neg here]
    · rw [stalled, stalled, if_pos (by omega), if_pos (by omega)]
    · rw [stalled, stalled, if_neg (by omega), if_neg (by omega)]

theorem flatMap_stall (addr : Nat) (message : Message μ) (map : StallMap μ) :
    ((stall addr message map).flatMap Prod.snd).Perm (message :: map.flatMap Prod.snd) := by
  induction map with
  | nil => exact .refl _
  | cons entry rest ih =>
    obtain ⟨b, messages⟩ := entry
    unfold stall
    split_ifs
    · exact .refl _
    · simp only [flatMap_cons]
      exact (ih.append_left messages).trans perm_middle
    · simp only [flatMap_cons, append_assoc]
      exact perm_middle

theorem stalled_filter (a : Nat) : stalled (map.filter fun entry => entry.1 ≠ addr) a =
    if a = addr then [] else stalled map a := by
  induction map with
  | nil => simp [stalled]
  | cons entry rest ih =>
    obtain ⟨b, messages⟩ := entry
    by_cases removed : b = addr
    · rw [filter_cons_of_neg (by simp [removed]), ih, stalled]
      split_ifs with here same
      · rfl
      · exact absurd (same.symm.trans removed) here
      · rfl
    · rw [filter_cons_of_pos (by simp [removed]), stalled, stalled, ih]
      split_ifs with same here
      · exact absurd (same.trans here) removed
      · rfl
      · rfl
      · rfl

theorem flatMap_filter (addr : Nat) (sorted : Sorted map) : (map.flatMap Prod.snd).Perm
      (stalled map addr ++ (map.filter fun entry => entry.1 ≠ addr).flatMap Prod.snd) := by
  induction map with
  | nil => exact .refl _
  | cons entry rest ih =>
    obtain ⟨b, messages⟩ := entry
    obtain ⟨first, others⟩ := pairwise_cons.mp sorted
    by_cases removed : b = addr
    · have absent : ∀ entry ∈ rest, decide (entry.1 ≠ addr) = true := by
        intro entry member
        have above := first entry.1 (mem_map_of_mem member)
        simp only [decide_eq_true_eq]
        omega
      rw [filter_cons_of_neg (by simp [removed]), filter_eq_self.mpr absent, stalled,
        if_pos removed]
      exact .refl _
    · rw [filter_cons_of_pos (by simp [removed]), stalled, if_neg removed]
      simp only [flatMap_cons]
      refine ((ih others).append_left messages).trans ?_
      rw [← append_assoc, ← append_assoc]
      exact perm_append_comm.append_right _

theorem Sorted.filter (sorted : Sorted map) (p : Nat × List (Message μ) → Bool) :
    Sorted (map.filter p) :=
  List.Pairwise.sublist (filter_sublist.map Prod.fst) sorted

def returned (s : Consumption μ) (addr : Nat) : MessageBuffer μ :=
  { (stalled s.buffer.stallMsgMap addr).foldl (reenter s.globals) s.buffer with
    stallMsgMap := s.buffer.stallMsgMap.filter fun entry => entry.1 ≠ addr }

variable (address) in
inductive Took (s : Consumption μ) : Step μ → Consumption μ → Prop where
  | advance {time : Nat} {warmupEnabled : Bool} (later : s.globals.time ≤ time) :
      Took s (.advance time warmupEnabled)
        { s with globals := { s.globals with time, warmupEnabled } }
  | enqueue {message : Message μ} {delta : Nat} {draws : Nat × Nat × Nat} (positive : 0 < delta)
      (inOrder : s.buffer.strictFifo →
        s.buffer.lastArrival s.globals ≤ s.buffer.arrivalTime s.globals delta draws) :
      Took s (.enqueue message delta draws) { s with
        buffer := { (s.buffer.countEnqueue s.globals).push
            (s.buffer.arrivalTime s.globals delta draws)
            (message.enqueue s.globals.time (s.buffer.arrivalTime s.globals delta draws)) with
          lastArrivalTime := if s.globals.warmupEnabled then s.buffer.lastArrival s.globals
            else s.buffer.arrivalTime s.globals delta draws }
        enqueued := s.enqueued ++ [message.payload] }
  | stall {node : MessageBufferNode μ} {rest : List (MessageBufferNode μ)}
      (items : s.buffer.prioHeap.items = node :: rest)
      (blocked : s.blocked (address node.message.payload) = true) :
      Took s .consume { s with
        buffer := { s.buffer.countPop s.globals with
          stallMsgMap :=
            stall (address node.message.payload) node.message s.buffer.stallMsgMap } }
  | pop {node : MessageBufferNode μ} {rest : List (MessageBufferNode μ)}
      (items : s.buffer.prioHeap.items = node :: rest)
      (free : s.blocked (address node.message.payload) = false) :
      Took s .consume { s with
        buffer := s.buffer.countPop s.globals, popped := s.popped ++ [node.message.payload] }
  | block {addr : Nat} : Took s (.block addr) { s with blocked := update s.blocked addr true }
  | unblock {addr : Nat} (absent : addr ∉ s.buffer.stallMsgMap.map Prod.fst) :
      Took s (.unblock addr) { s with blocked := update s.blocked addr false }
  | reanalyze {addr : Nat} : Took s (.unblock addr) { s with
        buffer := s.returned addr, blocked := update s.blocked addr false }

variable {step : Step μ}

theorem took (h : s.perform address step = .ok s') : Took address s step s' := by
  cases step with
  | advance time warmupEnabled =>
    obtain ⟨_, later, h⟩ := bind_ok h
    obtain rfl := pure_ok h
    exact .advance (require_ok later)
  | enqueue message delta draws =>
    obtain ⟨buffer, done, h⟩ := bind_ok h
    obtain rfl := pure_ok h
    obtain ⟨positive, inOrder, rfl⟩ := enqueue_ok done
    exact .enqueue positive inOrder
  | consume =>
    unfold perform at h
    dsimp only at h
    split at h
    · cases h
    · rename_i node rest items
      split at h
      · obtain ⟨buffer, done, h⟩ := bind_ok h
        obtain rfl := pure_ok h
        obtain ⟨first, others, same, -, rfl⟩ := stallMessage_ok done
        obtain ⟨rfl, rfl⟩ := List.cons.inj (items.symm.trans same)
        exact .stall items ‹_›
      · obtain ⟨⟨message, buffer⟩, done, h⟩ := bind_ok h
        obtain rfl := pure_ok h
        obtain ⟨first, others, same, -, rfl, rfl⟩ := pop_ok done
        obtain ⟨rfl, rfl⟩ := List.cons.inj (items.symm.trans same)
        exact .pop items (Bool.not_eq_true _ ▸ ‹_›)
  | block addr =>
    cases h
    exact .block
  | unblock addr =>
    unfold perform at h
    dsimp only at h
    split at h
    · obtain ⟨buffer, done, h⟩ := bind_ok h
      obtain rfl := pure_ok h
      obtain ⟨-, rfl⟩ := reanalyzeMessages_ok done
      exact .reanalyze
    · cases h
      exact .unblock ‹_›

def waiting (s : Consumption μ) : List μ :=
  s.buffer.prioHeap.items.map fun node => node.message.payload

def stalledAll (s : Consumption μ) : List μ :=
  (s.buffer.stallMsgMap.flatMap Prod.snd).map payload

structure Conserved (s : Consumption μ) : Prop where
  sorted : Sorted s.buffer.stallMsgMap
  perm : s.enqueued.Perm (s.popped ++ (s.waiting ++ s.stalledAll))

theorem push_payloads (b : MessageBuffer μ) (time : Nat) (message : Message μ) :
    ((b.push time message).prioHeap.items.map fun node => node.message.payload).Perm
      (message.payload :: b.prioHeap.items.map fun node => node.message.payload) :=
  (place_perm _ _).map _

theorem reenter_all_perm (g : Globals) (messages : List (Message μ)) (b : MessageBuffer μ) :
    ((messages.foldl (reenter g) b).prioHeap.items.map fun node => node.message.payload).Perm
      (b.prioHeap.items.map (fun node => node.message.payload) ++ messages.map payload) := by
  induction messages generalizing b with
  | nil => simp
  | cons message rest ih =>
    refine (ih (b.reenter g message)).trans ?_
    refine ((push_payloads _ _ message).append_right _).trans ?_
    simp only [map_cons, cons_append]
    exact perm_middle.symm

theorem Conserved.took (conserved : Conserved s) (h : Took address s step s') :
    Conserved s' := by
  obtain ⟨sorted, perm⟩ := conserved
  cases h with
  | advance later => exact ⟨sorted, perm⟩
  | @enqueue message delta draws positive inOrder =>
    refine ⟨sorted, (perm.append_right _).trans ?_⟩
    rw [append_assoc]
    refine .append_left _ ((perm_append_singleton message.payload _).trans ?_)
    have placed := push_payloads (s.buffer.countEnqueue s.globals)
      (s.buffer.arrivalTime s.globals delta draws)
      (message.enqueue s.globals.time (s.buffer.arrivalTime s.globals delta draws))
    exact placed.symm.append_right s.stalledAll
  | @stall node rest items blocked =>
    refine ⟨sorted.stall, perm.trans (.append_left _ ?_)⟩
    have moved := (flatMap_stall (address node.message.payload) node.message
      s.buffer.stallMsgMap).map payload
    have before : s.waiting = node.message.payload :: rest.map fun node => node.message.payload := by
      simp [waiting, items]
    have after : (s.buffer.countPop s.globals).prioHeap.items = rest := by simp [countPop, items]
    rw [before, waiting, after]
    exact perm_middle.symm.trans (moved.symm.append_left _)
  | @pop node rest items free =>
    refine ⟨sorted, perm.trans (.of_eq ?_)⟩
    simp [waiting, stalledAll, countPop, items]
  | block => exact ⟨sorted, perm⟩
  | unblock absent => exact ⟨sorted, perm⟩
  | @reanalyze addr =>
    refine ⟨sorted.filter _, perm.trans (.append_left _ ?_)⟩
    have back := reenter_all_perm s.globals (stalled s.buffer.stallMsgMap addr) s.buffer
    have left := (flatMap_filter addr sorted).map payload
    rw [map_append] at left
    refine (left.append_left s.waiting).trans ?_
    rw [← append_assoc]
    exact back.symm.append_right _

theorem reachable_conserved (reach : Reachable (stalling address) s) : Conserved s := by
  refine reach.invariant Conserved (fun s start => ?_) fun s step next _ _ conserved h =>
    conserved.took (took h)
  have start : Initial s := start
  exact ⟨by simp [Sorted, start.stallMap],
    by simp [start.enqueued, start.popped, waiting, stalledAll, start.heap, start.stallMap]⟩

theorem counterOf_mono {c d : Nat} (le : c ≤ d) (small : d < 2 ^ 32) :
    counterOf c ≤ counterOf d := by
  unfold counterOf
  rw [mod_eq_of_lt small, mod_eq_of_lt (Nat.lt_of_le_of_lt le small)]
  split_ifs <;> omega

variable (address)

/-- When an address is unblocked and messages are put back, no message for it in the heap arrives
within a cycle. The counter does not wrap, and there is no warmup. -/
def InTurn (s : Consumption μ) : Step μ → Prop
  | .enqueue .. => s.globals.warmupEnabled = false ∧ s.buffer.msgCounter + 1 < 2 ^ 32
  | .unblock addr =>
    (stalled s.buffer.stallMsgMap addr ≠ [] → ∀ node ∈ s.buffer.prioHeap.items,
      address node.message.payload = addr → s.globals.time + 1 < node.time) ∧
    s.buffer.msgCounter + (stalled s.buffer.stallMsgMap addr).length < 2 ^ 32
  | _ => True

def about (a : Nat) (messages : List μ) : List μ := messages.filter fun m => address m = a

def nodesAt (a : Nat) (items : List (MessageBufferNode μ)) : List (MessageBufferNode μ) :=
  items.filter fun node => address node.message.payload = a

structure InOrder (s : Consumption μ) : Prop where
  strict : s.buffer.strictFifo = true
  fixed : s.globals.randomization = false ∨ s.buffer.randomization = false
  counter : s.buffer.msgCounter < 2 ^ 32
  times : ∀ node ∈ s.buffer.prioHeap.items,
    node.time ≤ s.buffer.lastArrivalTime ∨ node.time ≤ s.globals.time + 1
  counters : ∀ node ∈ s.buffer.prioHeap.items, node.msgCounter ≤ counterOf s.buffer.msgCounter
  blocked : ∀ a ∈ s.buffer.stallMsgMap.map Prod.fst, s.blocked a = true
  keyed : ∀ a, ∀ m ∈ stalled s.buffer.stallMsgMap a, address m.payload = a
  order : ∀ a, about address a s.popped ++ ((stalled s.buffer.stallMsgMap a).map payload ++
    (nodesAt address a s.buffer.prioHeap.items).map fun node => node.message.payload) =
      about address a s.enqueued

variable {address}

theorem reenter_all_between (g : Globals) (a : Nat) (messages : List (Message μ))
    (kind : ∀ m ∈ messages, address m.payload = a) (b : MessageBuffer μ)
    (small : b.msgCounter + messages.length < 2 ^ 32) (first last : List (MessageBufferNode μ))
    (parts : nodesAt address a b.prioHeap.items = first ++ last)
    (before : ∀ node ∈ first, node.time = g.time + 1 ∧ node.msgCounter ≤ counterOf b.msgCounter)
    (after : ∀ node ∈ last, g.time + 1 < node.time) :
    (nodesAt address a (messages.foldl (reenter g) b).prioHeap.items).map
        (fun node => node.message.payload) =
      first.map (fun node => node.message.payload) ++
        (messages.map payload ++ last.map fun node => node.message.payload) := by
  induction messages generalizing b first with
  | nil => simp [parts]
  | cons message rest ih =>
    rw [length_cons] at small
    have next : (b.msgCounter + 1) % 2 ^ 64 = b.msgCounter + 1 := mod_eq_of_lt (by omega)
    have grown : counterOf b.msgCounter ≤ counterOf ((b.msgCounter + 1) % 2 ^ 64) := by
      rw [next]
      exact counterOf_mono (le_succ _) (by omega)
    have placed : nodesAt address a (b.reenter g message).prioHeap.items =
        first ++ ⟨g.time + 1, counterOf ((b.msgCounter + 1) % 2 ^ 64), message⟩ :: last := by
      refine filter_insert_between ?_ parts (fun node member => ?_)
        fun node member => ?_
      · simpa using kind message mem_cons_self
      · exact .inr ⟨(before node member).1, Nat.le_trans (before node member).2 grown⟩
      · have := after node member
        unfold MessageBufferNode.NotAfter
        dsimp only
        omega
    have small' : (b.msgCounter + 1) % 2 ^ 64 + rest.length < 2 ^ 32 := by omega
    have later := ih (fun m member => kind m (mem_cons_of_mem _ member)) (b.reenter g message)
      small' (first ++ [⟨g.time + 1, _, message⟩]) (placed.trans (append_cons ..))
      fun node member => by
        obtain member | rfl := (mem_append.mp member).imp_right mem_singleton.mp
        · exact ⟨(before node member).1, Nat.le_trans (before node member).2 grown⟩
        · exact ⟨rfl, Nat.le_refl _⟩
    rw [foldl_cons, later]
    simp

theorem reenter_all_other (g : Globals) {a addr : Nat} (other : a ≠ addr)
    (messages : List (Message μ)) (kind : ∀ m ∈ messages, address m.payload = addr)
    (b : MessageBuffer μ) :
    nodesAt address a (messages.foldl (reenter g) b).prioHeap.items =
      nodesAt address a b.prioHeap.items := by
  induction messages generalizing b with
  | nil => rfl
  | cons message rest ih =>
    rw [foldl_cons, ih fun m member => kind m (mem_cons_of_mem _ member)]
    refine filter_insert_of_false ?_ _
    simpa [kind message mem_cons_self] using other.symm

theorem reenter_all_bounds (g : Globals) (messages : List (Message μ)) (b : MessageBuffer μ)
    (small : b.msgCounter + messages.length < 2 ^ 32)
    (counters : ∀ node ∈ b.prioHeap.items, node.msgCounter ≤ counterOf b.msgCounter) :
    (messages.foldl (reenter g) b).msgCounter = b.msgCounter + messages.length ∧
    ∀ node ∈ (messages.foldl (reenter g) b).prioHeap.items,
      (node ∈ b.prioHeap.items ∨ node.time = g.time + 1) ∧
      node.msgCounter ≤ counterOf (b.msgCounter + messages.length) := by
  induction messages generalizing b with
  | nil => exact ⟨rfl, fun node member => ⟨.inl member, counters node member⟩⟩
  | cons message rest ih =>
    rw [length_cons] at small
    have next : (b.reenter g message).msgCounter = b.msgCounter + 1 := mod_eq_of_lt (by omega)
    have grown := counterOf_mono (le_succ b.msgCounter) (by omega)
    obtain ⟨counter, bounds⟩ := ih (b.reenter g message) (by omega) fun node member => by
      rw [next]
      obtain rfl | member := mem_insert.mp member
      · exact Nat.le_of_eq (congrArg counterOf next)
      · exact Nat.le_trans (counters node member) grown
    rw [next] at counter bounds
    rw [length_cons, foldl_cons, counter]
    refine ⟨by omega, fun node member => ?_⟩
    obtain ⟨origin, small⟩ := bounds node member
    refine ⟨?_, by rwa [Nat.add_right_comm] at small⟩
    obtain member | late := origin
    · obtain rfl | member := mem_insert.mp member
      · exact .inr rfl
      · exact .inl member
    · exact .inr late

theorem nodesAt_cons (a : Nat) (node : MessageBufferNode μ) (rest : List (MessageBufferNode μ)) :
    nodesAt address a (node :: rest) =
      if address node.message.payload = a then node :: nodesAt address a rest
      else nodesAt address a rest := by
  simp [nodesAt, filter_cons]

theorem about_append_one (a : Nat) (messages : List μ) (m : μ) : about address a (messages ++ [m]) =
      about address a messages ++ if address m = a then [m] else [] := by
  simp [about, filter_append, filter_cons]

theorem InOrder.enqueue {message : Message μ} {delta : Nat} {draws : Nat × Nat × Nat}
    (before : InOrder address s) (positive : 0 < delta)
    (inOrder : s.buffer.strictFifo →
      s.buffer.lastArrival s.globals ≤ s.buffer.arrivalTime s.globals delta draws)
    (turn : InTurn address s (.enqueue message delta draws)) :
    InOrder address { s with
      buffer := { (s.buffer.countEnqueue s.globals).push
          (s.buffer.arrivalTime s.globals delta draws)
          (message.enqueue s.globals.time (s.buffer.arrivalTime s.globals delta draws)) with
        lastArrivalTime := if s.globals.warmupEnabled then s.buffer.lastArrival s.globals
          else s.buffer.arrivalTime s.globals delta draws }
      enqueued := s.enqueued ++ [message.payload] } := by
  obtain ⟨cold, small⟩ := turn
  have next : (s.buffer.msgCounter + 1) % 2 ^ 64 = s.buffer.msgCounter + 1 :=
    mod_eq_of_lt (by omega)
  have grown : counterOf s.buffer.msgCounter ≤ counterOf ((s.buffer.msgCounter + 1) % 2 ^ 64) := by
    rw [next]
    exact counterOf_mono (le_succ _) small
  have arrival : s.buffer.arrivalTime s.globals delta draws = s.globals.time + delta := by
    refine if_pos ?_
    obtain off | off := before.fixed <;> simp [off]
  have last : s.buffer.lastArrival s.globals = s.buffer.lastArrivalTime := by
    refine if_neg ?_
    obtain off | off := before.fixed <;> simp [off]
  have inOrder := inOrder before.strict
  rw [arrival, last] at inOrder
  rw [arrival, last, cold]
  -- strict FIFO puts the message behind everything in the heap
  have behind : ((s.buffer.countEnqueue s.globals).push (s.globals.time + delta)
      (message.enqueue s.globals.time (s.globals.time + delta))).prioHeap.items =
        s.buffer.prioHeap.items ++ [⟨s.globals.time + delta,
          counterOf ((s.buffer.msgCounter + 1) % 2 ^ 64),
          message.enqueue s.globals.time (s.globals.time + delta)⟩] := by
    refine insert_items_of_last fun node member => ?_
    have counter := before.counters node member
    have time : node.time ≤ s.globals.time + delta := by
      obtain early | early := before.times node member <;> omega
    exact (Nat.lt_or_eq_of_le time).imp_right fun same => ⟨same, Nat.le_trans counter grown⟩
  refine ⟨before.strict, before.fixed, ?_, fun node member => ?_, fun node member => ?_,
    before.blocked, before.keyed, fun a => ?_⟩
  · show (s.buffer.msgCounter + 1) % 2 ^ 64 < 2 ^ 32
    omega
  · rw [behind] at member
    obtain member | rfl := (mem_append.mp member).imp_right mem_singleton.mp
    · obtain early | early := before.times node member
      · exact .inl (Nat.le_trans early inOrder)
      · exact .inr early
    · exact .inl (Nat.le_refl _)
  · rw [behind] at member
    obtain member | rfl := (mem_append.mp member).imp_right mem_singleton.mp
    · exact Nat.le_trans (before.counters node member) grown
    · exact Nat.le_refl _
  · have order := before.order a
    rw [behind, about_append_one, ← order, nodesAt, filter_append]
    simp only [map_append, append_assoc]
    congr 3
    by_cases here : address message.payload = a <;> simp [here, Message.enqueue]

variable {node : MessageBufferNode μ} {rest : List (MessageBufferNode μ)}

theorem countPop_items (items : s.buffer.prioHeap.items = node :: rest) :
    (s.buffer.countPop s.globals).prioHeap.items = rest := by
  simp [countPop, items]

theorem mem_of_mem_countPop {other : MessageBufferNode μ}
    (items : s.buffer.prioHeap.items = node :: rest)
    (member : other ∈ (s.buffer.countPop s.globals).prioHeap.items) :
    other ∈ s.buffer.prioHeap.items := by
  rw [countPop_items items] at member
  rw [items]
  exact mem_cons_of_mem _ member

section
variable (before : InOrder address s)
include before

theorem InOrder.reanalyze {addr : Nat} (turn : InTurn address s (.unblock addr)) :
    InOrder address { s with
      buffer := s.returned addr, blocked := update s.blocked addr false } := by
  obtain ⟨clear, small⟩ := turn
  obtain ⟨prioHeap, msgCounter, same, -⟩ :=
    reenter_all s.globals (stalled s.buffer.stallMsgMap addr) s.buffer
  obtain ⟨counter, bounds⟩ := reenter_all_bounds s.globals (stalled s.buffer.stallMsgMap addr)
    s.buffer small before.counters
  have kind := before.keyed addr
  have others := fun a (other : a ≠ addr) => reenter_all_other s.globals other _ kind s.buffer
  have own : (nodesAt address addr ((stalled s.buffer.stallMsgMap addr).foldl
      (reenter s.globals) s.buffer).prioHeap.items).map (fun node => node.message.payload) =
        (stalled s.buffer.stallMsgMap addr).map payload ++
          (nodesAt address addr s.buffer.prioHeap.items).map fun node => node.message.payload := by
    by_cases none : stalled s.buffer.stallMsgMap addr = []
    · simp [none]
    · refine reenter_all_between s.globals addr _ kind s.buffer small [] _ rfl nofun
        fun node member => ?_
      obtain ⟨member, here⟩ := mem_filter.mp member
      exact clear none node member (of_decide_eq_true here)
  simp only [same] at counter bounds others own
  simp only [returned, same]
  refine ⟨before.strict, before.fixed, ?_, fun node member => ?_, fun node member => ?_,
    fun a member => ?_, fun a m member => ?_, fun a => ?_⟩
  · dsimp only
    omega
  · obtain ⟨old | new, -⟩ := bounds node member
    · exact before.times node old
    · exact .inr (Nat.le_of_eq new)
  · rw [counter]
    exact (bounds node member).2
  · obtain ⟨entry, left, rfl⟩ := mem_map.mp member
    obtain ⟨inMap, kept⟩ := mem_filter.mp left
    exact (update_of_ne (of_decide_eq_true kept) ..).trans (before.blocked _ (mem_map_of_mem inMap))
  · simp only [stalled_filter] at member
    split at member
    · cases member
    · exact before.keyed a m member
  · simp only [stalled_filter]
    by_cases here : a = addr
    · subst here
      rw [if_pos rfl, own]
      exact before.order a
    · rw [if_neg here, others a here]
      exact before.order a

theorem InOrder.take (items : s.buffer.prioHeap.items = node :: rest) (a : Nat) :
    about address a s.popped ++ ((stalled s.buffer.stallMsgMap a).map payload ++
      ((if address node.message.payload = a then [node.message.payload] else []) ++
        (nodesAt address a rest).map fun node => node.message.payload)) =
      about address a s.enqueued := by
  rw [← before.order a, items, nodesAt_cons]
  split <;> simp

theorem InOrder.pop (items : s.buffer.prioHeap.items = node :: rest)
    (free : s.blocked (address node.message.payload) = false) :
    InOrder address { s with
      buffer := s.buffer.countPop s.globals, popped := s.popped ++ [node.message.payload] } := by
  refine ⟨before.strict, before.fixed, before.counter, fun other member => ?_,
    fun other member => ?_, before.blocked, before.keyed, fun a => ?_⟩
  · exact before.times other (mem_of_mem_countPop items member)
  · exact before.counters other (mem_of_mem_countPop items member)
  · rw [← before.take items a]
    simp only [countPop_items items, about_append_one]
    by_cases here : address node.message.payload = a
    · -- no message for an address that is not blocked is stalled
      have none : stalled s.buffer.stallMsgMap a = [] := by
        refine stalled_of_not_mem fun member => ?_
        rw [here, before.blocked a member] at free
        cases free
      simp [countPop, here, none]
    · simp [countPop, here]

theorem InOrder.stall (sorted : Sorted s.buffer.stallMsgMap)
    (items : s.buffer.prioHeap.items = node :: rest)
    (blocked : s.blocked (address node.message.payload) = true) :
    InOrder address { s with
      buffer := { s.buffer.countPop s.globals with
        stallMsgMap :=
          MessageBuffer.stall (address node.message.payload) node.message s.buffer.stallMsgMap } } := by
  refine ⟨before.strict, before.fixed, before.counter, fun other member => ?_,
    fun other member => ?_, fun a member => ?_, fun a m member => ?_, fun a => ?_⟩
  · exact before.times other (mem_of_mem_countPop items member)
  · exact before.counters other (mem_of_mem_countPop items member)
  · obtain rfl | member := mem_stall.mp member
    · exact blocked
    · exact before.blocked a member
  · simp only [stalled_stall sorted] at member
    split at member
    · rename_i here
      obtain member | rfl := (mem_append.mp member).imp_right mem_singleton.mp
      · exact before.keyed a m member
      · exact here.symm
    · exact before.keyed a m member
  · rw [← before.take items a]
    simp only [countPop_items items, stalled_stall sorted]
    by_cases here : address node.message.payload = a
    · simp [here]
    · simp [here, Ne.symm here]

theorem InOrder.took (sorted : Sorted s.buffer.stallMsgMap) (turn : InTurn address s step)
    (h : Took address s step s') : InOrder address s' := by
  cases h with
  | advance later =>
    refine ⟨before.strict, before.fixed, before.counter, fun node member => ?_, before.counters,
      before.blocked, before.keyed, before.order⟩
    exact (before.times node member).imp_right fun early => by dsimp only; omega
  | enqueue positive inOrder => exact before.enqueue positive inOrder turn
  | stall items blocked => exact before.stall sorted items blocked
  | pop items free => exact before.pop items free
  | @block addr =>
    refine ⟨before.strict, before.fixed, before.counter, before.times, before.counters,
      fun a member => ?_, before.keyed, before.order⟩
    by_cases here : a = addr
    · rw [here]
      exact Function.update_self ..
    · exact (update_of_ne here ..).trans (before.blocked a member)
  | @unblock addr absent =>
    refine ⟨before.strict, before.fixed, before.counter, before.times, before.counters,
      fun a member => ?_, before.keyed, before.order⟩
    have other : a ≠ addr := fun same => absent (same ▸ member)
    exact (update_of_ne other ..).trans (before.blocked a member)
  | @reanalyze addr => exact before.reanalyze turn

end

theorem reachable_inOrder (reach : ReachableVia (stalling address) (InTurn address) s) :
    InOrder address s := by
  refine reach.invariant (InOrder address) (fun s start => ?_) fun s step next reach turn before h =>
    before.took (reachable_conserved reach.reachable).sorted turn (took h)
  have start : Initial s := start
  exact {
    strict := start.strict
    fixed := start.fixed
    counter := by simp [start.counter]
    times := by simp [start.heap]
    counters := by simp [start.heap]
    blocked := by simp [start.stallMap]
    keyed := by simp [start.stallMap, stalled]
    order := by simp [start.stallMap, stalled, start.heap, start.popped, start.enqueued, nodesAt] }

/-- Every message is popped at most once. If messages are put back only when no younger message for
the address is about to arrive, those for each address are popped in the order in which they were
enqueued. -/
theorem stalling_keeps_order (address : μ → Nat) (s : Consumption μ) :
    (Reachable (stalling address) s → s.enqueued.Perm (s.popped ++ (s.waiting ++ s.stalledAll))) ∧
    (ReachableVia (stalling address) (InTurn address) s →
      ∀ a, about address a s.popped <+: about address a s.enqueued) := by
  refine ⟨fun reach => (reachable_conserved reach).perm, fun reach a => ?_⟩
  rw [← (reachable_inOrder reach).order a]
  exact prefix_append ..

def quiet : Consumption (Nat × Nat) where
  globals := ⟨0, false, false, 6⟩
  buffer := .empty
  blocked _ := false
  enqueued := []
  popped := []

theorem quiet_initial : Initial quiet := by
  constructor <;> first | rfl | exact .inl rfl

def overtaken (unblocked : Nat) (arrives : Nat) : List (Step (Nat × Nat)) :=
  [.block 0, .enqueue ⟨(0, 1), 0, 0⟩ 1 (0, 0, 0), .advance 1 false, .consume,
    .enqueue ⟨(0, 2), 1, 0⟩ (arrives - 1) (0, 0, 0), .advance unblocked false, .unblock 0,
    .advance arrives false, .consume]

instance (s : Consumption μ) (step : Step μ) : Decidable (InTurn address s step) :=
  match step with
  | .enqueue .. => inferInstanceAs (Decidable (_ ∧ _))
  | .unblock _ => inferInstanceAs (Decidable (_ ∧ _))
  | .advance .. | .consume | .block _ => .isTrue trivial

theorem stalling_keeps_order_overtaken : ∃ s, ReachableVia (stalling Prod.fst) (InTurn Prod.fst) s ∧
      s.enqueued = [(0, 1), (0, 2)] ∧ s.popped = [(0, 1)] ∧
      s.enqueued.Perm (s.popped ++ (s.waiting ++ s.stalledAll)) ∧
      about Prod.fst 0 s.popped <+: about Prod.fst 0 s.enqueued := by
  have ran : ((overtaken 1 3).foldlM (fun s step => if InTurn Prod.fst s step then
        s.perform Prod.fst step else .error .assertion) quiet).toOption.any
      (fun s => s.enqueued = [(0, 1), (0, 2)] ∧ s.popped = [(0, 1)]) = true := by decide +kernel
  obtain ⟨s, reach, holds⟩ := foldlM_check_allowed Initial quiet_initial ran
  obtain ⟨enqueued, popped⟩ := of_decide_eq_true holds
  obtain ⟨kept, inOrder⟩ := stalling_keeps_order Prod.fst s
  exact ⟨s, reach, enqueued, popped, kept reach.reachable, inOrder reach 0⟩

/-- The message that is put back gets the counter of a new one, and the second message is popped
before it. -/
theorem stalled_overtaken :
    ∃ s, Reachable (stalling Prod.fst) s ∧ s.enqueued = [(0, 1), (0, 2)] ∧ s.popped = [(0, 2)] := by
  have ran : ((overtaken 1 2).foldlM (perform Prod.fst) quiet).toOption.any
      (fun s => s.enqueued = [(0, 1), (0, 2)] ∧ s.popped = [(0, 2)]) = true := by decide +kernel
  obtain ⟨s, reach, holds⟩ := foldlM_check Initial (fun _ _ _ => trivial) quiet_initial ran
  exact ⟨s, reach, of_decide_eq_true holds⟩

end Consumption

end SynchroTrace.Ruby
