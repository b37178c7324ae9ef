import Mathlib.Data.List.Perm.Basic
import SynchroTrace.Ruby.ActivateWindow

namespace SynchroTrace.Ruby
open Transition List Outcome Function Nat

def MemoryNode.untimed {μ : Type} (node : MemoryNode μ) : MemoryNode μ := { node with time := 0 }

namespace MemoryControl

variable {μ : Type} {p : Params}

theorem Params.getBank_lt (valid : p.Valid) (addr : Nat) : p.getBank addr < p.totalBanks := by
  obtain ⟨banks, -⟩ := valid
  unfold totalBanks at *
  have dimms : 0 < p.dimmsPerChannel := Nat.pos_of_mul_pos_left banks
  have both : 0 < p.banksPerRank * p.ranksPerDimm := Nat.pos_of_mul_pos_right banks
  have ranks : 0 < p.ranksPerDimm := Nat.pos_of_mul_pos_left both
  have perRank : 0 < p.banksPerRank := Nat.pos_of_mul_pos_right both
  have dimm : (addr >>> p.dimmBit0 &&& (p.dimmsPerChannel - 1)) + 1 ≤ p.dimmsPerChannel :=
    succ_le_of_lt (Nat.lt_of_le_of_lt and_le_right (sub_lt dimms Nat.one_pos))
  have rank : (addr >>> p.rankBit0 &&& (p.ranksPerDimm - 1)) + 1 ≤ p.ranksPerDimm :=
    succ_le_of_lt (Nat.lt_of_le_of_lt and_le_right (sub_lt ranks Nat.one_pos))
  have bank : (addr >>> p.bankBit0 &&& (p.banksPerRank - 1)) < p.banksPerRank :=
    Nat.lt_of_le_of_lt and_le_right (sub_lt perRank Nat.one_pos)
  have inRank := Nat.mul_le_mul_right p.banksPerRank rank
  have inDimm := Nat.mul_le_mul_right (p.ranksPerDimm * p.banksPerRank) dimm
  unfold getBank
  dsimp only
  rw [Nat.mul_comm (p.banksPerRank * p.ranksPerDimm), Nat.mul_comm p.banksPerRank]
  rw [Nat.add_mul, Nat.one_mul] at inRank inDimm
  rw [Nat.mul_assoc]
  omega

variable (c : MemoryControl μ)

def issued : List (MemoryNode μ) :=
  (c.activates.filterMap Activate.request).reverse

def issuedTo (bank : Nat) : List (MemoryNode μ) :=
  ((c.activates.filter fun x => x.bank = bank).filterMap Activate.request).reverse

variable (p) in
def forBank (bank : Nat) (nodes : List (MemoryNode μ)) : List (MemoryNode μ) :=
  nodes.filter fun node => p.getBank node.addr = bank

variable (p) in
structure Conserved (c : MemoryControl μ) : Prop where
  ids : c.accepted.map MemoryNode.msgCounter = (List.range c.msgCounter).map (· + 1)
  queues : ∀ bank,
    c.issuedTo bank ++ (c.bankQueues bank ++ forBank p bank c.inputQueue) = forBank p bank c.accepted
  answers : (c.dequeued ++ c.responseQueue).map MemoryNode.untimed =
    (c.issued.filter fun node => node.message.isSome).map MemoryNode.untimed

structure SameRequests (c c' : MemoryControl μ) : Prop where
  msgCounter : c'.msgCounter = c.msgCounter
  accepted : c'.accepted = c.accepted
  inputQueue : c'.inputQueue = c.inputQueue
  bankQueues : c'.bankQueues = c.bankQueues
  responseQueue : c'.responseQueue = c.responseQueue
  dequeued : c'.dequeued = c.dequeued
  issued : c'.issued = c.issued
  issuedTo : ∀ bank, c'.issuedTo bank = c.issuedTo bank

variable {c c' : MemoryControl μ}

theorem Conserved.same (conserved : Conserved p c) (same : SameRequests c c') : Conserved p c' := by
  obtain ⟨ids, queues, answers⟩ := conserved
  refine ⟨?_, fun bank => ?_, ?_⟩
  · rw [same.accepted, same.msgCounter]
    exact ids
  · rw [same.accepted, same.inputQueue, same.bankQueues, same.issuedTo]
    exact queues bank
  · rw [same.dequeued, same.responseQueue, same.issued]
    exact answers

theorem same_markTfaw (c : MemoryControl μ) (rank : Nat) : SameRequests c (c.markTfaw p rank) := by
  unfold markTfaw
  split <;> exact ⟨rfl, rfl, rfl, rfl, rfl, rfl, rfl, fun _ => rfl⟩

theorem Conserved.issueRefresh (conserved : Conserved p c) (bank : Nat) :
    Conserved p (c.issueRefresh p bank) := by
  unfold MemoryControl.issueRefresh
  split
  · refine Conserved.same (conserved.same ?_) (same_markTfaw _ _)
    refine ⟨rfl, rfl, rfl, rfl, rfl, rfl, rfl, fun other => ?_⟩
    unfold MemoryControl.issuedTo
    rw [filter_cons]
    split <;> rfl
  · exact conserved

variable (p) in
def takeHead (bank : Nat) (req : MemoryNode μ) (rest : List (MemoryNode μ)) : MemoryControl μ :=
  { c with
    bankQueues := Function.update c.bankQueues bank rest
    responseQueue :=
      if req.message.isSome then
        c.responseQueue ++ [{ req with
          time := c.time p + (p.memCtlLatency + p.memFixedDelay) * p.memBusCycleMultiplier }]
      else c.responseQueue
    activates := ⟨c.cycle, bank, some req⟩ :: c.activates }

theorem same_issueRequest (c : MemoryControl μ) (bank : Nat) (req : MemoryNode μ)
    (rest : List (MemoryNode μ)) :
    SameRequests (c.takeHead p bank req rest) (c.issueRequest p bank req rest) := by
  unfold takeHead issueRequest enqueueToDirectory markTfaw
  split_ifs <;> exact ⟨rfl, rfl, rfl, rfl, rfl, rfl, rfl, fun _ => rfl⟩

theorem Conserved.issueRequest (conserved : Conserved p c) {bank : Nat} {req : MemoryNode μ}
    {rest : List (MemoryNode μ)} (queue : c.bankQueues bank = req :: rest) :
    Conserved p (c.issueRequest p bank req rest) := by
  obtain ⟨ids, queues, answers⟩ := conserved
  refine Conserved.same (c := c.takeHead p bank req rest) ⟨ids, fun other => ?_, ?_⟩
    (same_issueRequest c bank req rest)
  · have before := queues other
    unfold MemoryControl.issuedTo takeHead at *
    dsimp only
    by_cases here : other = bank
    · subst here
      rw [queue] at before
      rw [← before, update_self, filter_cons_of_pos (by simp)]
      simp
    · have apart : ¬ bank = other := fun same => here same.symm
      rw [update_of_ne here, filter_cons_of_neg (by simpa using apart)]
      exact before
  · unfold MemoryControl.issued takeHead at *
    simp only [filterMap_cons, reverse_cons, filter_append, map_append]
      at answers ⊢
    by_cases answered : req.message.isSome
    · simp only [answered, if_true, map_append]
      rw [← append_assoc, answers]
      simp [answered, MemoryNode.untimed]
    · simp [answered, answers]

theorem Conserved.tryIssue (conserved : Conserved p c) (draws : Nat → Nat) (bank : Nat) :
    Conserved p (c.tryIssue p draws bank) := by
  unfold MemoryControl.tryIssue
  split
  · exact conserved
  · rename_i req rest queue
    dsimp only
    have idle : Conserved p { c with idleCount := idleCountMaxValue } :=
      conserved.same ⟨rfl, rfl, rfl, rfl, rfl, rfl, rfl, fun _ => rfl⟩
    split
    · exact idle.issueRequest queue
    · exact idle

theorem Conserved.scan (conserved : Conserved p c) (draws : Nat → Nat) (n : Nat) :
    Conserved p (c.scan p draws n) := by
  induction n generalizing c with
  | zero => exact conserved
  | succ n ih =>
    have next : Conserved p { c with roundRobin := nextBank p c.roundRobin } :=
      conserved.same ⟨rfl, rfl, rfl, rfl, rfl, rfl, rfl, fun _ => rfl⟩
    exact ih ((next.issueRefresh _).tryIssue draws _)

theorem forBank_cons (bank : Nat) (node : MemoryNode μ) (rest : List (MemoryNode μ)) :
    forBank p bank (node :: rest) =
      if p.getBank node.addr = bank then node :: forBank p bank rest else forBank p bank rest := by
  simp [forBank, filter_cons]

section
variable (conserved : Conserved p c)
include conserved

theorem Conserved.takeInput : Conserved p (c.takeInput p) := by
  unfold MemoryControl.takeInput
  split
  · exact conserved
  · rename_i req rest input
    dsimp only
    split
    · refine ⟨conserved.ids, fun bank => ?_, conserved.answers⟩
      have before := conserved.queues bank
      rw [input, forBank_cons] at before
      dsimp only
      by_cases here : p.getBank req.addr = bank
      · subst here
        rw [if_pos rfl] at before
        rw [← before, update_self]
        simp
        rfl
      · rw [if_neg here] at before
        rw [update_of_ne (Ne.symm here)]
        exact before
    · exact conserved.same ⟨rfl, rfl, rfl, rfl, rfl, rfl, rfl, fun _ => rfl⟩

theorem Conserved.executeCycle {start : Nat} {draws : Nat → Nat}
    (h : c.executeCycle p start draws = .ok c') : Conserved p c' := by
  obtain ⟨latched, latch, h⟩ := bind_ok h
  obtain rfl := pure_ok h
  have before : Conserved p latched := by
    obtain ⟨_, _, rfl⟩ := latchRefresh_ok latch
    exact conserved.same ⟨rfl, rfl, rfl, rfl, rfl, rfl, rfl, fun _ => rfl⟩
  have batch : Conserved p (latched.newBatch p) := by
    refine before.same ?_
    unfold newBatch
    split <;> exact ⟨rfl, rfl, rfl, rfl, rfl, rfl, rfl, fun _ => rfl⟩
  refine Conserved.takeInput (Conserved.scan ?_ draws _)
  split
  · exact batch.same ⟨rfl, rfl, rfl, rfl, rfl, rfl, rfl, fun _ => rfl⟩
  · exact batch

theorem Conserved.enqueue (message : Option μ) (addr : Nat) (isMemRead : Bool) (latency : Nat) :
    Conserved p (c.enqueue p message addr isMemRead latency) := by
  obtain ⟨ids, queues, answers⟩ := conserved
  refine ⟨?_, fun bank => ?_, answers⟩
  · simp only [MemoryControl.enqueue, map_append, ids, range_succ]
    rfl
  · have before := queues bank
    simp only [MemoryControl.enqueue, forBank, filter_append] at before ⊢
    rw [← before]
    simp only [append_assoc]
    rfl

theorem Conserved.dequeue (h : c.dequeue p = .ok c') : Conserved p c' := by
  obtain ⟨ids, queues, answers⟩ := conserved
  unfold MemoryControl.dequeue at h
  split at h
  · cases h
  · rename_i node rest response
    obtain ⟨_, _, h⟩ := bind_ok h
    obtain rfl := pure_ok h
    refine ⟨ids, queues, ?_⟩
    refine Eq.trans ?_ answers
    simp [response]

theorem Conserved.perform {call : Call μ} (h : c.perform p call = .ok c') : Conserved p c' := by
  cases call with
  | advance tick =>
    unfold MemoryControl.perform at h
    dsimp only at h
    split at h <;> cases h
    exact conserved.same ⟨rfl, rfl, rfl, rfl, rfl, rfl, rfl, fun _ => rfl⟩
  | enqueue message addr isMemRead latency =>
    cases h
    exact conserved.enqueue message addr isMemRead latency
  | dequeue => exact conserved.dequeue h
  | executeCycle start draws => exact conserved.executeCycle h
  | wakeup start draws =>
    unfold MemoryControl.perform wakeup at h
    dsimp only at h
    split at h
    · have before : Conserved p { c with event := none } :=
        conserved.same ⟨rfl, rfl, rfl, rfl, rfl, rfl, rfl, fun _ => rfl⟩
      obtain ⟨after, done, h⟩ := bind_ok h
      have after := before.executeCycle done
      split at h
      · obtain ⟨_, _, h⟩ := bind_ok h
        obtain rfl := pure_ok h
        exact after.same ⟨rfl, rfl, rfl, rfl, rfl, rfl, rfl, fun _ => rfl⟩
      · obtain rfl := pure_ok h
        exact after.same ⟨rfl, rfl, rfl, rfl, rfl, rfl, rfl, fun _ => rfl⟩
    · cases h

end

theorem reachable_conserved (reach : Reachable (memoryControl μ p) c) : Conserved p c := by
  refine reach.invariant (Conserved p) ?_ fun c call next _ _ conserved step => conserved.perform step
  rintro c ⟨curTick, rfl⟩
  exact ⟨rfl, fun bank => rfl, rfl⟩

/-- Queues only lose requests, and a full idle count stays. -/
structure Drains (c c' : MemoryControl μ) : Prop where
  queues : ∀ bank, c'.bankQueues bank ≠ [] → c.bankQueues bank ≠ []
  idle : c.idleCount = idleCountMaxValue → c'.idleCount = idleCountMaxValue
  event : c'.event = c.event
  inputQueue : c'.inputQueue = c.inputQueue

theorem Drains.trans {c'' : MemoryControl μ} (first : Drains c c') (second : Drains c' c'') :
    Drains c c'' :=
  ⟨fun bank left => first.queues bank (second.queues bank left),
    fun full => second.idle (first.idle full), second.event.trans first.event,
    second.inputQueue.trans first.inputQueue⟩

theorem drains_issueRefresh (c : MemoryControl μ) (bank : Nat) :
    Drains c (c.issueRefresh p bank) ∧ (c.issueRefresh p bank).roundRobin = c.roundRobin := by
  unfold issueRefresh markTfaw
  split_ifs <;> exact ⟨⟨fun _ => id, id, rfl, rfl⟩, rfl⟩

theorem issueRequest_frame (c : MemoryControl μ) (bank : Nat) (req : MemoryNode μ)
    (rest : List (MemoryNode μ)) :
    (c.issueRequest p bank req rest).idleCount = c.idleCount ∧
    (c.issueRequest p bank req rest).event = c.event ∧
    (c.issueRequest p bank req rest).roundRobin = c.roundRobin := by
  unfold issueRequest markTfaw enqueueToDirectory
  split_ifs <;> exact ⟨rfl, rfl, rfl⟩

theorem drains_tryIssue (draws : Nat → Nat) (c : MemoryControl μ) (bank : Nat) :
    Drains c (c.tryIssue p draws bank) ∧ (c.tryIssue p draws bank).roundRobin = c.roundRobin ∧
      ((c.tryIssue p draws bank).bankQueues bank ≠ [] →
        (c.tryIssue p draws bank).idleCount = idleCountMaxValue) := by
  unfold tryIssue
  split
  · rename_i empty
    exact ⟨⟨fun _ => id, id, rfl, rfl⟩, rfl, fun left => absurd empty left⟩
  · rename_i req rest queue
    dsimp only
    split
    · obtain ⟨idle, event, roundRobin⟩ := issueRequest_frame (p := p)
        { c with idleCount := idleCountMaxValue } bank req rest
      have same := same_issueRequest (p := p) { c with idleCount := idleCountMaxValue } bank req rest
      refine ⟨⟨fun other left => ?_, fun _ => idle, event, same.inputQueue⟩, roundRobin,
        fun _ => idle⟩
      by_cases here : other = bank
      · rw [here, queue]
        exact cons_ne_nil _ _
      · rw [same.bankQueues] at left
        simpa [takeHead, here] using left
    · exact ⟨⟨fun _ => id, fun _ => rfl, rfl, rfl⟩, rfl, fun _ => rfl⟩

theorem drains_visit (draws : Nat → Nat) (c : MemoryControl μ) : Drains c (c.visit p draws) ∧
    (c.visit p draws).roundRobin = nextBank p c.roundRobin ∧
    ((c.visit p draws).bankQueues (nextBank p c.roundRobin) ≠ [] →
      (c.visit p draws).idleCount = idleCountMaxValue) := by
  have next : Drains c { c with roundRobin := nextBank p c.roundRobin } :=
    ⟨fun _ => id, id, rfl, rfl⟩
  obtain ⟨refreshed, same⟩ := drains_issueRefresh (p := p)
    { c with roundRobin := nextBank p c.roundRobin } (nextBank p c.roundRobin)
  obtain ⟨drains, moved, busy⟩ := drains_tryIssue (p := p) draws
    ({ c with roundRobin := nextBank p c.roundRobin }.issueRefresh p (nextBank p c.roundRobin))
    (nextBank p c.roundRobin)
  exact ⟨(next.trans refreshed).trans drains, moved.trans same, busy⟩

variable {bank start : Nat}

theorem nextBank_eq (inRange : bank < p.totalBanks) :
    nextBank p bank = (bank + 1) % p.totalBanks := by
  unfold nextBank
  split
  · rw [show bank + 1 = p.totalBanks by omega, mod_self]
  · rw [mod_eq_of_lt (by omega)]

theorem scan_busy (draws : Nat → Nat) (n : Nat) (c : MemoryControl μ)
    (inRange : c.roundRobin < p.totalBanks) :
    Drains c (c.scan p draws n) ∧ (c.scan p draws n).roundRobin < p.totalBanks ∧
    ∀ k, 1 ≤ k → k ≤ n → (c.scan p draws n).bankQueues ((c.roundRobin + k) % p.totalBanks) ≠ [] →
      (c.scan p draws n).idleCount = idleCountMaxValue := by
  induction n generalizing c with
  | zero => exact ⟨⟨fun _ => id, id, rfl, rfl⟩, inRange, fun k positive bound => by omega⟩
  | succ n ih =>
    obtain ⟨drains, moved, busy⟩ := drains_visit (p := p) draws c
    have next := nextBank_eq inRange
    obtain ⟨rest, inRange, later⟩ := ih (c.visit p draws) (by
      rw [moved, next]
      exact mod_lt _ (by omega))
    refine ⟨drains.trans rest, inRange, fun k positive bound left => ?_⟩
    by_cases first : k = 1
    · subst first
      refine rest.idle (busy (rest.queues _ ?_))
      rw [next]
      exact left
    · refine later (k - 1) (by omega) (by omega) ?_
      rw [moved, next, mod_add_mod, show c.roundRobin + 1 + (k - 1) = c.roundRobin + k by omega]
      exact left

theorem exists_turn {r total : Nat} (r_lt : r < total) (bank_lt : bank < total) :
    ∃ k, 1 ≤ k ∧ k ≤ total ∧ (r + k) % total = bank := by
  by_cases ahead : r < bank
  · refine ⟨bank - r, by omega, by omega, ?_⟩
    rw [show r + (bank - r) = bank by omega, mod_eq_of_lt bank_lt]
  · refine ⟨bank + total - r, by omega, by omega, ?_⟩
    rw [show r + (bank + total - r) = bank + total by omega, add_mod_right, mod_eq_of_lt bank_lt]

theorem admit_busy (c : MemoryControl μ) (inRange : c.roundRobin < p.totalBanks)
    (busy : ∀ bank, bank < p.totalBanks → c.bankQueues bank ≠ [] → c.idleCount =
      idleCountMaxValue) :
    (c.takeInput p).roundRobin < p.totalBanks ∧ (c.takeInput p).event = c.event ∧
    ((c.takeInput p).inputQueue ≠ [] ∨
      (∃ bank, bank < p.totalBanks ∧ (c.takeInput p).bankQueues bank ≠ []) →
      (c.takeInput p).idleCount = idleCountMaxValue) := by
  unfold takeInput
  split
  · rename_i empty
    refine ⟨inRange, rfl, ?_⟩
    rintro (left | ⟨bank, bound, left⟩)
    · exact absurd empty left
    · exact busy bank bound left
  · dsimp only
    split <;> exact ⟨inRange, rfl, fun _ => rfl⟩

theorem newBatch_frame (c : MemoryControl μ) :
    (c.newBatch p).roundRobin = c.roundRobin ∧ (c.newBatch p).event = c.event := by
  unfold newBatch
  split <;> exact ⟨rfl, rfl⟩

variable {draws : Nat → Nat}

theorem executeCycle_busy (valid : p.Valid) (inRange : c.roundRobin < p.totalBanks)
    (h : c.executeCycle p start draws = .ok c') :
    c'.roundRobin < p.totalBanks ∧ c'.event = c.event ∧
    (c'.inputQueue ≠ [] ∨ (∃ bank, bank < p.totalBanks ∧ c'.bankQueues bank ≠ []) →
      c'.idleCount = idleCountMaxValue) := by
  obtain ⟨latched, latch, h⟩ := bind_ok h
  obtain rfl := pure_ok h
  obtain ⟨position, event⟩ : latched.roundRobin = c.roundRobin ∧ latched.event = c.event := by
    obtain ⟨_, _, rfl⟩ := latchRefresh_ok latch
    exact ⟨rfl, rfl⟩
  obtain ⟨batchPosition, batchEvent⟩ := newBatch_frame (p := p) latched
  have started : ∃ first : MemoryControl μ, (if p.memRandomArbitrate ≠ 0 then
        { latched.newBatch p with roundRobin := start % p.totalBanks }
      else latched.newBatch p) = first ∧ first.roundRobin < p.totalBanks ∧ first.event = c.event := by
    refine ⟨_, rfl, ?_⟩
    split
    · exact ⟨mod_lt _ valid.banks, batchEvent.trans event⟩
    · refine ⟨?_, batchEvent.trans event⟩
      rw [batchPosition, position]
      exact inRange
  obtain ⟨first, same, firstInRange, firstEvent⟩ := started
  rw [same]
  obtain ⟨drains, scanned, busy⟩ := scan_busy draws p.totalBanks first firstInRange
  obtain ⟨final, finalEvent, idle⟩ := admit_busy (first.scan p draws p.totalBanks) scanned
    fun bank bound left => by
      obtain ⟨k, positive, within, turn⟩ := exists_turn firstInRange bound
      exact busy k positive within (turn.symm ▸ left)
  exact ⟨final, (finalEvent.trans drains.event).trans firstEvent, idle⟩

theorem reachable_inRange (valid : p.Valid) (reach : Reachable (memoryControl μ p) c) :
    c.roundRobin < p.totalBanks := by
  refine reach.invariant (fun c => c.roundRobin < p.totalBanks) ?_ ?_
  · rintro c ⟨curTick, rfl⟩
    exact valid.banks
  intro c call next _ _ inRange (h : c.perform p call = .ok next)
  cases call with
  | advance tick =>
    unfold perform at h
    dsimp only at h
    split at h <;> cases h
    exact inRange
  | enqueue message addr isMemRead latency =>
    cases h
    exact inRange
  | dequeue =>
    unfold perform dequeue at h
    dsimp only at h
    split at h
    · cases h
    · obtain ⟨_, _, h⟩ := bind_ok h
      obtain rfl := pure_ok h
      exact inRange
  | executeCycle start draws => exact (executeCycle_busy valid inRange h).1
  | wakeup start draws =>
    unfold perform wakeup at h
    dsimp only at h
    split at h
    · obtain ⟨after, done, h⟩ := bind_ok h
      have inRange := (executeCycle_busy valid (c := { c with event := none }) inRange done).1
      split at h
      · obtain ⟨_, _, h⟩ := bind_ok h
        obtain rfl := pure_ok h
        exact inRange
      · obtain rfl := pure_ok h
        exact inRange
    · cases h

theorem wakeup_goes_on (valid : p.Valid) (inRange : c.roundRobin < p.totalBanks)
    (h : c.perform p (.wakeup start draws) = .ok c')
    (left : c'.inputQueue ≠ [] ∨ ∃ bank, bank < p.totalBanks ∧ c'.bankQueues bank ≠ []) :
    c'.event ≠ none := by
  unfold perform wakeup at h
  dsimp only at h
  split at h
  · obtain ⟨after, done, h⟩ := bind_ok h
    obtain ⟨-, -, busy⟩ := executeCycle_busy valid (c := { c with event := none }) inRange done
    split at h
    · obtain ⟨_, _, h⟩ := bind_ok h
      obtain rfl := pure_ok h
      exact Option.some_ne_none _
    · rename_i idle
      obtain rfl := pure_ok h
      have full : after.idleCount = idleCountMaxValue := busy left
      rw [full] at idle
      exact absurd (by decide) idle
  · cases h

theorem flatMap_forBank_cons {banks : List Nat} (nodup : banks.Nodup) (node : MemoryNode μ)
    (rest : List (MemoryNode μ)) (member : p.getBank node.addr ∈ banks) :
    (banks.flatMap fun bank => forBank p bank (node :: rest)).Perm
      (node :: banks.flatMap fun bank => forBank p bank rest) := by
  induction banks with
  | nil => cases member
  | cons bank banks ih =>
    obtain ⟨fresh, nodup⟩ := nodup_cons.mp nodup
    simp only [flatMap_cons]
    obtain here | later := mem_cons.mp member
    · have others : ∀ other ∈ banks, forBank p other (node :: rest) = forBank p other rest := by
        intro other inBanks
        rw [forBank_cons, if_neg]
        rintro rfl
        exact fresh (here ▸ inBanks)
      rw [forBank_cons, if_pos here, flatMap_congr others]
      rfl
    · have apart : p.getBank node.addr ≠ bank := by
        rintro rfl
        exact fresh later
      rw [forBank_cons, if_neg apart]
      exact ((ih nodup later).append_left _).trans perm_middle

theorem flatMap_forBank (valid : p.Valid) (nodes : List (MemoryNode μ)) :
    ((List.range p.totalBanks).flatMap fun bank => forBank p bank nodes).Perm nodes := by
  induction nodes with
  | nil => simp [forBank]
  | cons node rest ih =>
    have member := mem_range.mpr (p.getBank_lt valid node.addr)
    exact (flatMap_forBank_cons nodup_range node rest member).trans (ih.cons node)

variable (p) in
def queued (c : MemoryControl μ) : List (MemoryNode μ) :=
  (List.range p.totalBanks).flatMap c.bankQueues

def unanswered (c : MemoryControl μ) : List (MemoryNode μ) :=
  c.issued.filter fun node => !node.message.isSome

theorem Conserved.issuedTo_eq (conserved : Conserved p c) (bank : Nat) :
    c.issuedTo bank = forBank p bank c.issued := by
  have own : ∀ x ∈ c.activates, ∀ req, x.request = some req → p.getBank req.addr = x.bank := by
    intro x member req request
    have inside : req ∈ c.issuedTo x.bank := by
      refine mem_reverse.mpr (mem_filterMap.mpr ⟨x, ?_, request⟩)
      exact mem_filter.mpr ⟨member, by simp⟩
    have among : req ∈ forBank p x.bank c.accepted := by
      rw [← conserved.queues x.bank]
      exact mem_append_left _ inside
    exact of_decide_eq_true (mem_filter.mp among).2
  unfold MemoryControl.issuedTo MemoryControl.issued forBank
  rw [filter_reverse]
  congr 1
  generalize c.activates = activates at own
  induction activates with
  | nil => rfl
  | cons x rest ih =>
    have ih := ih fun y member => own y (mem_cons_of_mem _ member)
    cases request : x.request with
    | none =>
      by_cases here : x.bank = bank <;> simp [here, request, ih]
    | some req =>
      have same := own x mem_cons_self req request
      by_cases here : x.bank = bank <;>
        simp [here, request, ih, same]

theorem Conserved.perm (valid : p.Valid) (conserved : Conserved p c) :
    c.accepted.Perm (c.issued ++ (c.queued p ++ c.inputQueue)) := by
  refine (flatMap_forBank valid c.accepted).symm.trans ?_
  have parts : ((List.range p.totalBanks).flatMap fun bank => forBank p bank c.accepted) =
      (List.range p.totalBanks).flatMap fun bank =>
        forBank p bank c.issued ++ (c.bankQueues bank ++ forBank p bank c.inputQueue) := by
    refine flatMap_congr fun bank _ => ?_
    rw [← conserved.queues bank, conserved.issuedTo_eq]
  rw [parts]
  refine (flatMap_append_perm ..).symm.trans ((flatMap_forBank valid c.issued).append ?_)
  exact (flatMap_append_perm ..).symm.trans ((flatMap_forBank valid c.inputQueue).append_left _)

theorem Conserved.places (valid : p.Valid) (conserved : Conserved p c) :
    (c.accepted.map MemoryNode.untimed).Perm ((c.inputQueue ++ (c.queued p ++ (c.responseQueue ++
      (c.dequeued ++ c.unanswered)))).map MemoryNode.untimed) := by
  have answered : ((c.responseQueue ++ (c.dequeued ++ c.unanswered)).map MemoryNode.untimed).Perm
      (c.issued.map MemoryNode.untimed) := by
    rw [← append_assoc, map_append]
    have queues : ((c.responseQueue ++ c.dequeued).map MemoryNode.untimed).Perm
        ((c.issued.filter fun node => node.message.isSome).map MemoryNode.untimed) := by
      rw [← conserved.answers]
      exact perm_append_comm.map _
    refine (queues.append_right _).trans ?_
    rw [← map_append]
    exact (filter_append_perm _ c.issued).map _
  refine ((conserved.perm valid).map _).trans ?_
  simp only [map_append] at answered ⊢
  refine (answered.symm.append_right _).trans ?_
  refine perm_append_comm.trans ?_
  simp only [append_assoc]
  rw [← append_assoc, ← append_assoc (c.inputQueue.map _)]
  exact perm_append_comm.append_right _

theorem Conserved.answered (conserved : Conserved p c) :
    ∀ node ∈ c.dequeued ++ c.responseQueue, node.message.isSome := by
  intro node member
  have among := mem_map_of_mem (f := MemoryNode.untimed) member
  rw [conserved.answers] at among
  obtain ⟨other, issued, same⟩ := mem_map.mp among
  have message : other.untimed.message = node.untimed.message := congrArg MemoryNode.message same
  have answered := (mem_filter.mp issued).2
  rwa [show other.message = node.message from message] at answered

def threeReads : List (Call Unit) :=
  [.enqueue (some ()) 0 true 0, .enqueue (some ()) 64 true 0, .enqueue (some ()) 128 true 0,
    .advance 1, .wakeup 0 fun _ => 0, .advance 11, .wakeup 0 fun _ => 0, .advance 21]

end MemoryControl

end SynchroTrace.Ruby
