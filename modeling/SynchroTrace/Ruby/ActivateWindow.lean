import Mathlib.Data.List.Basic
import Mathlib.Data.List.Nodup
import Mathlib.Tactic.SplitIfs
import SynchroTrace.Ruby.MemoryControl

namespace SynchroTrace.Ruby.MemoryControl
open Function (update update_of_ne update_self)
open Transition List Outcome

variable {μ : Type} {p : Params}

structure Timing (μ : Type) where
  cycle : Nat
  activates : List (Activate μ)
  bankBusyCounter : Nat → Int
  busBusyCounterBasic : Int
  tfawShift : Nat → BitVec 64
  tfawCount : Nat → Int

def timing (c : MemoryControl μ) : Timing μ :=
  ⟨c.cycle, c.activates, c.bankBusyCounter, c.busBusyCounterBasic, c.tfawShift, c.tfawCount⟩

namespace Timing

def tick (t : Timing μ) : Timing μ where
  cycle := t.cycle + 1
  activates := t.activates
  bankBusyCounter bank := countDown (t.bankBusyCounter bank)
  busBusyCounterBasic := countDown t.busBusyCounterBasic
  tfawShift rank := t.tfawShift rank >>> 1
  tfawCount rank := if (t.tfawShift rank).getLsbD 0 then t.tfawCount rank - 1 else t.tfawCount rank

variable (p) in
def activate (t : Timing μ) (bank : Nat) (request : Option (MemoryNode μ)) : Timing μ where
  cycle := t.cycle
  activates := ⟨t.cycle, bank, request⟩ :: t.activates
  bankBusyCounter := update t.bankBusyCounter bank p.bankBusyTime
  busBusyCounterBasic := p.basicBusBusyTime
  tfawShift :=
    if p.tFaw ≠ 0 then
      update t.tfawShift (p.getRank bank) (t.tfawShift (p.getRank bank) ||| p.activateBit)
    else t.tfawShift
  tfawCount :=
    if p.tFaw ≠ 0 then
      update t.tfawCount (p.getRank bank) (t.tfawCount (p.getRank bank) + 1)
    else t.tfawCount

variable (p) in
/-- An activate that the counters allow. -/
inductive Issue : Timing μ → Timing μ → Prop where
  | activate {t : Timing μ} {bank : Nat} {request : Option (MemoryNode μ)}
      (bankFree : t.bankBusyCounter bank ≤ 0) (busFree : t.busBusyCounterBasic ≤ 0)
      (window : t.tfawCount (p.getRank bank) < activatePerTfaw) :
      Issue t (t.activate p bank request)

end Timing

open Timing

theorem timing_markTfaw (c : MemoryControl μ) (rank : Nat) :
    (c.markTfaw p rank).timing = { c.timing with
      tfawShift :=
        if p.tFaw ≠ 0 then update c.tfawShift rank (c.tfawShift rank ||| p.activateBit)
        else c.tfawShift
      tfawCount :=
        if p.tFaw ≠ 0 then update c.tfawCount rank (c.tfawCount rank + 1)
        else c.tfawCount } := by
  unfold markTfaw
  split_ifs <;> rfl

theorem issueRefresh_issue (c : MemoryControl μ) (bank : Nat) :
    Relation.ReflTransGen (Issue p) c.timing (c.issueRefresh p bank).timing := by
  by_cases ready : c.refreshReady p bank = true
  · rw [issueRefresh, if_pos ready, timing_markTfaw]
    simp only [refreshReady, decide_eq_true_eq] at ready
    obtain ⟨-, -, bankFree, busFree, window⟩ := ready
    exact .single (.activate bankFree busFree window)
  · rw [issueRefresh, if_neg ready]

variable {c c' : MemoryControl μ}

theorem timing_issueRequest (c : MemoryControl μ) (bank : Nat) (req : MemoryNode μ)
    (rest : List (MemoryNode μ)) :
    (c.issueRequest p bank req rest).timing = c.timing.activate p bank (some req) := by
  unfold issueRequest markTfaw enqueueToDirectory Timing.activate timing
  split_ifs <;> rfl

theorem timing_takeInput (c : MemoryControl μ) : (c.takeInput p).timing = c.timing := by
  unfold takeInput
  split
  · rfl
  · dsimp only
    split_ifs <;> rfl

theorem timing_newBatch (c : MemoryControl μ) : (c.newBatch p).timing = c.timing := by
  unfold newBatch
  split_ifs <;> rfl

theorem timing_latchRefresh (h : c.latchRefresh p = .ok c') :
    c'.timing = c.timing := by
  obtain ⟨_, _, rfl⟩ := latchRefresh_ok h
  rfl

section
variable (varying : p.memFixedDelay = 0)
include varying

theorem queueReady_free {draw bank : Nat} (ready : c.queueReady p draw bank = true) :
    c.bankBusyCounter bank ≤ 0 ∧ c.busBusyCounterBasic ≤ 0 ∧
      c.tfawCount (p.getRank bank) < activatePerTfaw := by
  unfold queueReady at ready
  simp only [varying, ne_eq, not_true_eq_false, if_false, and_true] at ready
  split_ifs at ready with busy _ _ _ bus window
  exact ⟨by omega, by omega, by omega⟩

theorem tryIssue_issue (draws : Nat → Nat) (c : MemoryControl μ) (bank : Nat) :
    Relation.ReflTransGen (Issue p) c.timing (c.tryIssue p draws bank).timing := by
  unfold tryIssue
  split
  · exact .refl
  · dsimp only
    split_ifs with ready
    · obtain ⟨bankFree, busFree, window⟩ := queueReady_free varying ready
      refine .single ?_
      rw [timing_issueRequest]
      exact .activate bankFree busFree window
    · exact .refl

theorem scan_issue (draws : Nat → Nat) (n : Nat) (c : MemoryControl μ) :
    Relation.ReflTransGen (Issue p) c.timing (c.scan p draws n).timing := by
  induction n generalizing c with
  | zero => exact .refl
  | succ n ih =>
    refine .trans ?_ (ih (c.visit p draws))
    exact (issueRefresh_issue { c with roundRobin := nextBank p c.roundRobin } _).trans
      (tryIssue_issue varying draws _ _)

theorem executeCycle_issue {start : Nat} {draws : Nat → Nat}
    (h : c.executeCycle p start draws = .ok c') :
    Relation.ReflTransGen (Issue p) c.timing.tick c'.timing := by
  obtain ⟨latched, latch, h⟩ := bind_ok h
  obtain rfl := pure_ok h
  have same : (if p.memRandomArbitrate ≠ 0 then
        { latched.newBatch p with roundRobin := start % p.totalBanks }
      else latched.newBatch p).timing = c.timing.tick := by
    have before : (latched.newBatch p).timing = c.timing.tick :=
      (timing_newBatch latched).trans (timing_latchRefresh latch)
    split <;> exact before
  rw [timing_takeInput, ← same]
  exact scan_issue varying draws p.totalBanks _

theorem perform_timing {call : Call μ} (h : c.perform p call = .ok c') :
    c'.timing = c.timing ∨ Relation.ReflTransGen (Issue p) c.timing.tick c'.timing := by
  cases call with
  | advance tick =>
    unfold perform at h
    dsimp only at h
    split at h <;> cases h
    exact .inl rfl
  | enqueue message addr isMemRead latency =>
    cases h
    exact .inl rfl
  | dequeue =>
    unfold perform dequeue at h
    dsimp only at h
    split at h
    · cases h
    · obtain ⟨_, _, h⟩ := bind_ok h
      obtain rfl := pure_ok h
      exact .inl rfl
  | executeCycle start draws => exact .inr (executeCycle_issue varying h)
  | wakeup start draws =>
    unfold perform wakeup at h
    dsimp only at h
    split at h
    · obtain ⟨after, done, h⟩ := bind_ok h
      have issues := executeCycle_issue varying done
      split at h
      · obtain ⟨_, _, h⟩ := bind_ok h
        obtain rfl := pure_ok h
        exact .inr issues
      · obtain rfl := pure_ok h
        exact .inr issues
    · cases h

theorem timing_invariant (Inv : Timing μ → Prop)
    (initial : ∀ curTick, Inv (init curTick : MemoryControl μ).timing)
    (tick : ∀ t, Inv t → Inv t.tick) (issue : ∀ t t', Inv t → Issue p t t' → Inv t')
    (reach : Reachable (memoryControl μ p) c) : Inv c.timing := by
  refine reach.invariant (fun c => Inv c.timing) ?_ fun c call next _ _ before step => ?_
  · rintro c ⟨curTick, rfl⟩
    exact initial curTick
  · obtain same | issues := perform_timing varying step
    · rw [same]
      exact before
    · exact steps_invariant Inv (fun t t' step before => issue t t' before step) issues
        (tick _ before)

end

variable (p) in
/-- The counters bound how long ago the last activates were. -/
structure Timing.Spaced (t : Timing μ) : Prop where
  past : ∀ x ∈ t.activates, x.cycle ≤ t.cycle
  bank : ∀ x ∈ t.activates, (x.cycle : Int) + p.bankBusyTime ≤ t.cycle + t.bankBusyCounter x.bank
  bus : ∀ x ∈ t.activates, (x.cycle : Int) + p.basicBusBusyTime ≤ t.cycle + t.busBusyCounterBasic
  apart : t.activates.Pairwise fun x y =>
    (x.bank = y.bank → (y.cycle : Int) + p.bankBusyTime ≤ x.cycle) ∧
      (y.cycle : Int) + p.basicBusBusyTime ≤ x.cycle

theorem countDown_ge (n : Int) : n - 1 ≤ countDown n := by
  unfold countDown
  split <;> omega

theorem Timing.Spaced.tick {t : Timing μ} (spaced : Spaced p t) : Spaced p t.tick := by
  refine ⟨fun x member => ?_, fun x member => ?_, fun x member => ?_, spaced.apart⟩
  · exact Nat.le_succ_of_le (spaced.past x member)
  · have before := spaced.bank x member
    have counter := countDown_ge (t.bankBusyCounter x.bank)
    simp only [Timing.tick]
    omega
  · have before := spaced.bus x member
    have counter := countDown_ge t.busBusyCounterBasic
    simp only [Timing.tick]
    omega

theorem Timing.Spaced.issue {t t' : Timing μ} (spaced : Spaced p t) (h : Issue p t t') :
    Spaced p t' := by
  cases h with
  | @activate bank request bankFree busFree window =>
    refine ⟨fun x member => ?_, fun x member => ?_, fun x member => ?_, ?_⟩
    · obtain rfl | member := mem_cons.mp member
      · exact Nat.le_refl _
      · exact spaced.past x member
    · simp only [Timing.activate]
      obtain rfl | member := mem_cons.mp member
      · simp
      · have before := spaced.bank x member
        have past := spaced.past x member
        by_cases same : x.bank = bank
        · rw [same, update_self]
          omega
        · rw [update_of_ne same]
          exact before
    · simp only [Timing.activate]
      obtain rfl | member := mem_cons.mp member
      · exact Int.le_refl _
      · have past := spaced.past x member
        omega
    · refine pairwise_cons.mpr ⟨fun y member => ⟨fun same => ?_, ?_⟩, spaced.apart⟩
      · have before := spaced.bank y member
        dsimp only at same ⊢
        rw [← same] at before
        omega
      · have before := spaced.bus y member
        dsimp only
        omega

theorem reachable_spaced (varying : p.memFixedDelay = 0)
    (reach : Reachable (memoryControl μ p) c) : Spaced p c.timing :=
  timing_invariant varying (Spaced p) (fun _ => ⟨nofun, nofun, nofun, .nil⟩)
    (fun _ spaced => spaced.tick) (fun _ _ spaced step => spaced.issue step) reach

variable (p) in
def Timing.recent (t : Timing μ) (rank : Nat) : List (Activate μ) :=
  t.activates.filter fun x => p.getRank x.bank = rank ∧ t.cycle < x.cycle + p.tFaw

def inWindow (p : Params) (activates : List (Activate μ)) (rank start : Nat) : List (Activate μ) :=
  activates.filter fun x =>
    p.getRank x.bank = rank ∧ start ≤ x.cycle ∧ x.cycle < start + p.tFaw

variable (p) in
structure Timing.Windowed (t : Timing μ) : Prop where
  bits : ∀ rank i, i < 64 → ((t.tfawShift rank).getLsbD i = true ↔
    ∃ x ∈ t.activates, p.getRank x.bank = rank ∧ x.cycle + p.tFaw = t.cycle + i + 1)
  count : ∀ rank, t.tfawCount rank = (t.recent p rank).length
  limit : ∀ rank start, ((inWindow p t.activates rank start).length : Int) ≤ activatePerTfaw

theorem activateBit_getLsbD (small : 1 ≤ p.tFaw ∧ p.tFaw ≤ 31) {i : Nat} (bound : i < 64) :
    p.activateBit.getLsbD i = decide (i = p.tFaw - 1) := by
  have fits : p.tFaw - 1 < 32 := by omega
  unfold Params.activateBit
  rw [if_pos fits, BitVec.getLsbD_signExtend, BitVec.msb_eq_getLsbD_last]
  simp only [BitVec.getLsbD_shiftLeft]
  by_cases here : i = p.tFaw - 1
  · simp [here, fits]
    omega
  · by_cases low : i < 32 <;> simp [here, low] <;> omega

theorem leaving_length {activates : List (Activate μ)}
    (distinct : activates.Pairwise fun x y => y.cycle < x.cycle) (rank now : Nat) :
    (activates.filter fun x => p.getRank x.bank = rank ∧ x.cycle + p.tFaw = now).length =
      if ∃ x ∈ activates, p.getRank x.bank = rank ∧ x.cycle + p.tFaw = now then 1 else 0 := by
  induction activates with
  | nil => simp
  | cons x rest ih =>
    obtain ⟨first, others⟩ := pairwise_cons.mp distinct
    have ih := ih others
    by_cases here : p.getRank x.bank = rank ∧ x.cycle + p.tFaw = now
    · have none : rest.filter (fun y => p.getRank y.bank = rank ∧ y.cycle + p.tFaw = now) = [] := by
        rw [filter_eq_nil_iff]
        intro y member same
        have before := first y member
        have leaves := (of_decide_eq_true same).2
        omega
      rw [filter_cons_of_pos (by simpa using here), none, if_pos ⟨x, mem_cons_self, here⟩]
      rfl
    · rw [filter_cons_of_neg (by simpa using here), ih]
      congr 1
      simp [here]

theorem filter_leaving (activates : List (Activate μ)) (rank now : Nat) :
    (activates.filter fun x => p.getRank x.bank = rank ∧ now < x.cycle + p.tFaw).length =
      (activates.filter fun x => p.getRank x.bank = rank ∧ now + 1 < x.cycle + p.tFaw).length +
      (activates.filter fun x => p.getRank x.bank = rank ∧ x.cycle + p.tFaw = now + 1).length := by
  induction activates with
  | nil => rfl
  | cons x rest ih =>
    simp only [filter_cons, decide_eq_true_eq]
    by_cases here : p.getRank x.bank = rank
    · simp only [here, true_and]
      split_ifs <;> grind
    · simp only [here, false_and, if_false]
      exact ih

section Window
variable (small : 1 ≤ p.tFaw ∧ p.tFaw ≤ 31)
include small

theorem Timing.Windowed.tick {t : Timing μ} (windowed : Windowed p t) (spaced : Spaced p t)
    (bus : 0 < p.basicBusBusyTime) : Windowed p t.tick := by
  have distinct : t.activates.Pairwise fun x y => y.cycle < x.cycle :=
    spaced.apart.imp fun apart => by omega
  refine ⟨fun rank i bound => ?_, fun rank => ?_, windowed.limit⟩
  · simp only [Timing.tick, BitVec.getLsbD_ushiftRight]
    by_cases last : i = 63
    · subst last
      refine iff_of_false ?_ ?_
      · simp
      · rintro ⟨x, member, -, window⟩
        have past := spaced.past x member
        omega
    · rw [windowed.bits rank (1 + i) (by omega)]
      refine exists_congr fun x => and_congr_right fun _ => and_congr_right fun _ => ?_
      omega
  · have before := windowed.count rank
    have leaving := leaving_length (p := p) distinct rank (t.cycle + 1)
    have bit := windowed.bits rank 0 (by omega)
    have parts := filter_leaving (p := p) t.activates rank t.cycle
    show (if (t.tfawShift rank).getLsbD 0 then t.tfawCount rank - 1 else t.tfawCount rank) =
      ((t.activates.filter fun x =>
        p.getRank x.bank = rank ∧ t.cycle + 1 < x.cycle + p.tFaw).length : Int)
    unfold Timing.recent at before
    rw [Nat.add_zero] at bit
    simp only [bit]
    split at leaving
    · rename_i leaves
      rw [if_pos leaves]
      omega
    · rename_i stays
      rw [if_neg stays]
      omega

omit small in
theorem inWindow_le_recent {t : Timing μ} (rank : Nat) {start : Nat}
    (now : t.cycle < start + p.tFaw) :
    (inWindow p t.activates rank start).length ≤ (t.recent p rank).length := by
  refine (monotone_filter_right t.activates fun x inside => ?_).length_le
  simp only [decide_eq_true_eq] at inside ⊢
  omega

theorem Timing.Windowed.issue {t t' : Timing μ} (windowed : Windowed p t) (h : Issue p t t') :
    Windowed p t' := by
  cases h with
  | @activate bank request bankFree busFree window =>
    have on : p.tFaw ≠ 0 := by omega
    refine ⟨fun rank i bound => ?_, fun rank => ?_, fun rank start => ?_⟩
    · have before := windowed.bits rank i bound
      simp only [Timing.activate, if_pos on, mem_cons, or_and_right, exists_or, exists_eq_left]
      by_cases here : rank = p.getRank bank
      · subst here
        rw [update_self, BitVec.getLsbD_or, Bool.or_eq_true, before,
          activateBit_getLsbD small bound, decide_eq_true_eq, or_comm]
        refine or_congr ?_ Iff.rfl
        constructor
        · intro same
          exact ⟨rfl, by omega⟩
        · rintro ⟨-, same⟩
          omega
      · rw [update_of_ne here, before]
        refine (or_iff_right ?_).symm
        rintro ⟨same, -⟩
        exact here same.symm
    · have before := windowed.count rank
      simp only [Timing.activate, if_pos on, Timing.recent, filter_cons] at before ⊢
      by_cases here : rank = p.getRank bank
      · subst here
        rw [update_self, before, if_pos (by simp; omega)]
        simp
      · rw [update_of_ne here, before, if_neg (by simp [Ne.symm here])]
    · have before := windowed.limit rank start
      unfold inWindow at before ⊢
      simp only [Timing.activate, filter_cons]
      split
      · rename_i inside
        simp only [decide_eq_true_eq] at inside
        obtain ⟨here, -, now⟩ := inside
        have recent := inWindow_le_recent rank now
        rw [here, windowed.count] at window
        rw [length_cons]
        unfold inWindow at recent
        omega
      · exact before

end Window

theorem reachable_windowed (small : 1 ≤ p.tFaw ∧ p.tFaw ≤ 31) (bus : 0 < p.basicBusBusyTime)
    (varying : p.memFixedDelay = 0) {c : MemoryControl μ}
    (reach : Reachable (memoryControl μ p) c) : Spaced p c.timing ∧ Windowed p c.timing := by
  refine timing_invariant varying (fun t => Spaced p t ∧ Windowed p t) (fun curTick => ?_)
    (fun t both => ⟨both.1.tick, both.2.tick small both.1 bus⟩)
    (fun t t' both step => ⟨both.1.issue step, both.2.issue small step⟩) reach
  refine ⟨⟨nofun, nofun, nofun, .nil⟩, ⟨fun rank i _ => ?_, fun rank => rfl, fun rank start => ?_⟩⟩
  · simp [init, timing]
  · simp [init, timing, inWindow, activatePerTfaw]

def ones (register : BitVec 64) : Nat := ((List.range 64).filter register.getLsbD).length

theorem Timing.Windowed.ones_eq {t : Timing μ} (windowed : Windowed p t) (spaced : Spaced p t)
    (small : p.tFaw ≤ 62) (bus : 0 < p.basicBusBusyTime) (rank : Nat) :
    ones (t.tfawShift rank) = (t.recent p rank).length := by
  -- the activates of the window are the one bits, by the cycles until they leave it
  rw [← length_map (fun x : Activate μ => x.cycle + p.tFaw - (t.cycle + 1)), ones]
  refine (List.Perm.length_eq ?_)
  rw [perm_ext_iff_of_nodup (nodup_range.filter _)]
  · intro i
    simp only [mem_filter, mem_range, mem_map, Timing.recent, decide_eq_true_eq]
    constructor
    · rintro ⟨bound, one⟩
      obtain ⟨x, member, here, window⟩ := (windowed.bits rank i bound).mp one
      exact ⟨x, ⟨member, here, by omega⟩, by omega⟩
    · rintro ⟨x, ⟨member, here, window⟩, rfl⟩
      have past := spaced.past x member
      have bound : x.cycle + p.tFaw - (t.cycle + 1) < 64 := by omega
      exact ⟨bound, (windowed.bits rank _ bound).mpr ⟨x, member, here, by omega⟩⟩
  · have distinct : (t.recent p rank).Pairwise fun x y => y.cycle < x.cycle :=
      (spaced.apart.filter _).imp fun apart => by omega
    refine pairwise_map.mpr (distinct.imp_of_mem fun first second before => ?_)
    have window := (of_decide_eq_true (mem_filter.mp second).2).2
    omega

/-- Windows of at most 31 cycles are enforced: the count of a rank is the number of one bits of its
register and of its activates in the window, and no window has more than four. -/
theorem activate_window_enforced (small : 1 ≤ p.tFaw ∧ p.tFaw ≤ 31) (bus : 0 < p.basicBusBusyTime)
    (varying : p.memFixedDelay = 0) {c : MemoryControl μ} (reach : Reachable (memoryControl μ p) c)
    (rank : Nat) :
    c.tfawCount rank = ones (c.tfawShift rank) ∧
    c.tfawCount rank = (c.activates.filter fun x =>
      p.getRank x.bank = rank ∧ c.cycle < x.cycle + p.tFaw).length ∧
    ∀ start, ((inWindow p c.activates rank start).length : Int) ≤ activatePerTfaw := by
  obtain ⟨spaced, windowed⟩ := reachable_windowed small bus varying reach
  refine ⟨?_, windowed.count rank, windowed.limit rank⟩
  exact (windowed.count rank).trans
    (congrArg Nat.cast (windowed.ones_eq spaced (by omega) bus rank).symm)

def oneBank (tFaw : Nat) : Params where
  memBusCycleMultiplier := 10
  banksPerRank := 1
  ranksPerDimm := 1
  dimmsPerChannel := 1
  bankBit0 := 8
  rankBit0 := 11
  dimmBit0 := 12
  bankQueueSize := 12
  bankBusyTime := 1
  rankRankDelay := 1
  readWriteDelay := 2
  basicBusBusyTime := 1
  memCtlLatency := 12
  refreshPeriod := 1560
  tFaw := tFaw
  memRandomArbitrate := 0
  memFixedDelay := 0
  clock := 1
  undefinedShift := 0

def cycles (n : Nat) : List (Call Unit) := List.replicate n (.executeCycle 0 fun _ => 0)

def burst : List (Call Unit) :=
  cycles 65 ++ List.replicate 5 (.enqueue (some ()) 0 true 0) ++ cycles 7

theorem activate_window_enforced_burst :
    ∃ c : MemoryControl Unit, Reachable (memoryControl Unit (oneBank 16)) c ∧
      c.activates.length = 5 ∧ c.tfawCount 0 = ones (c.tfawShift 0) ∧ c.tfawCount 0 = 4 := by
  have ran : (burst.foldlM (perform (oneBank 16)) (init 0)).toOption.any
      (fun c => c.activates.length = 5 ∧ c.tfawCount 0 = 4) = true := by decide +kernel
  obtain ⟨c, reach, holds⟩ := foldlM_check (fun c => ∃ curTick, c = init curTick)
    (fun _ _ _ => trivial) ⟨0, rfl⟩ ran
  obtain ⟨activates, count⟩ := of_decide_eq_true holds
  exact ⟨c, reach, activates,
    (activate_window_enforced (by decide) (by decide) rfl reach 0).1, count⟩

/-- With a window of 32 cycles the sign of the shifted `int` is extended. One activate sets 33 bits,
the count falls below zero as they leave the register, and then five activates fit into the
window. -/
theorem activate_window_sign_extended :
    (∃ c : MemoryControl Unit, Reachable (memoryControl Unit (oneBank 32)) c ∧
      c.tfawCount 0 = 1 ∧ ones (c.tfawShift 0) = 33) ∧
    ∃ c : MemoryControl Unit, Reachable (memoryControl Unit (oneBank 32)) c ∧
      (inWindow (oneBank 32) c.activates 0 60).length = 5 := by
  constructor
  · have ran : ((cycles 1).foldlM (perform (oneBank 32)) (init 0)).toOption.any
        (fun c => c.tfawCount 0 = 1 ∧ ones (c.tfawShift 0) = 33) = true := by decide +kernel
    obtain ⟨c, reach, holds⟩ := foldlM_check (fun c => ∃ curTick, c = init curTick)
      (fun _ _ _ => trivial) ⟨0, rfl⟩ ran
    exact ⟨c, reach, of_decide_eq_true holds⟩
  · have ran : (burst.foldlM (perform (oneBank 32)) (init 0)).toOption.any
        (fun c => (inWindow (oneBank 32) c.activates 0 60).length = 5) = true := by decide +kernel
    obtain ⟨c, reach, holds⟩ := foldlM_check (fun c => ∃ curTick, c = init curTick)
      (fun _ _ _ => trivial) ⟨0, rfl⟩ ran
    exact ⟨c, reach, of_decide_eq_true holds⟩

end SynchroTrace.Ruby.MemoryControl
