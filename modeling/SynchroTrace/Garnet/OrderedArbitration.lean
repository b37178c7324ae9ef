import SynchroTrace.Garnet.Exclusive

namespace SynchroTrace.Garnet
open Transition

variable {cfg : Config}

/-- Another VC of the same port and virtual network waits at the given stage for the output port of
`x`, and came earlier. -/
structure NetState.Older (s : NetState cfg) (state : VcState) (stage : FlitStage) (other x : VcId) :
    Prop where
  different : other ≠ x
  port : other.toPortId = x.toPortId
  vnet : cfg.vnetOf other.vc = cfg.vnetOf x.vc
  waits : (s.inVc other).needStage state stage s.time = true
  route : (s.inVc other).route = (s.inVc x).route
  earlier : (s.inVc other).enqueueTime < (s.inVc x).enqueueTime

theorem VcId.mem_sameVnet {x other : VcId} : other ∈ x.sameVnet cfg ↔
      other.toPortId = x.toPortId ∧ cfg.vnetOf other.vc = cfg.vnetOf x.vc := by
  have positive := cfg.vcPerVnet_pos
  simp only [VcId.sameVnet, List.mem_map, List.mem_range]
  constructor
  · rintro ⟨offset, below, rfl⟩
    refine ⟨rfl, ?_⟩
    simp only [Config.vnetOf]
    rw [Nat.mul_comm, Nat.mul_add_div positive, Nat.div_eq_of_lt below, Nat.add_zero]
  · obtain ⟨port, vc⟩ := other
    rintro ⟨rfl, same⟩
    refine ⟨vc % cfg.vcPerVnet, Nat.mod_lt _ positive, ?_⟩
    rw [← same]
    exact congrArg (VcId.mk x.toPortId) (Nat.div_add_mod' vc cfg.vcPerVnet)

/-- `t_enqueue_time`, an `int`. -/
def NetState.ownTime (s : NetState cfg) (x : VcId) : Int := ((s.inVc x).enqueueTime : Int).bmod (2 ^ 32)

theorem NetState.ownTime_le (s : NetState cfg) (x : VcId) :
    s.ownTime x ≤ (s.inVc x).enqueueTime := by
  unfold ownTime
  rw [Int.bmod_def]
  split <;> omega

/-- Only a VC that is older by the truncated time is seen. -/
theorem NetState.isCandidate_iff {s : NetState cfg} {state : VcState} {stage : FlitStage} {x : VcId}
    (ordered : cfg.ordered (cfg.vnetOf x.vc) = true) : s.isCandidate state stage x = true ↔
      ¬ ∃ other, s.Older state stage other x ∧ (s.inVc other).enqueueTime < s.ownTime x := by
  have le := s.ownTime_le x
  simp only [NetState.isCandidate, ordered, Bool.not_true, Bool.false_or, List.all_eq_true,
    VcId.mem_sameVnet, Bool.not_eq_true', Bool.and_eq_false_iff, decide_eq_false_iff_not]
  constructor
  · rintro none ⟨other, older, earlier⟩
    rcases none other ⟨older.port, older.vnet⟩ with (idle | elsewhere) | later
    · rw [older.waits] at idle
      cases idle
    · exact elsewhere older.route
    · exact later earlier
  · rintro none other ⟨port, vnet⟩
    by_contra older
    simp only [not_or, Bool.not_eq_false, not_not] at older
    obtain ⟨⟨waits, route⟩, earlier⟩ := older
    have earlier : (s.inVc other).enqueueTime < s.ownTime x := earlier
    refine none ⟨other, ⟨?_, port, vnet, waits, route, by omega⟩, earlier⟩
    rintro rfl
    omega

theorem NetState.isCandidate_right {s : NetState cfg} {state : VcState} {stage : FlitStage}
    {x : VcId} (ordered : cfg.ordered (cfg.vnetOf x.vc) = true) :
    (s.isCandidate state stage x = true ↔ ∀ other, ¬ s.Older state stage other x) ↔
      (s.inVc x).enqueueTime < 2 ^ 31 ∨ (∀ other, ¬ s.Older state stage other x) ∨
        ∃ other, s.Older state stage other x ∧ (s.inVc other).enqueueTime < s.ownTime x := by
  have early : (s.inVc x).enqueueTime < 2 ^ 31 → s.ownTime x = (s.inVc x).enqueueTime := by
    intro small
    exact Int.bmod_eq_of_le (by omega) (by omega)
  rw [isCandidate_iff ordered]
  constructor
  · intro right
    by_cases seen : ∃ other, s.Older state stage other x ∧ (s.inVc other).enqueueTime < s.ownTime x
    · exact .inr (.inr seen)
    · exact .inr (.inl (right.mp seen))
  · intro holds
    refine ⟨fun unseen other older => ?_, fun none seen => none _ seen.choose_spec.1⟩
    rcases holds with small | none | seen
    · have earlier := older.earlier
      exact unseen ⟨other, older, by rw [early small]; omega⟩
    · exact none other older
    · exact unseen seen

theorem network_ticks {s : NetState cfg} (reach : Reachable (network cfg) s) (k : Nat) :
    Reachable (network cfg) { s with time := s.time + k } := by
  induction k with
  | zero => exact reach
  | succ k ih => exact .step ih trivial (a := .tick) rfl

def wholeCycle : List (Action orderedFork.machines) :=
  [.niWakeup 0, .linkWakeup (.ni 0), .creditLinkWakeup (.ni 0), .inputUnitWakeup ⟨0, 0⟩,
    .vcAllocatorWakeup 0, .swAllocatorWakeup 0, .switchWakeup 0, .linkWakeup (.router 0 0),
    .niWakeup 1, .creditLinkWakeup (.router 0 0), .outputUnitWakeup ⟨0, 0⟩, .tick]

/-- Four packets to node 1, and eleven cycles. The first two hold the output VCs of port 0, the
others wait for one in the input VCs 1 and 0, in this order. -/
def fourPackets : List (Action orderedFork.machines) :=
  List.replicate 4 (.message 0 0 toFirst) ++ (List.replicate 11 wholeCycle).flatten

def olderWaits (s : NetState orderedFork) : Bool :=
  (s.inVc ⟨⟨0, 0⟩, 1⟩).needStage .vcAb .va s.time &&
    decide ((s.inVc ⟨⟨0, 0⟩, 1⟩).route = (s.inVc ⟨⟨0, 0⟩, 0⟩).route) &&
    decide ((s.inVc ⟨⟨0, 0⟩, 1⟩).enqueueTime < (s.inVc ⟨⟨0, 0⟩, 0⟩).enqueueTime)

theorem olderWaits_older {s : NetState orderedFork} (h : olderWaits s = true) :
    s.Older .vcAb .va ⟨⟨0, 0⟩, 1⟩ ⟨⟨0, 0⟩, 0⟩ := by
  simp only [olderWaits, Bool.and_eq_true, decide_eq_true_eq] at h
  obtain ⟨⟨waits, route⟩, earlier⟩ := h
  exact ⟨by decide, rfl, rfl, waits, route, earlier⟩

end SynchroTrace.Garnet
