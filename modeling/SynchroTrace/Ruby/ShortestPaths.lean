import Mathlib.Algebra.BigOperators.Group.Finset.Basic
import Mathlib.Algebra.Order.BigOperators.Group.Finset
import SynchroTrace.Lib.Outcome
import SynchroTrace.Lib.Walks
import SynchroTrace.Ruby.Topology

namespace SynchroTrace.Ruby.Topology
open Walks List Outcome

variable {nodes i j k : Nat} {paths : Paths} {change : Bool} (matrix : Matrix)

theorem set_apply (i j : Nat) (value : Int) (a b : Nat) :
    matrix.set i j value a b = if a = i ∧ b = j then value else matrix a b := by
  unfold Matrix.set
  by_cases row : a = i
  · subst row
    by_cases column : b = j <;> simp [column]
  · simp [row]

@[simp] theorem set_set (i j : Nat) (first second : Int) :
    (matrix.set i j first).set i j second = matrix.set i j second := by
  simp [Matrix.set]

@[simp] theorem set_self (i j : Nat) : matrix.set i j (matrix i j) = matrix := by
  simp [Matrix.set]

/-- The matrices after the pair got a shorter way through a switch; `hops` is what `inter_switches`
had for the pair when that switch was visited. -/
def Paths.improve (paths : Paths) (i j k : Nat) (hops : Int) : Paths :=
  let inter := paths.interSwitches.set i j hops
  { currentDist := paths.currentDist.set i j (paths.currentDist.through i k j)
    latencies := paths.latencies.set i j (paths.latencies.through i k j)
    interSwitches := paths.interSwitches.set i j ((inter i k + inter k j + 1).bmod (2 ^ 32)) }

inductive Found (paths : Paths) (i j : Nat) (visited : List Nat) : Scan → Prop
  | nothing (below : ∀ k ∈ visited,
        paths.currentDist i j ≤ paths.currentDist.through i k j) :
      Found paths i j visited
        ⟨paths.currentDist i j, paths.currentDist i j, none, paths.interSwitches⟩
  | shorter (k : Nat) (hops : Int) (member : k ∈ visited)
      (shorter : paths.currentDist.through i k j < paths.currentDist i j)
      (below : ∀ k' ∈ visited, paths.currentDist.through i k j ≤
        paths.currentDist.through i k' j) :
      Found paths i j visited ⟨paths.currentDist.through i k j,
        paths.currentDist.through i k j, some k,
        (paths.improve i j k hops).interSwitches⟩

variable {dist : Matrix}

theorem visit_shorter {scan : Scan} (settled : scan.previousMinimum = scan.minimum)
    (shorter : dist.through i k j < scan.minimum) :
    scan.visit dist i j k = ⟨dist.through i k j, dist.through i k j, some k,
      scan.interSwitches.set i j
        ((scan.interSwitches i k + scan.interSwitches k j + 1).bmod (2 ^ 32))⟩ := by
  have least : min scan.minimum (dist.through i k j) = dist.through i k j := min_eq_right shorter.le
  simp [Scan.visit, least, settled, shorter.ne']

theorem visit_longer {scan : Scan} (settled : scan.previousMinimum = scan.minimum)
    (longer : scan.minimum ≤ dist.through i k j) : scan.visit dist i j k = scan := by
  have least : min scan.minimum (dist.through i k j) = scan.minimum := min_eq_left longer
  obtain ⟨minimum, previous, intermediate, inter⟩ := scan
  dsimp only at settled least
  subst settled
  simp [Scan.visit, least]

theorem Found.visit {visited : List Nat} {scan : Scan} (found : Found paths i j visited scan)
    (k : Nat) : Found paths i j (visited ++ [k]) (scan.visit paths.currentDist i j k) := by
  cases found with
  | nothing below =>
    by_cases shorter : paths.currentDist.through i k j < paths.currentDist i j
    · rw [visit_shorter rfl shorter]
      have found : Found paths i j (visited ++ [k]) _ :=
        .shorter k (paths.interSwitches i j) (by simp) shorter fun k' member => by
          obtain member | rfl := by simpa using member
          · exact shorter.le.trans (below k' member)
          · exact le_rfl
      simpa [Paths.improve] using found
    · rw [visit_longer rfl (not_lt.mp shorter)]
      refine .nothing fun k' member => ?_
      obtain member | rfl := by simpa using member
      · exact below k' member
      · exact not_lt.mp shorter
  | shorter best hops member shorter below =>
    by_cases better : paths.currentDist.through i k j <
        paths.currentDist.through i best j
    · rw [visit_shorter rfl better]
      have found : Found paths i j (visited ++ [k]) _ :=
        .shorter k ((paths.improve i j best hops).interSwitches i j) (by simp)
          (better.trans shorter) fun k' member => by
            obtain member | rfl := by simpa using member
            · exact better.le.trans (below k' member)
            · exact le_rfl
      simpa [Paths.improve, set_apply] using found
    · rw [visit_longer rfl (not_lt.mp better)]
      refine .shorter best hops (mem_append_left _ member) shorter fun k' member => ?_
      obtain member | rfl := by simpa using member
      · exact below k' member
      · exact not_lt.mp better

theorem found_scan (nodes i j : Nat) (paths : Paths) :
    Found paths i j (List.range nodes) (paths.scan nodes i j) := by
  have visits : ∀ (before after : List Nat) (scan : Scan), Found paths i j before scan →
      Found paths i j (before ++ after) (after.foldl (Scan.visit paths.currentDist i j) scan) := by
    intro before after
    induction after generalizing before with
    | nil => simp
    | cons k rest ih =>
      intro scan found
      simpa using ih (before ++ [k]) _ (found.visit k)
  exact visits [] (List.range nodes) _ (.nothing (by simp))

inductive Relaxed (nodes i j : Nat) (paths : Paths) (change : Bool) : Paths × Bool → Prop
  | settled (closed : ∀ k < nodes,
        paths.currentDist i j ≤ paths.currentDist.through i k j) :
      Relaxed nodes i j paths change (paths, change)
  | improved (k : Nat) (hops : Int) (bound : k < nodes)
      (shorter : paths.currentDist.through i k j < paths.currentDist i j)
      (least : ∀ k' < nodes, paths.currentDist.through i k j ≤
        paths.currentDist.through i k' j) :
      Relaxed nodes i j paths change (paths.improve i j k hops, true)

theorem exists_relax (nodes i j : Nat) (paths : Paths) (change : Bool) :
    ∃ next, relax nodes i (paths, change) j = .ok next ∧ Relaxed nodes i j paths change next := by
  have found := found_scan nodes i j paths
  unfold relax
  dsimp only
  generalize paths.scan nodes i j = scan at found
  cases found with
  | nothing below =>
    rw [if_neg (by simp)]
    exact ⟨_, rfl, .settled fun k bound => below k (mem_range.mpr bound)⟩
  | shorter k hops member shorter below =>
    have bound := mem_range.mp member
    rw [if_pos shorter.ne']
    simp only [if_pos bound]
    exact ⟨_, rfl, .improved k hops bound shorter fun k' bound => below k' (mem_range.mpr bound)⟩

variable {next : Paths × Bool}

theorem relax_ok (h : relax nodes i (paths, change) j = .ok next) :
    Relaxed nodes i j paths change next := by
  obtain ⟨_, same, relaxed⟩ := exists_relax nodes i j paths change
  rw [h] at same
  cases same
  exact relaxed

theorem Relaxed.quiet (relaxed : Relaxed nodes i j paths change next)
    (quiet : next.2 = false) : next = (paths, change) ∧ ∀ k < nodes,
      paths.currentDist i j ≤ paths.currentDist.through i k j := by
  cases relaxed with
  | settled closed => exact ⟨rfl, closed⟩
  | improved => cases quiet

def Closed (nodes : Nat) (dist : Matrix) : Prop :=
  ∀ i < nodes, ∀ j < nodes, ∀ k < nodes, dist i j ≤ dist.through i k j

theorem exists_pass (nodes : Nat) (paths : Paths) : ∃ next, pass nodes paths = .ok next := by
  refine foldlM_total (fun i _ state => ?_) _
  refine foldlM_total (fun j _ state => ?_) _
  obtain ⟨next, relaxed, -⟩ := exists_relax nodes i j state.1 state.2
  exact ⟨next, relaxed⟩

theorem pass_invariant (Inv : Paths × Bool → Prop)
    (keep : ∀ i < nodes, ∀ j < nodes, ∀ before after, Inv before →
      Relaxed nodes i j before.1 before.2 after → Inv after)
    (start : Inv (paths, false)) (h : pass nodes paths = .ok next) :
    Inv next := by
  refine foldlM_invariant Inv (fun i row before after inv rows => ?_) start h
  refine foldlM_invariant Inv (fun j column before after inv step => ?_) inv rows
  exact keep i (mem_range.mp row) j (mem_range.mp column) before after inv (relax_ok step)

theorem pass_quiet {next : Paths} (h : pass nodes paths = .ok (next, false)) :
    next = paths ∧ Closed nodes paths.currentDist := by
  have row : ∀ i before after, (List.range nodes).foldlM (relax nodes i) before = .ok after →
      after.2 = false → after = before ∧ ∀ j ∈ List.range nodes,
        relax nodes i before j = .ok before := by
    intro i before after step quiet
    exact foldlM_quiet (·.2 = false)
      (fun j _ before after step quiet => ((relax_ok step).quiet quiet).1) step quiet
  obtain ⟨same, rows⟩ := foldlM_quiet (·.2 = false)
    (fun i _ before after step quiet => (row i before after step quiet).1) h rfl
  refine ⟨congrArg Prod.fst same, fun i boundI j boundJ k boundK => ?_⟩
  have step := (row i _ _ (rows i (mem_range.mpr boundI)) rfl).2 j (mem_range.mpr boundJ)
  exact ((relax_ok step).quiet rfl).2 k boundK

def total (nodes : Nat) (dist : Matrix) : Int :=
  ∑ i ∈ Finset.range nodes, ∑ j ∈ Finset.range nodes, dist i j

theorem total_set_lt {value : Int} (boundI : i < nodes) (boundJ : j < nodes)
    (less : value < dist i j) : total nodes (dist.set i j value) < total nodes dist := by
  have entry : ∀ a b, dist.set i j value a b ≤ dist a b := by
    intro a b
    rw [set_apply]
    split_ifs with here
    · rw [here.1, here.2]
      exact less.le
    · exact le_rfl
  refine Finset.sum_lt_sum (fun a _ => Finset.sum_le_sum fun b _ => entry a b) ?_
  refine ⟨i, Finset.mem_range.mpr boundI, Finset.sum_lt_sum (fun b _ => entry i b) ?_⟩
  refine ⟨j, Finset.mem_range.mpr boundJ, ?_⟩
  rw [set_apply, if_pos ⟨rfl, rfl⟩]
  exact less

theorem pass_total_lt {next : Paths} (h : pass nodes paths = .ok (next, true)) :
    total nodes next.currentDist < total nodes paths.currentDist := by
  have inv : ∀ after, pass nodes paths = .ok after →
      total nodes after.1.currentDist ≤ total nodes paths.currentDist ∧
      (after.2 = true → total nodes after.1.currentDist < total nodes paths.currentDist) := by
    intro after ran
    refine pass_invariant (fun state => total nodes state.1.currentDist ≤
        total nodes paths.currentDist ∧ (state.2 = true → total nodes state.1.currentDist <
          total nodes paths.currentDist)) ?_ ⟨le_rfl, nofun⟩ ran
    rintro i boundI j boundJ before after ⟨le, lt⟩ relaxed
    cases relaxed with
    | settled => exact ⟨le, lt⟩
    | improved k hops bound shorter least =>
      have less := total_set_lt boundI boundJ shorter
      exact ⟨(less.trans_le le).le, fun _ => less.trans_le le⟩
  exact (inv _ h).2 rfl

/-- The loop ends, and nothing is left to shorten. What every improvement keeps holds at the end. -/
theorem exists_extendShortestPath (Inv : Paths → Prop)
    (nonneg : ∀ paths, Inv paths → ∀ i < nodes, ∀ j < nodes, 0 ≤ paths.currentDist i j)
    (keep : ∀ paths i j k hops, i < nodes → j < nodes → k < nodes →
      paths.currentDist.through i k j < paths.currentDist i j → Inv paths →
      Inv (paths.improve i j k hops))
    (start : Inv paths) :
    ∃ rounds final, Inv final ∧ Closed nodes final.currentDist ∧
      ∀ more, rounds ≤ more → extendShortestPath nodes more paths = .ok final := by
  induction measure : (total nodes paths.currentDist).toNat using Nat.strong_induction_on
    generalizing paths with
  | _ size ih =>
    obtain ⟨⟨next, change⟩, passed⟩ := exists_pass nodes paths
    have kept : Inv next := by
      refine pass_invariant (fun state => Inv state.1) ?_ start passed
      intro i boundI j boundJ before after inv relaxed
      cases relaxed with
      | settled => exact inv
      | improved k hops bound shorter => exact keep _ i j k hops boundI boundJ bound shorter inv
    cases change with
    | false =>
      obtain ⟨rfl, closed⟩ := pass_quiet passed
      refine ⟨1, next, kept, closed, fun more enough => ?_⟩
      obtain ⟨rest, rfl⟩ := Nat.exists_eq_add_of_le' enough
      simp [extendShortestPath, passed, bind, Except.bind, pure, Except.pure]
    | true =>
      have falls := pass_total_lt passed
      have : 0 ≤ total nodes next.currentDist :=
        Finset.sum_nonneg fun i row => Finset.sum_nonneg fun j column =>
          nonneg next kept i (Finset.mem_range.mp row) j (Finset.mem_range.mp column)
      obtain ⟨rounds, final, inv, closed, ends⟩ :=
        ih (total nodes next.currentDist).toNat (by omega) kept rfl
      refine ⟨rounds + 1, final, inv, closed, fun more enough => ?_⟩
      obtain ⟨rest, rfl⟩ := Nat.exists_eq_add_of_le' (Nat.le_trans (Nat.le_add_left 1 rounds) enough)
      simp only [extendShortestPath, passed, bind, Except.bind, if_true]
      exact ends rest (by omega)

/-- A matrix of weights has an entry below the infinite one only for pairs that are linked so. -/
structure Represents (link : Nat → Nat → Prop) (weight : Nat → Nat → Int) (weights : Matrix) :
    Prop where
  nonneg : ∀ i j, 0 ≤ weights i j
  light : ∀ i j, weights i j < 2 ^ 30
  attained : ∀ i j, weights i j < infiniteLatency → weights i j ∈ costs link weight i j
  linked : ∀ i j, link i j → weights i j ≤ weight i j

/-- The distances so far: at most the weights, and below the infinite one only where a walk has that
cost. -/
structure Attained (link : Nat → Nat → Prop) (weight : Nat → Nat → Int) (weights dist : Matrix) :
    Prop where
  nonneg : ∀ i j, 0 ≤ dist i j
  light : ∀ i j, dist i j < 2 ^ 30
  attained : ∀ i j, dist i j < infiniteLatency → dist i j ∈ costs link weight i j
  below : ∀ i j, dist i j ≤ weights i j

variable {link : Nat → Nat → Prop} {weight : Nat → Nat → Int} {weights : Matrix}

theorem through_eq (nonneg : 0 ≤ dist i k ∧ 0 ≤ dist k j)
    (light : dist i k < 2 ^ 30 ∧ dist k j < 2 ^ 30) :
    dist.through i k j = dist i k + dist k j :=
  Int.bmod_eq_of_le (by omega) (by omega)

theorem Attained.through (inv : Attained link weight weights dist) (i k j : Nat) :
    dist.through i k j = dist i k + dist k j :=
  through_eq ⟨inv.nonneg i k, inv.nonneg k j⟩ ⟨inv.light i k, inv.light k j⟩

theorem Attained.improve (inv : Attained link weight weights paths.currentDist) (hops : Int)
    (shorter : paths.currentDist.through i k j < paths.currentDist i j) :
    Attained link weight weights (paths.improve i j k hops).currentDist := by
  have legs := inv.nonneg i k
  have legs' := inv.nonneg k j
  rw [inv.through] at shorter
  refine ⟨fun a b => ?_, fun a b => ?_, fun a b => ?_, fun a b => ?_⟩ <;>
    simp only [Paths.improve, set_apply, inv.through] <;> split_ifs with here
  · exact Int.add_nonneg legs legs'
  · exact inv.nonneg a b
  · exact shorter.trans (inv.light i j)
  · exact inv.light a b
  · rintro finite
    obtain ⟨rfl, rfl⟩ := here
    obtain ⟨first, walk, cost⟩ := inv.attained a k (by omega)
    obtain ⟨second, walk', cost'⟩ := inv.attained k b (by omega)
    exact ⟨_, walk.append walk', by rw [walk.cost_append, cost, cost']⟩
  · exact inv.attained a b
  · obtain ⟨rfl, rfl⟩ := here
    exact shorter.le.trans (inv.below a b)
  · exact inv.below a b

theorem exists_shortestPath (nodes : Nat) (represents : Represents link weight weights)
    (latencies inter : Matrix) :
    ∃ rounds final, Attained link weight weights final.currentDist ∧
      Closed nodes final.currentDist ∧
      ∀ more, rounds ≤ more → extendShortestPath nodes more ⟨weights, latencies, inter⟩ =
        .ok final := by
  refine exists_extendShortestPath (fun paths => Attained link weight weights paths.currentDist)
    (fun paths inv i _ j _ => inv.nonneg i j) ?_ ?_
  · intro paths i j k hops _ _ _ shorter inv
    exact inv.improve hops shorter
  · exact ⟨represents.nonneg, represents.light, represents.attained, fun _ _ => le_rfl⟩

end SynchroTrace.Ruby.Topology
