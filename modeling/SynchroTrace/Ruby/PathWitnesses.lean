import SynchroTrace.Ruby.ShortestPaths

namespace SynchroTrace.Ruby.Topology
open Walks

/-- The matrices of `createLinks`: no weight is above that of an absent link. -/
structure Weighted (nodes : Nat) (weights : Matrix) : Prop where
  nonneg : ∀ i < nodes, ∀ j < nodes, 0 ≤ weights i j
  atMost : ∀ i < nodes, ∀ j < nodes, weights i j ≤ infiniteLatency
  diagonal : ∀ i < nodes, weights i i = 0

structure Direct (nodes : Nat) (weights : Matrix) (i j : Nat) : Prop where
  source : i < nodes
  dest : j < nodes
  apart : i ≠ j
  finite : weights i j < infiniteLatency

/-- What the three matrices have for a pair are the sums over one path, as `int`s. -/
structure Witness (nodes : Nat) (weights latencies : Matrix) (paths : Paths) (i j : Nat)
    (rest : List Nat) : Prop where
  walk : Walk (Direct nodes weights) i j rest
  weight : cost weights i rest = paths.currentDist i j
  latency : (cost latencies i rest).bmod (2 ^ 32) = paths.latencies i j
  hops : (rest.length - 1 : Int).bmod (2 ^ 32) = paths.interSwitches i j

structure Witnessed (nodes : Nat) (weights latencies : Matrix) (paths : Paths) : Prop where
  weighted : Weighted nodes paths.currentDist
  below : ∀ i < nodes, ∀ j < nodes, paths.currentDist i j ≤ weights i j
  witness : ∀ i < nodes, ∀ j < nodes, i ≠ j → paths.currentDist i j < infiniteLatency →
    ∃ rest, Witness nodes weights latencies paths i j rest

variable {nodes i j k : Nat} {weights latencies inter : Matrix} {paths : Paths} {hops : Int}

section
variable (weighted : Weighted nodes paths.currentDist) (boundI : i < nodes) (boundJ : j < nodes)
  (boundK : k < nodes)
  (shorter : paths.currentDist.through i k j < paths.currentDist i j)
include weighted boundI boundJ boundK shorter

omit shorter in
theorem Weighted.through :
    paths.currentDist.through i k j = paths.currentDist i k + paths.currentDist k j := by
  have first := weighted.atMost i boundI k boundK
  have second := weighted.atMost k boundK j boundJ
  rw [infiniteLatency] at first second
  exact through_eq ⟨weighted.nonneg i boundI k boundK, weighted.nonneg k boundK j boundJ⟩
    (by omega)

theorem Weighted.third : i ≠ j ∧ k ≠ i ∧ k ≠ j := by
  have first := weighted.nonneg i boundI k boundK
  have second := weighted.nonneg k boundK j boundJ
  rw [weighted.through boundI boundJ boundK] at shorter
  refine ⟨?_, ?_, ?_⟩
  · rintro rfl
    have := weighted.diagonal i boundI
    omega
  · rintro rfl
    have := weighted.diagonal k boundK
    omega
  · rintro rfl
    have := weighted.diagonal k boundK
    omega

theorem Weighted.improve : Weighted nodes (paths.improve i j k hops).currentDist := by
  have first := weighted.nonneg i boundI k boundK
  have second := weighted.nonneg k boundK j boundJ
  have atMost := weighted.atMost i boundI j boundJ
  obtain ⟨apart, -, -⟩ := weighted.third boundI boundJ boundK shorter
  rw [weighted.through boundI boundJ boundK] at shorter
  refine ⟨fun a boundA b boundB => ?_, fun a boundA b boundB => ?_, fun a boundA => ?_⟩ <;>
    simp only [Paths.improve, set_apply, weighted.through boundI boundJ boundK] <;>
    split_ifs with here
  · omega
  · exact weighted.nonneg a boundA b boundB
  · omega
  · exact weighted.atMost a boundA b boundB
  · exact absurd (here.1.symm.trans here.2) apart
  · exact weighted.diagonal a boundA

end

/-- The paths of the two legs make up the path of the pair. The number of switches on the legs is
that from before the loop over `k`, for neither leg is the pair itself. -/
theorem Witness.append {first second : List Nat}
    (leg : Witness nodes weights latencies paths i k first)
    (leg' : Witness nodes weights latencies paths k j second) (awayI : k ≠ i) (awayJ : k ≠ j)
    (sum : paths.currentDist.through i k j = paths.currentDist i k + paths.currentDist k j) :
    Witness nodes weights latencies (paths.improve i j k hops) i j (first ++ second) := by
  refine ⟨leg.walk.append leg'.walk, ?_, ?_, ?_⟩
  · rw [leg.walk.cost_append, leg.weight, leg'.weight]
    simp [Paths.improve, set_apply, sum]
  · rw [leg.walk.cost_append]
    simp [Paths.improve, set_apply, Matrix.through, ← leg.latency, ← leg'.latency]
  · have both : ((first ++ second).length - 1 : Int) =
        first.length - 1 + (second.length - 1) + 1 := by
      simp
      omega
    simp only [Paths.improve, set_apply, awayI, awayJ, and_self, and_false, false_and, if_true,
      if_false, ← leg.hops, ← leg'.hops]
    rw [both, Int.add_right_comm (Int.bmod _ _), Int.add_bmod_bmod,
      Int.add_assoc (Int.bmod _ _), Int.bmod_add_bmod, ← Int.add_assoc, Int.add_right_comm]

theorem Witness.keep {a b : Nat} {rest : List Nat}
    (witness : Witness nodes weights latencies paths a b rest) (elsewhere : ¬ (a = i ∧ b = j)) :
    Witness nodes weights latencies (paths.improve i j k hops) a b rest := by
  obtain ⟨walk, weight, latency, count⟩ := witness
  refine ⟨walk, ?_, ?_, ?_⟩ <;> simp only [Paths.improve, set_apply, if_neg elsewhere]
  · exact weight
  · exact latency
  · exact count

theorem Witnessed.improve (inv : Witnessed nodes weights latencies paths) (boundI : i < nodes)
    (boundJ : j < nodes) (boundK : k < nodes)
    (shorter : paths.currentDist.through i k j < paths.currentDist i j) :
    Witnessed nodes weights latencies (paths.improve i j k hops) := by
  obtain ⟨weighted, below, witness⟩ := inv
  refine ⟨weighted.improve boundI boundJ boundK shorter, fun a boundA b boundB => ?_,
    fun a boundA b boundB apart finite => ?_⟩
  · simp only [Paths.improve, set_apply]
    split_ifs with here
    · obtain ⟨rfl, rfl⟩ := here
      exact shorter.le.trans (below a boundA b boundB)
    · exact below a boundA b boundB
  · by_cases here : a = i ∧ b = j
    · obtain ⟨rfl, rfl⟩ := here
      obtain ⟨-, awayI, awayJ⟩ := weighted.third boundI boundJ boundK shorter
      have sum := weighted.through boundI boundJ boundK
      rw [sum] at shorter
      have first := weighted.nonneg a boundI k boundK
      have second := weighted.nonneg k boundK b boundJ
      have atMost := weighted.atMost a boundI b boundJ
      obtain ⟨_, leg⟩ := witness a boundI k boundK awayI.symm (by omega)
      obtain ⟨_, leg'⟩ := witness k boundK b boundJ awayJ (by omega)
      exact ⟨_, leg.append leg' awayI awayJ sum⟩
    · simp only [Paths.improve, set_apply, if_neg here] at finite
      obtain ⟨rest, kept⟩ := witness a boundA b boundB apart finite
      exact ⟨rest, kept.keep here⟩

theorem Weighted.witnessed (weighted : Weighted nodes weights)
    (ints : ∀ i j, (latencies i j).bmod (2 ^ 32) = latencies i j)
    (none : ∀ i < nodes, ∀ j < nodes, inter i j = 0) :
    Witnessed nodes weights latencies ⟨weights, latencies, inter⟩ := by
  refine ⟨weighted, fun _ _ _ _ => le_rfl, fun i boundI j boundJ apart finite => ?_⟩
  refine ⟨[j], .cons ⟨boundI, boundJ, apart, finite⟩ .nil, by simp, ?_, ?_⟩
  · rw [cost_cons, cost_nil, Int.add_zero]
    exact ints i j
  · simp [none i boundI j boundJ]

theorem Witnessed.potential (inv : Witnessed nodes weights latencies paths)
    (closed : Closed nodes paths.currentDist) (boundJ : j < nodes) :
    Potential (Direct nodes weights) weights (paths.currentDist · j) j := by
  refine ⟨fun i k link => ?_, inv.weighted.diagonal j boundJ⟩
  have through := closed i link.source j boundJ k link.dest
  rw [inv.weighted.through link.source boundJ link.dest] at through
  have direct := inv.below i link.source k link.dest
  omega

theorem Witnessed.isLeast (inv : Witnessed nodes weights latencies paths)
    (closed : Closed nodes paths.currentDist) (boundI : i < nodes) (boundJ : j < nodes) :
    IsLeast (insert infiniteLatency (costs (Direct nodes weights) weights i j))
      (paths.currentDist i j) := by
  have atMost := inv.weighted.atMost i boundI j boundJ
  constructor
  · obtain finite | infinite := atMost.lt_or_eq
    · right
      by_cases apart : i = j
      · subst apart
        exact ⟨[], .nil, (inv.weighted.diagonal i boundI).symm⟩
      · obtain ⟨rest, witness⟩ := inv.witness i boundI j boundJ apart finite
        exact ⟨rest, witness.walk, witness.weight⟩
    · left
      exact infinite
  · rintro c (rfl | ⟨rest, walk, rfl⟩)
    · exact atMost
    · exact (inv.potential closed boundJ).le_cost walk

/-- Every distance is the least weight of a path, or the infinite one if that is less. Each finite
distance between two switches comes with a path of this weight and, in `int`s, of the latency and
the number of intermediate switches of the pair. -/
theorem shortest_paths_witnessed (weighted : Weighted nodes weights) (latencies : Matrix)
    (ints : ∀ i j, (latencies i j).bmod (2 ^ 32) = latencies i j)
    (none : ∀ i < nodes, ∀ j < nodes, inter i j = 0) :
    ∃ rounds final, (∀ more, rounds ≤ more →
        extendShortestPath nodes more ⟨weights, latencies, inter⟩ = .ok final) ∧
      ∀ i < nodes, ∀ j < nodes,
        IsLeast (insert infiniteLatency (costs (Direct nodes weights) weights i j))
          (final.currentDist i j) ∧
        (i ≠ j → final.currentDist i j < infiniteLatency → ∃ rest,
          Walk (Direct nodes weights) i j rest ∧
          cost weights i rest = final.currentDist i j ∧
          (cost latencies i rest).bmod (2 ^ 32) = final.latencies i j ∧
          (rest.dropLast.length : Int).bmod (2 ^ 32) = final.interSwitches i j ∧
          ((∀ a b, Direct nodes weights a b → 0 < weights a b) → (i :: rest).Nodup)) := by
  obtain ⟨rounds, final, inv, closed, ends⟩ :=
    exists_extendShortestPath (Witnessed nodes weights latencies)
      (fun paths inv => inv.weighted.nonneg)
      (fun paths i j k hops boundI boundJ boundK shorter inv =>
        inv.improve boundI boundJ boundK shorter)
      (weighted.witnessed ints none)
  refine ⟨rounds, final, ends, fun i boundI j boundJ => ⟨inv.isLeast closed boundI boundJ, ?_⟩⟩
  intro apart finite
  obtain ⟨rest, witness⟩ := inv.witness i boundI j boundJ apart finite
  have hops := witness.hops
  have descends := (inv.potential closed boundJ).descends witness.walk witness.weight
  refine ⟨rest, witness.walk, witness.weight, witness.latency, ?_, fun positive => ?_⟩
  · cases rest with
    | nil =>
      obtain - | - := witness.walk
      exact absurd rfl apart
    | cons next rest =>
      simpa using hops
  · exact (descends.nodup (fun _ _ step => step) positive).2

def inRow : Matrix := fun i j => if i = j then 0 else if i + 1 = j then 1 else infiniteLatency

theorem inRow_weighted : Weighted 3 inRow := by
  constructor <;> decide

theorem inRow_ints (i j : Nat) : (inRow i j).bmod (2 ^ 32) = inRow i j := by
  unfold inRow
  split_ifs <;> decide

theorem shortest_paths_witnessed_inRow :
    ∃ rounds final, extendShortestPath 3 rounds ⟨inRow, inRow, fun _ _ => 0⟩ = .ok final ∧
      final.currentDist 0 2 ≤ 2 ∧ ∃ rest, Walk (Direct 3 inRow) 0 2 rest ∧
        cost inRow 0 rest = final.currentDist 0 2 ∧
        (rest.dropLast.length : Int).bmod (2 ^ 32) = final.interSwitches 0 2 := by
  obtain ⟨rounds, final, ends, all⟩ :=
    shortest_paths_witnessed inRow_weighted inRow inRow_ints (fun _ _ _ _ => rfl)
  obtain ⟨least, path⟩ := all 0 (by decide) 2 (by decide)
  have walk : Walk (Direct 3 inRow) 0 2 [1, 2] :=
    .cons (by constructor <;> decide) (.cons (by constructor <;> decide) .nil)
  have short : final.currentDist 0 2 ≤ 2 := least.2 (.inr ⟨[1, 2], walk, by decide⟩)
  obtain ⟨rest, walk, weight, -, hops, -⟩ :=
    path (by decide) (short.trans_lt (by decide))
  exact ⟨rounds, final, ends rounds le_rfl, short, rest, walk, weight, hops⟩

def heavyLink : Matrix := fun i j => if i = j then 0 else if i < j then 20000 else infiniteLatency

/-- The distance of the pair stays above that of an absent link. -/
theorem heavy_link_kept : (∀ i < 2, ∀ j < 2, 0 ≤ heavyLink i j) ∧ (∀ i < 2, heavyLink i i = 0) ∧
    ∃ final, (∀ more, 1 ≤ more →
        extendShortestPath 2 more ⟨heavyLink, heavyLink, fun _ _ => 0⟩ = .ok final) ∧
      infiniteLatency < final.currentDist 0 1 := by
  refine ⟨by decide, by decide, ⟨heavyLink, heavyLink, fun _ _ => 0⟩, fun more enough => ?_, by decide⟩
  obtain ⟨rest, rfl⟩ := Nat.exists_eq_add_of_le' enough
  rfl

end SynchroTrace.Ruby.Topology
