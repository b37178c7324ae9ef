import Mathlib.Data.List.Induction
import Mathlib.Tactic.Ring
import SynchroTrace.Lib.LruTree
import SynchroTrace.Ruby.Address

namespace SynchroTrace.Ruby
open Outcome LruTree List Nat

/-- The sets and ways are numbered from 0. -/
structure PseudoLRUPolicy where
  numSets : Nat
  assoc : Nat
  lastRefPtr : List (List Nat)
  /-- The nearest power of 2 that is not below `assoc`. -/
  effectiveAssoc : Nat
  numLevels : Nat
  trees : List (BitVec 64)
  deriving DecidableEq, Repr

namespace PseudoLRUPolicy

def growAssoc (assoc : Nat) : Nat → Nat → Nat
  | 0, effectiveAssoc => effectiveAssoc
  | rounds + 1, effectiveAssoc =>
    if effectiveAssoc < assoc then growAssoc assoc rounds (effectiveAssoc <<< 1) else effectiveAssoc

def countLevels : Nat → Nat → Nat → Nat
  | 0, _, numLevels => numLevels
  | rounds + 1, assoc, numLevels =>
    if assoc / 2 = 0 then numLevels else countLevels rounds (assoc / 2) (numLevels + 1)

def construct (numSets assoc : Nat) : Except MemoryFault PseudoLRUPolicy := do
  require (0 < numSets ∧ 1 < assoc ∧ assoc ≤ 8 * 4) .assertion
  let effectiveAssoc := growAssoc assoc assoc 1
  let numLevels := countLevels effectiveAssoc effectiveAssoc 0
  require (numLevels < 4 * 4) .assertion
  return { numSets, assoc, lastRefPtr := List.replicate numSets (List.replicate assoc 0)
           effectiveAssoc, numLevels, trees := List.replicate numSets 0 }

/-- The loop of `touch` over `i` levels. The shifted constants are of type `int`. -/
def touchLoop (index : Nat) : Nat → Nat → BitVec 64 → BitVec 64
  | 0, _, tree => tree
  | i + 1, treeIndex, tree =>
    let nodeVal := index >>> i &&& 1
    if nodeVal ≠ 0 then
      touchLoop index i (treeIndex * 2 + 2)
        (tree ||| (BitVec.ofNat 32 nodeVal <<< treeIndex).signExtend 64)
    else
      touchLoop index i (treeIndex * 2 + 1) (tree &&& (~~~(1#32 <<< treeIndex)).signExtend 64)

def touch (policy : PseudoLRUPolicy) (set index time : Nat) :
    Except MemoryFault PseudoLRUPolicy := do
  require (index < policy.assoc) .assertion
  require (set < policy.numSets) .assertion
  return { policy with
    trees := policy.trees.modify set (touchLoop index policy.numLevels 0)
    lastRefPtr := policy.lastRefPtr.modify set (·.set index time) }

def victimLoop (effectiveAssoc : Nat) (tree : BitVec 64) : Nat → Nat → Nat → Nat → Nat
  | 0, _, _, index => index
  | levels + 1, i, treeIndex, index =>
    let nodeVal := tree >>> treeIndex &&& 1
    if nodeVal ≠ 0 then
      victimLoop effectiveAssoc tree levels (i + 1) (treeIndex * 2 + 1) index
    else
      victimLoop effectiveAssoc tree levels (i + 1) (treeIndex * 2 + 2)
        (index + effectiveAssoc >>> (i + 1))

def getVictim (policy : PseudoLRUPolicy) (set : Nat) : Except MemoryFault Nat := do
  let tree ← (match policy.trees[set]? with
    | some tree => .ok tree
    | none => .error .outOfBounds)
  let index := victimLoop policy.effectiveAssoc tree policy.numLevels 0 0 0
  require (index < policy.effectiveAssoc) .assertion
  return if policy.assoc - 1 < index then policy.assoc - 1 else index

theorem levels_spec : ∀ assoc ≤ 32, 1 < assoc →
    let levels := countLevels (growAssoc assoc assoc 1) (growAssoc assoc assoc 1) 0
    growAssoc assoc assoc 1 = 2 ^ levels ∧ 0 < levels ∧ levels ≤ 5 ∧ 2 ^ (levels - 1) < assoc ∧
      assoc ≤ 2 ^ levels := by
  decide +kernel

structure Shaped (policy : PseudoLRUPolicy) : Prop where
  effective : policy.effectiveAssoc = 2 ^ policy.numLevels
  some : 0 < policy.numLevels
  few : policy.numLevels ≤ 5
  half : 2 ^ (policy.numLevels - 1) < policy.assoc
  assoc : policy.assoc ≤ 2 ^ policy.numLevels
  trees : policy.trees.length = policy.numSets

variable {policy policy' : PseudoLRUPolicy} {numSets assoc : Nat}

theorem construct_ok (built : construct numSets assoc = .ok policy) :
    Shaped policy ∧ policy.numSets = numSets ∧ policy.assoc = assoc := by
  obtain ⟨_, accepted, built⟩ := bind_ok built
  obtain ⟨_, -, built⟩ := bind_ok built
  obtain rfl := pure_ok built
  obtain ⟨-, more, fits⟩ := require_ok accepted
  obtain ⟨effective, some, few, half, within⟩ := levels_spec assoc fits more
  exact ⟨⟨effective, some, few, half, within, by simp⟩, rfl, rfl⟩

def bitsOf (tree : BitVec 64) : Nat → Bool := tree.getLsbD

theorem signExtend_set : ∀ t < 31, (1#32 <<< t).signExtend 64 = BitVec.twoPow 64 t := by
  decide +kernel

theorem signExtend_clear : ∀ t < 31, (~~~(1#32 <<< t)).signExtend 64 = ~~~(BitVec.twoPow 64 t) := by
  decide +kernel

variable {levels x t : Nat} (tree : BitVec 64)

theorem bitsOf_set (inside : t < 31) (i : Nat) :
    bitsOf (tree ||| (1#32 <<< t).signExtend 64) i = (i = t || bitsOf tree i) := by
  rw [signExtend_set t inside, bitsOf, BitVec.getLsbD_or, BitVec.getLsbD_twoPow]
  by_cases here : i = t
  · simp [here, show t < 64 by omega]
  · simp [here, bitsOf, show t ≠ i by omega]

theorem bitsOf_clear (inside : t < 31) (i : Nat) :
    bitsOf (tree &&& (~~~(1#32 <<< t)).signExtend 64) i = (i ≠ t && bitsOf tree i) := by
  rw [signExtend_clear t inside, bitsOf, BitVec.getLsbD_and, BitVec.getLsbD_not,
    BitVec.getLsbD_twoPow]
  by_cases here : i = t
  · simp [here, show t < 64 by omega]
  · by_cases bit : i < 64
    · simp [here, bitsOf, bit, show t ≠ i by omega]
    · simp [bitsOf, BitVec.getLsbD_of_ge tree i (by omega)]

variable {i set : Nat}

theorem child_eq (below : i < levels) :
    node levels i x * 2 + 1 + (x.testBit i).toNat = 2 ^ (levels - i) - 1 + x / 2 ^ i := by
  have level : 2 ^ (levels - i) = 2 ^ (levels - 1 - i) * 2 := by
    rw [← Nat.pow_succ]
    congr 1
    omega
  have half : x / 2 ^ (i + 1) = x / 2 ^ i / 2 := by
    rw [Nat.pow_succ, Nat.div_div_eq_div_mul]
  have positive : 0 < 2 ^ (levels - 1 - i) := Nat.two_pow_pos _
  have bit : (x.testBit i).toNat = x / 2 ^ i % 2 := by
    rw [toNat_testBit]
  rw [node, level, half, bit]
  generalize x / 2 ^ i = y
  omega

theorem shiftRight_and_one (x i : Nat) : x >>> i &&& 1 = (x.testBit i).toNat := by
  rw [and_one_is_mod, shiftRight_eq_div_pow, toNat_testBit]

theorem touchLoop_succ (few : levels ≤ 5) (inside : x < 2 ^ levels) (below : i < levels) :
    ∃ tree', touchLoop x (i + 1) (node levels i x) tree =
        touchLoop x i (2 ^ (levels - i) - 1 + x / 2 ^ i) tree' ∧
      ∀ t, bitsOf tree' t = if t = node levels i x then x.testBit i else bitsOf tree t := by
  have small : node levels i x < 31 := by
    have bound := node_lt inside below
    have levels : 2 ^ levels ≤ 2 ^ 5 := Nat.pow_le_pow_right (by decide) few
    omega
  have child := child_eq (x := x) below
  rw [touchLoop, shiftRight_and_one, ← child]
  cases bit : x.testBit i with
  | true =>
    refine ⟨_, rfl, fun t => ?_⟩
    rw [show BitVec.ofNat 32 (Bool.toNat true) = 1#32 from rfl, bitsOf_set _ small]
    by_cases here : t = node levels i x <;> simp [here]
  | false =>
    refine ⟨_, rfl, fun t => ?_⟩
    rw [bitsOf_clear _ small]
    by_cases here : t = node levels i x <;> simp [here]

theorem touchLoop_bits (few : levels ≤ 5) (inside : x < 2 ^ levels) (atMost : i ≤ levels)
    {v j : Nat} (inside' : v < 2 ^ levels) (below : j < levels) :
    bitsOf (touchLoop x i (2 ^ (levels - i) - 1 + x / 2 ^ i) tree) (node levels j v) =
      if j < i ∧ x / 2 ^ (j + 1) = v / 2 ^ (j + 1) then x.testBit j
      else bitsOf tree (node levels j v) := by
  induction i generalizing tree with
  | zero => simp [touchLoop]
  | succ i ih =>
    have here : 2 ^ (levels - (i + 1)) - 1 + x / 2 ^ (i + 1) = node levels i x := by
      rw [node, Nat.sub_sub, Nat.add_comm 1 i]
    obtain ⟨tree', loop, bits⟩ := touchLoop_succ tree few inside atMost
    rw [here, loop, ih tree' (by omega), bits]
    simp only [node_inj inside inside' below atMost]
    by_cases same : x / 2 ^ (j + 1) = v / 2 ^ (j + 1)
    · obtain before | rfl | after := Nat.lt_trichotomy j i
      · simp [same, before, lt_succ_of_lt before]
      · simp [same]
      · simp [show ¬ j < i by omega, show ¬ j < i + 1 by omega, show j ≠ i by omega]
    · simp [same, Ne.symm same]

theorem touch_uses (few : levels ≤ 5) (inside : x < 2 ^ levels) :
    Uses levels x (bitsOf tree) (bitsOf (touchLoop x levels 0 tree)) := by
  intro v inside' j below
  have root : 2 ^ (levels - levels) - 1 + x / 2 ^ levels = 0 := by
    rw [Nat.sub_self, div_eq_of_lt inside]
    rfl
  have bits := touchLoop_bits tree few inside (Nat.le_refl levels) inside' below
  rw [root] at bits
  simpa [below] using bits

theorem node_ne_zero_iff (t : Nat) : tree >>> t &&& 1 ≠ 0 ↔ bitsOf tree t = true := by
  have low : tree >>> t &&& 1 = BitVec.setWidth 64 (BitVec.ofBool ((tree >>> t).getLsbD 0)) :=
    BitVec.and_one_eq_setWidth_ofBool_getLsbD
  rw [low, BitVec.getLsbD_ushiftRight, Nat.add_zero, ← bitsOf]
  cases bitsOf tree t <;> decide

theorem victimLoop_succ (below : i < levels) (p : Nat) :
    victimLoop (2 ^ levels) tree (i + 1) (levels - (i + 1)) (2 ^ (levels - (i + 1)) - 1 + p)
        (p * 2 ^ (i + 1)) =
      let p' := p * 2 + (!bitsOf tree (2 ^ (levels - (i + 1)) - 1 + p)).toNat
      victimLoop (2 ^ levels) tree i (levels - i) (2 ^ (levels - i) - 1 + p') (p' * 2 ^ i) := by
  have level : 2 ^ (levels - i) = 2 ^ (levels - (i + 1)) * 2 := by
    rw [← Nat.pow_succ]
    congr 1
    omega
  have done : levels - (i + 1) + 1 = levels - i := by omega
  have share : 2 ^ levels >>> (levels - i) = 2 ^ i := by
    rw [shiftRight_eq_div_pow, Nat.pow_div (by omega) (by decide)]
    congr 1
    omega
  have positive : 0 < 2 ^ (levels - (i + 1)) := Nat.two_pow_pos _
  rw [victimLoop, done, share, level]
  simp only [node_ne_zero_iff]
  cases bitsOf tree (2 ^ (levels - (i + 1)) - 1 + p) with
  | true =>
    simp only [Bool.not_true, Bool.toNat_false, if_true, Nat.add_zero]
    congr 1
    · omega
    · ring
  | false =>
    simp only [Bool.not_false, Bool.toNat_true, Bool.false_eq_true, if_false]
    congr 1
    · omega
    · ring

theorem victimLoop_spec (levels : Nat) {p : Nat} (atMost : i ≤ levels)
    (inside : p < 2 ^ (levels - i)) :
    ∃ v, victimLoop (2 ^ levels) tree i (levels - i) (2 ^ (levels - i) - 1 + p) (p * 2 ^ i) = v ∧
      v < 2 ^ levels ∧ v / 2 ^ i = p ∧ ∀ j < i, bitsOf tree (node levels j v) ≠ v.testBit j := by
  induction i generalizing p with
  | zero =>
    refine ⟨p, by simp [victimLoop], by simpa using inside, by simp, fun j absent => ?_⟩
    omega
  | succ i ih =>
    have level : 2 ^ (levels - i) = 2 ^ (levels - (i + 1)) * 2 := by
      rw [← Nat.pow_succ]
      congr 1
      omega
    rw [victimLoop_succ tree atMost]
    generalize turned : bitsOf tree (2 ^ (levels - (i + 1)) - 1 + p) = bit
    have side := Bool.toNat_lt (!bit)
    obtain ⟨v, loop, bound, quotient, away⟩ :=
      ih (p := p * 2 + (!bit).toNat) (by omega) (by rw [level]; omega)
    have half : v / 2 ^ (i + 1) = p := by
      rw [Nat.pow_succ, ← Nat.div_div_eq_div_mul, quotient]
      omega
    refine ⟨v, loop, bound, half, fun j below => ?_⟩
    obtain earlier | rfl := Nat.lt_succ_iff_lt_or_eq.mp below
    · exact away j earlier
    · have last : v.testBit j = !bit := by
        rw [testBit_eq_decide_div_mod_eq, quotient]
        cases bit <;> simp
      rw [last, node, half, Nat.sub_sub, Nat.add_comm 1 j, turned]
      cases bit <;> decide

theorem victimLoop_victim (levels : Nat) :
    Victim levels (bitsOf tree) (victimLoop (2 ^ levels) tree levels 0 0 0) := by
  obtain ⟨v, loop, bound, -, away⟩ :=
    victimLoop_spec tree levels (p := 0) (Nat.le_refl levels) (Nat.two_pow_pos _)
  have start : victimLoop (2 ^ levels) tree levels 0 0 0 = v := by
    simpa using loop
  rw [start]
  exact ⟨bound, away⟩

structure Touch where
  set : Nat
  way : Nat
  time : Nat

def touches (policy : PseudoLRUPolicy) (calls : List Touch) : Except MemoryFault PseudoLRUPolicy :=
  calls.foldlM (fun policy call => policy.touch call.set call.way call.time) policy

def touched (set : Nat) (calls : List Touch) : List Nat :=
  (calls.reverse.filter (·.set = set)).map (·.way)

theorem touched_snoc (set : Nat) (calls : List Touch) (call : Touch) :
    touched set (calls ++ [call]) =
      if call.set = set then call.way :: touched set calls else touched set calls := by
  rw [touched, reverse_append, reverse_singleton, singleton_append, filter_cons]
  by_cases here : call.set = set <;> simp [here, touched]

structure Kept (policy : PseudoLRUPolicy) (calls : List Touch) : Prop where
  shaped : Shaped policy
  inside : ∀ call ∈ calls, call.set < policy.numSets
  used : ∀ set tree, policy.trees[set]? = some tree →
    Used policy.numLevels (touched set calls) (bitsOf tree)

variable {calls : List Touch}

theorem Kept.touch (kept : Kept policy calls) {call : Touch}
    (h : policy.touch call.set call.way call.time = .ok policy') : Kept policy' (calls ++ [call]) := by
  obtain ⟨_, way, h⟩ := bind_ok h
  obtain ⟨_, set, h⟩ := bind_ok h
  obtain rfl := pure_ok h
  have way := require_ok way
  have set := require_ok set
  obtain ⟨shaped, inside, used⟩ := kept
  refine ⟨⟨shaped.effective, shaped.some, shaped.few, shaped.half, shaped.assoc, ?_⟩, ?_, ?_⟩
  · simpa using shaped.trees
  · intro other member
    obtain earlier | rfl := (mem_append.trans (or_congr_right mem_singleton)).mp member
    · exact inside other earlier
    · exact set
  · intro other tree' found
    rw [List.getElem?_modify] at found
    obtain ⟨tree, before, after⟩ := Option.map_eq_some_iff.mp found
    have earlier := used other tree before
    rw [touched_snoc]
    split_ifs at after ⊢ with here
    · subst after
      exact earlier.step (by have := shaped.assoc; omega)
        (touch_uses tree shaped.few (by have := shaped.assoc; omega))
    · exact after ▸ earlier

theorem Shaped.touches_kept (shaped : Shaped policy)
    (ran : policy.touches calls = .ok policy') : Kept policy' calls := by
  induction calls using List.reverseRecOn generalizing policy' with
  | nil =>
    obtain rfl := pure_ok ran
    exact ⟨shaped, fun _ absent => (not_mem_nil absent).elim, fun _ _ _ => .start _⟩
  | append_singleton calls call ih =>
    rw [touches, foldlM_append] at ran
    obtain ⟨before, earlier, last⟩ := bind_ok ran
    simp only [foldlM_cons, foldlM_nil, bind_pure] at last
    exact (ih earlier).touch last

theorem touches_assoc (ran : policy.touches calls = .ok policy') :
    policy'.assoc = policy.assoc := by
  refine foldlM_invariant (·.assoc = policy.assoc) ?_ rfl ran
  intro call _ before after same h
  obtain ⟨_, -, h⟩ := bind_ok h
  obtain ⟨_, -, h⟩ := bind_ok h
  obtain rfl := pure_ok h
  exact same

theorem Shaped.levels_eq (shaped : Shaped policy) {levels : Nat} (power : policy.assoc = 2 ^ levels) :
    policy.numLevels = levels := by
  have half := shaped.half
  have whole := shaped.assoc
  rw [power] at half whole
  have above := (Nat.pow_lt_pow_iff_right (by decide)).mp half
  have below := (Nat.pow_le_pow_iff_right (by decide)).mp whole
  omega

theorem Kept.exists_tree (kept : Kept policy calls)
    (nonempty : touched set calls ≠ []) : ∃ tree, policy.trees[set]? = some tree := by
  obtain ⟨way, member⟩ := exists_mem_of_ne_nil _ nonempty
  obtain ⟨call, filtered, -⟩ := mem_map.mp member
  obtain ⟨listed, here⟩ := mem_filter.mp filtered
  have inside := kept.inside call (mem_reverse.mp listed)
  rw [of_decide_eq_true here, ← kept.shaped.trees] at inside
  exact ⟨_, List.getElem?_eq_getElem inside⟩

theorem getVictim_ok (shaped : Shaped policy) {tree : BitVec 64}
    (found : policy.trees[set]? = some tree) :
    ∃ index, Victim policy.numLevels (bitsOf tree) index ∧
      policy.getVictim set = .ok (if policy.assoc - 1 < index then policy.assoc - 1 else index) := by
  have victim := victimLoop_victim tree policy.numLevels
  refine ⟨_, victim, ?_⟩
  rw [getVictim, found]
  have inside := victim.inside
  rw [← shaped.effective] at inside ⊢
  simp only [ok_bind, require_of inside]
  rfl

theorem topBit (above : 2 ^ (levels - 1) ≤ x) (below : x < 2 ^ levels) :
    x.testBit (levels - 1) = true := by
  have positive : levels ≠ 0 := by
    rintro rfl
    omega
  refine testBit_of_two_pow_le_and_two_pow_add_one_gt above ?_
  rwa [Nat.sub_add_cancel (Nat.pos_of_ne_zero positive)]

/-- The victim of a set that was touched is one of its ways, not the way touched last, and, if the
associativity is a power of two, none of the last ways touched, one for each level. -/
theorem getVictim_not_recent (built : construct numSets assoc = .ok policy)
    {trees : List (BitVec 64)} (given : trees.length = numSets) {calls : List Touch}
    (ran : touches { policy with trees } calls = .ok policy') {set : Nat}
    (nonempty : touched set calls ≠ []) :
    ∃ victim, policy'.getVictim set = .ok victim ∧ victim < assoc ∧
      (∀ way earlier, touched set calls = way :: earlier → victim ≠ way) ∧
      ∀ levels, assoc = 2 ^ levels → victim ∉ recent levels (touched set calls) := by
  obtain ⟨fresh, sets, ways⟩ := construct_ok built
  have start : Shaped { policy with trees } :=
    ⟨fresh.effective, fresh.some, fresh.few, fresh.half, fresh.assoc, given.trans sets.symm⟩
  have kept := start.touches_kept ran
  have same : policy'.assoc = assoc := (touches_assoc ran).trans ways
  obtain ⟨tree, found⟩ := kept.exists_tree nonempty
  obtain ⟨index, victim, result⟩ := getVictim_ok kept.shaped found
  have used := kept.used set tree found
  have half := kept.shaped.half
  have bound := victim.inside
  have positive : 0 < policy'.assoc := zero_lt_of_lt half
  refine ⟨_, result, ?_, ?_, ?_⟩
  · split_ifs <;> omega
  · rintro way earlier history equal
    rw [history] at used
    have other := used.other_half victim kept.shaped.some
    split_ifs at equal with beyond
    · -- both are in the upper half
      have whole := kept.shaped.assoc
      rw [topBit (by omega) bound, topBit (by omega) (by omega)] at other
      exact other rfl
    · exact other (by rw [equal])
  · intro levels power
    have depth := kept.shaped.levels_eq (same.trans power)
    rw [if_neg (by rw [same, power, ← depth]; omega), ← depth]
    exact used.victim_not_recent victim

/-- Four ways, of which 3, 0 and 2 are touched: the victim is 1. -/
theorem getVictim_not_recent_four : ∃ policy policy', construct 1 4 = .ok policy ∧
      touches { policy with trees := [5] } [⟨0, 3, 1⟩, ⟨0, 0, 2⟩, ⟨0, 2, 3⟩] = .ok policy' ∧
      ∃ victim, policy'.getVictim 0 = .ok victim ∧ victim < 4 ∧ victim ∉ recent 2 [2, 0, 3] := by
  have ran : (construct 1 4).toOption.any (fun policy =>
      (touches { policy with trees := [5] } [⟨0, 3, 1⟩, ⟨0, 0, 2⟩, ⟨0, 2, 3⟩]).toOption.any
        fun _ => true) = true := by decide +kernel
  obtain ⟨policy, built, ran⟩ := any_toOption ran
  obtain ⟨policy', ran, -⟩ := any_toOption ran
  obtain ⟨victim, result, range, -, spared⟩ :=
    getVictim_not_recent built rfl ran (show touched 0 _ ≠ [] by decide)
  exact ⟨policy, policy', built, ran, victim, result, range, spared 2 rfl⟩

end PseudoLRUPolicy
end SynchroTrace.Ruby
