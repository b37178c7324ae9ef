import Mathlib.Algebra.BigOperators.Group.Finset.Basic
import Mathlib.Algebra.BigOperators.Intervals
import Mathlib.Order.Bounds.Basic
import SynchroTrace.Lib.BitSets
import SynchroTrace.Lib.SetObjects
import SynchroTrace.Ruby.Address

/-!
`Set` keeps node ids below its size as bits of 64-bit words. `Holds` relates it to a finite set.
-/

namespace SynchroTrace.Ruby

open Outcome BitSets Transition List

/-- The class `Set`. `setSize` allocates as many words as the size needs. -/
structure NodeSet where
  nSize : Nat
  nArray : List (BitVec 64)
  sized : nArray.length = (nSize + 64 - 1) / 64
deriving DecidableEq

namespace NodeSet

def setSize (size : Nat) : NodeSet where
  nSize := size
  nArray := List.replicate ((size + 64 - 1) / 64) 0#64
  sized := length_replicate

variable (s : NodeSet)

def modifyWord (index : Nat) (change : BitVec 64 → BitVec 64) : NodeSet where
  nSize := s.nSize
  nArray := s.nArray.modify index change
  sized := by rw [length_modify, s.sized]

/-- An index past the last word is outside the array; here it changes nothing. -/
def add (index : Nat) : NodeSet :=
  s.modifyWord (index >>> 6) (· ||| (1#64 <<< (index &&& 63)))

def remove (index : Nat) : NodeSet :=
  s.modifyWord (index >>> 6) (· &&& ~~~(1#64 <<< (index &&& 63)))

def combine (op : BitVec 64 → BitVec 64 → BitVec 64) (s set : NodeSet) :
    Except MemoryFault NodeSet :=
  if same : s.nSize = set.nSize then
    .ok {
      nSize := s.nSize
      nArray := List.zipWith op s.nArray set.nArray
      sized := by rw [length_zipWith, s.sized, set.sized, same, Nat.min_self] }
  else .error .assertion

def addSet : NodeSet → NodeSet → Except MemoryFault NodeSet := combine (· ||| ·)

def removeSet : NodeSet → NodeSet → Except MemoryFault NodeSet := combine fun x y => x &&& ~~~y

def or : NodeSet → NodeSet → Except MemoryFault NodeSet := combine (· ||| ·)

def and : NodeSet → NodeSet → Except MemoryFault NodeSet := combine (· &&& ·)

def clear : NodeSet where
  nSize := s.nSize
  nArray := s.nArray.map fun _ => 0#64
  sized := by rw [length_map, s.sized]

def clearTop : Nat → BitVec 64 → BitVec 64 → BitVec 64
  | 0, _, word => word
  | j + 1, mask, word => clearTop j (mask.sshiftRight 1) (word &&& mask)

def clearExcess : NodeSet :=
  if s.nSize % 64 ≠ 0 then
    s.modifyWord (s.nArray.length - 1) (clearTop (64 - (s.nSize &&& 63)) 0x7FFFFFFFFFFFFFFF#64)
  else s

def broadcast : NodeSet :=
  clearExcess {
    nSize := s.nSize
    nArray := s.nArray.map fun _ => -1#64
    sized := by rw [length_map, s.sized] }

def copy (obj : NodeSet) : NodeSet where
  nSize := obj.nSize
  nArray := List.zipWith (fun _ word => word) (setSize obj.nSize).nArray obj.nArray
  sized := by rw [length_zipWith, (setSize obj.nSize).sized, obj.sized]; exact Nat.min_self _

/-- `operator=`: nothing is done when an object is assigned to itself. -/
def assign (same : Bool) (s obj : NodeSet) : NodeSet := if same then s else copy obj

def isElement (element : Nat) : Bool :=
  s.nArray.getD (element >>> 6) 0#64 &&& (1#64 <<< (element &&& 63)) != 0#64

def countWord (word : BitVec 64) : Nat → BitVec 64 → Nat → Nat
  | 0, _, counter => counter
  | j + 1, mask, counter =>
    countWord word j (mask <<< 1) (if word &&& mask ≠ 0#64 then counter + 1 else counter)

def count : Nat :=
  s.nArray.foldl (fun counter word => countWord word 64 1#64 counter) 0

def isEqual (set : NodeSet) : Except MemoryFault Bool := do
  require (s.nSize = set.nSize) .assertion
  return (s.nArray.zip set.nArray).all fun p => p.1 == p.2

/-- The inner loop of `smallestElement`, which shifts the sign bit in. -/
def lowestBit : Nat → BitVec 64 → Nat → Except MemoryFault Nat
  | 0, _, _ => .error .panic
  | rounds + 1, x, j => if x &&& 1#64 ≠ 0#64 then .ok j else lowestBit rounds (x.sshiftRight 1) (j + 1)

def lowestWord : List (BitVec 64) → Nat → Except MemoryFault Nat
  | [], _ => .error .panic
  | word :: words, i =>
    if word ≠ 0#64 then do return 64 * i + (← lowestBit 64 word 0) else lowestWord words (i + 1)

def smallestElement : Except MemoryFault Nat := do
  require (s.count > 0) .assertion
  lowestWord s.nArray 0

def placesSet (word : BitVec 64) : Nat → BitVec 64 → Bool
  | 0, _ => true
  | j + 1, mask => if mask &&& word = 0#64 then false else placesSet word j (mask <<< 1)

def isBroadcast : Bool :=
  let max := if s.nSize % 64 = 0 then s.nArray.length else s.nArray.length - 1
  (s.nArray.take max).all (· == -1#64) &&
    placesSet (s.nArray.getD (s.nArray.length - 1) 0#64) (s.nSize % 64) 1#64

def isEmpty : Bool := s.nArray.all (· == 0#64)

def intersectionIsEmpty (set : NodeSet) : Bool :=
  (s.nArray.zip set.nArray).all fun p => p.1 &&& p.2 == 0#64

def isSuperset (test : NodeSet) : Except MemoryFault Bool := do
  require (s.nSize = test.nSize) .assertion
  return (s.nArray.zip test.nArray).all fun p => (p.2 &&& p.1) ||| ~~~p.2 == -1#64

def isSubset (test : NodeSet) : Except MemoryFault Bool := test.isSuperset s

theorem index_word (index : Nat) : index >>> 6 = index / 64 := Nat.shiftRight_eq_div_pow index 6

theorem index_place (index : Nat) : index &&& 63 = index % 64 :=
  Nat.and_two_pow_sub_one_eq_mod index 6

theorem word_lt {s : NodeSet} {index : Nat} (inside : index < s.nSize) :
    index / 64 < s.nArray.length := by
  rw [s.sized]
  omega

theorem minusOne : -1#64 = BitVec.allOnes 64 := by decide

def lowMask (k : Nat) : BitVec 64 := BitVec.ofNat 64 (2 ^ k - 1)

theorem lowMask_shift : ∀ k < 63, (lowMask (k + 1)).sshiftRight 1 = lowMask k := by
  decide +kernel

variable {k i rounds : Nat}

theorem getLsbD_lowMask (inside : i < 64) : (lowMask k).getLsbD i = decide (i < k) := by
  rw [lowMask, BitVec.getLsbD_ofNat, Nat.testBit_two_pow_sub_one]
  simp [inside]

theorem getLsbD_clearTop (inside : i < 64) (top : k < 64) (few : rounds ≤ k) (word : BitVec 64) :
    (clearTop (rounds + 1) (lowMask k) word).getLsbD i =
      (decide (i < k - rounds) && word.getLsbD i) := by
  induction rounds generalizing k word with
  | zero => simp [clearTop, getLsbD_lowMask inside, Bool.and_comm]
  | succ rounds ih =>
    obtain ⟨k, rfl⟩ : ∃ k', k = k' + 1 := ⟨k - 1, by omega⟩
    rw [clearTop, lowMask_shift k (by omega), ih (by omega) (by omega), BitVec.getLsbD_and,
      getLsbD_lowMask inside, Nat.add_sub_add_right]
    by_cases low : i < k - rounds
    · simp [low, show i < k + 1 by omega]
    · simp [low]

theorem shift_succ (place : Nat) : (1#64 <<< place) <<< 1 = 1#64 <<< (place + 1) := by
  rw [BitVec.shiftLeft_add]

theorem countWord_eq (word : BitVec 64) (rounds place counter : Nat) :
    countWord word rounds (1#64 <<< place) counter =
      counter + ((Finset.range rounds).filter fun i => word.getLsbD (place + i) = true).card := by
  induction rounds generalizing place counter with
  | zero => simp [countWord]
  | succ rounds ih =>
    rw [countWord, shift_succ, ih, Finset.card_filter, Finset.card_filter, Finset.sum_range_succ']
    have test : word &&& 1#64 <<< place ≠ 0#64 ↔ word.getLsbD place = true := by
      rw [Ne, ← Bool.not_eq_false, not_iff_not]
      exact and_place_eq_zero word place
    have next : ∀ i ∈ Finset.range rounds, (if word.getLsbD (place + (i + 1)) = true then 1 else 0) =
        if word.getLsbD (place + 1 + i) = true then 1 else 0 := by
      intro i _
      rw [Nat.add_assoc, Nat.add_comm 1 i]
    rw [Finset.sum_congr rfl next]
    simp only [test, Nat.add_zero]
    split <;> omega

theorem placesSet_iff (word : BitVec 64) (rounds place : Nat) :
    placesSet word rounds (1#64 <<< place) = true ↔
      ∀ i < rounds, word.getLsbD (place + i) = true := by
  induction rounds generalizing place with
  | zero => simp [placesSet]
  | succ rounds ih =>
    rw [placesSet, shift_succ, BitVec.and_comm, Nat.forall_lt_succ_left]
    have test := and_place_eq_zero word place
    split
    case isTrue unset => simp [test.mp unset]
    case isFalse held =>
      rw [test, Bool.not_eq_false] at held
      rw [ih]
      simp only [Nat.add_zero, held, true_and, Nat.add_assoc, Nat.add_comm 1]

theorem lowestBit_eq {word x : BitVec 64} {j : Nat} (left : j + rounds = 64)
    (shifted : ∀ i < rounds, x.getLsbD i = word.getLsbD (j + i)) (held : word.getLsbD k = true)
    (least : ∀ i < k, word.getLsbD i = false) (later : j ≤ k) : lowestBit rounds x j = .ok k := by
  have inside := BitVec.lt_of_getLsbD held
  induction rounds generalizing x j with
  | zero => omega
  | succ rounds ih =>
    have first : x &&& 1#64 = 0#64 ↔ word.getLsbD j = false := by
      have test := and_place_eq_zero x 0
      rwa [shifted 0 (by omega), BitVec.shiftLeft_zero] at test
    rw [lowestBit]
    split
    case isTrue found =>
      obtain rfl | before := Nat.eq_or_lt_of_le later
      · rfl
      · exact absurd (first.mpr (least j before)) found
    case isFalse unset =>
      have differ : j ≠ k := by
        rintro rfl
        rw [first.mp (not_not.mp unset)] at held
        exact Bool.noConfusion held
      refine ih (by omega) (fun i inside => ?_) (by omega)
      have := shifted (i + 1) (by omega)
      rw [BitVec.getLsbD_sshiftRight]
      rw [Nat.add_comm 1 i, if_pos (by omega), this, Nat.add_right_comm, Nat.add_assoc]
      simp [show ¬ 64 ≤ i by omega]

theorem lowestWord_eq {words : List (BitVec 64)} (held : bit words k = true)
    (least : ∀ k' < k, bit words k' = false) : lowestWord words i = .ok (64 * i + k) := by
  induction words generalizing i k with
  | nil => simp at held
  | cons word words ih =>
    have lower : ∀ {k' : Nat}, k' < 64 → bit (word :: words) k' = word.getLsbD k' :=
      fun low => bit_cons_low word words low
    rw [lowestWord]
    split
    case isTrue some =>
      have inside : k < 64 := by
        by_contra beyond
        refine some (BitVec.eq_of_getLsbD_eq fun k' low => ?_)
        rw [← lower low, least k' (by omega)]
        simp
      rw [lowestBit_eq rfl (fun i _ => by rw [Nat.zero_add]) (lower inside ▸ held)
        (fun k' before => lower (before.trans inside) ▸ least k' before) (Nat.zero_le k)]
      rfl
    case isFalse none =>
      obtain rfl := not_not.mp none
      have beyond : 64 ≤ k := by
        by_contra inside
        rw [lower (by omega)] at held
        simp at held
      obtain ⟨k, rfl⟩ := Nat.exists_eq_add_of_le beyond
      rw [bit_cons_add _ _ (by decide)] at held
      rw [ih held fun k' before => ?_, Nat.mul_succ, Nat.add_assoc]
      rw [← bit_cons_add 0 words (by decide)]
      exact least _ (by omega)

/-- A set of the size holds these numbers, and no bits past its size. -/
structure Holds (n : Nat) (s : NodeSet) (S : Finset Nat) : Prop where
  size : s.nSize = n
  elements : members s.nArray = S
  bounded : S ⊆ Finset.range n

variable {n : Nat} {s t : NodeSet} {S T U : Finset Nat}

theorem bit_iff (held : Holds n s S) (i : Nat) : bit s.nArray i = true ↔ i ∈ S := by
  rw [← held.elements, mem_members (by decide)]

theorem Holds.length_eq (held : Holds n s S) (held' : Holds n t T) :
    s.nArray.length = t.nArray.length := by
  rw [s.sized, t.sized, held.size, held'.size]

theorem setSize_holds (n : Nat) : Holds n (setSize n) ∅ := by
  refine ⟨rfl, ?_, Finset.empty_subset _⟩
  rw [← all_zero_iff (by decide)]
  simp [setSize]

section
variable (held : Holds n s S)
include held

theorem Holds.add {index : Nat} (inside : index < n) : Holds n (s.add index) (insert index S) := by
  refine ⟨held.size, ?_, Finset.insert_subset (Finset.mem_range.mpr inside) held.bounded⟩
  rw [NodeSet.add, index_word, index_place, modifyWord, ← held.elements]
  exact members_setBit (by decide) (word_lt (held.size ▸ inside))

theorem Holds.remove {index : Nat} (inside : index < n) :
    Holds n (s.remove index) (S.erase index) := by
  refine ⟨held.size, ?_, (Finset.erase_subset _ _).trans held.bounded⟩
  rw [NodeSet.remove, index_word, index_place, modifyWord, ← held.elements]
  exact members_clearBit (by decide) (word_lt (held.size ▸ inside))

theorem Holds.combine (held' : Holds n t T) {op : BitVec 64 → BitVec 64 → BitVec 64}
    (result : members (List.zipWith op s.nArray t.nArray) = U) (bounded : U ⊆ Finset.range n) :
    ∃ u, combine op s t = .ok u ∧ Holds n u U :=
  ⟨_, dif_pos (held.size.trans held'.size.symm), held.size, result, bounded⟩

theorem Holds.addSet (held' : Holds n t T) : ∃ u, s.addSet t = .ok u ∧ Holds n u (S ∪ T) := by
  refine held.combine held' ?_ (Finset.union_subset held.bounded held'.bounded)
  rw [members_or (by decide) (held.length_eq held'), held.elements, held'.elements]

theorem Holds.removeSet (held' : Holds n t T) : ∃ u, s.removeSet t = .ok u ∧ Holds n u (S \ T) := by
  refine held.combine held' ?_ (Finset.sdiff_subset.trans held.bounded)
  rw [members_andNot (by decide) (held.length_eq held'), held.elements, held'.elements]

theorem Holds.and (held' : Holds n t T) : ∃ u, s.and t = .ok u ∧ Holds n u (S ∩ T) := by
  refine held.combine held' ?_ (Finset.inter_subset_left.trans held.bounded)
  rw [members_and (by decide) (held.length_eq held'), held.elements, held'.elements]

theorem Holds.clear : Holds n s.clear ∅ := by
  refine ⟨held.size, ?_, Finset.empty_subset _⟩
  rw [← all_zero_iff (by decide)]
  simp [NodeSet.clear]

end

theorem mem_clearExcess (s : NodeSet) (i : Nat) :
    i ∈ members s.clearExcess.nArray ↔ i ∈ members s.nArray ∧ i < s.nSize := by
  have length := s.sized
  have within : bit s.nArray i = true → i < 64 * s.nArray.length := by
    intro held
    by_contra outside
    rw [bit_of_length_le (by decide) (by omega)] at held
    exact Bool.noConfusion held
  rw [mem_members (by decide), mem_members (by decide), clearExcess]
  split
  case isFalse full =>
    refine ⟨fun held => ⟨held, ?_⟩, And.left⟩
    have := within held
    omega
  case isTrue part =>
    have rounds : 64 - (s.nSize &&& 63) = (63 - s.nSize % 64) + 1 := by
      rw [index_place]
      omega
    have last : s.nArray.length - 1 = s.nSize / 64 := by omega
    have mask : 0x7FFFFFFFFFFFFFFF#64 = lowMask 63 := by decide
    rw [modifyWord, bit_modify _ _ _ _ (by omega), rounds, mask, last]
    by_cases here : i / 64 = s.nSize / 64
    · rw [if_pos here, getLsbD_clearTop (by omega) (by decide) (by omega), Bool.and_eq_true,
        decide_eq_true_eq, bit, here, and_comm]
      refine and_congr_right fun _ => ?_
      omega
    · rw [if_neg here]
      refine ⟨fun held => ⟨held, ?_⟩, And.left⟩
      have := within held
      omega

theorem Holds.broadcast (held : Holds n s S) : Holds n s.broadcast (Finset.range n) := by
  have size : s.broadcast.nSize = s.nSize := by
    unfold NodeSet.broadcast clearExcess
    split <;> rfl
  refine ⟨size.trans held.size, ?_, Finset.Subset.refl _⟩
  ext i
  have length := s.sized
  rw [NodeSet.broadcast, mem_clearExcess, members_map_const _ (by decide), Finset.mem_range,
    ← held.size]
  have place : i % 64 < 64 := Nat.mod_lt i (by decide)
  have ones : (-1#64).getLsbD (i % 64) = true := by
    rw [minusOne, BitVec.getLsbD_allOnes, decide_eq_true place]
  simp only [ones, and_true]
  omega

theorem copy_eq (obj : NodeSet) : copy obj = obj := by
  have words : ∀ (a b : List (BitVec 64)), a.length = b.length →
      List.zipWith (fun _ word => word) a b = b := by
    intro a
    induction a with
    | nil => exact fun b same => (eq_nil_of_length_eq_zero same.symm).symm
    | cons x a ih =>
      rintro (- | ⟨y, b⟩) same
      · rfl
      · rw [zipWith_cons_cons, ih b (Nat.succ.inj same)]
  have same : (setSize obj.nSize).nArray.length = obj.nArray.length := by
    rw [(setSize obj.nSize).sized, obj.sized]; rfl
  obtain ⟨size, array, sized⟩ := obj
  simp only [copy, words _ _ same]

section
variable (held : Holds n s S)
include held

theorem isElement_iff (i : Nat) : s.isElement i = decide (i ∈ S) := by
  rw [Bool.eq_iff_iff, decide_eq_true_eq, ← bit_iff held, isElement, index_word, index_place,
    bne_iff_ne, Ne, ← Bool.not_eq_false, not_iff_not]
  exact and_place_eq_zero _ _

theorem count_eq : s.count = S.card := by
  have fold : ∀ (words : List (BitVec 64)) (counter : Nat),
      words.foldl (fun counter word => countWord word 64 1#64 counter) counter =
        counter + (members words).card := by
    intro words
    induction words with
    | nil => simp [members]
    | cons word words ih =>
      intro counter
      have first := countWord_eq word 64 0 counter
      rw [BitVec.shiftLeft_zero] at first
      simp only [Nat.zero_add] at first
      rw [foldl_cons, ih, card_members _ (by decide), card_members _ (by decide),
        map_cons, sum_cons, ← Nat.add_assoc]
      exact congrArg (· + _) first
  rw [count, fold, Nat.zero_add, held.elements]

theorem isEmpty_iff : s.isEmpty = decide (S = ∅) := by
  rw [Bool.eq_iff_iff, decide_eq_true_eq, ← held.elements]
  exact all_zero_iff (by decide)

theorem isBroadcast_iff : s.isBroadcast = decide (S = Finset.range n) := by
  have length := s.sized
  have size := held.size
  have max : (if s.nSize % 64 = 0 then s.nArray.length else s.nArray.length - 1) = n / 64 := by
    split <;> omega
  have last := placesSet_iff (s.nArray.getD (s.nArray.length - 1) 0#64) (n % 64) 0
  rw [BitVec.shiftLeft_zero] at last
  simp only [Nat.zero_add] at last
  rw [Bool.eq_iff_iff, decide_eq_true_eq, isBroadcast, max, Bool.and_eq_true, size, last, minusOne,
    take_allOnes_iff (by decide) _ _ (by omega)]
  have full : S = Finset.range n ↔ ∀ i < n, bit s.nArray i = true := by
    rw [Finset.Subset.antisymm_iff, and_iff_right held.bounded, Finset.subset_iff]
    simp only [Finset.mem_range, bit_iff held]
  rw [full]
  constructor
  · rintro ⟨words, places⟩ i inside
    by_cases whole : i < 64 * (n / 64)
    · exact words i whole
    · rw [bit, show i / 64 = s.nArray.length - 1 by omega]
      exact places (i % 64) (by omega)
  · intro every
    refine ⟨fun i whole => every i (by omega), fun i place => ?_⟩
    have here := every (64 * (n / 64) + i) (by omega)
    rwa [bit, show (64 * (n / 64) + i) / 64 = s.nArray.length - 1 by omega,
      show (64 * (n / 64) + i) % 64 = i by omega] at here

theorem smallestElement_iff (k : Nat) : s.smallestElement = .ok k ↔ IsLeast (S : Set Nat) k := by
  have found : ∀ {k : Nat}, IsLeast (S : Set Nat) k → s.smallestElement = .ok k := by
    rintro k ⟨member, least⟩
    have some : s.count > 0 := by
      rw [count_eq held]
      exact Finset.card_pos.mpr ⟨k, member⟩
    rw [smallestElement, require_of some, ok_bind,
      lowestWord_eq ((bit_iff held k).mpr member) fun k' before => ?_, Nat.mul_zero, Nat.zero_add]
    rw [← Bool.not_eq_true, bit_iff held]
    intro member'
    exact absurd (least member') (by omega)
  refine ⟨fun done => ?_, found⟩
  obtain ⟨_, some, -⟩ := bind_ok done
  have some := require_ok some
  rw [count_eq held, gt_iff_lt, Finset.card_pos] at some
  have least : IsLeast (S : Set Nat) (S.min' some) :=
    ⟨S.min'_mem some, fun i member => S.min'_le i member⟩
  cases (found least).symm.trans done
  exact least

theorem isEqual_eq (held' : Holds n t T) : s.isEqual t = .ok (decide (S = T)) := by
  rw [isEqual, require_of (held.size.trans held'.size.symm), ok_bind]
  refine congrArg Except.ok ?_
  rw [Bool.eq_iff_iff, decide_eq_true_eq, ← held.elements, ← held'.elements]
  exact all_equal_iff (by decide) (held.length_eq held')

theorem isSuperset_eq (held' : Holds n t T) : s.isSuperset t = .ok (decide (T ⊆ S)) := by
  rw [isSuperset, require_of (held.size.trans held'.size.symm), ok_bind, minusOne]
  refine congrArg Except.ok ?_
  rw [Bool.eq_iff_iff, decide_eq_true_eq, ← held.elements, ← held'.elements]
  exact all_covered_iff (by decide) (held.length_eq held')

theorem intersectionIsEmpty_eq (held' : Holds n t T) :
    s.intersectionIsEmpty t = decide (S ∩ T = ∅) := by
  rw [Bool.eq_iff_iff, decide_eq_true_eq, ← held.elements, ← held'.elements]
  exact all_disjoint_iff (by decide) (held.length_eq held')

end

structure Answers (n : Nat) (s t : NodeSet) (S T : Finset Nat) : Prop where
  bounded : S ⊆ Finset.range n
  excess : ∀ i ≥ n, bit s.nArray i = false
  isElement : ∀ i < n, s.isElement i = decide (i ∈ S)
  count : s.count = S.card
  isEmpty : s.isEmpty = decide (S = ∅)
  isBroadcast : s.isBroadcast = decide (S = Finset.range n)
  smallestElement : ∀ k, s.smallestElement = .ok k ↔ IsLeast (S : Set Nat) k
  isEqual : s.isEqual t = .ok (decide (S = T))
  isSuperset : s.isSuperset t = .ok (decide (T ⊆ S))
  isSubset : s.isSubset t = .ok (decide (S ⊆ T))
  intersectionIsEmpty : s.intersectionIsEmpty t = decide (S ∩ T = ∅)
  or : ∃ u, s.or t = .ok u ∧ Holds n u (S ∪ T)
  and : ∃ u, s.and t = .ok u ∧ Holds n u (S ∩ T)

theorem Holds.answers (held : Holds n s S) (held' : Holds n t T) : Answers n s t S T where
  bounded := held.bounded
  excess i outside := by
    rw [← Bool.not_eq_true, bit_iff held]
    intro member
    have := Finset.mem_range.mp (held.bounded member)
    omega
  isElement i _ := isElement_iff held i
  count := count_eq held
  isEmpty := isEmpty_iff held
  isBroadcast := isBroadcast_iff held
  smallestElement := smallestElement_iff held
  isEqual := isEqual_eq held held'
  isSuperset := isSuperset_eq held held'
  isSubset := isSuperset_eq held' held
  intersectionIsEmpty := intersectionIsEmpty_eq held held'
  or := held.addSet held'
  and := held.and held'

def operations : SetObjects.Operations MemoryFault NodeSet Nat where
  add s index := .ok (s.add index)
  remove s index := .ok (s.remove index)
  addSet := addSet
  removeSet := removeSet
  clear := clear
  broadcast s := .ok s.broadcast
  copy := copy
  assign := assign

theorem implements (n : Nat) :
    SetObjects.Implements operations (Finset.range n) (setSize n) (Holds n) where
  empty := setSize_holds n
  add held inside := ⟨_, rfl, held.add (Finset.mem_range.mp inside)⟩
  remove held inside := ⟨_, rfl, held.remove (Finset.mem_range.mp inside)⟩
  addSet held held' := held.addSet held'
  removeSet held held' := held.removeSet held'
  clear held := held.clear
  broadcast held := ⟨_, rfl, held.broadcast⟩
  copy {s _} held := by
    rw [show operations.copy s = s from copy_eq s]
    exact held
  assign {same s t _ _} held held' one := by
    cases same with
    | true => exact one rfl ▸ held'
    | false =>
      rw [show operations.assign false s t = t from copy_eq t]
      exact held'

end NodeSet

end SynchroTrace.Ruby
