import Mathlib.Algebra.GroupWithZero.Nat
import Mathlib.Data.Finset.Card
import Mathlib.Data.Finset.Image
import Mathlib.Algebra.BigOperators.Group.List.Basic

namespace BitSets
open List Nat

variable {w : Nat}

def bit (words : List (BitVec w)) (i : Nat) : Bool :=
  (words.getD (i / w) 0#w).getLsbD (i % w)

def members (words : List (BitVec w)) : Finset Nat :=
  (Finset.range (w * words.length)).filter fun i => bit words i = true

@[simp] theorem bit_nil (i : Nat) : bit ([] : List (BitVec w)) i = false := by
  simp [bit]

variable {words : List (BitVec w)}

theorem bit_of_length_le {i : Nat} (nonzero : 0 < w)
    (outside : w * words.length ≤ i) : bit words i = false := by
  have beyond : words.length ≤ i / w := (Nat.le_div_iff_mul_le nonzero).mpr (by
    rw [Nat.mul_comm]; exact outside)
  simp [bit, List.getElem?_eq_none beyond]

theorem mem_members (nonzero : 0 < w) (i : Nat) :
    i ∈ members words ↔ bit words i = true := by
  rw [members, Finset.mem_filter, Finset.mem_range]
  constructor
  · exact fun held => held.2
  · intro held
    refine ⟨?_, held⟩
    by_contra outside
    rw [bit_of_length_le nonzero (by omega)] at held
    exact Bool.noConfusion held

variable (word : BitVec w)

theorem bit_cons (words : List (BitVec w)) (nonzero : 0 < w) (i : Nat) :
    bit (word :: words) i = if i < w then word.getLsbD i else bit words (i - w) := by
  unfold bit
  split
  case isTrue first => rw [div_eq_of_lt first, mod_eq_of_lt first]; rfl
  case isFalse later =>
    obtain ⟨j, rfl⟩ := Nat.exists_eq_add_of_le (Nat.le_of_not_lt later)
    rw [add_div_left _ nonzero, add_mod_left, Nat.add_sub_cancel_left]
    rfl

theorem bit_cons_low (words : List (BitVec w)) {i : Nat} (low : i < w) :
    bit (word :: words) i = word.getLsbD i := by
  rw [bit_cons _ _ (by omega), if_pos low]

theorem bit_cons_add (words : List (BitVec w)) (nonzero : 0 < w) (i : Nat) :
    bit (word :: words) (w + i) = bit words i := by
  rw [bit_cons _ _ nonzero, if_neg (by omega), Nat.add_sub_cancel_left]

theorem forall_bit_cons (P : Nat → Bool → Prop) (word : BitVec w) (words : List (BitVec w))
    (nonzero : 0 < w) :
    (∀ i, P i (bit (word :: words) i)) ↔
      (∀ i < w, P i (word.getLsbD i)) ∧ ∀ i, P (w + i) (bit words i) := by
  constructor
  · intro every
    refine ⟨fun i low => ?_, fun i => ?_⟩
    · rw [← bit_cons_low word words low]; exact every i
    · rw [← bit_cons_add word words nonzero i]; exact every (w + i)
  · rintro ⟨lower, upper⟩ i
    by_cases low : i < w
    · rw [bit_cons_low word words low]; exact lower i low
    · obtain ⟨j, rfl⟩ := Nat.exists_eq_add_of_le (Nat.le_of_not_lt low)
      rw [bit_cons_add word words nonzero j]; exact upper j

theorem bit_zipWith (f : BitVec w → BitVec w → BitVec w) (g : Bool → Bool → Bool)
    (bitwise : ∀ x y i, i < w → (f x y).getLsbD i = g (x.getLsbD i) (y.getLsbD i))
    (absent : g false false = false) (nonzero : 0 < w) :
    ∀ (a b : List (BitVec w)), a.length = b.length → ∀ i,
      bit (List.zipWith f a b) i = g (bit a i) (bit b i)
  | [], [], _, i => by simp [absent]
  | x :: a, y :: b, same, i => by
    rw [zipWith_cons_cons, bit_cons _ _ nonzero, bit_cons _ _ nonzero, bit_cons _ _ nonzero]
    split
    case isTrue low => exact bitwise x y i low
    case isFalse =>
      exact bit_zipWith f g bitwise absent nonzero a b (Nat.succ.inj same) (i - w)

section
variable {a b : List (BitVec w)} (nonzero : 0 < w) (same : a.length = b.length)
include nonzero same

theorem members_or : members (List.zipWith (· ||| ·) a b) = members a ∪ members b := by
  ext i
  rw [Finset.mem_union, mem_members nonzero, mem_members nonzero, mem_members nonzero,
    bit_zipWith (· ||| ·) (· || ·) (fun x y i _ => by simp) rfl nonzero a b same i, Bool.or_eq_true]

theorem members_and : members (List.zipWith (· &&& ·) a b) = members a ∩ members b := by
  ext i
  rw [Finset.mem_inter, mem_members nonzero, mem_members nonzero, mem_members nonzero,
    bit_zipWith (· &&& ·) (· && ·) (fun x y i _ => by simp) rfl nonzero a b same i,
    Bool.and_eq_true]

theorem members_andNot :
    members (List.zipWith (fun x y => x &&& ~~~y) a b) = members a \ members b := by
  ext i
  rw [Finset.mem_sdiff, mem_members nonzero, mem_members nonzero, mem_members nonzero,
    bit_zipWith (fun x y => x &&& ~~~y) (fun p q => p && !q)
      (fun x y i low => by simp [low]) rfl nonzero a b same i]
  simp

end

variable {words : List (BitVec w)}

theorem members_map_const (word : BitVec w) (nonzero : 0 < w) (i : Nat) :
    i ∈ members (words.map fun _ => word) ↔ i < w * words.length ∧ word.getLsbD (i % w) = true := by
  have inside : i / w < words.length ↔ i < w * words.length := by
    rw [Nat.div_lt_iff_lt_mul nonzero, Nat.mul_comm]
  rw [mem_members nonzero, bit, ← inside, getD_eq_getElem?_getD, List.getElem?_map]
  by_cases below : i / w < words.length
  · simp [below]
  · simp [below]

theorem bit_modify (words : List (BitVec w)) (f : BitVec w → BitVec w) (k i : Nat)
    (inside : k < words.length) :
    bit (words.modify k f) i =
      if i / w = k then (f (words.getD k 0#w)).getLsbD (i % w) else bit words i := by
  unfold bit
  rw [getD_eq_getElem?_getD, List.getElem?_modify, getD_eq_getElem?_getD, getD_eq_getElem?_getD]
  by_cases here : i / w = k
  · subst here
    simp [inside]
  · simp [here, Ne.symm here]

theorem eq_iff_place (i j : Nat) : i = j ↔ i / w = j / w ∧ i % w = j % w := by
  constructor
  · rintro rfl; exact ⟨rfl, rfl⟩
  · rintro ⟨word, place⟩
    rw [← div_add_mod i w, ← div_add_mod j w, word, place]

theorem members_setBit {index : Nat} (nonzero : 0 < w) (inside : index / w < words.length) :
    members (words.modify (index / w) (· ||| (1#w <<< (index % w)))) =
      insert index (members words) := by
  ext i
  have place : i % w < w := mod_lt i nonzero
  rw [Finset.mem_insert, mem_members nonzero, mem_members nonzero, bit_modify _ _ _ _ inside]
  have same := eq_iff_place (w := w) i index
  by_cases here : i / w = index / w
  · rw [if_pos here, bit, here, BitVec.getLsbD_or, BitVec.getLsbD_shiftLeft]
    simp only [BitVec.getLsbD_one, Bool.or_eq_true, Bool.and_eq_true, decide_eq_true_eq,
      Bool.not_eq_true', decide_eq_false_iff_not]
    rw [or_comm]
    refine or_congr_left ?_
    omega
  · rw [if_neg here, same]
    simp [here]

theorem members_clearBit {index : Nat} (nonzero : 0 < w) (inside : index / w < words.length) :
    members (words.modify (index / w) (· &&& ~~~(1#w <<< (index % w)))) =
      (members words).erase index := by
  ext i
  have place : i % w < w := mod_lt i nonzero
  rw [Finset.mem_erase, mem_members nonzero, mem_members nonzero, bit_modify _ _ _ _ inside]
  have same := eq_iff_place (w := w) i index
  by_cases here : i / w = index / w
  · rw [if_pos here, bit, here, BitVec.getLsbD_and, BitVec.getLsbD_not, BitVec.getLsbD_shiftLeft]
    simp only [BitVec.getLsbD_one, Bool.and_eq_true, decide_eq_true_eq,
      Bool.not_eq_true', decide_eq_false_iff_not, Bool.and_eq_false_iff,
      Bool.not_eq_false']
    rw [and_comm]
    refine and_congr_left fun _ => ?_
    omega
  · rw [if_neg here, Ne, same]
    simp [here]

theorem forall_zip (test : BitVec w → BitVec w → Bool) (P : Bool → Bool → Prop)
    (bitwise : ∀ x y, test x y = true ↔ ∀ i < w, P (x.getLsbD i) (y.getLsbD i))
    (absent : P false false) (nonzero : 0 < w) :
    ∀ (a b : List (BitVec w)), a.length = b.length →
      ((a.zip b).all (fun p => test p.1 p.2) = true ↔ ∀ i, P (bit a i) (bit b i))
  | [], [], _ => by simp [absent]
  | x :: a, y :: b, same => by
    rw [zip_cons_cons, all_cons, Bool.and_eq_true, bitwise,
      forall_zip test P bitwise absent nonzero a b (Nat.succ.inj same),
      forall_bit_cons (fun i p => P p (bit (y :: b) i)) x a nonzero]
    refine and_congr ?_ ?_
    · refine forall₂_congr fun i low => ?_
      rw [bit_cons_low y b low]
    · refine forall_congr' fun i => ?_
      rw [bit_cons_add y b nonzero]

section
variable {a b : List (BitVec w)} (nonzero : 0 < w) (same : a.length = b.length)
include nonzero same

theorem all_equal_iff : (a.zip b).all (fun p => p.1 == p.2) = true ↔ members a = members b := by
  rw [forall_zip (· == ·) (· = ·) (fun x y => by rw [beq_iff_eq, BitVec.eq_of_getLsbD_eq_iff]) rfl
    nonzero a b same, Finset.ext_iff]
  refine forall_congr' fun i => ?_
  rw [mem_members nonzero, mem_members nonzero, Bool.eq_iff_iff]

theorem all_disjoint_iff :
    (a.zip b).all (fun p => p.1 &&& p.2 == 0#w) = true ↔ members a ∩ members b = ∅ := by
  rw [forall_zip (fun x y => x &&& y == 0#w) (fun p q => (p && q) = false)
    (fun x y => by simp [BitVec.eq_of_getLsbD_eq_iff]) rfl nonzero a b same,
    Finset.eq_empty_iff_forall_notMem]
  refine forall_congr' fun i => ?_
  rw [Finset.mem_inter, mem_members nonzero, mem_members nonzero, ← Bool.and_eq_true,
    Bool.not_eq_true]

theorem all_covered_iff :
    (a.zip b).all (fun p => (p.2 &&& p.1) ||| ~~~p.2 == BitVec.allOnes w) = true ↔
      members b ⊆ members a := by
  rw [forall_zip (fun x y => (y &&& x) ||| ~~~y == BitVec.allOnes w)
    (fun p q => q = true → p = true) ?_ (fun h => h) nonzero a b same,
    Finset.subset_iff]
  · refine forall_congr' fun i => ?_
    rw [mem_members nonzero, mem_members nonzero]
  · intro x y
    rw [beq_iff_eq, BitVec.eq_of_getLsbD_eq_iff]
    refine forall₂_congr fun i low => ?_
    simp only [BitVec.getLsbD_or, BitVec.getLsbD_and, BitVec.getLsbD_not, BitVec.getLsbD_allOnes,
      low, decide_true, Bool.true_and]
    cases x.getLsbD i <;> cases y.getLsbD i <;> decide

end

theorem all_zero_iff {words : List (BitVec w)} (nonzero : 0 < w) :
    words.all (· == 0#w) = true ↔ members words = ∅ := by
  rw [Finset.eq_empty_iff_forall_notMem]
  simp only [mem_members nonzero, Bool.not_eq_true]
  induction words with
  | nil => simp
  | cons word words ih =>
    rw [all_cons, Bool.and_eq_true, ih, forall_bit_cons (fun _ p => p = false) word words
      nonzero, beq_iff_eq, BitVec.eq_of_getLsbD_eq_iff]
    simp

theorem and_place_eq_zero (word : BitVec w) (place : Nat) :
    word &&& (1#w <<< place) = 0#w ↔ word.getLsbD place = false := by
  rw [BitVec.eq_of_getLsbD_eq_iff]
  simp only [BitVec.getLsbD_and, BitVec.getLsbD_shiftLeft, BitVec.getLsbD_one,
    BitVec.getLsbD_zero, Bool.and_eq_false_iff]
  constructor
  · intro every
    by_cases inside : place < w
    · have := every place inside
      simpa [inside, zero_lt_of_lt inside] using this
    · exact BitVec.getLsbD_of_ge word place (by omega)
  · intro unset i inside
    by_cases here : i = place
    · exact .inl (here ▸ unset)
    · refine .inr ?_
      simp only [inside, decide_true, Bool.not_eq_false', decide_eq_true_eq,
        decide_eq_false_iff_not]
      omega

theorem take_allOnes_iff (nonzero : 0 < w) : ∀ (words : List (BitVec w)) (k : Nat),
    k ≤ words.length →
      ((words.take k).all (· == BitVec.allOnes w) = true ↔ ∀ i < w * k, bit words i = true)
  | words, 0, _ => by simp
  | word :: words, k + 1, short => by
    have word_iff : (word == BitVec.allOnes w) = true ↔ ∀ i < w, word.getLsbD i = true := by
      rw [beq_iff_eq, BitVec.eq_of_getLsbD_eq_iff]
      refine forall₂_congr fun i low => ?_
      simp [low]
    rw [take_succ_cons, all_cons, Bool.and_eq_true, word_iff,
      take_allOnes_iff nonzero words k (le_of_succ_le_succ short),
      forall_bit_cons (fun i p => i < w * (k + 1) → p = true) word words nonzero]
    refine and_congr (forall₂_congr fun i low => ?_) (forall_congr' fun i => ?_)
    · have : i < w * (k + 1) := by
        rw [mul_succ]; omega
      simp [this]
    · rw [mul_succ, Nat.add_comm w i, Nat.add_lt_add_iff_right]

def bits (word : BitVec w) : Finset Nat := (Finset.range w).filter fun i => word.getLsbD i = true

theorem mem_bits (word : BitVec w) (i : Nat) : i ∈ bits word ↔ word.getLsbD i = true := by
  rw [bits, Finset.mem_filter, Finset.mem_range]
  exact ⟨fun held => held.2, fun held => ⟨BitVec.lt_of_getLsbD held, held⟩⟩

theorem members_cons (word : BitVec w) (words : List (BitVec w)) (nonzero : 0 < w) :
    members (word :: words) = bits word ∪ (members words).image (w + ·) := by
  ext i
  rw [Finset.mem_union, mem_members nonzero, mem_bits, Finset.mem_image]
  simp only [mem_members nonzero]
  constructor
  · intro held
    rw [bit_cons _ _ nonzero] at held
    split at held
    case isTrue => exact Or.inl held
    case isFalse later => exact Or.inr ⟨i - w, held, by omega⟩
  · rintro (held | ⟨j, held, rfl⟩)
    · rw [bit_cons_low _ _ (BitVec.lt_of_getLsbD held), held]
    · rw [bit_cons_add _ _ nonzero, held]

theorem card_members (words : List (BitVec w)) (nonzero : 0 < w) :
    (members words).card = (words.map fun word => (bits word).card).sum := by
  induction words with
  | nil => simp [members]
  | cons word words ih =>
    rw [members_cons word words nonzero, Finset.card_union_of_disjoint,
      Finset.card_image_of_injective _ (fun _ _ => Nat.add_left_cancel), ih,
      map_cons, sum_cons]
    rw [Finset.disjoint_left]
    intro i low high
    obtain ⟨j, -, rfl⟩ := Finset.mem_image.mp high
    have := BitVec.lt_of_getLsbD ((mem_bits word _).mp low)
    omega

end BitSets
