import Mathlib.Logic.Function.Basic
import SynchroTrace.Lib.BitSets
import SynchroTrace.Lib.Recency
import SynchroTrace.Lib.Transition
import SynchroTrace.Ruby.Address

/-!
The tags of a fully associative cache, linked in the order of their last uses. A block is its index
in the array of all blocks; latencies and the warm-up are left out.
-/

namespace SynchroTrace.Mem
open Function (update update_of_ne update_self)
open Outcome Transition Recency List Nat
open Ruby (MemoryFault isPowerOf2 isPowerOf2_pow floorLog2 floorLog2_eq)

structure FALRUBlk where
  tag : BitVec 64
  /-- The bit `BlkValid` of the status, the one that the tags read. -/
  isValid : Bool
  prev : Option Nat
  next : Option Nat
  inCache : BitVec 32
deriving DecidableEq

structure FALRU where
  blkSize : BitVec 32
  numCaches : Nat
  numBlocks : Nat
  cacheMask : BitVec 32
  blks : Nat → FALRUBlk
  head : Nat
  tail : Nat
  cacheBoundaries : Nat → Option Nat
  tagHash : BitVec 64 → Option Nat
  tagsInUse : Int
  replacements : Nat
  accesses : Nat
  hits : Nat → Nat
  misses : Nat → Nat

namespace FALRU

structure Building where
  blks : Nat → FALRUBlk
  cacheBoundaries : Nat → Option Nat
  index : Nat
  j : Nat
  flags : BitVec 32

def build (numCaches : Nat) (c : Building) (i : Nat) : Except MemoryFault Building := do
  let blk : FALRUBlk :=
    { c.blks i with inCache := c.flags, prev := some (i - 1), next := some (i + 1) }
  let c := { c with blks := update c.blks i blk }
  if i = c.index - 1 then do
    require (c.j < numCaches) .outOfBounds
    return { c with
      cacheBoundaries := update c.cacheBoundaries c.j (some i)
      flags := c.flags &&& ~~~(1#32 <<< c.j)
      j := c.j + 1
      index := c.index <<< 1 }
  else return c

def Building.start (blkSize cacheMask : BitVec 32) (numBlocks : Nat) : Building :=
  let fresh : FALRUBlk := ⟨0, false, none, none, 0⟩
  let blks := update (fun _ => fresh) 0 { fresh with next := some 1, inCache := cacheMask }
  ⟨update blks (numBlocks - 1) { fresh with prev := some (numBlocks - 2) }, fun _ => none,
    2 ^ 17 / blkSize.toNat, 0, cacheMask⟩

def Building.finish (blkSize cacheMask : BitVec 32) (numCaches numBlocks : Nat) (built : Building) :
    FALRU where
  blkSize := blkSize
  numCaches := numCaches
  numBlocks := numBlocks
  cacheMask := cacheMask
  blks := built.blks
  head := 0
  tail := numBlocks - 1
  cacheBoundaries := built.cacheBoundaries
  tagHash := fun _ => none
  tagsInUse := 0
  replacements := 0
  accesses := 0
  hits := fun _ => 0
  misses := fun _ => 0

def construct (blkSize size hitLatency : BitVec 32) : Except MemoryFault FALRU := do
  require (isPowerOf2 blkSize) .panic
  require (0 < hitLatency) .panic
  require (isPowerOf2 size) .panic
  let numCaches := (BitVec.ofNat 32 (← floorLog2 size.toNat) - 17).toNat
  let cacheMask := if 0 < numCaches then (1#32 <<< numCaches) - 1 else 0
  let numBlocks := size.toNat / blkSize.toNat
  require (1 < numBlocks) .outOfBounds
  let built ← (List.range' 1 (numBlocks - 2)).foldlM (build numCaches)
    (Building.start blkSize cacheMask numBlocks)
  require (built.j = numCaches) .assertion
  require (built.index = numBlocks) .assertion
  return built.finish blkSize cacheMask numCaches numBlocks

def deref : Option Nat → Except MemoryFault Nat
  | some blk => .ok blk
  | none => .error .nullPointer

variable (c : FALRU) (blk : Nat)

def setBlk (f : FALRUBlk → FALRUBlk) : FALRU :=
  { c with blks := update c.blks blk (f (c.blks blk)) }

def moveBoundary (updateMask : BitVec 32) (c : FALRU) (i : Nat) : Except MemoryFault FALRU :=
  if updateMask &&& (1#32 <<< i) ≠ 0#32 then do
    let last ← deref (c.cacheBoundaries i)
    let c := c.setBlk last fun b => { b with inCache := b.inCache &&& ~~~(1#32 <<< i) }
    return { c with cacheBoundaries := update c.cacheBoundaries i (c.blks last).prev }
  else if c.cacheBoundaries i = some blk then
    return { c with cacheBoundaries := update c.cacheBoundaries i (c.blks blk).prev }
  else return c

/-- The part of `moveToHead` that takes a block other than the head out of the list. -/
def unlink : Except MemoryFault FALRU :=
  if blk = c.tail then do
    require ((c.blks blk).next = none) .assertion
    let tail ← deref (c.blks blk).prev
    return setBlk { c with tail } tail fun b => { b with next := none }
  else do
    let before ← deref (c.blks blk).prev
    let c := c.setBlk before fun b => { b with next := (c.blks blk).next }
    let after ← deref (c.blks blk).next
    return c.setBlk after fun b => { b with prev := (c.blks blk).prev }

def linkFirst : FALRU :=
  let c := c.setBlk blk fun b => { b with next := some c.head, prev := none }
  let c := c.setBlk c.head fun b => { b with prev := some blk }
  { c with head := blk }

def moveToHead : Except MemoryFault FALRU := do
  let updateMask := (c.blks blk).inCache ^^^ c.cacheMask
  let c ← (List.range c.numCaches).foldlM (moveBoundary blk updateMask) c
  let c := c.setBlk blk fun b => { b with inCache := c.cacheMask }
  if blk = c.head then return c
  else return (← c.unlink blk).linkFirst blk

def checkFrom (c : FALRU) : Nat → Option Nat → (size boundary j : Nat) → BitVec 32 → Option Bool
  | _, none, _, _, _, _ => some true
  | 0, some _, _, _, _, _ => none
  | rounds + 1, some blk, size, boundary, j, flags =>
    let size := size + c.blkSize.toNat
    let next := (c.blks blk).next
    if (c.blks blk).inCache ≠ flags then some false
    else if size = boundary ∧ blk ≠ c.tail then
      if c.cacheBoundaries j ≠ some blk then some false
      else c.checkFrom rounds next size (boundary <<< 1) (j + 1) (flags &&& ~~~(1#32 <<< j))
    else c.checkFrom rounds next size boundary j flags

def check (rounds : Nat) : Option Bool :=
  c.checkFrom rounds (some c.head) 0 (1 <<< 17) 0 c.cacheMask

def bound (c : FALRU) (i : Nat) : Nat := 2 ^ (17 + i) / c.blkSize.toNat

/-- The links are those of the blocks in this order, and the bits and the boundaries tell which of
them are in the first blocks of each size. -/
structure Stack (c : FALRU) (order : List Nat) : Prop where
  perm : order.Perm (List.range c.numBlocks)
  head : order[0]? = some c.head
  tail : order[c.numBlocks - 1]? = some c.tail
  prev : ∀ q b, order[q]? = some b → (c.blks b).prev = if q = 0 then none else order[q - 1]?
  next : ∀ q b, order[q]? = some b → (c.blks b).next = order[q + 1]?
  inCache : ∀ q b, order[q]? = some b → ∀ i,
    (c.blks b).inCache.getLsbD i = decide (i < c.numCaches ∧ q < c.bound i)
  boundary : ∀ i < c.numCaches, c.cacheBoundaries i = order[c.bound i - 1]?

structure Sized (c : FALRU) : Prop where
  blkSize : ∃ a ≤ 16, c.blkSize.toNat = 2 ^ a
  numBlocks : c.numBlocks = c.bound c.numCaches
  numCaches : c.numCaches ≤ 14
  mask : ∀ i, c.cacheMask.getLsbD i = decide (i < c.numCaches)

section Sizes
variable {c : FALRU}

variable (sized : Sized c)
include sized

theorem Sized.bound_pow :
    ∃ a ≤ 16, c.blkSize.toNat = 2 ^ a ∧ ∀ i, c.bound i = 2 ^ (17 + i - a) := by
  obtain ⟨a, small, eq⟩ := sized.blkSize
  refine ⟨a, small, eq, fun i => ?_⟩
  rw [bound, eq, Nat.pow_div (by omega) (by decide)]

theorem Sized.bound_succ (i : Nat) : c.bound (i + 1) = 2 * c.bound i := by
  obtain ⟨a, small, -, eq⟩ := sized.bound_pow
  rw [eq, eq, show 17 + (i + 1) - a = 17 + i - a + 1 by omega, Nat.pow_succ, Nat.mul_comm]

theorem Sized.two_le_bound (i : Nat) : 2 ≤ c.bound i := by
  obtain ⟨a, small, -, eq⟩ := sized.bound_pow
  rw [eq]
  exact Nat.le_self_pow (by omega) 2

variable {i j q : Nat}

theorem Sized.bound_lt (less : i < j) : c.bound i < c.bound j := by
  obtain ⟨a, small, -, eq⟩ := sized.bound_pow
  rw [eq, eq]
  exact Nat.pow_lt_pow_right (by decide) (by omega)

theorem Sized.bound_bytes (i : Nat) : c.bound i * c.blkSize.toNat = 2 ^ (17 + i) := by
  obtain ⟨a, small, size, eq⟩ := sized.bound_pow
  rw [eq, size, ← Nat.pow_add, Nat.sub_add_cancel (by omega)]

theorem Sized.bound_lt_numBlocks (inside : i < c.numCaches) : c.bound i < c.numBlocks :=
  sized.numBlocks ▸ sized.bound_lt inside

theorem Sized.lt_bound_iff (ahead : q < c.bound j) (passed : ∀ i < j, c.bound i ≤ q)
    (i : Nat) : q < c.bound i ↔ j ≤ i := by
  refine ⟨fun within => Nat.not_lt.mp fun before => ?_, fun behind => ?_⟩
  · have := passed i before
    omega
  · obtain same | less := Nat.eq_or_lt_of_le behind
    · exact same ▸ ahead
    · exact Nat.lt_trans ahead (sized.bound_lt less)

theorem Sized.passed_succ (here : q + 1 = c.bound j) (passed : ∀ i < j, c.bound i ≤ q) :
    q + 1 < c.bound (j + 1) ∧ ∀ i < j + 1, c.bound i ≤ q + 1 := by
  have := sized.bound_succ j
  refine ⟨by omega, fun i before => ?_⟩
  obtain same | less := Nat.eq_or_lt_of_le (le_of_lt_succ before)
  · rw [same, here]
  · exact le_succ_of_le (passed i less)

end Sizes

section Move
variable {c c' : FALRU} {order : List Nat} {blk p : Nat}

structure Shifted (c c' : FALRU) (blk : Nat) (mask : BitVec 32) (k : Nat) : Prop where
  rest : { c' with blks := c.blks, cacheBoundaries := c.cacheBoundaries } = c
  blks : ∀ b, c'.blks b = { c.blks b with inCache := (c'.blks b).inCache }
  inCache : ∀ b i, (c'.blks b).inCache.getLsbD i = ((c.blks b).inCache.getLsbD i &&
    !decide (i < k ∧ mask.getLsbD i ∧ c.cacheBoundaries i = some b))
  boundary : ∀ i, c'.cacheBoundaries i =
    if ¬ i < k then c.cacheBoundaries i
    else if mask.getLsbD i then (c.cacheBoundaries i).bind fun b => (c.blks b).prev
    else if c.cacheBoundaries i = some blk then (c.blks blk).prev
    else c.cacheBoundaries i

variable {i k q r b : Nat}

theorem getLsbD_clear (word : BitVec 32) (inside : i < 32) (j : Nat) :
    (word &&& ~~~(1#32 <<< i)).getLsbD j = (word.getLsbD j && !decide (j = i)) := by
  rw [← BitVec.twoPow_eq, BitVec.getLsbD_and, BitVec.getLsbD_not, BitVec.getLsbD_twoPow]
  by_cases low : j < 32
  · by_cases here : i = j
    · simp [low, here]
    · simp [low, inside, here, Ne.symm here]
  · rw [BitVec.getLsbD_of_ge _ _ (by omega), Bool.false_and, Bool.false_and]

theorem Shifted.step {mask : BitVec 32} {k : Nat} (shifted : Shifted c c' blk mask k) (small : k < 32)
    (some : mask.getLsbD k → ∃ b, c.cacheBoundaries k = some b) :
    ∃ next, moveBoundary blk mask c' k = .ok next ∧ Shifted c next blk mask (k + 1) := by
  have here := shifted.boundary k
  rw [if_pos (Nat.lt_irrefl k)] at here
  have prev b : (c'.blks b).prev = (c.blks b).prev := by rw [shifted.blks b]
  have others {i : Nat} (other : i ≠ k) : i < k + 1 ↔ i < k := by omega
  have test := not_congr (BitSets.and_place_eq_zero mask k)
  rw [moveBoundary]
  cases set : mask.getLsbD k with
  | true =>
    obtain ⟨last, isLast⟩ := some set
    rw [if_pos (test.mpr (by simp [set])), here, isLast, deref, ok_bind]
    refine ⟨_, rfl, shifted.rest, fun b => ?_, fun b i => ?_, fun i => ?_⟩
    · by_cases same : b = last
      · simp only [setBlk, same, update_self]
        rw [shifted.blks last]
      · simp only [setBlk, update_of_ne same]
        exact shifted.blks b
    · have before := shifted.inCache b i
      by_cases at_k : i = k
      · rw [at_k] at before ⊢
        by_cases same : b = last
        · simp [setBlk, same, getLsbD_clear _ small, set, isLast]
        · simp [setBlk, same, before, set, isLast, Ne.symm same]
      · by_cases same : b = last
        · rw [same] at before ⊢
          simp [setBlk, getLsbD_clear _ small, before, at_k, others at_k]
        · simp [setBlk, same, before, others at_k]
    · by_cases at_k : i = k
      · simp [at_k, setBlk, set, isLast, prev]
      · simpa [setBlk, at_k, others at_k] using shifted.boundary i
  | false =>
    rw [if_neg (fun other => test.mp other set), here]
    have same b i (before : Bool) : (before && !decide (i < k + 1 ∧ mask.getLsbD i ∧
        c.cacheBoundaries i = Option.some b)) = (before && !decide (i < k ∧ mask.getLsbD i ∧
        c.cacheBoundaries i = Option.some b)) := by
      by_cases at_k : i = k
      · simp [at_k, set]
      · simp [others at_k]
    split
    · rename_i isBlk
      refine ⟨_, rfl, shifted.rest, shifted.blks, fun b i => ?_, fun i => ?_⟩
      · rw [same]
        exact shifted.inCache b i
      · by_cases at_k : i = k
        · simp [at_k, set, isBlk, prev]
        · simpa [at_k, others at_k] using shifted.boundary i
    · rename_i notBlk
      refine ⟨_, rfl, shifted.rest, shifted.blks, fun b i => ?_, fun i => ?_⟩
      · rw [same]
        exact shifted.inCache b i
      · by_cases at_k : i = k
        · simp [at_k, set, notBlk, here]
        · simpa [at_k, others at_k] using shifted.boundary i

theorem exists_shifted (blk : Nat) (mask : BitVec 32) (small : k ≤ 32)
    (some : ∀ i < k, mask.getLsbD i → ∃ b, c.cacheBoundaries i = some b) :
    ∃ c', (List.range k).foldlM (moveBoundary blk mask) c = .ok c' ∧ Shifted c c' blk mask k := by
  induction k with
  | zero => exact ⟨c, rfl, rfl, fun _ => rfl, by simp, by simp⟩
  | succ k ih =>
    obtain ⟨mid, ran, shifted⟩ := ih (by omega) fun i inside => some i (by omega)
    obtain ⟨next, moved, shifted⟩ := shifted.step small (some k (lt_succ_self k))
    refine ⟨next, ?_, shifted⟩
    rw [range_succ, foldlM_append, ran, ok_bind, foldlM_cons, moved]
    rfl

structure Unlinked (c c' : FALRU) (order : List Nat) (p : Nat) : Prop where
  rest : { c' with blks := c.blks, tail := c.tail } = c
  tail : order[if p + 1 = c.numBlocks then p - 1 else c.numBlocks - 1]? = some c'.tail
  blks : ∀ b, c'.blks b = { c.blks b with
    prev := if order[p + 1]? = some b then order[p - 1]? else (c.blks b).prev
    next := if order[p - 1]? = some b then order[p + 1]? else (c.blks b).next }

theorem exists_unlinked (distinct : order.Nodup) (here : order[p]? = some blk) (inner : p ≠ 0)
    (length : order.length = c.numBlocks) (tail : order[c.numBlocks - 1]? = some c.tail)
    (prev : (c.blks blk).prev = order[p - 1]?) (next : (c.blks blk).next = order[p + 1]?) :
    ∃ c', c.unlink blk = .ok c' ∧ Unlinked c c' order p := by
  obtain ⟨inside, -⟩ := List.getElem?_eq_some_iff.mp here
  obtain ⟨before, isBefore⟩ : ∃ b, order[p - 1]? = some b :=
    ⟨_, List.getElem?_eq_getElem (by omega)⟩
  have ne {q b : Nat} (other : q ≠ p) (found : order[q]? = some b) : b ≠ blk := by
    intro same
    have inside' := (List.getElem?_eq_some_iff.mp found).1
    exact other ((List.getElem?_inj inside' distinct).mp (found.trans (same ▸ here.symm)))
  rw [unlink]
  split
  · rename_i isTail
    rw [← isTail] at tail
    have last : p = c.numBlocks - 1 :=
      (List.getElem?_inj inside distinct).mp (here.trans tail.symm)
    have none : order[p + 1]? = none := List.getElem?_eq_none (by omega)
    rw [next, require_of none, ok_bind, prev, isBefore, deref, ok_bind]
    refine ⟨_, rfl, rfl, ?_, fun b => ?_⟩
    · rw [if_pos (by omega), isBefore]
      rfl
    · by_cases same : b = before
      · simp [setBlk, same, none, isBefore]
      · simp [setBlk, same, none, isBefore, Ne.symm same]
  · rename_i notTail
    have notLast : p + 1 ≠ c.numBlocks := by
      rintro last
      rw [show c.numBlocks - 1 = p by omega, here] at tail
      exact notTail (Option.some.inj tail)
    obtain ⟨after, isAfter⟩ : ∃ b, order[p + 1]? = some b :=
      ⟨_, List.getElem?_eq_getElem (by omega)⟩
    have first := ne (by omega) isBefore
    have apart : before ≠ after := by
      rintro rfl
      have := (List.getElem?_inj (by omega) distinct).mp (isBefore.trans isAfter.symm)
      omega
    rw [prev, isBefore, deref, ok_bind]
    simp only [setBlk, update_of_ne first.symm, next, isAfter, prev, isBefore]
    refine ⟨_, rfl, rfl, ?_, fun b => ?_⟩
    · rw [if_neg notLast, tail]
    · by_cases same : b = before
      · simp [same, isAfter, isBefore, apart, Ne.symm apart]
      · by_cases same' : b = after
        · simp [same', isAfter, isBefore, apart, Ne.symm apart]
        · simp [same, same', Ne.symm same, Ne.symm same', isAfter, isBefore]

theorem linkFirst_blks (ne : blk ≠ c.head) (b : Nat) : (c.linkFirst blk).blks b =
    if b = blk then { c.blks b with next := some c.head, prev := none }
    else if b = c.head then { c.blks b with prev := some blk } else c.blks b := by
  by_cases at_blk : b = blk
  · simp [linkFirst, setBlk, at_blk, ne]
  · by_cases at_head : b = c.head
    · simp [linkFirst, setBlk, at_head, ne.symm]
    · simp [linkFirst, setBlk, at_blk, at_head]

theorem Sized.flags_succ (sized : Sized c) {flags : BitVec 32} {j : Nat} (more : j < c.numCaches)
    (bits : ∀ i, flags.getLsbD i = decide (j ≤ i ∧ i < c.numCaches)) (i : Nat) :
    (flags &&& ~~~(1#32 <<< j)).getLsbD i = decide (j + 1 ≤ i ∧ i < c.numCaches) := by
  have := sized.numCaches
  rw [getLsbD_clear _ (by omega), bits, Bool.eq_iff_iff]
  simp only [Bool.and_eq_true, decide_eq_true_eq, Bool.not_eq_true', decide_eq_false_iff_not]
  omega

theorem Stack.nodup (stack : Stack c order) : order.Nodup :=
  stack.perm.nodup_iff.mpr nodup_range

theorem Stack.length (stack : Stack c order) : order.length = c.numBlocks := by
  rw [stack.perm.length_eq, length_range]

theorem Stack.index_eq (stack : Stack c order) (here : order[q]? = some b)
    (there : order[r]? = some b) : q = r :=
  (List.getElem?_inj (List.getElem?_eq_some_iff.mp here).1 stack.nodup).mp (here.trans there.symm)

theorem Stack.exists_boundary (stack : Stack c order) (sized : Sized c)
    (inside : i < c.numCaches) : ∃ b, c.cacheBoundaries i = some b := by
  have less := sized.bound_lt_numBlocks inside
  rw [stack.boundary i inside]
  exact ⟨_, List.getElem?_eq_getElem (by rw [stack.length]; omega)⟩

theorem Stack.toFront_cases (stack : Stack c order) (here : order[p]? = some blk)
    (found : (toFront blk order)[q]? = some b) : q = 0 ∧ b = blk ∨
      b ≠ blk ∧ ∃ r, r ≠ p ∧ order[r]? = some b ∧ q = if r < p then r + 1 else r := by
  rw [getElem?_toFront stack.nodup here] at found
  have other {r : Nat} (ne : r ≠ p) (found : order[r]? = some b) : b ≠ blk :=
    fun same => ne (stack.index_eq found (same ▸ here))
  split_ifs at found with first early
  · exact .inl ⟨first, (Option.some.inj found).symm⟩
  · refine .inr ⟨other (by omega) found, q - 1, by omega, found, ?_⟩
    rw [if_pos (by omega)]
    omega
  · refine .inr ⟨other (by omega) found, q, by omega, found, ?_⟩
    rw [if_neg (by omega)]

variable {mask : BitVec 32}

theorem Stack.mask_iff (stack : Stack c order) (sized : Sized c) (here : order[p]? = some blk)
    (i : Nat) : ((c.blks blk).inCache ^^^ c.cacheMask).getLsbD i =
      decide (i < c.numCaches ∧ c.bound i ≤ p) := by
  rw [BitVec.getLsbD_xor, stack.inCache p blk here, sized.mask]
  by_cases inside : i < c.numCaches <;> by_cases beyond : c.bound i ≤ p <;>
    simp [inside, beyond, ← Nat.not_le]

/-- The bits and the boundaries are right for the new order before the links are. -/
theorem Stack.shifted_boundary (stack : Stack c order) (sized : Sized c)
    (here : order[p]? = some blk)
    (masks : ∀ i, mask.getLsbD i = decide (i < c.numCaches ∧ c.bound i ≤ p))
    (shifted : Shifted c c' blk mask c.numCaches) (inside : i < c.numCaches) :
    c'.cacheBoundaries i = (toFront blk order)[c.bound i - 1]? := by
  have two := sized.two_le_bound i
  have behind : c.bound i - 1 ≠ 0 := by omega
  have before := stack.boundary i inside
  obtain ⟨last, isLast⟩ := stack.exists_boundary sized inside
  rw [isLast] at before
  rw [shifted.boundary, if_neg (not_not.mpr inside), masks, getElem?_toFront stack.nodup here,
    if_neg behind, isLast, Option.bind_some, stack.prev _ _ before.symm, if_neg behind]
  by_cases beyond : c.bound i ≤ p
  · simp [inside, beyond, show c.bound i - 1 ≤ p by omega]
  · by_cases same : last = blk
    · have at_p := stack.index_eq before.symm (same ▸ here)
      simp [beyond, same, at_p, stack.prev p blk here, show p ≠ 0 by omega]
    · have not_p : c.bound i - 1 ≠ p := by
        intro at_p
        rw [at_p, here] at before
        exact same (Option.some.inj before)
      simp [beyond, same, show ¬ c.bound i - 1 ≤ p by omega, ← before]

theorem Stack.shifted_inCache (stack : Stack c order) (sized : Sized c)
    (masks : ∀ i, mask.getLsbD i = decide (i < c.numCaches ∧ c.bound i ≤ p))
    (shifted : Shifted c c' blk mask c.numCaches) (found : order[r]? = some b)
    (place : q = if r < p then r + 1 else r) (i : Nat) :
    (c'.blks b).inCache.getLsbD i = decide (i < c.numCaches ∧ q < c.bound i) := by
  rw [shifted.inCache, stack.inCache r b found, masks]
  by_cases inside : i < c.numCaches
  · have two := sized.two_le_bound i
    have last : c.cacheBoundaries i = some b ↔ r = c.bound i - 1 := by
      rw [stack.boundary i inside]
      exact ⟨fun at_r => stack.index_eq found at_r, fun eq => eq ▸ found⟩
    rw [Bool.eq_iff_iff]
    simp only [inside, last, true_and, Bool.and_eq_true, decide_eq_true_eq, Bool.not_eq_true',
      decide_eq_false_iff_not]
    split_ifs at place <;> omega
  · simp [inside]

structure Moved (c c' : FALRU) : Prop where
  blkSize : c'.blkSize = c.blkSize
  numCaches : c'.numCaches = c.numCaches
  numBlocks : c'.numBlocks = c.numBlocks
  cacheMask : c'.cacheMask = c.cacheMask
  tagHash : c'.tagHash = c.tagHash
  tags : ∀ b, (c'.blks b).tag = (c.blks b).tag ∧ (c'.blks b).isValid = (c.blks b).isValid

theorem Moved.trans {d : FALRU} (first : Moved c c') (second : Moved c' d) : Moved c d :=
  ⟨second.blkSize.trans first.blkSize, second.numCaches.trans first.numCaches,
    second.numBlocks.trans first.numBlocks, second.cacheMask.trans first.cacheMask,
    second.tagHash.trans first.tagHash, fun b => ⟨(second.tags b).1.trans (first.tags b).1,
      (second.tags b).2.trans (first.tags b).2⟩⟩

theorem Stack.relink {next : FALRU} (stack : Stack c order) (sized : Sized c)
    (here : order[p]? = some blk)
    (masks : ∀ i, mask.getLsbD i = decide (i < c.numCaches ∧ c.bound i ≤ p))
    (shifted : Shifted c c' blk mask c.numCaches) (moved : Moved c next)
    (boundaries : next.cacheBoundaries = c'.cacheBoundaries)
    (own : (next.blks blk).inCache = c.cacheMask)
    (bits : ∀ b, b ≠ blk → (next.blks b).inCache = (c'.blks b).inCache) (head : next.head = blk)
    (tail : (toFront blk order)[c.numBlocks - 1]? = some next.tail)
    (links : ∀ q b, (toFront blk order)[q]? = some b → (next.blks b).prev =
      (if q = 0 then none else (toFront blk order)[q - 1]?) ∧ (next.blks b).next =
      (toFront blk order)[q + 1]?) :
    Stack next (toFront blk order) := by
  have bound i : next.bound i = c.bound i := by rw [FALRU.bound, FALRU.bound, moved.blkSize]
  have perm := (toFront_perm (mem_of_getElem? here)).trans stack.perm
  refine ⟨moved.numBlocks ▸ perm, head ▸ rfl, moved.numBlocks ▸ tail,
    fun q b found => (links q b found).1, fun q b found => (links q b found).2,
    fun q b found i => ?_, fun i inside => ?_⟩
  · rw [moved.numCaches, bound]
    obtain ⟨rfl, rfl⟩ | ⟨other, r, -, found, place⟩ := stack.toFront_cases here found
    · have two := sized.two_le_bound i
      rw [own, sized.mask]
      simp only [show 0 < c.bound i by omega, and_true]
    · rw [bits b other]
      exact stack.shifted_inCache sized masks shifted found place i
  · rw [moved.numCaches] at inside
    rw [boundaries, bound]
    exact stack.shifted_boundary sized here masks shifted inside

theorem Shifted.moved (shifted : Shifted c c' blk mask k) : Moved c c' := by
  refine ⟨?_, ?_, ?_, ?_, ?_, fun b => ?_⟩
  iterate 5 rw [← shifted.rest]
  rw [shifted.blks b]
  exact ⟨rfl, rfl⟩

/-- The block as `moveToHead` leaves it before it changes the links. -/
def mark (c : FALRU) (blk : Nat) : FALRU := c.setBlk blk fun b => { b with inCache := c.cacheMask }

/-- The links after a block has been taken from its place and put first. -/
theorem Stack.first_links (stack : Stack c order) (here : order[p]? = some blk) (inner : p ≠ 0)
    {next : FALRU}
    (prevs : ∀ b, (next.blks b).prev = if b = blk then none else if b =
      c.head then some blk else if order[p + 1]? = some b then order[p - 1]? else (c.blks b).prev)
    (nexts : ∀ b, (next.blks b).next = if b = blk then some c.head else if order[p - 1]? =
      some b then order[p + 1]? else (c.blks b).next)
    (q b : Nat) (found : (toFront blk order)[q]? = some b) :
    (next.blks b).prev = (if q = 0 then none else (toFront blk order)[q - 1]?) ∧
      (next.blks b).next = (toFront blk order)[q + 1]? := by
  have front := getElem?_toFront stack.nodup here
  obtain ⟨first, same⟩ | ⟨other, r, ne, found, place⟩ := stack.toFront_cases here found
  · have second : (toFront blk order)[0 + 1]? = order[0]? := by
      rw [front, if_neg (succ_ne_zero 0), if_pos (by omega)]
    rw [prevs, nexts, if_pos same, if_pos same, first, second]
    exact ⟨rfl, stack.head.symm⟩
  · have index a : order[a]? = some b ↔ a = r :=
      ⟨fun at_a => stack.index_eq at_a found, fun eq => eq ▸ found⟩
    have at_head : b = c.head ↔ r = 0 := by
      rw [eq_comm, ← Option.some_inj, ← stack.head, index, eq_comm]
    have prev : (next.blks b).prev = if r = 0 then some blk
        else if p + 1 = r then order[p - 1]? else order[r - 1]? := by
      rw [prevs, if_neg other, stack.prev r b found]
      simp only [index, at_head]
      split_ifs <;> rfl
    rw [prev, nexts, if_neg other, stack.next r b found, place, front, front]
    simp only [index]
    obtain before | behind := Nat.lt_or_gt_of_ne ne
    · simp only [before, if_true, Nat.add_sub_cancel, succ_ne_zero, if_false, before.le,
        show p + 1 ≠ r by omega, true_and]
      split_ifs <;> first | omega | rfl | (congr 1; omega)
    · simp only [Nat.not_lt.mpr behind.le, if_false, show r ≠ 0 by omega, show p - 1 ≠ r by omega,
        show r - 1 ≠ 0 by omega, succ_ne_zero, show ¬ r + 1 ≤ p by omega, and_true]
      split_ifs <;> first | omega | rfl | (congr 1; omega)

theorem Moved.sized (moved : Moved c c') (sized : Sized c) : Sized c' := by
  have bound i : c'.bound i = c.bound i := by rw [FALRU.bound, FALRU.bound, moved.blkSize]
  refine ⟨moved.blkSize ▸ sized.blkSize, ?_, moved.numCaches ▸ sized.numCaches, fun i => ?_⟩
  · rw [moved.numBlocks, moved.numCaches, bound, sized.numBlocks]
  · rw [moved.cacheMask, moved.numCaches, sized.mask]

theorem Shifted.mark_blks (shifted : Shifted c c' blk mask k) (b : Nat) :
    (c'.mark blk).blks b = { c.blks b with
      inCache := if b = blk then c.cacheMask else (c'.blks b).inCache } := by
  by_cases same : b = blk
  · simp only [mark, setBlk, same, update_self, shifted.moved.cacheMask, if_true]
    rw [shifted.blks blk]
  · simp only [mark, setBlk, same, update_of_ne, ne_eq, not_false_eq_true, if_false]
    exact shifted.blks b

section
variable (stack : Stack c order) (sized : Sized c) (here : order[p]? = some blk)
  (masks : ∀ i, mask.getLsbD i = decide (i < c.numCaches ∧ c.bound i ≤ p))
  (shifted : Shifted c c' blk mask c.numCaches)
include stack sized here masks shifted

theorem Stack.move_inner (notHead : blk ≠ c.head) :
    ∃ d, (c'.mark blk).unlink blk = .ok d ∧ Stack (d.linkFirst blk) (toFront blk order) ∧
      Moved c (d.linkFirst blk) := by
  have inner : p ≠ 0 := by
    intro first
    rw [first, stack.head] at here
    exact notHead (Option.some.inj here).symm
  have marked := shifted.mark_blks
  have shift := shifted.moved
  obtain ⟨inside, -⟩ := List.getElem?_eq_some_iff.mp here
  have length := stack.length
  have same : (c'.mark blk).head = c.head ∧ (c'.mark blk).tail = c.tail ∧
      (c'.mark blk).numBlocks = c.numBlocks := by
    rw [← shifted.rest]
    exact ⟨rfl, rfl, rfl⟩
  obtain ⟨heads, tails, sizes⟩ := same
  obtain ⟨d, unlinks, unlinked⟩ := exists_unlinked (c := c'.mark blk) stack.nodup here inner
    (length.trans sizes.symm) (by rw [sizes, tails]; exact stack.tail)
    (by simp [marked, stack.prev p blk here, inner]) (by simp [marked, stack.next p blk here])
  have dhead : d.head = c.head := (congrArg FALRU.head unlinked.rest :).trans heads
  have dtail := unlinked.tail
  rw [sizes] at dtail
  have final b := linkFirst_blks (dhead ▸ notHead : blk ≠ d.head) b
  simp only [unlinked.blks, marked, dhead] at final
  have moved : Moved c (d.linkFirst blk) := by
    refine ⟨(congrArg FALRU.blkSize unlinked.rest :).trans shift.blkSize,
      (congrArg FALRU.numCaches unlinked.rest :).trans shift.numCaches,
      (congrArg FALRU.numBlocks unlinked.rest :).trans shift.numBlocks,
      (congrArg FALRU.cacheMask unlinked.rest :).trans shift.cacheMask,
      (congrArg FALRU.tagHash unlinked.rest :).trans shift.tagHash, fun b => ?_⟩
    rw [final]
    split_ifs <;> exact ⟨rfl, rfl⟩
  refine ⟨d, unlinks, stack.relink sized here masks shifted moved ?_ ?_ ?_ rfl ?_
    (stack.first_links here inner (fun b => ?_) fun b => ?_), moved⟩
  · exact (congrArg FALRU.cacheBoundaries unlinked.rest :)
  · simp [final]
  · intro b other
    simp only [final, other, if_false]
    split_ifs <;> rfl
  · rw [getElem?_toFront stack.nodup here, if_neg (by omega)]
    refine Eq.trans ?_ dtail
    split_ifs <;> first | rfl | congr 1; omega
  · rw [final]
    split_ifs <;> rfl
  · rw [final]
    split_ifs <;> rfl

theorem Stack.move_first (isHead : blk = c.head) :
    Stack (c'.mark blk) (toFront blk order) ∧ Moved c (c'.mark blk) := by
  have blks := shifted.mark_blks
  have first : p = 0 := stack.index_eq here (isHead ▸ stack.head)
  have same : toFront blk order = order := by
    refine ext_getElem? fun q => ?_
    rw [getElem?_toFront stack.nodup here, first]
    split_ifs with zero early
    · rw [zero, ← here, first]
    · omega
    · rfl
  have moved : Moved c (c'.mark blk) := { shifted.moved with tags := fun b => by simp [blks] }
  have head : (c'.mark blk).head = c.head := by rw [← shifted.rest]; rfl
  have tail : (c'.mark blk).tail = c.tail := by rw [← shifted.rest]; rfl
  refine ⟨stack.relink sized here masks shifted moved rfl ?_ ?_ (head.trans isHead.symm) ?_ ?_, moved⟩
  · simp [blks]
  · intro b other
    simp [blks, other]
  · rw [same, stack.tail, tail]
  · rw [same]
    intro q b found
    rw [blks, ← stack.prev q b found, ← stack.next q b found]
    exact ⟨rfl, rfl⟩

end

theorem Stack.moveToHead (stack : Stack c order) (sized : Sized c) (here : order[p]? = some blk) :
    ∃ next, c.moveToHead blk = .ok next ∧ Stack next (toFront blk order) ∧ Moved c next := by
  have masks := stack.mask_iff sized here
  obtain ⟨c', ran, shifted⟩ := exists_shifted blk ((c.blks blk).inCache ^^^ c.cacheMask)
    (show c.numCaches ≤ 32 from Nat.le_trans sized.numCaches (by decide))
    fun i inside _ => stack.exists_boundary sized inside
  have heads : (c'.mark blk).head = c.head := by rw [← shifted.rest]; rfl
  rw [FALRU.moveToHead]
  dsimp only
  rw [ran, ok_bind]
  by_cases isHead : blk = c.head
  · exact ⟨_, if_pos (isHead.trans heads.symm), stack.move_first sized here masks shifted isHead⟩
  · obtain ⟨d, unlinks, moved⟩ := stack.move_inner sized here masks shifted isHead
    refine ⟨_, (if_neg fun same => isHead (same.trans heads)).trans ?_, moved⟩
    exact congrArg (· >>= fun c => pure (c.linkFirst blk)) unlinks

end Move

section Check
variable {c : FALRU} {order : List Nat}

theorem Stack.tail_inCache (stack : Stack c order) (sized : Sized c) :
    (c.blks c.tail).inCache = 0 := by
  refine BitVec.eq_of_getLsbD_eq fun i _ => ?_
  rw [stack.inCache _ _ stack.tail, show (0 : BitVec 32) = 0#32 from rfl, BitVec.getLsbD_zero,
    decide_eq_false_iff_not]
  rintro ⟨inside, within⟩
  have := sized.bound_lt_numBlocks inside
  omega

theorem checkFrom_none (rounds size boundary j : Nat) (flags : BitVec 32) :
    c.checkFrom rounds none size boundary j flags = some true := by
  cases rounds <;> rfl

/-- The loop of `check` at place `q`, with the boundaries before it passed. -/
theorem Stack.checkFrom (stack : Stack c order) (sized : Sized c) {flags : BitVec 32} {j : Nat}
    (rounds q : Nat) (left : c.numBlocks = q + rounds) (few : j ≤ c.numCaches)
    (ahead : q < c.bound j) (passed : ∀ i < j, c.bound i ≤ q)
    (bits : ∀ i, flags.getLsbD i = decide (j ≤ i ∧ i < c.numCaches)) :
    c.checkFrom rounds order[q]? (q * c.blkSize.toNat) (2 ^ (17 + j)) j flags = some true := by
  induction rounds generalizing q j flags with
  | zero =>
    rw [List.getElem?_eq_none (by rw [stack.length]; omega)]
    rfl
  | succ rounds ih =>
    have inside : q < order.length := by rw [stack.length]; omega
    have found := List.getElem?_eq_getElem inside
    have own : (c.blks order[q]).inCache = flags := by
      refine BitVec.eq_of_getLsbD_eq fun i _ => ?_
      rw [stack.inCache q _ found, bits, decide_eq_decide, sized.lt_bound_iff ahead passed, and_comm]
    have bytes := sized.bound_bytes j
    have positive : 0 < c.blkSize.toNat := by
      obtain ⟨a, -, eq⟩ := sized.blkSize
      exact eq ▸ Nat.two_pow_pos a
    have size : q * c.blkSize.toNat + c.blkSize.toNat = (q + 1) * c.blkSize.toNat := by
      rw [Nat.add_mul, Nat.one_mul]
    have reached : (q + 1) * c.blkSize.toNat = 2 ^ (17 + j) ↔ q + 1 = c.bound j := by
      rw [← bytes]
      exact Nat.mul_left_inj positive.ne'
    rw [found, FALRU.checkFrom]
    simp only [own, ne_eq, not_true, if_false, size, reached, stack.next q _ found]
    split
    · rename_i crossed
      obtain ⟨here, notTail⟩ := crossed
      have more : j < c.numCaches := by
        refine Nat.lt_of_le_of_ne few fun last => notTail ?_
        rw [← Option.some_inj, ← found, ← stack.tail, sized.numBlocks, ← last, ← here]
        rfl
      rw [if_neg (by rw [not_not, stack.boundary j more, ← here]; exact found), shiftLeft_eq,
        ← Nat.pow_add]
      obtain ⟨ahead, passed⟩ := sized.passed_succ here passed
      exact ih (q + 1) (by omega) more ahead passed (sized.flags_succ more bits)
    · rename_i inner
      by_cases last : q + 1 = c.numBlocks
      · rw [List.getElem?_eq_none (by rw [stack.length]; omega), checkFrom_none]
      · have notTail : order[q] ≠ c.tail := by
          intro isTail
          have := stack.index_eq (isTail ▸ found) stack.tail
          omega
        refine ih (q + 1) (by omega) few ?_ (fun i before => le_succ_of_le (passed i before)) bits
        have : q + 1 ≠ c.bound j := fun here => inner ⟨here, notTail⟩
        omega

theorem Stack.check (stack : Stack c order) (sized : Sized c) :
    c.check c.numBlocks = some true := by
  have two := sized.two_le_bound 0
  have := stack.checkFrom sized (j := 0) c.numBlocks 0 (Nat.zero_add _).symm
    (Nat.zero_le _) (by omega) (by simp) (by simpa using sized.mask)
  rw [stack.head, Nat.zero_mul] at this
  exact this

end Check

section Construct

structure Built (c : FALRU) (built : Building) (i : Nat) : Prop where
  few : built.j ≤ c.numCaches
  index : built.index = c.bound built.j
  ahead : i < c.bound built.j
  passed : ∀ k < built.j, c.bound k ≤ i
  flags : ∀ k, built.flags.getLsbD k = decide (built.j ≤ k ∧ k < c.numCaches)
  boundary : ∀ k < built.j, built.cacheBoundaries k = some (c.bound k - 1)
  fresh : ∀ b, (built.blks b).tag = 0 ∧ (built.blks b).isValid = false
  blks : ∀ b, b < i ∨ b + 1 = c.numBlocks →
    (built.blks b).prev = (if b = 0 then none else some (b - 1)) ∧
    (built.blks b).next = (if b + 1 = c.numBlocks then none else some (b + 1)) ∧
    ∀ k, (built.blks b).inCache.getLsbD k = decide (k < c.numCaches ∧ b < c.bound k)

variable {c : FALRU} {built : Building} {i : Nat}

theorem Built.step (step : Built c built i) (sized : Sized c) (positive : 0 < i)
    (inside : i + 1 < c.numBlocks) :
    ∃ next, build c.numCaches built i = .ok next ∧ Built c next (i + 1) := by
  obtain ⟨few, index, ahead, passed, flags, boundary, fresh, blks⟩ := step
  have ownFresh := fresh i
  have newFresh (b : Nat) (v : FALRUBlk) (made : v.tag = 0 ∧ v.isValid = false) :
      (update built.blks i v b).tag = 0 ∧ (update built.blks i v b).isValid = false := by
    by_cases here : b = i
    · rwa [here, update_self]
    · rw [update_of_ne here]
      exact fresh b
  have newBlks b (range : b < i + 1 ∨ b + 1 = c.numBlocks) (v : FALRUBlk) (prev : v.prev = some (i - 1))
      (next : v.next = some (i + 1)) (own : v.inCache = built.flags) :
      (update built.blks i v b).prev = (if b = 0 then none else some (b - 1)) ∧
      (update built.blks i v b).next = (if b + 1 = c.numBlocks then none else some (b + 1)) ∧
      ∀ k, (update built.blks i v b).inCache.getLsbD k =
        decide (k < c.numCaches ∧ b < c.bound k) := by
    by_cases here : b = i
    · rw [here, update_self, prev, next, own, if_neg (by omega), if_neg (by omega)]
      refine ⟨rfl, rfl, fun k => ?_⟩
      rw [flags, decide_eq_decide, sized.lt_bound_iff ahead passed, and_comm]
    · rw [update_of_ne here]
      exact blks b (by omega)
  rw [build]
  dsimp only
  split
  · rename_i last
    have here : i + 1 = c.bound built.j := by omega
    have more : built.j < c.numCaches := by
      refine Nat.lt_of_le_of_ne few fun all => ?_
      rw [all, ← sized.numBlocks] at here
      omega
    obtain ⟨ahead, passed⟩ := sized.passed_succ here passed
    rw [require_of more, ok_bind]
    refine ⟨_, rfl, more, ?_, ahead, passed, sized.flags_succ more flags, fun k before => ?_,
      fun b => newFresh b _ ownFresh, fun b range => newBlks b range _ rfl rfl rfl⟩
    · rw [index, shiftLeft_eq, sized.bound_succ, Nat.pow_one, Nat.mul_comm]
    · by_cases same : k = built.j
      · simp only [same, update_self, ← here, Nat.add_sub_cancel]
      · simp only [update_of_ne same]
        exact boundary k (Nat.lt_of_le_of_ne (le_of_lt_succ before) same)
  · rename_i inner
    have : i + 1 < c.bound built.j := by omega
    exact ⟨_, rfl, few, index, this, fun k before => le_succ_of_le (passed k before), flags,
      boundary, fun b => newFresh b _ ownFresh, fun b range => newBlks b range _ rfl rfl rfl⟩

theorem exists_built (sized : Sized c) (start : Built c built 1) :
    ∃ final, (List.range' 1 (c.numBlocks - 2)).foldlM (build c.numCaches) built = .ok final ∧
      Built c final (c.numBlocks - 1) := by
  have two := sized.two_le_bound c.numCaches
  rw [← sized.numBlocks] at two
  have rounds (n i : Nat) (built : Building) (start : Built c built i) (positive : 0 < i)
      (inside : i + n < c.numBlocks) :
      ∃ final, (List.range' i n).foldlM (build c.numCaches) built = .ok final ∧
        Built c final (i + n) := by
    induction n generalizing i built with
    | zero => exact ⟨built, rfl, start⟩
    | succ n ih =>
      obtain ⟨next, made, step⟩ := start.step sized positive (by omega)
      obtain ⟨final, ran, ends⟩ := ih (i + 1) next step (by omega) (by omega)
      refine ⟨final, ?_, by rwa [show i + (n + 1) = i + 1 + n by omega]⟩
      rw [range'_succ, foldlM_cons, made]
      exact ran
  have := rounds (c.numBlocks - 2) 1 built start (by decide) (by omega)
  rwa [show 1 + (c.numBlocks - 2) = c.numBlocks - 1 by omega] at this

theorem Built.all (ends : Built c built (c.numBlocks - 1)) (sized : Sized c) :
    built.j = c.numCaches := by
  refine Nat.le_antisymm ends.few (Nat.not_lt.mp fun more => ?_)
  have ahead := ends.ahead
  have less := sized.bound_lt_numBlocks more
  omega

variable {blkSize size hitLatency : BitVec 32}

theorem getLsbD_mask {n : Nat} (few : n ≤ 14) (i : Nat) :
    (if 0 < n then (1#32 <<< n) - 1 else 0 : BitVec 32).getLsbD i = decide (i < n) := by
  have table : ∀ n ≤ 14, ∀ i < 32, (if 0 < n then (1#32 <<< n) - 1 else 0 : BitVec 32).getLsbD i =
    decide (i < n) := by decide
  by_cases low : i < 32
  · exact table n few i low
  · rw [BitVec.getLsbD_of_ge _ _ (by omega), eq_comm, decide_eq_false_iff_not]
    omega

theorem built_start (sized : Sized c) : Built c (.start c.blkSize c.cacheMask c.numBlocks) 1 := by
  have two := sized.two_le_bound
  have blocks := two c.numCaches
  rw [← sized.numBlocks] at blocks
  refine ⟨Nat.zero_le _, rfl, two 0, nofun, fun k => ?_, nofun, fun b => ?_, fun b range => ?_⟩
  · simp [Building.start, sized.mask]
  · by_cases last : b = c.numBlocks - 1
    · simp [Building.start, last]
    · by_cases first : b = 0
      · subst first
        simp [Building.start, update_of_ne last]
      · simp [Building.start, last, first]
  · by_cases last : b = c.numBlocks - 1
    · simp only [Building.start, last, update_self]
      refine ⟨?_, ?_, fun k => ?_⟩
      · rw [if_neg (by omega), show c.numBlocks - 1 - 1 = c.numBlocks - 2 by omega]
      · rw [if_pos (by omega)]
      · rw [show (0 : BitVec 32) = 0#32 from rfl, BitVec.getLsbD_zero, eq_comm,
          decide_eq_false_iff_not]
        rintro ⟨inside, within⟩
        have := sized.bound_lt_numBlocks inside
        omega
    · have first : b = 0 := by omega
      simp only [Building.start, first, update_of_ne (first ▸ last), update_self]
      refine ⟨rfl, ?_, fun k => ?_⟩
      · rw [if_neg (by omega)]
      · rw [sized.mask, decide_eq_decide]
        exact ⟨fun inside => ⟨inside, by have := two k; omega⟩, fun both => both.1⟩

theorem Built.stack (ends : Built c built (c.numBlocks - 1)) (sized : Sized c) :
    Stack (built.finish c.blkSize c.cacheMask c.numCaches c.numBlocks) (List.range c.numBlocks) := by
  have two := sized.two_le_bound c.numCaches
  rw [← sized.numBlocks] at two
  have block {q b : Nat} (found : (List.range c.numBlocks)[q]? = some b) : b = q ∧ q < c.numBlocks := by
    obtain ⟨inside, eq⟩ := List.getElem?_eq_some_iff.mp found
    rw [length_range] at inside
    exact ⟨eq.symm.trans (getElem_range _), inside⟩
  have element {q : Nat} (inside : q < c.numBlocks) : (List.range c.numBlocks)[q]? = some q := by
    rw [List.getElem?_range inside]
  refine ⟨.refl _, element (by omega), element (by omega : c.numBlocks - 1 < _), ?_, ?_, ?_, ?_⟩
  · intro q b found
    obtain ⟨rfl, inside⟩ := block found
    refine (ends.blks b (by omega)).1.trans ?_
    split_ifs
    · rfl
    · exact (element (by omega)).symm
  · intro q b found
    obtain ⟨rfl, inside⟩ := block found
    refine (ends.blks b (by omega)).2.1.trans ?_
    split_ifs with last
    · exact (List.getElem?_eq_none (by rw [length_range]; omega)).symm
    · exact (element (by omega)).symm
  · intro q b found
    obtain ⟨rfl, inside⟩ := block found
    exact (ends.blks b (by omega)).2.2
  · intro i inside
    have less := sized.bound_lt_numBlocks inside
    refine (ends.boundary i (ends.all sized ▸ inside)).trans (element ?_).symm
    exact Nat.lt_of_le_of_lt (sub_le _ _) less

theorem exists_construct (block : isPowerOf2 blkSize) (cache : isPowerOf2 size)
    (latency : 0 < hitLatency) (small : blkSize.toNat ≤ 2 ^ 16) (least : 2 ^ 17 ≤ size.toNat) :
    ∃ start, construct blkSize size hitLatency = .ok start ∧ Sized start ∧
      Stack start (List.range start.numBlocks) ∧ start.tagHash = (fun _ => none) ∧
      ∀ b, (start.blks b).tag = 0 ∧ (start.blks b).isValid = false := by
  obtain ⟨a, blockPow⟩ := isPowerOf2_pow block
  obtain ⟨k, cachePow⟩ := isPowerOf2_pow cache
  have aSmall : a ≤ 16 := (Nat.pow_le_pow_iff_right (by decide)).mp (blockPow ▸ small)
  have kLeast : 17 ≤ k := (Nat.pow_le_pow_iff_right (by decide)).mp (cachePow ▸ least)
  have kMost : k < 32 := (Nat.pow_lt_pow_iff_right (by decide)).mp (cachePow ▸ size.isLt)
  have log : floorLog2 size.toNat = .ok k := by
    rw [floorLog2_eq (by omega) (by omega), cachePow, log2_two_pow]
  have numCaches : (BitVec.ofNat 32 k - 17).toNat = k - 17 := by
    rw [BitVec.toNat_sub, BitVec.toNat_ofNat, show (17 : BitVec 32).toNat = 17 from rfl]
    omega
  have blocks : size.toNat / blkSize.toNat = 2 ^ (k - a) := by
    rw [blockPow, cachePow, Nat.pow_div (by omega) (by decide)]
  have several : 1 < size.toNat / blkSize.toNat := by
    rw [blocks]
    exact Nat.one_lt_two_pow (by omega)
  obtain ⟨mask, isMask⟩ : ∃ mask : BitVec 32,
    mask = if 0 < k - 17 then (1#32 <<< (k - 17)) - 1 else 0 := ⟨_, rfl⟩
  have sized built : Sized (Building.finish blkSize mask (k - 17) (2 ^ (k - a)) built) := by
    refine ⟨⟨a, aSmall, blockPow⟩, ?_, (by omega : k - 17 ≤ 14), fun i => ?_⟩
    · simp only [Building.finish, bound, blockPow, Nat.add_sub_cancel' kLeast]
      rw [Nat.pow_div (by omega) (by decide)]
    · rw [Building.finish, isMask]
      exact getLsbD_mask (by omega) i
  have first := sized (.start blkSize mask (2 ^ (k - a)))
  obtain ⟨final, ran, ends⟩ := exists_built first (built_start first)
  simp only [Building.finish] at ran
  have all : final.j = k - 17 := ends.all first
  have index : final.index = 2 ^ (k - a) := ends.index.trans (by rw [all]; exact first.numBlocks.symm)
  rw [blocks] at several
  simp only [construct, require_of block, require_of latency, require_of cache, log, ok_bind,
    numCaches, ← isMask, blocks, require_of several]
  rw [ran, ok_bind, require_of all, ok_bind, require_of index]
  exact ⟨_, rfl, sized final, ends.stack first, rfl, ends.fresh⟩

end Construct

theorem exists_moves {c : FALRU} {order : List Nat} (stack : Stack c order) (sized : Sized c)
    (moves : List Nat) (inside : ∀ blk ∈ moves, blk < c.numBlocks) :
    ∃ final, moves.foldlM moveToHead c = .ok final ∧
      Stack final (moves.foldl (fun order blk => toFront blk order) order) ∧ Sized final := by
  induction moves generalizing c order with
  | nil => exact ⟨c, rfl, stack, sized⟩
  | cons blk rest ih =>
    have member : blk ∈ order :=
      stack.perm.mem_iff.mpr (mem_range.mpr (inside blk mem_cons_self))
    obtain ⟨p, here⟩ := mem_iff_getElem?.mp member
    obtain ⟨next, ran, stack, moved⟩ := stack.moveToHead sized here
    rw [foldlM_cons, ran]
    refine ih stack (moved.sized sized) fun b later => ?_
    rw [moved.numBlocks]
    exact inside b (mem_cons_of_mem _ later)

/-- After the constructor and any moves, the links, the bits and the boundaries are those of the
array's order with each moved block put to the front, and the check passes. -/
theorem stack_tracks_sizes (blkSize size hitLatency : BitVec 32) (block : isPowerOf2 blkSize)
    (cache : isPowerOf2 size) (latency : 0 < hitLatency) (small : blkSize.toNat ≤ 2 ^ 16)
    (least : 2 ^ 17 ≤ size.toNat) :
    ∃ start, construct blkSize size hitLatency = .ok start ∧
      ∀ moves : List Nat, (∀ blk ∈ moves, blk < start.numBlocks) →
        ∃ c, moves.foldlM moveToHead start = .ok c ∧
          Stack c (moves.foldl (fun order blk => toFront blk order) (List.range start.numBlocks)) ∧
          c.check c.numBlocks = some true ∧ (c.blks c.tail).inCache = 0 := by
  obtain ⟨start, built, sized, stack, -⟩ := exists_construct block cache latency small least
  refine ⟨start, built, fun moves inside => ?_⟩
  obtain ⟨c, ran, stack, sized⟩ := exists_moves stack sized moves inside
  exact ⟨c, ran, stack, stack.check sized, stack.tail_inCache sized⟩

theorem stack_tracks_sizes_four : ∃ start c, construct 0x10000 0x40000 1 = .ok start ∧
    [3, 1, 3].foldlM moveToHead start = .ok c ∧ Stack c [3, 1, 0, 2] ∧
      c.check c.numBlocks = some true ∧ (c.blks c.tail).inCache = 0 := by
  obtain ⟨start, built, moved⟩ :=
    stack_tracks_sizes 0x10000 0x40000 1 (by decide) (by decide) (by decide) (by decide) (by decide)
  have blocks : start.numBlocks = 4 := by
    cases built
    rfl
  obtain ⟨c, ran, stack, passed, last⟩ := moved [3, 1, 3] (by simp [blocks])
  rw [blocks] at stack
  exact ⟨start, c, built, ran, stack, passed, last⟩

end FALRU
end SynchroTrace.Mem
