import Mathlib.Logic.Function.Basic
import SynchroTrace.Lib.Recency
import SynchroTrace.Lib.Transition
import SynchroTrace.Ruby.Address

/-!
The tags of a set-associative cache. A block is its index in the array of all blocks; data, locks,
latencies and times are left out.
-/

namespace SynchroTrace.Mem
open Function (update update_of_ne update_self)
open Outcome Transition Recency List
open Ruby (MemoryFault isPowerOf2 floorLog2 floorLog2_eq)

structure CacheBlk where
  tag : BitVec 64
  /-- The bit `BlkValid` of the status, the one that the tags read. -/
  isValid : Bool
  isTouched : Bool
  refCount : Nat
  srcMasterId : Nat
deriving DecidableEq

def invldMasterId : Nat := 65535

namespace CacheSet

def shift (blk : Nat) : Nat → List Nat → Except MemoryFault (List Nat)
  | _, [] => .error .assertion
  | next, b :: rest =>
    if b = blk then .ok (next :: rest) else do return next :: (← shift blk b rest)

def moveToHead (blk : Nat) (blks : List Nat) : Except MemoryFault (List Nat) :=
  if blks.head? = some blk then .ok blks else shift blk blk blks

theorem shift_eq {blk : Nat} {blks : List Nat} (member : blk ∈ blks) (next : Nat) :
    shift blk next blks = .ok (next :: blks.erase blk) := by
  induction blks generalizing next with
  | nil => cases member
  | cons b rest ih =>
    rw [shift]
    split
    · rename_i same
      rw [same, erase_cons_head]
    · rename_i other
      have later := (mem_cons.mp member).resolve_left (Ne.symm other)
      rw [ih later, ok_bind, erase_cons_tail (by simpa using other)]
      rfl

theorem moveToHead_eq {blk : Nat} {blks : List Nat} (member : blk ∈ blks) :
    moveToHead blk blks = .ok (toFront blk blks) := by
  rw [moveToHead]
  split
  · rename_i first
    obtain ⟨rest, rfl⟩ := List.head?_eq_some_iff.mp first
    rw [toFront, erase_cons_head]
  · exact shift_eq member blk

end CacheSet

/-- A use of a block: a hit, or that it is brought in for a master. -/
inductive Use where
  | hit (blk : Nat)
  | brought (blk master : Nat)
  deriving DecidableEq

namespace Use

def blk : Use → Nat
  | hit blk => blk
  | brought blk _ => blk

def bringer (b : Nat) : Use → Option Nat
  | hit _ => none
  | brought blk master => if blk = b then some master else none

end Use

structure LRU where
  numSets : BitVec 32
  assoc : BitVec 32
  setShift : Nat
  tagShift : Nat
  maxMasters : Nat
  blks : Nat → CacheBlk
  sets : Nat → List Nat
  tagsInUse : Int
  warmedUp : Bool
  replacements : Nat
  totalRefs : Nat
  sampledRefs : Nat
  occupancies : Nat → Int
  /-- The uses of the blocks, the last one first. Nothing reads them. -/
  uses : List Use

namespace LRU

def construct (numSets blkSize assoc hitLatency : BitVec 32) (maxMasters : Nat) :
    Except MemoryFault LRU := do
  require (¬ (blkSize < 4 ∨ ¬ isPowerOf2 blkSize)) .panic
  require (¬ (numSets ≤ 0 ∨ ¬ isPowerOf2 numSets)) .panic
  require (¬ assoc ≤ 0) .panic
  require (¬ hitLatency ≤ 0) .panic
  let setShift ← floorLog2 blkSize.toNat
  let setBits ← floorLog2 numSets.toNat
  -- the sets take their blocks one after the other from an array of `numSets * assoc`
  require (numSets.toNat * assoc.toNat ≤ (numSets * assoc).toNat) .outOfBounds
  return { numSets, assoc, setShift, tagShift := setShift + setBits, maxMasters
           blks := fun b => ⟨BitVec.ofNat 64 (b % assoc.toNat), false, false, 0, invldMasterId⟩
           sets := fun set => List.range' (set * assoc.toNat) assoc.toNat
           tagsInUse := 0, warmedUp := false, replacements := 0, totalRefs := 0, sampledRefs := 0
           occupancies := fun _ => 0, uses := [] }

variable (c : LRU) (addr : BitVec 64)

def extractTag : BitVec 64 := addr >>> c.tagShift

def extractSet : Nat :=
  ((addr >>> c.setShift) &&& (c.numSets - 1).setWidth 64).toNat

/-- The associativity of a set is an `int`. -/
def findBlk (set : Nat) (tag : BitVec 64) : Option Nat :=
  ((c.sets set).take c.assoc.toInt.toNat).find? fun b =>
    (c.blks b).tag = tag && (c.blks b).isValid

def findBlock : Option Nat :=
  c.findBlk (c.extractSet addr) (c.extractTag addr)

def accessBlock : Except MemoryFault (Option Nat × LRU) := do
  let set := c.extractSet addr
  match c.findBlk set (c.extractTag addr) with
  | none => return (none, c)
  | some blk =>
    let order ← CacheSet.moveToHead blk (c.sets set)
    let b := c.blks blk
    return (some blk, { c with
      sets := update c.sets set order
      blks := update c.blks blk { b with refCount := b.refCount + 1 }
      uses := .hit blk :: c.uses })

def findVictim : Except MemoryFault Nat :=
  match (c.sets (c.extractSet addr))[c.assoc.toNat - 1]? with
  | some blk => .ok blk
  | none => .error .outOfBounds

def touch (blk : Nat) : LRU :=
  if (c.blks blk).isTouched then c
  else
    { c with
      tagsInUse := c.tagsInUse + 1
      blks := update c.blks blk { c.blks blk with isTouched := true }
      warmedUp := c.warmedUp || decide ((c.numSets * c.assoc).toInt ≤ c.tagsInUse + 1) }

def evict (blk : Nat) : Except MemoryFault LRU :=
  let b := c.blks blk
  if b.isValid then do
    require (b.srcMasterId < c.maxMasters) .assertion
    return { c with
      replacements := c.replacements + 1
      totalRefs := c.totalRefs + b.refCount
      sampledRefs := c.sampledRefs + 1
      blks := update c.blks blk { b with refCount := 0 }
      occupancies := update c.occupancies b.srcMasterId
        (c.occupancies b.srcMasterId - 1) }
  else .ok c

def insertBlock (blk master : Nat) : Except MemoryFault LRU := do
  let c ← (c.touch blk).evict blk
  require (master < c.maxMasters) .assertion
  let set := c.extractSet addr
  let order ← CacheSet.moveToHead blk (c.sets set)
  return { c with
    blks := update c.blks blk
      { c.blks blk with tag := c.extractTag addr, srcMasterId := master }
    occupancies := update c.occupancies master (c.occupancies master + 1)
    sets := update c.sets set order
    uses := .brought blk master :: c.uses }

def invalidateBlk : Option Nat → Except MemoryFault LRU
  | none => return c
  | some blk =>
    let b := c.blks blk
    let cleared := { b with isValid := false, isTouched := false }
    if b.isValid then do
      require (b.srcMasterId < c.maxMasters) .assertion
      return { c with
        tagsInUse := c.tagsInUse - 1
        occupancies := update c.occupancies b.srcMasterId
          (c.occupancies b.srcMasterId - 1)
        blks := update c.blks blk { cleared with srcMasterId := invldMasterId } }
    else return { c with blks := update c.blks blk cleared }

inductive Action where
  | access (addr : BitVec 64)
  /-- `findVictim` and `insertBlock`, after which the caller marks the block valid. -/
  | insert (addr : BitVec 64) (master : Nat)
  | invalidate (blk : Option Nat)
  deriving DecidableEq

def perform : Action → Except MemoryFault LRU
  | .access addr => do return (← c.accessBlock addr).2
  | .insert addr master => do
    let blk ← c.findVictim addr
    let c ← c.insertBlock addr blk master
    return { c with blks := update c.blks blk { c.blks blk with isValid := true } }
  | .invalidate blk => c.invalidateBlk blk

def numBlocks : Nat := c.numSets.toNat * c.assoc.toNat

def Allowed (c : LRU) : Action → Prop
  | .access _ => True
  | .insert addr master => c.findBlock addr = none ∧ master < c.maxMasters
  | .invalidate blk => ∀ b ∈ blk, b < c.numBlocks

instance (a : Action) : Decidable (c.Allowed a) := by
  cases a <;> unfold Allowed <;> infer_instance

def runs (start : LRU) : System LRU Action := ofFunction (· = start) perform

def age (blk : Nat) : Nat := (c.uses.map Use.blk).idxOf blk

def bringer (c : LRU) (blk : Nat) : Option Nat := c.uses.findSome? (Use.bringer blk)

structure Exact (c : LRU) : Prop where
  permutation : ∀ set < c.numSets.toNat,
    (c.sets set).Perm (List.range' (set * c.assoc.toNat) c.assoc.toNat)
  unique : ∀ set < c.numSets.toNat, ∀ b ∈ c.sets set, ∀ b' ∈ c.sets set,
    (c.blks b).isValid → (c.blks b').isValid → (c.blks b).tag = (c.blks b').tag → b = b'
  victim : ∀ addr, ∃ blk, c.findVictim addr = .ok blk ∧ blk ∈ c.sets (c.extractSet addr) ∧
    ∀ b ∈ c.sets (c.extractSet addr), c.age b ≤ c.age blk
  inUse : c.tagsInUse = (List.range c.numBlocks).countP fun b => (c.blks b).isTouched
  occupancy : ∀ master, c.occupancies master = (List.range c.numBlocks).countP fun b =>
    (c.blks b).isValid && c.bringer b = some master

structure Ordered (numSets assoc : Nat) (sets : Nat → List Nat) (uses : List Nat) : Prop where
  permutation : ∀ set < numSets, (sets set).Perm (List.range' (set * assoc) assoc)
  recent : ∀ set < numSets, Recent uses (sets set)

section Order
variable {numSets assoc set blk : Nat} {sets : Nat → List Nat} {uses : List Nat}

variable (ordered : Ordered numSets assoc sets uses) (inside : set < numSets)
include ordered inside

theorem Ordered.mem_iff : blk ∈ sets set ↔ set * assoc ≤ blk ∧ blk < set * assoc + assoc := by
  rw [(ordered.permutation set inside).mem_iff, mem_range'_1]

theorem Ordered.lt_numBlocks (member : blk ∈ sets set) : blk < numSets * assoc := by
  have range := (ordered.mem_iff inside).mp member
  have fits : (set + 1) * assoc ≤ numSets * assoc := Nat.mul_le_mul_right assoc inside
  rw [Nat.add_one_mul] at fits
  omega

theorem Ordered.same_set {other : Nat} (inside' : other < numSets) (member : blk ∈ sets set)
    (member' : blk ∈ sets other) : other = set := by
  have place : ∀ i, i * assoc ≤ blk ∧ blk < i * assoc + assoc → blk / assoc = i := by
    intro i range
    rw [← Nat.add_one_mul] at range
    exact Nat.div_eq_of_lt_le range.1 range.2
  rw [← place set ((ordered.mem_iff inside).mp member),
    ← place other ((ordered.mem_iff inside').mp member')]

theorem Ordered.use (member : blk ∈ sets set) :
    Ordered numSets assoc (update sets set (toFront blk (sets set))) (blk :: uses) := by
  constructor <;> intro other inside' <;> by_cases here : other = set
  · rw [here, update_self]
    exact (toFront_perm member).trans (ordered.permutation set inside)
  · rw [update_of_ne here]
    exact ordered.permutation other inside'
  · rw [here, update_self]
    refine (ordered.recent set inside).toFront ?_
    exact (ordered.permutation set inside).nodup_iff.mpr nodup_range'
  · rw [update_of_ne here]
    refine (ordered.recent other inside').use_other fun member' => here ?_
    exact ordered.same_set inside inside' member member'

end Order

theorem countP_range_change {n x : Nat} {p q : Nat → Bool} (inside : x < n)
    (others : ∀ y, y ≠ x → q y = p y) : ((List.range n).countP q : Int) =
      (List.range n).countP p - (if p x then 1 else 0) + if q x then 1 else 0 := by
  have split : (List.range n).Perm (x :: (List.range n).erase x) :=
    perm_cons_erase (mem_range.mpr inside)
  have rest : ((List.range n).erase x).countP q = ((List.range n).erase x).countP p := by
    refine countP_congr fun y member => ?_
    rw [others y (nodup_range.mem_erase_iff.mp member).1]
  rw [split.countP_eq q, split.countP_eq p, countP_cons, countP_cons, rest]
  split <;> split <;> simp_all

structure Accounted (c : LRU) : Prop where
  touched : ∀ b, (c.blks b).isTouched = (c.blks b).isValid
  source : ∀ b, (c.blks b).isValid →
    c.bringer b = some (c.blks b).srcMasterId ∧ (c.blks b).srcMasterId < c.maxMasters
  inUse : c.tagsInUse = (List.range c.numBlocks).countP fun b => (c.blks b).isTouched
  occupancy : ∀ master, c.occupancies master = (List.range c.numBlocks).countP fun b =>
    (c.blks b).isValid && c.bringer b = some master

structure Changed (c next : LRU) (blk : Nat) : Prop where
  numSets : next.numSets = c.numSets
  assoc : next.assoc = c.assoc
  maxMasters : next.maxMasters = c.maxMasters
  others : ∀ b, b ≠ blk → next.blks b = c.blks b ∧ next.bringer b = c.bringer b
  touched : (next.blks blk).isTouched = (next.blks blk).isValid
  source : (next.blks blk).isValid → next.bringer blk = some (next.blks blk).srcMasterId ∧
    (next.blks blk).srcMasterId < c.maxMasters
  inUse : next.tagsInUse = c.tagsInUse - (if (c.blks blk).isTouched then 1 else 0) +
    if (next.blks blk).isTouched then 1 else 0
  occupancy : ∀ master, next.occupancies master = c.occupancies master -
    (if (c.blks blk).isValid && c.bringer blk = some master then 1 else 0) +
    if (next.blks blk).isValid && next.bringer blk = some master then 1 else 0

variable {blk set : Nat}

theorem Accounted.change {c next : LRU} (accounted : Accounted c)
    (changed : Changed c next blk) (inside : blk < c.numBlocks) : Accounted next := by
  have same : next.numBlocks = c.numBlocks := by
    rw [numBlocks, numBlocks, changed.numSets, changed.assoc]
  constructor
  · intro b
    by_cases here : b = blk
    · exact here ▸ changed.touched
    · rw [(changed.others b here).1, accounted.touched b]
  · intro b
    rw [changed.maxMasters]
    by_cases here : b = blk
    · exact here ▸ changed.source
    · obtain ⟨block, brought⟩ := changed.others b here
      rw [block, brought]
      exact accounted.source b
  · rw [changed.inUse, accounted.inUse, same]
    refine Eq.symm (countP_range_change (p := fun b => (c.blks b).isTouched)
      (q := fun b => (next.blks b).isTouched) inside fun b other => ?_)
    rw [(changed.others b other).1]
  · intro master
    rw [changed.occupancy, accounted.occupancy, same]
    refine Eq.symm (countP_range_change
      (p := fun b => (c.blks b).isValid && c.bringer b = some master)
      (q := fun b => (next.blks b).isValid && next.bringer b = some master) inside
      fun b other => ?_)
    obtain ⟨block, brought⟩ := changed.others b other
    rw [block, brought]

structure Sound (c : LRU) : Prop where
  numSets : 0 < c.numSets.toNat
  assoc : 0 < c.assoc.toNat
  isInt : c.assoc.toNat < 2 ^ 31
  ordered : Ordered c.numSets.toNat c.assoc.toNat c.sets (c.uses.map Use.blk)
  unique : ∀ set < c.numSets.toNat, ∀ b ∈ c.sets set, ∀ b' ∈ c.sets set,
    (c.blks b).isValid → (c.blks b').isValid → (c.blks b).tag = (c.blks b').tag → b = b'
  accounted : Accounted c

variable {c : LRU}

theorem Sound.extractSet_lt (sound : Sound c) (addr : BitVec 64) :
    c.extractSet addr < c.numSets.toNat := by
  have positive := sound.numSets
  have mask : ((c.numSets - 1).setWidth 64).toNat = c.numSets.toNat - 1 := by bv_omega
  rw [extractSet, BitVec.toNat_and, mask]
  exact Nat.lt_of_le_of_lt Nat.and_le_right (by omega)

theorem Sound.length_set (sound : Sound c) (inside : set < c.numSets.toNat) :
    (c.sets set).length = c.assoc.toNat := by
  rw [(sound.ordered.permutation set inside).length_eq, length_range']

theorem Sound.findVictim (sound : Sound c) (addr : BitVec 64) : ∃ blk, c.findVictim addr = .ok blk ∧
    blk ∈ c.sets (c.extractSet addr) ∧ ∀ b ∈ c.sets (c.extractSet addr), c.age b ≤ c.age blk := by
  have inside := sound.extractSet_lt addr
  have length := sound.length_set inside
  have positive := sound.assoc
  have last : (c.sets (c.extractSet addr)).getLast? =
      (c.sets (c.extractSet addr))[c.assoc.toNat - 1]? := by
    rw [List.getLast?_eq_getElem?, length]
  have within : c.assoc.toNat - 1 < (c.sets (c.extractSet addr)).length := by omega
  have found := List.getElem?_eq_getElem within
  refine ⟨_, by rw [LRU.findVictim, found], getElem_mem _, fun b member => ?_⟩
  exact (sound.ordered.recent _ inside).oldest (last.trans found) member

theorem Sound.exact (sound : Sound c) : Exact c where
  permutation := sound.ordered.permutation
  unique := sound.unique
  victim := sound.findVictim
  inUse := sound.accounted.inUse
  occupancy := sound.accounted.occupancy

theorem Sound.findBlk_eq (sound : Sound c) (inside : set < c.numSets.toNat)
    (tag : BitVec 64) : c.findBlk set tag =
      (c.sets set).find? fun b => (c.blks b).tag = tag && (c.blks b).isValid := by
  have isInt := sound.isInt
  have assoc : c.assoc.toInt.toNat = c.assoc.toNat := by
    rw [BitVec.toInt_eq_toNat_of_lt (by omega), Int.toNat_natCast]
  rw [findBlk, assoc, ← sound.length_set inside, take_length]

structure Used (c next : LRU) (set blk : Nat) : Prop extends Changed c next blk where
  inside : set < c.numSets.toNat
  member : blk ∈ c.sets set
  sets : next.sets = update c.sets set (toFront blk (c.sets set))
  uses : next.uses.map Use.blk = blk :: c.uses.map Use.blk

theorem Used.mem_sets {next : LRU} {other b : Nat} (used : Used c next set blk) :
    b ∈ next.sets other ↔ b ∈ c.sets other := by
  rw [used.sets]
  by_cases here : other = set
  · rw [here, update_self]
    exact (toFront_perm used.member).mem_iff
  · rw [update_of_ne here]

theorem Sound.use {next : LRU} (sound : Sound c) (used : Used c next set blk)
    (fresh : ∀ b ∈ c.sets set, b ≠ blk → (c.blks b).isValid →
      (c.blks b).tag ≠ (next.blks blk).tag) :
    Sound next := by
  have owner {other : Nat} (inside : other < c.numSets.toNat) (member : blk ∈ c.sets other) :=
    sound.ordered.same_set used.inside inside used.member member
  refine ⟨used.numSets ▸ sound.numSets, used.assoc ▸ sound.assoc, used.assoc ▸ sound.isInt, ?_, ?_,
    sound.accounted.change used.toChanged (sound.ordered.lt_numBlocks used.inside used.member)⟩
  · rw [used.numSets, used.assoc, used.sets, used.uses]
    exact sound.ordered.use used.inside used.member
  · intro other inside b member b' member' valid valid' tags
    rw [used.numSets] at inside
    rw [used.mem_sets] at member member'
    by_cases here : b = blk <;> by_cases here' : b' = blk
    · rw [here, here']
    · rw [here] at tags member
      rw [owner inside member] at member'
      rw [(used.others b' here').1] at valid' tags
      exact absurd tags.symm (fresh b' member' here' valid')
    · rw [here'] at tags member'
      rw [owner inside member'] at member
      rw [(used.others b here).1] at valid tags
      exact absurd tags (fresh b member here valid)
    · rw [(used.others b here).1] at valid tags
      rw [(used.others b' here').1] at valid' tags
      exact sound.unique other inside b member b' member' valid valid' tags

@[simp] theorem bringer_hit (uses : List Use) (blk b : Nat) :
    (Use.hit blk :: uses).findSome? (Use.bringer b) = uses.findSome? (Use.bringer b) := by
  rw [List.findSome?_cons]
  rfl

@[simp] theorem bringer_brought (uses : List Use) (blk master b : Nat) :
    (Use.brought blk master :: uses).findSome? (Use.bringer b) =
      if blk = b then some master else uses.findSome? (Use.bringer b) := by
  rw [List.findSome?_cons, Use.bringer]
  by_cases here : blk = b
  · rw [if_pos here, if_pos here]
  · rw [if_neg here, if_neg here]

theorem Sound.access (sound : Sound c) (addr : BitVec 64) :
    ∃ next, c.perform (.access addr) = .ok next ∧ Sound next := by
  have inside := sound.extractSet_lt addr
  cases found : c.findBlk (c.extractSet addr) (c.extractTag addr) with
  | none =>
    refine ⟨c, ?_, sound⟩
    simp only [perform, accessBlock, found]
    rfl
  | some blk =>
    have searched := found
    rw [sound.findBlk_eq inside] at searched
    have member := List.mem_of_find?_eq_some searched
    refine ⟨_, by simp only [perform, accessBlock, found, CacheSet.moveToHead_eq member]; rfl, ?_⟩
    refine sound.use (show Used c _ (c.extractSet addr) blk from
      ⟨⟨rfl, rfl, rfl, ?_, ?_, ?_, ?_, ?_⟩, inside, member, rfl, rfl⟩) ?_
    · intro b other
      exact ⟨update_of_ne other _ _, rfl⟩
    · simpa using sound.accounted.touched blk
    · simpa [bringer] using sound.accounted.source blk
    · simp
    · intro master
      simp only [bringer, bringer_hit, update_self]
      exact (Int.sub_add_cancel _ _).symm
    · intro b other differs valid tags
      simp only [update_self] at tags
      have holds := List.find?_some searched
      simp only [Bool.and_eq_true, decide_eq_true_eq] at holds
      exact differs (sound.unique _ inside b other blk member valid holds.2 tags)

structure Emptied (c next : LRU) (blk : Nat) : Prop where
  numSets : next.numSets = c.numSets
  assoc : next.assoc = c.assoc
  setShift : next.setShift = c.setShift
  tagShift : next.tagShift = c.tagShift
  maxMasters : next.maxMasters = c.maxMasters
  sets : next.sets = c.sets
  uses : next.uses = c.uses
  others : ∀ b, b ≠ blk → next.blks b = c.blks b
  touched : (next.blks blk).isTouched = true
  inUse : next.tagsInUse = c.tagsInUse - (if (c.blks blk).isTouched then 1 else 0) + 1
  occupancy : ∀ master, next.occupancies master = c.occupancies master -
    if (c.blks blk).isValid && c.bringer blk = some master then 1 else 0

theorem Accounted.emptied (accounted : Accounted c) (blk : Nat) :
    ∃ next, (c.touch blk).evict blk = .ok next ∧ Emptied c next blk := by
  have touched := accounted.touched blk
  cases live : (c.blks blk).isValid with
  | false =>
    rw [live] at touched
    refine ⟨_, by simp only [touch, touched, evict, Bool.false_eq_true, ↓reduceIte,
      update_self, live]; rfl, ?_⟩
    refine ⟨rfl, rfl, rfl, rfl, rfl, rfl, rfl, fun b other => update_of_ne other _ _, ?_, ?_, ?_⟩
    · simp
    · simp [touched]
    · simp [live]
  | true =>
    rw [live] at touched
    obtain ⟨brought, known⟩ := accounted.source blk live
    have kept : c.touch blk = c := if_pos touched
    refine ⟨_, by simp only [kept, evict, live, ↓reduceIte, require_of known]; rfl, ?_⟩
    refine ⟨rfl, rfl, rfl, rfl, rfl, rfl, rfl, fun b other => update_of_ne other _ _, ?_, ?_, ?_⟩
    · simpa using touched
    · simp [touched]
    · intro master
      rw [brought]
      by_cases here : master = (c.blks blk).srcMasterId
      · simp [here, live]
      · simp [here, live, Ne.symm here]

theorem Sound.insert (sound : Sound c) {addr : BitVec 64} {master : Nat}
    (absent : c.findBlock addr = none) (known : master < c.maxMasters) :
    ∃ next, c.perform (.insert addr master) = .ok next ∧ Sound next := by
  have inside := sound.extractSet_lt addr
  rw [findBlock, sound.findBlk_eq inside, List.find?_eq_none] at absent
  obtain ⟨blk, victim, member, -⟩ := sound.findVictim addr
  obtain ⟨empty, evicted, emptied⟩ := sound.accounted.emptied blk
  have set : empty.extractSet addr = c.extractSet addr := by
    rw [extractSet, extractSet, emptied.setShift, emptied.numSets]
  have tag : empty.extractTag addr = c.extractTag addr := by
    rw [extractTag, extractTag, emptied.tagShift]
  have moved := CacheSet.moveToHead_eq member
  rw [← emptied.sets, ← set] at moved
  have allowed : master < empty.maxMasters := emptied.maxMasters ▸ known
  refine ⟨_, by
    simp only [perform, victim, ok_bind, insertBlock, evicted, require_of allowed, moved]
    rfl, ?_⟩
  refine sound.use (show Used c _ (c.extractSet addr) blk from
    ⟨⟨emptied.numSets, emptied.assoc, emptied.maxMasters, ?_, ?_, ?_, ?_, ?_⟩, inside, member, ?_,
      ?_⟩) ?_
  · intro b other
    refine ⟨?_, ?_⟩
    · simp only [update_of_ne other]
      exact emptied.others b other
    · simp [bringer, emptied.uses, Ne.symm other]
  · simpa using emptied.touched
  · intro _
    exact ⟨by simp [bringer], by simpa using known⟩
  · simp [emptied.inUse, emptied.touched]
  · intro other
    have before := emptied.occupancy other
    by_cases here : other = master
    · rw [here] at before ⊢
      simp [before, bringer]
    · simp [before, bringer, here, Ne.symm here]
  · rw [set, emptied.sets]
  · rw [map_cons, emptied.uses]
    rfl
  · intro b other _ valid tags
    simp only [update_self, tag] at tags
    exact absent b other (by simp [tags, valid])

theorem Sound.invalidate (sound : Sound c) {blk : Option Nat}
    (inside : ∀ b ∈ blk, b < c.numBlocks) :
    ∃ next, c.perform (.invalidate blk) = .ok next ∧ Sound next := by
  cases blk with
  | none => exact ⟨c, rfl, sound⟩
  | some blk =>
    have inside := inside blk rfl
    have clear (next : LRU) (changed : Changed c next blk) (sets : next.sets = c.sets)
        (uses : next.uses = c.uses) (gone : (next.blks blk).isValid = false) : Sound next := by
      refine ⟨changed.numSets ▸ sound.numSets, changed.assoc ▸ sound.assoc,
        changed.assoc ▸ sound.isInt, ?_, ?_, sound.accounted.change changed inside⟩
      · rw [changed.numSets, changed.assoc, sets, uses]
        exact sound.ordered
      · intro set inside b member b' member' valid valid' tags
        have other : b ≠ blk := fun here => by simp [here, gone] at valid
        have other' : b' ≠ blk := fun here => by simp [here, gone] at valid'
        rw [changed.numSets] at inside
        rw [sets] at member member'
        rw [(changed.others b other).1] at valid tags
        rw [(changed.others b' other').1] at valid' tags
        exact sound.unique set inside b member b' member' valid valid' tags
    have touched := sound.accounted.touched blk
    cases live : (c.blks blk).isValid with
    | false =>
      rw [live] at touched
      refine ⟨_, by simp only [perform, invalidateBlk, live, Bool.false_eq_true, ↓reduceIte]; rfl,
        ?_⟩
      refine clear _ ⟨rfl, rfl, rfl, fun b other => ⟨update_of_ne other _ _, rfl⟩, ?_, ?_,
        ?_, ?_⟩ rfl rfl ?_ <;> simp [live, touched]
    | true =>
      rw [live] at touched
      obtain ⟨brought, known⟩ := sound.accounted.source blk live
      refine ⟨_, by simp only [perform, invalidateBlk, live, ↓reduceIte, require_of known]; rfl, ?_⟩
      refine clear _ ⟨rfl, rfl, rfl, fun b other => ⟨update_of_ne other _ _, rfl⟩, ?_, ?_,
        ?_, ?_⟩ rfl rfl ?_
      · simp
      · simp
      · simp [touched]
      · intro master
        rw [brought]
        by_cases here : master = (c.blks blk).srcMasterId
        · simp [here, live]
        · simp [here, live, Ne.symm here]
      · simp

theorem Sound.perform (sound : Sound c) {a : Action} (allowed : c.Allowed a) :
    ∃ next, c.perform a = .ok next ∧ Sound next := by
  cases a with
  | access addr => exact sound.access addr
  | insert addr master => exact sound.insert allowed.1 allowed.2
  | invalidate blk => exact sound.invalidate allowed

section Construct
variable {numSets blkSize assoc hitLatency : BitVec 32} (maxMasters : Nat)

theorem exists_construct (block : 4 ≤ blkSize ∧ isPowerOf2 blkSize) (sets : isPowerOf2 numSets)
    (ways : 0 < assoc) (latency : 0 < hitLatency) (fits : numSets.toNat * assoc.toNat < 2 ^ 32) :
    ∃ start, construct numSets blkSize assoc hitLatency maxMasters = .ok start := by
  have nonzero : ¬ numSets ≤ 0 := by
    intro zero
    have zero : numSets = 0 := by bv_omega
    simp [zero, isPowerOf2] at sets
  have array : numSets.toNat * assoc.toNat ≤ (numSets * assoc).toNat := by
    rw [BitVec.toNat_mul, Nat.mod_eq_of_lt fits]
  rw [construct, require_of (by simpa using block), ok_bind,
    require_of (not_or.mpr ⟨nonzero, not_not.mpr sets⟩), ok_bind, require_of (by bv_omega), ok_bind,
    require_of (by bv_omega), ok_bind, floorLog2_eq (by bv_omega) (by omega),
    ok_bind, floorLog2_eq (by bv_omega) (by omega), ok_bind, require_of array]
  exact ⟨_, rfl⟩

variable {maxMasters} in
theorem construct_sound {start : LRU} (isInt : assoc.toNat < 2 ^ 31)
    (built : construct numSets blkSize assoc hitLatency maxMasters = .ok start) : Sound start := by
  obtain ⟨_, _, built⟩ := bind_ok built
  obtain ⟨_, sets, built⟩ := bind_ok built
  obtain ⟨_, ways, built⟩ := bind_ok built
  obtain ⟨_, _, built⟩ := bind_ok built
  obtain ⟨_, _, built⟩ := bind_ok built
  obtain ⟨_, _, built⟩ := bind_ok built
  obtain ⟨_, _, built⟩ := bind_ok built
  have sets := (not_or.mp (require_ok sets)).1
  have ways := require_ok ways
  cases built
  refine ⟨by bv_omega, by bv_omega, isInt, ⟨fun _ _ => .refl _, fun _ _ => ?_⟩, ?_, ?_, ?_, ?_, ?_⟩
  · exact pairwise_of_forall fun _ _ => Nat.le_refl _
  all_goals simp

end Construct

theorem reachable_sound {start s : LRU} (initial : Sound start)
    (reach : ReachableVia (runs start) Allowed s) : Sound s := by
  refine reach.invariant Sound (fun s starts => by cases starts; exact initial) ?_
  intro s a next _ allowed sound step
  obtain ⟨next', performed, kept⟩ := sound.perform allowed
  rw [show s.perform a = .ok next from step] at performed
  cases performed
  exact kept

/-- The tags are exact in every state, and every call succeeds. -/
theorem tags_exact (numSets blkSize assoc hitLatency : BitVec 32) (maxMasters : Nat)
    (block : 4 ≤ blkSize ∧ isPowerOf2 blkSize) (sets : isPowerOf2 numSets) (ways : 0 < assoc)
    (latency : 0 < hitLatency) (fits : numSets.toNat * assoc.toNat < 2 ^ 32)
    (isInt : assoc.toNat < 2 ^ 31) :
    ∃ start, construct numSets blkSize assoc hitLatency maxMasters = .ok start ∧
      ∀ s, ReachableVia (runs start) Allowed s →
        Exact s ∧ ∀ a, s.Allowed a → ∃ next, s.perform a = .ok next := by
  obtain ⟨start, built⟩ := exists_construct maxMasters block sets ways latency fits
  refine ⟨start, built, fun s reach => ?_⟩
  have sound := reachable_sound (construct_sound isInt built) reach
  refine ⟨sound.exact, fun a allowed => ?_⟩
  obtain ⟨next, performed, -⟩ := sound.perform allowed
  exact ⟨next, performed⟩

/-- The addresses 0, 0x80 and 0x100 are all in set 0, which has two blocks. -/
theorem tags_exact_two : ∃ start s, construct 2 64 2 1 1 = .ok start ∧
    ReachableVia (runs start) Allowed s ∧ s.findBlock 0 = some 1 ∧ s.findBlock 0x80 = none ∧
    s.occupancies 0 = 2 ∧ Exact s := by
  have run : ((construct 2 64 2 1 1).toOption.any fun start =>
      (([.insert 0 0, .insert 0x80 0, .access 0, .insert 0x100 0] : List Action).foldlM
        (fun (s : LRU) a => if s.Allowed a then s.perform a else .error .assertion)
        start).toOption.any fun s =>
          s.findBlock 0 = some 1 ∧ s.findBlock 0x80 = none ∧ s.occupancies 0 = 2) = true := by
    decide +kernel
  obtain ⟨start, built, run⟩ := any_toOption run
  obtain ⟨s, reach, checked⟩ := foldlM_check_allowed (· = start) rfl run
  obtain ⟨start', built', exact⟩ :=
    tags_exact 2 64 2 1 1 (by decide) (by decide) (by decide) (by decide) (by decide) (by decide)
  cases built.symm.trans built'
  obtain ⟨hit, missed, occupancy⟩ := of_decide_eq_true checked
  exact ⟨start, s, built, reach, hit, missed, occupancy, (exact s reach).1⟩

/-- The number of blocks is computed in 32 bits. The sets then take blocks outside the array. -/
theorem blocks_overflow : construct 0x10000 64 0x10000 1 1 = .error .outOfBounds := rfl

end LRU
end SynchroTrace.Mem
