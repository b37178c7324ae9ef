import SynchroTrace.Mem.FullyAssociative

/-!
What a fully associative cache finds. No function sets the tag of a block, so it stays 0.
-/

namespace SynchroTrace.Mem
open Function (update update_of_ne)
open Outcome List
open Ruby (MemoryFault isPowerOf2)

namespace FALRU

variable (c : FALRU) (addr : BitVec 64)

def blkAlign : BitVec 64 := addr &&& ~~~(c.blkSize - 1).setWidth 64

def hashLookup : Option Nat := c.tagHash addr

def findBlock : Except MemoryFault (Option Nat) :=
  match c.hashLookup (c.blkAlign addr) with
  | none => return none
  | some blk =>
    if (c.blks blk).isValid then do
      require ((c.blks blk).tag = c.blkAlign addr) .assertion
      return some blk
    else return none

def miss : FALRU :=
  { c with
    accesses := c.accesses + 1
    misses := fun i => c.misses i + if i ≤ c.numCaches then 1 else 0 }

def hit (inCache : BitVec 32) : FALRU :=
  let held i := inCache &&& (1#32 <<< i) ≠ 0#32
  { c with
    accesses := c.accesses + 1
    hits := fun i => c.hits i + if i = c.numCaches ∨ i < c.numCaches ∧ held i then 1 else 0
    misses := fun i => c.misses i + if i < c.numCaches ∧ ¬ held i then 1 else 0 }

/-- The block, its flags, and the cache after the access. The lookup is that of `findBlock`. -/
def accessBlock : Except MemoryFault (Option Nat × BitVec 32 × FALRU) := do
  match ← c.findBlock addr with
  | none => return (none, 0, c.miss)
  | some blk =>
    let inCache := (c.blks blk).inCache
    let c := c.hit inCache
    let c ← if blk ≠ c.head then c.moveToHead blk else .ok c
    return (some blk, inCache, c)

def findVictim : Except MemoryFault (Nat × FALRU) := do
  let blk := c.tail
  require ((c.blks blk).inCache = 0) .assertion
  let c ← c.moveToHead blk
  let erased := update c.tagHash (c.blks blk).tag none
  let c := { c with tagHash := update erased (c.blkAlign addr) (some blk) }
  return (blk, if (c.blks blk).isValid then { c with replacements := c.replacements + 1 }
    else { c with tagsInUse := c.tagsInUse + 1 })

def insertBlock (_addr : BitVec 64) (_blk : Nat) : FALRU := c

def invalidateBlk : Option Nat → FALRU
  | none => c
  | some blk => { c.setBlk blk (fun b => { b with isValid := false }) with
      tagsInUse := c.tagsInUse - 1 }

inductive Action where
  | access (addr : BitVec 64)
  /-- `findVictim` and `insertBlock`, after which the caller marks the block valid. -/
  | insert (addr : BitVec 64)
  | invalidate (blk : Option Nat)
  deriving DecidableEq

/-- A cache, and beside it the blocks that were inserted for block addresses and have been neither
invalidated nor chosen again. -/
structure Run where
  cache : FALRU
  holder : BitVec 64 → Option Nat

namespace Run

def release (r : Run) (blk : Nat) (addr : BitVec 64) : Option Nat :=
  (r.holder addr).filter (· ≠ blk)

def perform (r : Run) : Action → Except MemoryFault Run
  | .access addr => do return { r with cache := (← r.cache.accessBlock addr).2.2 }
  | .insert addr => do
    let (blk, c) ← r.cache.findVictim addr
    let c := (c.insertBlock addr blk).setBlk blk fun b => { b with isValid := true }
    return ⟨c, update (r.release blk) (c.blkAlign addr) (some blk)⟩
  | .invalidate none => return { r with cache := r.cache.invalidateBlk none }
  | .invalidate (some blk) => return ⟨r.cache.invalidateBlk (some blk), r.release blk⟩

def Right (r : Run) : Prop :=
  ∀ addr, r.cache.findBlock addr = .ok (r.holder (r.cache.blkAlign addr))

/-- All along the actions no assertion fails and the cache finds what it holds. -/
def Finds : Run → List Action → Prop
  | r, [] => r.Right
  | r, a :: rest => r.Right ∧ ∃ next, r.perform a = .ok next ∧ Finds next rest

variable {r : Run}

structure Untagged (r : Run) : Prop where
  stack : ∃ order, r.cache.Stack order
  sized : r.cache.Sized
  tags : ∀ b, (r.cache.blks b).tag = 0
  inside : ∀ addr b, r.cache.tagHash addr = some b → b < r.cache.numBlocks

structure OnlyZero (r : Run) : Prop where
  zero : ∀ addr, addr ≠ 0 → r.cache.tagHash addr = none
  held : ∀ addr, r.holder addr = (r.cache.tagHash addr).filter fun b => (r.cache.blks b).isValid

theorem Finds.right {actions : List Action} (finds : r.Finds actions) : r.Right := by
  cases actions with
  | nil => exact finds
  | cons a rest => exact finds.1

/-- No tag can be the block address of anything but block 0. -/
theorem Untagged.align_of_found (untagged : Untagged r) {addr : BitVec 64} {blk : Nat}
    (found : r.cache.findBlock addr = .ok (some blk)) : r.cache.blkAlign addr = 0 := by
  rw [findBlock] at found
  split at found
  · cases found
  · split at found
    · obtain ⟨_, tag, -⟩ := bind_ok found
      rw [← require_ok tag, untagged.tags]
    · cases found

theorem OnlyZero.right (only : OnlyZero r) (untagged : Untagged r) : r.Right := by
  intro addr
  rw [findBlock, hashLookup, only.held]
  cases found : r.cache.tagHash (r.cache.blkAlign addr) with
  | none => rfl
  | some blk =>
    have isZero : r.cache.blkAlign addr = 0 := by
      by_contra nonzero
      rw [only.zero _ nonzero] at found
      cases found
    have tag : (r.cache.blks blk).tag = r.cache.blkAlign addr := by rw [isZero, untagged.tags]
    simp only [Option.filter_some, require_of tag, ok_bind]
    cases (r.cache.blks blk).isValid <;> rfl

structure Performed (r next : Run) (a : Action) : Prop where
  blkSize : next.cache.blkSize = r.cache.blkSize
  untagged : Untagged next
  inserted : ∀ addr, a = .insert addr → ∃ blk, next.holder (r.cache.blkAlign addr) = some blk
  onlyZero : OnlyZero r → (∀ addr, a = .insert addr → r.cache.blkAlign addr = 0) → OnlyZero next

theorem Untagged.keep (untagged : Untagged r) {blks : Nat → FALRUBlk}
    {tagHash holder : BitVec 64 → Option Nat} {tagsInUse : Int} {replacements accesses : Nat}
    {hits misses : Nat → Nat}
    (same : ∀ b, { blks b with isValid := (r.cache.blks b).isValid } = r.cache.blks b)
    (inside : ∀ addr b, tagHash addr = some b → b < r.cache.numBlocks) :
    Untagged ⟨{ r.cache with blks, tagHash, tagsInUse, replacements, accesses, hits, misses },
      holder⟩ := by
  obtain ⟨order, stack⟩ := untagged.stack
  have sized := untagged.sized
  refine ⟨⟨order, stack.perm, stack.head, stack.tail, fun q b found => ?_, fun q b found => ?_,
    fun q b found i => ?_, stack.boundary⟩, ⟨sized.blkSize, sized.numBlocks, sized.numCaches,
    sized.mask⟩, fun b => ?_, inside⟩
  · rw [← stack.prev q b found, ← same b]
  · rw [← stack.next q b found, ← same b]
  · refine .trans ?_ (stack.inCache q b found i)
    rw [← same b]
  · rw [← untagged.tags b, ← same b]

theorem Untagged.exists_moved (untagged : Untagged r) {blk : Nat} (inside : blk < r.cache.numBlocks) :
    ∃ c, r.cache.moveToHead blk = .ok c ∧ Moved r.cache c ∧ Untagged ⟨c, r.holder⟩ := by
  obtain ⟨order, stack⟩ := untagged.stack
  have member : blk ∈ order := stack.perm.mem_iff.mpr (mem_range.mpr inside)
  obtain ⟨p, here⟩ := mem_iff_getElem?.mp member
  obtain ⟨c, ran, stack, moved⟩ := stack.moveToHead untagged.sized here
  refine ⟨c, ran, moved, ⟨_, stack⟩, moved.sized untagged.sized, fun b => ?_, fun addr b => ?_⟩
  · rw [(moved.tags b).1, untagged.tags]
  · rw [moved.tagHash, moved.numBlocks]
    exact untagged.inside addr b

theorem Performed.of_moved {c : FALRU} (moved : Moved r.cache c)
    (untagged : Untagged ⟨c, r.holder⟩) (addr : BitVec 64) :
    Performed r ⟨c, r.holder⟩ (.access addr) := by
  refine ⟨moved.blkSize, untagged, nofun, fun only _ => ⟨fun a nonzero => ?_, fun a => ?_⟩⟩
  · rw [moved.tagHash, only.zero a nonzero]
  · simp only [only.held, moved.tagHash, moved.tags]

variable (untagged : Untagged r)
include untagged

theorem Untagged.lt_of_found {addr : BitVec 64} {blk : Nat}
    (found : r.cache.findBlock addr = .ok (some blk)) : blk < r.cache.numBlocks := by
  rw [findBlock] at found
  split at found
  · cases found
  · rename_i lookup
    split at found
    · obtain ⟨_, -, found⟩ := bind_ok found
      cases found
      exact untagged.inside _ _ lookup
    · cases found

theorem Untagged.exists_access (right : r.Right) (addr : BitVec 64) :
    ∃ next, r.perform (.access addr) = .ok next ∧ Performed r next (.access addr) := by
  have found := right addr
  simp only [perform, accessBlock, found, ok_bind]
  cases held : r.holder (r.cache.blkAlign addr) with
  | none =>
    have missed : Moved r.cache r.cache.miss := ⟨rfl, rfl, rfl, rfl, rfl, fun _ => ⟨rfl, rfl⟩⟩
    exact ⟨_, rfl, .of_moved missed (untagged.keep (fun _ => rfl) untagged.inside) addr⟩
  | some blk =>
    rw [held] at found
    have hits : Moved r.cache (r.cache.hit (r.cache.blks blk).inCache) :=
      ⟨rfl, rfl, rfl, rfl, rfl, fun _ => ⟨rfl, rfl⟩⟩
    have kept : Untagged { r with cache := r.cache.hit (r.cache.blks blk).inCache } :=
      untagged.keep (fun _ => rfl) untagged.inside
    obtain ⟨c, ran, moved, after⟩ := kept.exists_moved (untagged.lt_of_found found)
    dsimp only at ran ⊢
    split
    · rw [ran]
      exact ⟨_, rfl, .of_moved (hits.trans moved) after addr⟩
    · exact ⟨_, rfl, .of_moved hits kept addr⟩

theorem Untagged.exists_insert (addr : BitVec 64) :
    ∃ next, r.perform (.insert addr) = .ok next ∧ Performed r next (.insert addr) := by
  obtain ⟨order, stack⟩ := untagged.stack
  have clear := stack.tail_inCache untagged.sized
  have last : r.cache.tail < r.cache.numBlocks :=
    mem_range.mp (stack.perm.mem_iff.mp (mem_of_getElem? stack.tail))
  obtain ⟨c, ran, moved, after⟩ := untagged.exists_moved last
  have align : c.blkAlign addr = r.cache.blkAlign addr := by rw [blkAlign, moved.blkSize, blkAlign]
  have made : ∃ next, r.perform (.insert addr) = .ok next ∧
      ∃ replacements tagsInUse, next = ⟨{ c with
        blks := update c.blks r.cache.tail { c.blks r.cache.tail with isValid := true }
        tagHash := update (update c.tagHash (c.blks r.cache.tail).tag none)
          (r.cache.blkAlign addr) (some r.cache.tail)
        replacements, tagsInUse },
        update (r.release r.cache.tail) (r.cache.blkAlign addr) (some r.cache.tail)⟩ := by
    simp only [perform, findVictim, require_of clear, ok_bind, ran, insertBlock, ← align]
    split
    · exact ⟨_, rfl, c.replacements + 1, c.tagsInUse, rfl⟩
    · exact ⟨_, rfl, c.replacements, c.tagsInUse + 1, rfl⟩
  obtain ⟨next, ran, replacements, tagsInUse, rfl⟩ := made
  refine ⟨_, ran, moved.blkSize, after.keep (fun b => ?_) fun a b found => ?_,
    fun a isAddr => ?_, fun only aligned => ⟨fun a nonzero => ?_, fun a => ?_⟩⟩
  · by_cases same : b = r.cache.tail <;> simp [same]
  · simp only [Function.update_apply] at found
    split_ifs at found
    · cases found
      exact moved.numBlocks ▸ last
    · exact after.inside a b found
  · cases isAddr
    exact ⟨_, Function.update_self ..⟩
  · simp only [aligned addr rfl, update_of_ne nonzero, moved.tagHash]
    rw [show (c.blks r.cache.tail).tag = 0 from after.tags _, update_of_ne nonzero,
      only.zero a nonzero]
  · simp only [aligned addr rfl]
    by_cases isZero : a = 0
    · simp [isZero, Option.filter]
    · simp only [update_of_ne isZero, release, only.held, only.zero a isZero, moved.tagHash,
        show (c.blks r.cache.tail).tag = 0 from after.tags _]
      rfl

theorem Untagged.exists_invalidate (blk : Option Nat) :
    ∃ next, r.perform (.invalidate blk) = .ok next ∧ Performed r next (.invalidate blk) := by
  cases blk with
  | none => exact ⟨r, rfl, rfl, untagged, nofun, fun only _ => only⟩
  | some blk =>
    refine ⟨_, rfl, rfl, untagged.keep (fun b => ?_) untagged.inside, nofun,
      fun only _ => ⟨only.zero, fun a => ?_⟩⟩
    · by_cases same : b = blk <;> simp [same, setBlk]
    · simp only [release, only.held, invalidateBlk, setBlk]
      cases r.cache.tagHash a with
      | none => rfl
      | some b =>
        by_cases same : b = blk
        · subst same
          cases live : (r.cache.blks b).isValid <;> simp [live, Option.filter]
        · cases live : (r.cache.blks b).isValid <;> simp [same, live, Option.filter]

theorem Untagged.exists_perform (right : r.Right) :
    ∀ a, ∃ next, r.perform a = .ok next ∧ Performed r next a
  | .access addr => untagged.exists_access right addr
  | .insert addr => untagged.exists_insert addr
  | .invalidate blk => untagged.exists_invalidate blk

theorem Untagged.finds (only : OnlyZero r) {actions : List Action}
    (zero : ∀ addr, .insert addr ∈ actions → r.cache.blkAlign addr = 0) : r.Finds actions := by
  have right := only.right untagged
  induction actions generalizing r with
  | nil => exact right
  | cons a rest ih =>
    obtain ⟨next, ran, performed⟩ := untagged.exists_perform right a
    have only := performed.onlyZero only fun addr isInsert => zero addr (isInsert ▸ mem_cons_self)
    refine ⟨right, next, ran, ih performed.untagged only ?_ (only.right performed.untagged)⟩
    intro addr later
    rw [blkAlign, performed.blkSize]
    exact zero addr (mem_cons_of_mem _ later)

theorem Finds.zero {actions : List Action} (finds : r.Finds actions) :
    ∀ addr, .insert addr ∈ actions → r.cache.blkAlign addr = 0 := by
  induction actions generalizing r with
  | nil => exact nofun
  | cons a rest ih =>
    obtain ⟨right, next, ran, finds⟩ := finds
    obtain ⟨next', ran', performed⟩ := untagged.exists_perform right a
    cases ran.symm.trans ran'
    intro addr member
    have align : next.cache.blkAlign addr = r.cache.blkAlign addr := by
      rw [blkAlign, performed.blkSize, blkAlign]
    rw [← align]
    obtain isFirst | later := mem_cons.mp member
    · obtain ⟨blk, held⟩ := performed.inserted addr isFirst.symm
      have found := finds.right addr
      rw [align, held] at found
      exact performed.untagged.align_of_found found
    · exact ih performed.untagged finds addr later

end Run

/-- In a new cache of any size, the assertions hold and the cache finds what it holds if and only if
nothing but block 0 is ever inserted. -/
theorem finds_iff_block_zero (blkSize size hitLatency : BitVec 32) (block : isPowerOf2 blkSize)
    (cache : isPowerOf2 size) (latency : 0 < hitLatency) (small : blkSize.toNat ≤ 2 ^ 16)
    (least : 2 ^ 17 ≤ size.toNat) :
    ∃ start, construct blkSize size hitLatency = .ok start ∧
      ∀ actions, Run.Finds ⟨start, fun _ => none⟩ actions ↔
        ∀ addr, .insert addr ∈ actions → start.blkAlign addr = 0 := by
  obtain ⟨start, built, sized, stack, table, fresh⟩ :=
    exists_construct block cache latency small least
  have untagged : Run.Untagged ⟨start, fun _ => none⟩ := by
    refine ⟨⟨_, stack⟩, sized, fun b => (fresh b).1, fun addr b found => ?_⟩
    rw [table] at found
    cases found
  have only : Run.OnlyZero ⟨start, fun _ => none⟩ := by
    refine ⟨fun addr _ => ?_, fun addr => ?_⟩ <;> simp [table]
  exact ⟨start, built, fun actions => ⟨fun finds => finds.zero untagged, untagged.finds only⟩⟩

/-- Addresses 0x20 and 0xffff are in block 0, 0x10000 is in block 1. -/
theorem finds_iff_block_zero_four : ∃ start, construct 0x10000 0x40000 1 = .ok start ∧
    Run.Finds ⟨start, fun _ => none⟩ [.insert 0x20, .access 0xffff] ∧
    ¬ Run.Finds ⟨start, fun _ => none⟩ [.insert 0x20, .insert 0x10000] := by
  obtain ⟨start, built, finds⟩ :=
    finds_iff_block_zero 0x10000 0x40000 1 (by decide) (by decide) (by decide) (by decide) (by decide)
  have align (addr) : start.blkAlign addr = addr &&& ~~~0xffff := by
    cases built
    rfl
  refine ⟨start, built, (finds _).mpr ?_, fun found => ?_⟩
  · simp [align]
  · have := (finds _).mp found 0x10000 (by simp)
    simp [align] at this

/-- Block 1 is inserted and marked valid. The search for it fails the assertion on the tag. -/
theorem block_one_not_found : ∃ start r, construct 0x10000 0x40000 1 = .ok start ∧
    start.findBlock 0x10000 = .ok none ∧
    Run.perform ⟨start, fun _ => none⟩ (.insert 0x10000) = .ok r ∧
    r.holder (r.cache.blkAlign 0x10000) = some 3 ∧
    r.cache.findBlock 0x10000 = .error .assertion := by
  have run : ((construct 0x10000 0x40000 1).toOption.any fun start =>
      (Run.perform ⟨start, fun _ => none⟩ (.insert 0x10000)).toOption.any fun r =>
        start.findBlock 0x10000 = .ok none ∧ r.holder (r.cache.blkAlign 0x10000) = some 3 ∧
          r.cache.findBlock 0x10000 = .error .assertion) = true := by decide +kernel
  obtain ⟨start, built, run⟩ := any_toOption run
  obtain ⟨r, inserted, run⟩ := any_toOption run
  obtain ⟨none, held, fails⟩ := of_decide_eq_true run
  exact ⟨start, r, built, none, inserted, held, fails⟩

end FALRU
end SynchroTrace.Mem
