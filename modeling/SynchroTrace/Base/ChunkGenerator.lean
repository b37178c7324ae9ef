import SynchroTrace.Ruby.Address

/-!
`ChunkGenerator` cuts a region at the multiples of a power of two. `roundUp` takes the chunk size
as an `int`, where `2 ^ 31` is negative.
-/

namespace SynchroTrace.Base

open Outcome BitFields BitVec
open Ruby (isPowerOf2 isPowerOf2_pow MemoryFault)

/-- The alignment is an `int`, which is extended by its sign. -/
def roundUp (val : BitVec 64) (align : BitVec 32) : BitVec 64 :=
  let mask := align.signExtend 64 - 1
  (val + mask) &&& ~~~mask

structure ChunkGenerator where
  curAddr : BitVec 64
  nextAddr : BitVec 64
  curSize : BitVec 32
  sizeLeft : BitVec 32
  startAddr : BitVec 64
  chunkSize : BitVec 32

structure Chunk where
  addr : BitVec 64
  size : BitVec 32
  complete : BitVec 32
deriving DecidableEq

namespace ChunkGenerator

def firstEnd (startAddr : BitVec 64) (totalSize chunkSize : BitVec 32) : BitVec 64 :=
  if chunkSize = 0 then startAddr + totalSize.setWidth 64
  else
    let nextAddr := roundUp startAddr chunkSize
    if startAddr = nextAddr then nextAddr + chunkSize.setWidth 64 else nextAddr

def construct (startAddr : BitVec 64) (totalSize chunkSize : BitVec 32) :
    Except MemoryFault ChunkGenerator := do
  require (chunkSize = 0 ∨ isPowerOf2 chunkSize = true) .assertion
  let nextAddr := firstEnd startAddr totalSize chunkSize
  let leftInChunk := (nextAddr - startAddr).setWidth 32
  let curSize := if leftInChunk < totalSize then leftInChunk else totalSize
  return {
    curAddr := startAddr
    nextAddr, curSize, startAddr, chunkSize
    sizeLeft := totalSize - curSize }

variable (gen : ChunkGenerator)

def complete : BitVec 32 := (gen.curAddr - gen.startAddr).setWidth 32

def done : Bool := gen.curSize = 0

def next : Bool × ChunkGenerator :=
  if gen.sizeLeft = 0 then (false, { gen with curSize := 0 })
  else
    let curSize := if gen.chunkSize < gen.sizeLeft then gen.chunkSize else gen.sizeLeft
    (true, { gen with
      curAddr := gen.nextAddr
      curSize
      sizeLeft := gen.sizeLeft - curSize
      nextAddr := gen.nextAddr + curSize.setWidth 64 })

/-- The chunks that a loop visits, if it ends in the given number of rounds. -/
def visit : Nat → ChunkGenerator → Option (List Chunk)
  | 0, gen => if gen.done then some [] else none
  | rounds + 1, gen =>
    if gen.done then some []
    else (visit rounds gen.next.2).map (⟨gen.curAddr, gen.curSize, gen.complete⟩ :: ·)

/-- From `complete` bytes after `start` on, the chunks follow each other up to `size` bytes, each in
one aligned block. -/
def Tiles (start chunkSize : Nat) : Nat → List Chunk → Nat → Prop
  | complete, [], size => complete = size
  | complete, chunk :: chunks, size =>
    chunk.addr.toNat = start + complete ∧ chunk.complete.toNat = complete ∧ 0 < chunk.size.toNat ∧
      (chunkSize ≠ 0 →
        (start + complete) / chunkSize = (start + complete + chunk.size.toNat - 1) / chunkSize) ∧
      Tiles start chunkSize (complete + chunk.size.toNat) chunks size

section Rounding

theorem not_mask (k : Nat) (inside : k < 64) (mask : BitVec 64) (eq : mask.toNat = 2 ^ k - 1) :
    ~~~mask = BitVec.allOnes 64 <<< k := by
  apply eq_of_getLsbD_eq
  intro i below
  rw [getLsbD_not, ← testBit_toNat, eq, Nat.testBit_two_pow_sub_one,
    getLsbD_shiftLeft, getLsbD_allOnes]
  by_cases low : i < k
  · simp [low]
  · simp [low, below]
    omega

theorem mul_add_div_of_lt {c q r : Nat} (less : r < c) : (c * q + r) / c = q := by
  rw [Nat.mul_add_div (Nat.zero_lt_of_lt less), Nat.div_eq_of_lt less, Nat.add_zero]

theorem roundUp_toNat (val : BitVec 64) {align : BitVec 32} {k : Nat} (small : k < 31)
    (power : align.toNat = 2 ^ k) :
    (roundUp val align).toNat = 2 ^ k * ((val.toNat + (2 ^ k - 1)) / 2 ^ k) % 2 ^ 64 := by
  have below : 2 ^ k ≤ 2 ^ 30 := Nat.pow_le_pow_right (by decide) (by omega)
  have positive := Nat.two_pow_pos k
  have extended : (align.signExtend 64).toNat = 2 ^ k := by
    rw [signExtend_eq_setWidth_of_msb_false, toNat_setWidth, power]
    · omega
    · rw [msb_eq_false_iff_two_mul_lt, power]
      omega
  have mask : (align.signExtend 64 - 1).toNat = 2 ^ k - 1 := by
    rw [toNat_sub, extended, show (1 : BitVec 64).toNat = 1 from rfl]
    omega
  obtain ⟨n, whole⟩ : ∃ n, 2 ^ 64 = 2 ^ k * n := Nat.pow_dvd_pow 2 (by omega)
  rw [roundUp, not_mask k (by omega) _ mask, toNat_and_high, toNat_add, mask, whole,
    Nat.mod_mul_right_div_self, Nat.mul_comm, Nat.mul_mod_mul_left]

theorem firstEnd_toNat (start : BitVec 64) (size : BitVec 32) {chunk : BitVec 32} {k : Nat}
    (small : k < 31) (power : chunk.toNat = 2 ^ k) :
    (firstEnd start size chunk).toNat = (start.toNat + (2 ^ k - start.toNat % 2 ^ k)) % 2 ^ 64 := by
  have positive := Nat.two_pow_pos k
  have nonzero : chunk ≠ 0 := by
    rintro rfl
    exact positive.ne power
  have divides : 2 ^ k ∣ 2 ^ 64 := Nat.pow_dvd_pow 2 (by omega)
  have rounded := roundUp_toNat start small power
  have inside := start.isLt
  have split := Nat.div_add_mod start.toNat (2 ^ k)
  have less := Nat.mod_lt start.toNat positive
  rw [firstEnd, if_neg nonzero]
  dsimp only
  by_cases aligned : start.toNat % 2 ^ k = 0
  · have same : start = roundUp start chunk := by
      refine eq_of_toNat_eq ?_
      have quotient : (start.toNat + (2 ^ k - 1)) / 2 ^ k = start.toNat / 2 ^ k := by
        rw [show start.toNat + (2 ^ k - 1) = 2 ^ k * (start.toNat / 2 ^ k) + (2 ^ k - 1) by omega,
          mul_add_div_of_lt (by omega)]
      rw [rounded, quotient]
      omega
    rw [if_pos same, ← same, toNat_add, toNat_setWidth, power, aligned, Nat.sub_zero,
      Nat.mod_eq_of_lt (Nat.pow_lt_pow_right (by decide) (by omega))]
  · have quotient : (start.toNat + (2 ^ k - 1)) / 2 ^ k = start.toNat / 2 ^ k + 1 := by
      have sum : start.toNat + (2 ^ k - 1) =
          2 ^ k * (start.toNat / 2 ^ k + 1) + (start.toNat % 2 ^ k - 1) := by
        rw [Nat.mul_succ]
        omega
      rw [sum, mul_add_div_of_lt (by omega)]
    have other : start ≠ roundUp start chunk := by
      intro same
      refine aligned (Nat.mod_eq_zero_of_dvd ?_)
      rw [same, rounded]
      exact (Nat.dvd_mod_iff divides).mpr (Nat.dvd_mul_right ..)
    rw [if_neg other, rounded, quotient, Nat.mul_succ]
    congr 1
    omega

/-- The alignment `2 ^ 31` is negative as an `int`: of the sum, only one bit is kept. -/
theorem roundUp_top (val : BitVec 64) :
    (roundUp val 0x80000000#32).toNat = (val.toNat + 2 ^ 64 - 2 ^ 31 - 1) / 2 ^ 31 % 2 * 2 ^ 31 := by
  have kept : (~~~((0x80000000#32).signExtend 64 - 1)).toNat = (2 ^ 1 - 1) * 2 ^ 31 := by decide
  have mask : ((0x80000000#32).signExtend 64 - 1).toNat = 2 ^ 64 - 2 ^ 31 - 1 := by decide
  rw [roundUp, toNat_and, kept, and_field, toNat_add, mask]
  omega

theorem firstEnd_top (start : BitVec 64) (size : BitVec 32) :
    (firstEnd start size 0x80000000#32).toNat =
      if start.toNat ≤ 2 ^ 31 then start.toNat + (2 ^ 31 - start.toNat % 2 ^ 31)
      else (start.toNat + 2 ^ 64 - 2 ^ 31 - 1) / 2 ^ 31 % 2 * 2 ^ 31 := by
  have rounded := roundUp_top start
  have inside := start.isLt
  rw [firstEnd, if_neg (by decide)]
  dsimp only
  split_ifs with same low low
  · rw [toNat_add, ← same, toNat_setWidth, BitVec.toNat_ofNat]
    rw [← same] at rounded
    omega
  · rw [← same] at rounded
    omega
  · have apart : start.toNat ≠ (roundUp start 0x80000000#32).toNat := fun eq =>
      same (eq_of_toNat_eq eq)
    omega
  · exact rounded

end Rounding

section Loop
variable {gen : ChunkGenerator} {size complete rounds : Nat} {chunks : List Chunk}

theorem next_size (left : gen.sizeLeft ≠ 0) : gen.next.2.curSize.toNat =
    min gen.chunkSize.toNat gen.sizeLeft.toNat := by
  rw [next, if_neg left]
  dsimp only
  split_ifs with less
  · exact (Nat.min_eq_left (lt_def.mp less).le).symm
  · exact (Nat.min_eq_right (Nat.le_of_not_lt fun h => less (lt_def.mpr h))).symm

theorem next_left (left : gen.sizeLeft ≠ 0) : gen.next.2.sizeLeft.toNat =
    gen.sizeLeft.toNat - min gen.chunkSize.toNat gen.sizeLeft.toNat := by
  have size := next_size left
  rw [next, if_neg left] at size ⊢
  dsimp only at size ⊢
  rw [toNat_sub_of_le, size]
  rw [le_def, size]
  exact Nat.min_le_right ..

/-- The loop ends: each chunk but an unbounded one takes some of what is left. -/
theorem exists_visit (progress : gen.chunkSize = 0 → gen.sizeLeft = 0) :
    ∃ chunks, ∀ rounds, gen.curSize.toNat + gen.sizeLeft.toNat ≤ rounds →
      gen.visit rounds = some chunks := by
  generalize bound : gen.curSize.toNat + gen.sizeLeft.toNat = n
  induction n using Nat.strong_induction_on generalizing gen with
  | _ n ih =>
    by_cases done : gen.curSize = 0
    · refine ⟨[], fun rounds _ => ?_⟩
      cases rounds <;> simp [visit, ChunkGenerator.done, done]
    · have positive : gen.curSize.toNat ≠ 0 := fun zero => done (eq_of_toNat_eq zero)
      obtain ⟨less, still⟩ : gen.next.2.curSize.toNat + gen.next.2.sizeLeft.toNat < n ∧
            (gen.next.2.chunkSize = 0 → gen.next.2.sizeLeft = 0) := by
        by_cases last : gen.sizeLeft = 0
        · rw [next, if_pos last]
          refine ⟨?_, fun _ => last⟩
          rw [last] at bound ⊢
          exact bound ▸ Nat.pos_of_ne_zero positive
        · refine ⟨?_, fun zero => absurd (progress ?_) last⟩
          · rw [next_size last, next_left last]
            omega
          · rwa [next, if_neg last] at zero
      obtain ⟨chunks, ends⟩ := ih _ less still rfl
      refine ⟨⟨gen.curAddr, gen.curSize, gen.complete⟩ :: chunks, fun rounds enough => ?_⟩
      obtain ⟨rounds, rfl⟩ : ∃ r, rounds = r + 1 := ⟨rounds - 1, by omega⟩
      rw [visit, if_neg (by simpa [ChunkGenerator.done] using done), ends rounds (by omega)]
      rfl

/-- The generator is at the chunk after the first `complete` bytes of the region. -/
structure Chunked (gen : ChunkGenerator) (size complete : Nat) : Prop where
  addr : gen.curAddr.toNat = gen.startAddr.toNat + complete
  left : complete + gen.curSize.toNat + gen.sizeLeft.toNat = size
  inside : gen.startAddr.toNat + size ≤ 2 ^ 64
  small : size < 2 ^ 32
  block : gen.chunkSize.toNat ≠ 0 →
    (gen.startAddr.toNat + complete) % gen.chunkSize.toNat + gen.curSize.toNat ≤ gen.chunkSize.toNat
  next : gen.sizeLeft ≠ 0 → gen.chunkSize.toNat ≠ 0 ∧ gen.curSize.toNat ≠ 0 ∧
    gen.chunkSize.toNat ∣ gen.nextAddr.toNat ∧
    gen.nextAddr.toNat = gen.startAddr.toNat + complete + gen.curSize.toNat

theorem Chunked.advance (chunked : gen.Chunked size complete) (left : gen.sizeLeft ≠ 0) :
    gen.next.2.Chunked size (complete + gen.curSize.toNat) := by
  obtain ⟨positive, -, aligned, nextAddr⟩ := chunked.next left
  have newSize := next_size left
  have newLeft := next_left left
  have some : gen.sizeLeft.toNat ≠ 0 := fun zero => left (eq_of_toNat_eq zero)
  have total := chunked.left
  have inside := chunked.inside
  have same : gen.next.2.startAddr = gen.startAddr ∧ gen.next.2.chunkSize = gen.chunkSize ∧
      gen.next.2.curAddr = gen.nextAddr ∧
      gen.next.2.nextAddr = gen.nextAddr + gen.next.2.curSize.setWidth 64 := by
    rw [ChunkGenerator.next, if_neg left]
    exact ⟨rfl, rfl, rfl, rfl⟩
  obtain ⟨start, chunk, addr, after⟩ := same
  refine ⟨?_, ?_, ?_, chunked.small, ?_, ?_⟩
  · rw [addr, start, nextAddr, Nat.add_assoc]
  · omega
  · rwa [start]
  · intro _
    rw [start, chunk, newSize, ← Nat.add_assoc, ← nextAddr, Nat.mod_eq_zero_of_dvd aligned]
    omega
  · intro more
    have more : gen.next.2.sizeLeft.toNat ≠ 0 := fun zero => more (eq_of_toNat_eq zero)
    have full : gen.next.2.curSize.toNat = gen.chunkSize.toNat := by omega
    have sum : gen.next.2.nextAddr.toNat = gen.nextAddr.toNat + gen.next.2.curSize.toNat := by
      rw [after, toNat_add, toNat_setWidth]
      omega
    rw [chunk, start]
    refine ⟨positive, by omega, ?_, by omega⟩
    rw [sum, full]
    exact Nat.dvd_add aligned (Nat.dvd_refl _)

theorem Chunked.tiles (chunked : gen.Chunked size complete)
    (empty : gen.curSize = 0 → gen.sizeLeft = 0) (visited : gen.visit rounds = some chunks) :
    Tiles gen.startAddr.toNat gen.chunkSize.toNat complete chunks size := by
  induction rounds generalizing gen complete chunks with
  | zero =>
    rw [visit] at visited
    split_ifs at visited with done
    cases visited
    have zero : gen.curSize = 0 := of_decide_eq_true done
    have total := chunked.left
    rw [empty zero, zero] at total
    exact total
  | succ rounds ih =>
    rw [visit] at visited
    split_ifs at visited with done
    · cases visited
      have zero : gen.curSize = 0 := of_decide_eq_true done
      have total := chunked.left
      rw [empty zero, zero] at total
      exact total
    · obtain ⟨rest, later, rfl⟩ := Option.map_eq_some_iff.mp visited
      have some : gen.curSize ≠ 0 := fun zero => done (decide_eq_true zero)
      have positive : gen.curSize.toNat ≠ 0 := fun zero => some (eq_of_toNat_eq zero)
      have total := chunked.left
      have addr := chunked.addr
      refine ⟨addr, ?_, Nat.pos_of_ne_zero positive, fun chunk => ?_, ?_⟩
      · have inside := chunked.inside
        have small := chunked.small
        simp only [ChunkGenerator.complete, toNat_setWidth, toNat_sub]
        omega
      · have block := chunked.block chunk
        dsimp only
        have split := Nat.div_add_mod (gen.startAddr.toNat + complete) gen.chunkSize.toNat
        rw [show gen.startAddr.toNat + complete + gen.curSize.toNat - 1 =
          gen.chunkSize.toNat * ((gen.startAddr.toNat + complete) / gen.chunkSize.toNat) +
            ((gen.startAddr.toNat + complete) % gen.chunkSize.toNat + gen.curSize.toNat - 1) by
            omega, mul_add_div_of_lt (by omega)]
      · by_cases last : gen.sizeLeft = 0
        · have stopped : gen.next.2 = { gen with curSize := 0 } := by
            rw [ChunkGenerator.next, if_pos last]
          have none : rest = [] := by
            rw [stopped] at later
            cases rounds <;> simpa [visit, ChunkGenerator.done] using later.symm
          rw [last] at total
          rw [none]
          exact total
        · have advanced := chunked.advance last
          have same : gen.next.2.startAddr = gen.startAddr ∧
              gen.next.2.chunkSize = gen.chunkSize := by
            rw [ChunkGenerator.next, if_neg last]
            exact ⟨rfl, rfl⟩
          rw [← same.1, ← same.2]
          refine ih advanced (fun zero => ?_) later
          have size := next_size last
          have chunk := (chunked.next last).1
          have left : gen.sizeLeft.toNat ≠ 0 := fun zero => last (eq_of_toNat_eq zero)
          rw [zero] at size
          have : (0 : BitVec 32).toNat = 0 := rfl
          omega

end Loop

section First
variable {start : BitVec 64} {size chunk : BitVec 32}

def first (start : BitVec 64) (size chunk : BitVec 32) (nextAddr : BitVec 64) : ChunkGenerator :=
  let leftInChunk := (nextAddr - start).setWidth 32
  let curSize := if leftInChunk < size then leftInChunk else size
  ⟨start, nextAddr, curSize, size - curSize, start, chunk⟩

theorem construct_eq (accepted : chunk = 0 ∨ isPowerOf2 chunk = true) :
    construct start size chunk = .ok (first start size chunk (firstEnd start size chunk)) := by
  rw [construct, require_of accepted]
  rfl

variable (size chunk) in
theorem first_sizes {nextAddr : BitVec 64} {left : Nat}
    (eq : ((nextAddr - start).setWidth 32).toNat = left) :
    (first start size chunk nextAddr).curSize.toNat = min left size.toNat ∧
      (first start size chunk nextAddr).sizeLeft.toNat = size.toNat - min left size.toNat := by
  have cur : (first start size chunk nextAddr).curSize.toNat = min left size.toNat := by
    simp only [first]
    split_ifs with less
    · rw [lt_def, eq] at less
      rw [eq, Nat.min_eq_left less.le]
    · rw [lt_def, eq] at less
      rw [Nat.min_eq_right (Nat.le_of_not_lt less)]
  refine ⟨cur, ?_⟩
  simp only [first] at cur ⊢
  rw [toNat_sub_of_le, cur]
  rw [le_def, cur]
  exact Nat.min_le_right ..

theorem sub_setWidth {nextAddr : BitVec 64} {d : Nat} (small : d < 2 ^ 32)
    (eq : nextAddr.toNat = (start.toNat + d) % 2 ^ 64) :
    ((nextAddr - start).setWidth 32).toNat = d := by
  have := start.isLt
  rw [toNat_setWidth, toNat_sub, eq]
  omega

theorem chunked_first (inside : start.toNat + size.toNat ≤ 2 ^ 64) (nonzero : chunk.toNat ≠ 0)
    (small : chunk.toNat ≤ 2 ^ 31) {nextAddr : BitVec 64}
    (eq : nextAddr.toNat = (start.toNat + (chunk.toNat - start.toNat % chunk.toNat)) % 2 ^ 64) :
    (first start size chunk nextAddr).Chunked size.toNat 0 ∧
      ((first start size chunk nextAddr).curSize = 0 →
        (first start size chunk nextAddr).sizeLeft = 0) := by
  have less := Nat.mod_lt start.toNat (Nat.pos_of_ne_zero nonzero)
  have split := Nat.div_add_mod start.toNat chunk.toNat
  obtain ⟨cur, left⟩ := first_sizes size chunk (sub_setWidth (by omega) eq)
  refine ⟨⟨rfl, ?_, inside, size.isLt, fun _ => ?_, fun more => ?_⟩, fun zero => ?_⟩
  · omega
  · rw [cur]
    exact Nat.le_trans (Nat.add_le_add_left (Nat.min_le_left ..) _) (Nat.add_sub_of_le less.le).le
  · have more : (first start size chunk nextAddr).sizeLeft.toNat ≠ 0 := fun zero =>
      more (eq_of_toNat_eq zero)
    have next : nextAddr.toNat = start.toNat + (chunk.toNat - start.toNat % chunk.toNat) := by
      omega
    refine ⟨nonzero, by omega, ?_, ?_⟩
    · refine ⟨start.toNat / chunk.toNat + 1, next.trans ?_⟩
      show _ = chunk.toNat * _
      rw [Nat.mul_succ]
      omega
    · rw [cur]
      refine next.trans ?_
      show _ = start.toNat + 0 + _
      omega
  · rw [zero] at cur
    have : (0 : BitVec 32).toNat = 0 := rfl
    exact eq_of_toNat_eq (left.trans (by omega))

theorem chunked_whole (inside : start.toNat + size.toNat ≤ 2 ^ 64) {nextAddr : BitVec 64} {d : Nat}
    (eq : ((nextAddr - start).setWidth 32).toNat = d) (fits : size.toNat ≤ d)
    (block : chunk.toNat ≠ 0 → start.toNat % chunk.toNat + size.toNat ≤ chunk.toNat) :
    (first start size chunk nextAddr).Chunked size.toNat 0 ∧
      (first start size chunk nextAddr).sizeLeft = 0 := by
  obtain ⟨cur, left⟩ := first_sizes size chunk eq
  rw [Nat.min_eq_right fits] at cur left
  have none : (first start size chunk nextAddr).sizeLeft = 0 :=
    eq_of_toNat_eq (left.trans (Nat.sub_self _))
  refine ⟨⟨rfl, by omega, inside, size.isLt, fun nonzero => ?_, fun more => absurd none more⟩, none⟩
  rw [cur]
  exact block nonzero

theorem not_tiles {gen : ChunkGenerator} {rounds size : Nat} {chunks : List Chunk}
    (visited : gen.visit rounds = some chunks) (more : gen.sizeLeft ≠ 0)
    (short : gen.curSize.toNat ≠ size)
    (astray : gen.nextAddr.toNat ≠ gen.startAddr.toNat + gen.curSize.toNat)
    (left : size ≠ 0) : ¬ Tiles gen.startAddr.toNat gen.chunkSize.toNat 0 chunks size := by
  intro tiles
  cases rounds with
  | zero =>
    rw [visit] at visited
    split_ifs at visited
    cases visited
    exact left tiles.symm
  | succ rounds =>
    rw [visit] at visited
    split_ifs at visited
    · cases visited
      exact left tiles.symm
    · obtain ⟨rest, later, rfl⟩ := Option.map_eq_some_iff.mp visited
      obtain ⟨-, -, -, -, tiles⟩ := tiles
      dsimp only at tiles
      rw [Nat.zero_add] at tiles
      have addr : gen.next.2.curAddr = gen.nextAddr := by rw [next, if_neg more]
      cases rest with
      | nil => exact short tiles
      | cons second rest =>
        have here : second.addr = gen.nextAddr := by
          cases rounds with
          | zero =>
            rw [visit] at later
            split_ifs at later
            cases later
          | succ rounds =>
            rw [visit] at later
            split_ifs at later
            · cases later
            · obtain ⟨_, _, eq⟩ := Option.map_eq_some_iff.mp later
              cases eq
              exact addr
        exact astray (here ▸ tiles.1)

end First

/-- The loop always ends. Its chunks tile the region, unless the chunk size is `2 ^ 31` and the
region starts above that and reaches past the next multiple of it. -/
theorem chunks_tile_iff (start : BitVec 64) (size chunk : BitVec 32)
    (accepted : chunk = 0 ∨ isPowerOf2 chunk = true) (inside : start.toNat + size.toNat ≤ 2 ^ 64) :
    ∃ gen chunks, construct start size chunk = .ok gen ∧
      (∀ rounds, size.toNat ≤ rounds → gen.visit rounds = some chunks) ∧
      (Tiles start.toNat chunk.toNat 0 chunks size.toNat ↔
        (chunk.toNat = 2 ^ 31 → start.toNat ≤ 2 ^ 31 ∨
          size.toNat ≤ (2 ^ 31 - start.toNat % 2 ^ 31) % 2 ^ 31)) := by
  have sizes := first_sizes size chunk
    (rfl : ((firstEnd start size chunk - start).setWidth 32).toNat = _)
  have total : (first start size chunk (firstEnd start size chunk)).curSize.toNat +
      (first start size chunk (firstEnd start size chunk)).sizeLeft.toNat = size.toNat := by omega
  by_cases zero : chunk = 0
  · subst zero
    have next : firstEnd start size 0 = start + size.setWidth 64 := if_pos rfl
    have left : ((firstEnd start size 0 - start).setWidth 32).toNat = size.toNat := by
      refine sub_setWidth size.isLt ?_
      rw [next, toNat_add, toNat_setWidth]
      omega
    have whole : (first start size 0 _).Chunked size.toNat 0 ∧ _ :=
      chunked_whole inside left (Nat.le_refl _) (absurd rfl)
    obtain ⟨chunks, ends⟩ := exists_visit fun _ => whole.2
    rw [total] at ends
    refine ⟨_, chunks, construct_eq accepted, ends, iff_of_true ?_ nofun⟩
    exact whole.1.tiles (fun _ => whole.2) (ends _ (Nat.le_refl _))
  · obtain ⟨k, power⟩ := isPowerOf2_pow (accepted.resolve_left zero)
    have nonzero : chunk.toNat ≠ 0 := fun eq => zero (eq_of_toNat_eq eq)
    obtain ⟨chunks, ends⟩ := exists_visit
      fun eq : (first start size chunk (firstEnd start size chunk)).chunkSize = 0 => absurd eq zero
    rw [total] at ends
    refine ⟨_, chunks, construct_eq accepted, ends, ?_⟩
    have last := ends _ (Nat.le_refl _)
    have below : k < 32 := (Nat.pow_lt_pow_iff_right (by decide)).mp (power ▸ chunk.isLt)
    by_cases top : k = 31
    · subst top
      have chunkEq : chunk = 0x80000000#32 := eq_of_toNat_eq power
      have next := firstEnd_top start size
      have := start.isLt
      rw [← chunkEq] at next
      by_cases low : start.toNat ≤ 2 ^ 31
      · rw [if_pos low] at next
        have next : (firstEnd start size chunk).toNat =
            (start.toNat + (chunk.toNat - start.toNat % chunk.toNat)) % 2 ^ 64 := by
          rw [power]
          omega
        have chunked := chunked_first inside nonzero power.le next
        exact iff_of_true (chunked.1.tiles chunked.2 last) fun _ => .inl low
      · rw [if_neg low] at next
        have left : ((firstEnd start size chunk - start).setWidth 32).toNat =
            (2 ^ 31 - start.toNat % 2 ^ 31) % 2 ^ 31 := by
          rw [toNat_setWidth, toNat_sub, next]
          omega
        by_cases fits : size.toNat ≤ (2 ^ 31 - start.toNat % 2 ^ 31) % 2 ^ 31
        · have whole := chunked_whole inside left fits fun _ => by rw [power]; omega
          exact iff_of_true (whole.1.tiles (fun _ => whole.2) last) fun _ => .inr fits
        · obtain ⟨cur, rest⟩ := first_sizes size chunk left
          refine iff_of_false (not_tiles last ?_ (by omega) ?_ (by omega)) fun fine => ?_
          · intro none
            rw [none] at rest
            have : (0 : BitVec 32).toNat = 0 := rfl
            omega
          · have astray : (firstEnd start size chunk).toNat ≠ start.toNat + min
              ((2 ^ 31 - start.toNat % 2 ^ 31) % 2 ^ 31) size.toNat := by omega
            rwa [← cur] at astray
          · exact (fine power).elim low fits
    · have small : 2 ^ k ≤ 2 ^ 30 := Nat.pow_le_pow_right (by decide) (by omega)
      have chunked := chunked_first inside nonzero (by omega)
        (by rw [power]; exact firstEnd_toNat start size (by omega) power)
      exact iff_of_true (chunked.1.tiles chunked.2 last) fun eq => by omega

/-- A region that crosses a block boundary at the end of the address space. -/
theorem chunks_tile_iff_end : ∃ gen chunks, construct 0xfffffffffffffffd#64 3#32 2#32 = .ok gen ∧
      (∀ rounds, 3 ≤ rounds → gen.visit rounds = some chunks) ∧
      Tiles 0xfffffffffffffffd 2 0 chunks 3 := by
  obtain ⟨gen, chunks, built, ends, tiles⟩ :=
    chunks_tile_iff 0xfffffffffffffffd#64 3#32 2#32 (by decide) (by decide)
  exact ⟨gen, chunks, built, ends, tiles.mpr (by decide)⟩

/-- A chunk size that the constructor accepts, with which a byte is not visited. -/
theorem top_chunk_skips : ∃ gen, construct 0x100000000#64 1#32 0x80000000#32 = .ok gen ∧
    (∀ rounds, gen.visit rounds = some []) ∧ ¬ Tiles 0x100000000 0x80000000 0 [] 1 := by
  refine ⟨_, construct_eq (by decide), fun rounds => ?_, by simp [Tiles]⟩
  have done : done (first 0x100000000#64 1#32 0x80000000#32
      (firstEnd 0x100000000#64 1#32 0x80000000#32)) = true := by decide
  cases rounds <;> rw [visit, if_pos done]

end ChunkGenerator

end SynchroTrace.Base
