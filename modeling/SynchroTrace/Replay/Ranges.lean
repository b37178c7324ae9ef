import Mathlib.Data.List.Range
import Mathlib.Data.Nat.ModEq
import SynchroTrace.Lib.Outcome
import SynchroTrace.Replay.Parse

namespace SynchroTrace.Replay
open Outcome List Nat

def bytesOf (requests : List SharedInfo) : List Nat :=
  requests.flatMap fun request => (List.range request.numBytes).map (request.addr + ·)

/-- A request of `MAX_REQUEST_SIZE` bytes at most, inside one block. -/
structure SharedInfo.Fits (ruby : Ruby) (request : SharedInfo) : Prop where
  some : 1 ≤ request.numBytes
  few : request.numBytes ≤ maxRequestSize
  block : (request.addr + request.numBytes - 1) / ruby.blockSizeBytes =
    request.addr / ruby.blockSizeBytes

theorem Ruby.blockSizeBytes_pos (ruby : Ruby) : 0 < ruby.blockSizeBytes := Nat.two_pow_pos _

theorem Ruby.memorySizeBytes_pos (ruby : Ruby) : 0 < ruby.memorySizeBytes :=
  Nat.lt_of_lt_of_le ruby.blockSizeBytes_pos ruby.block_fits

section Loop
variable {ruby : Ruby}

/-- What a round takes of `numBytes` bytes at `curAdd`. -/
def requestSize (ruby : Ruby) (curAdd numBytes : Nat) : Nat :=
  min (min maxRequestSize numBytes) (ruby.blockSizeBytes - curAdd % ruby.blockSizeBytes)

theorem residual_eq (ruby : Ruby) (addr numBytes : Nat) :
    toInt32 ((min maxRequestSize numBytes : Nat) -
        toInt32 (ruby.blockSizeBytes - toInt32 (addr % ruby.blockSizeBytes : Nat))) =
      (min maxRequestSize numBytes : Nat) -
        (ruby.blockSizeBytes - addr % ruby.blockSizeBytes : Nat) := by
  have block : ruby.blockSizeBytes < 2 ^ 31 := ruby.block_int
  have offset := mod_lt addr ruby.blockSizeBytes_pos
  have request : min maxRequestSize numBytes ≤ 8 := Nat.min_le_left _ _
  have inBlock : toInt32 (addr % ruby.blockSizeBytes : Nat) = (addr % ruby.blockSizeBytes : Nat) :=
    toInt32_eq (by omega) (by omega)
  have room : toInt32 (ruby.blockSizeBytes - (addr % ruby.blockSizeBytes : Nat)) =
      (ruby.blockSizeBytes - addr % ruby.blockSizeBytes : Nat) := by
    rw [← Int.ofNat_sub (Nat.le_of_lt offset)]
    exact toInt32_eq (by omega) (by omega)
  rw [inBlock, room, toInt32_eq (by omega) (by omega)]

theorem requestSize_eq (ruby : Ruby) (addr numBytes : Nat) :
    (if (0 : Int) < (min maxRequestSize numBytes : Nat) -
        (ruby.blockSizeBytes - addr % ruby.blockSizeBytes : Nat) then
      (((min maxRequestSize numBytes : Nat) - ((min maxRequestSize numBytes : Nat) -
        (ruby.blockSizeBytes - addr % ruby.blockSizeBytes : Nat) : Int)) % 2 ^ 64).toNat
    else min maxRequestSize numBytes) = requestSize ruby addr numBytes := by
  have block : ruby.blockSizeBytes < 2 ^ 31 := ruby.block_int
  unfold requestSize
  split <;> omega

variable {curAdd prevReqSize numBytes addr rounds : Nat}

theorem splitLoop_succ (rounds prodThreadID prodEventID : Nat)
    (moved : (curAdd + prevReqSize) % 2 ^ 64 % ruby.memorySizeBytes = addr)
    (few : numBytes < 2 ^ 64) :
    splitLoop ruby prodThreadID prodEventID (rounds + 1) curAdd prevReqSize numBytes =
      if 0 < numBytes - requestSize ruby addr numBytes then do
        let rest ← splitLoop ruby prodThreadID prodEventID rounds addr
          (requestSize ruby addr numBytes) (numBytes - requestSize ruby addr numBytes)
        return ⟨prodThreadID, prodEventID, addr, requestSize ruby addr numBytes⟩ :: rest
      else return [⟨prodThreadID, prodEventID, addr, requestSize ruby addr numBytes⟩] := by
  have size : requestSize ruby addr numBytes ≤ 8 ∧ requestSize ruby addr numBytes ≤ numBytes := by
    unfold requestSize maxRequestSize
    omega
  have taken : (if maxRequestSize ≤ numBytes then maxRequestSize else numBytes) =
      min maxRequestSize numBytes := by
    split <;> omega
  have word : requestSize ruby addr numBytes % 2 ^ 32 = requestSize ruby addr numBytes :=
    mod_eq_of_lt (by omega)
  have left : (numBytes + 2 ^ 64 - requestSize ruby addr numBytes) % 2 ^ 64 =
      numBytes - requestSize ruby addr numBytes := by
    omega
  rw [splitLoop]
  simp only [moved, taken, residual_eq, requestSize_eq, word, left]

theorem requestSize_pos (ruby : Ruby) (addr : Nat) (some : 0 < numBytes) :
    0 < requestSize ruby addr numBytes := by
  have offset := mod_lt addr ruby.blockSizeBytes_pos
  unfold requestSize maxRequestSize
  omega

theorem requestSize_le (ruby : Ruby) (addr numBytes : Nat) :
    requestSize ruby addr numBytes ≤ maxRequestSize ∧ requestSize ruby addr numBytes ≤ numBytes ∧
      addr % ruby.blockSizeBytes + requestSize ruby addr numBytes ≤ ruby.blockSizeBytes := by
  have offset := mod_lt addr ruby.blockSizeBytes_pos
  unfold requestSize
  omega

theorem request_fits (ruby : Ruby) (prodThreadID prodEventID addr : Nat) (some : 0 < numBytes) :
    SharedInfo.Fits ruby ⟨prodThreadID, prodEventID, addr, requestSize ruby addr numBytes⟩ := by
  have pos := requestSize_pos ruby addr some
  obtain ⟨few, _, inBlock⟩ := requestSize_le ruby addr numBytes
  refine ⟨pos, few, ?_⟩
  have split := div_add_mod addr ruby.blockSizeBytes
  have last : addr + requestSize ruby addr numBytes - 1 = ruby.blockSizeBytes *
      (addr / ruby.blockSizeBytes) + (addr % ruby.blockSizeBytes + requestSize ruby addr numBytes - 1) := by
    omega
  have offset : addr % ruby.blockSizeBytes + requestSize ruby addr numBytes - 1 <
      ruby.blockSizeBytes := by
    omega
  show (addr + requestSize ruby addr numBytes - 1) / ruby.blockSizeBytes = _
  rw [last, mul_add_div ruby.blockSizeBytes_pos, div_eq_of_lt offset, Nat.add_zero]

theorem block_end_le {ruby : Ruby} (whole : ruby.blockSizeBytes ∣ ruby.memorySizeBytes)
    (inside : addr < ruby.memorySizeBytes) :
    addr - addr % ruby.blockSizeBytes + ruby.blockSizeBytes ≤ ruby.memorySizeBytes := by
  obtain ⟨lines, isLines⟩ := whole
  have split := div_add_mod addr ruby.blockSizeBytes
  have line : addr / ruby.blockSizeBytes < lines := by
    rw [Nat.div_lt_iff_lt_mul ruby.blockSizeBytes_pos, Nat.mul_comm, ← isLines]
    exact inside
  calc addr - addr % ruby.blockSizeBytes + ruby.blockSizeBytes
      = ruby.blockSizeBytes * (addr / ruby.blockSizeBytes + 1) := by rw [Nat.mul_add]; omega
    _ ≤ ruby.blockSizeBytes * lines := Nat.mul_le_mul_left _ line
    _ = ruby.memorySizeBytes := isLines.symm

structure Tiles (ruby : Ruby) (first count : Nat) (requests : List SharedInfo) : Prop where
  fits : ∀ request ∈ requests, request.Fits ruby
  bytes : bytesOf requests = (List.range count).map fun j => (first + j) % ruby.memorySizeBytes

theorem Tiles.cons {first count : Nat} {request : SharedInfo} {rest : List SharedInfo}
    (fits : request.Fits ruby) (addr : request.addr = first)
    (inside : first + request.numBytes ≤ ruby.memorySizeBytes)
    (tiles : Tiles ruby ((first + request.numBytes) % ruby.memorySizeBytes) count rest) :
    Tiles ruby first (request.numBytes + count) (request :: rest) := by
  refine ⟨fun r member => ?_, ?_⟩
  · rcases mem_cons.mp member with rfl | later
    · exact fits
    · exact tiles.fits r later
  · rw [bytesOf, flatMap_cons, ← bytesOf, tiles.bytes, range_add, map_append, map_map, addr]
    congr 1
    · refine map_congr_left fun j early => ?_
      have early := mem_range.mp early
      exact (mod_eq_of_lt (by omega)).symm
    · refine map_congr_left fun j _ => ?_
      show _ = (first + (request.numBytes + j)) % ruby.memorySizeBytes
      rw [mod_add_mod, Nat.add_assoc]

theorem Tiles.nil (ruby : Ruby) (first : Nat) : Tiles ruby first 0 [] :=
  ⟨fun _ member => absurd member not_mem_nil, rfl⟩

theorem splitLoop_total (ruby : Ruby) (prodThreadID prodEventID : Nat) (few : numBytes < 2 ^ 64)
    (enough : numBytes < rounds) :
    ∃ requests, splitLoop ruby prodThreadID prodEventID rounds curAdd prevReqSize numBytes =
        .ok requests := by
  induction rounds generalizing curAdd prevReqSize numBytes with
  | zero => omega
  | succ rounds ih =>
    rw [splitLoop_succ rounds prodThreadID prodEventID rfl few]
    generalize (curAdd + prevReqSize) % 2 ^ 64 % ruby.memorySizeBytes = addr
    split
    · rename_i left
      have taken := requestSize_pos ruby addr (show 0 < numBytes by omega)
      obtain ⟨rest, run⟩ := @ih addr (requestSize ruby addr numBytes)
        (numBytes - requestSize ruby addr numBytes) (by omega) (by omega)
      exact ⟨_, by rw [run]; rfl⟩
    · exact ⟨_, rfl⟩

theorem splitRange_total (ruby : Ruby) (prodThreadID prodEventID memStart memEnd : Nat) :
    ∃ requests, splitRange ruby prodThreadID prodEventID memStart memEnd = .ok requests :=
  splitLoop_total ruby prodThreadID prodEventID (mod_lt _ (by decide)) (lt_succ_self _)

section
variable (whole : ruby.blockSizeBytes ∣ ruby.memorySizeBytes)
include whole

/-- By induction on the rounds: a round takes the bytes up to `MAX_REQUEST_SIZE` or the end of the
block, and leaves the next to the rest of the loop. -/
theorem splitLoop_tiles (prodThreadID prodEventID : Nat) {rounds curAdd prevReqSize numBytes : Nat}
    (some : 0 < numBytes) (few : numBytes < 2 ^ 64) (enough : numBytes < rounds)
    (noWrap : curAdd + prevReqSize < 2 ^ 64) :
    ∃ requests,
      splitLoop ruby prodThreadID prodEventID rounds curAdd prevReqSize numBytes = .ok requests ∧
      Tiles ruby ((curAdd + prevReqSize) % ruby.memorySizeBytes) numBytes requests := by
  induction rounds generalizing curAdd prevReqSize numBytes with
  | zero => omega
  | succ rounds ih =>
    have memory := ruby.memory_word
    rw [splitLoop_succ rounds prodThreadID prodEventID rfl few, mod_eq_of_lt noWrap]
    generalize isAddr : (curAdd + prevReqSize) % ruby.memorySizeBytes = addr
    have inside : addr < ruby.memorySizeBytes := by
      rw [← isAddr]
      exact mod_lt _ ruby.memorySizeBytes_pos
    have blockEnd := block_end_le whole inside
    have taken := requestSize_pos ruby addr some
    have fits := request_fits ruby prodThreadID prodEventID addr some
    obtain ⟨_, part, inBlock⟩ := requestSize_le ruby addr numBytes
    have offset := mod_le addr ruby.blockSizeBytes
    split
    · rename_i left
      obtain ⟨rest, run, tiles⟩ := @ih addr (requestSize ruby addr numBytes) _ left (by omega)
        (by omega) (by omega)
      refine ⟨_, by rw [run]; rfl, ?_⟩
      have joined := Tiles.cons fits rfl (by dsimp only; omega) tiles
      rwa [show requestSize ruby addr numBytes + (numBytes - requestSize ruby addr numBytes) =
        numBytes by omega] at joined
    · have all : requestSize ruby addr numBytes = numBytes := by omega
      refine ⟨_, rfl, ?_⟩
      have joined := Tiles.cons fits rfl (by dsimp only; omega) (Tiles.nil ruby _)
      rw [Nat.add_zero, all] at joined
      rwa [all]

theorem first_address (memStart : Nat) :
    (memStart / ruby.blockSizeBytes % ruby.numCacheLines) <<< ruby.blockSizeBits % 2 ^ 64 |||
      memStart % ruby.blockSizeBytes = memStart % ruby.memorySizeBytes := by
  have memory := ruby.memory_word
  have lines : ruby.blockSizeBytes * ruby.numCacheLines = ruby.memorySizeBytes :=
    Nat.mul_div_cancel' whole
  have inside : memStart % ruby.blockSizeBytes < 2 ^ ruby.blockSizeBits :=
    mod_lt _ ruby.blockSizeBytes_pos
  have address : memStart % ruby.memorySizeBytes = memStart % ruby.blockSizeBytes +
      ruby.blockSizeBytes * (memStart / ruby.blockSizeBytes % ruby.numCacheLines) := by
    rw [← lines, mod_mul]
  have small := mod_lt memStart ruby.memorySizeBytes_pos
  have shift : (memStart / ruby.blockSizeBytes % ruby.numCacheLines) <<< ruby.blockSizeBits =
      ruby.blockSizeBytes * (memStart / ruby.blockSizeBytes % ruby.numCacheLines) := by
    rw [shiftLeft_eq, Nat.mul_comm]
    rfl
  have noWrap : (memStart / ruby.blockSizeBytes % ruby.numCacheLines) <<< ruby.blockSizeBits <
      2 ^ 64 := by
    omega
  rw [mod_eq_of_lt noWrap, ← shiftLeft_add_eq_or_of_lt inside, shift, address, Nat.add_comm]

theorem splitRange_tiles (prodThreadID prodEventID : Nat) {memStart memEnd : Nat}
    (order : memStart ≤ memEnd) (few : memEnd - memStart + 1 < 2 ^ 64) :
    ∃ requests, splitRange ruby prodThreadID prodEventID memStart memEnd = .ok requests ∧
      Tiles ruby memStart (memEnd - memStart + 1) requests := by
  have memory := ruby.memory_word
  have small := mod_lt memStart ruby.memorySizeBytes_pos
  have count : (memEnd + 2 ^ 64 - memStart + 1) % 2 ^ 64 = memEnd - memStart + 1 := by omega
  obtain ⟨requests, run, tiles⟩ := @splitLoop_tiles ruby whole prodThreadID prodEventID
    (memEnd - memStart + 1 + 1) (memStart % ruby.memorySizeBytes) 0 (memEnd - memStart + 1)
    (succ_pos _) few (lt_succ_self _) (by omega)
  refine ⟨requests, ?_, tiles.fits, ?_⟩
  · rw [splitRange]
    simp only [count, first_address whole, run]
  · rw [tiles.bytes]
    refine map_congr_left fun j _ => ?_
    rw [Nat.add_zero, mod_mod, mod_add_mod]

end

def SharedInfo.spot (request : SharedInfo) : Nat × Nat := (request.addr, request.numBytes)

theorem splitLoop_round (ruby : Ruby) (rounds curAdd prevReqSize numBytes : Nat) :
    ∃ addr size left, ∀ prodThreadID prodEventID,
      splitLoop ruby prodThreadID prodEventID (rounds + 1) curAdd prevReqSize numBytes =
        if 0 < left then do
          return ⟨prodThreadID, prodEventID, addr, size % 2 ^ 32⟩ ::
            (← splitLoop ruby prodThreadID prodEventID rounds addr size left)
        else return [⟨prodThreadID, prodEventID, addr, size % 2 ^ 32⟩] :=
  ⟨_, _, _, fun _ _ => by rw [splitLoop]⟩

theorem splitLoop_spots (prodThreadID prodEventID prodThreadID' prodEventID' : Nat) :
    Matches (fun requests requests' : List SharedInfo => requests.map (·.spot) =
        requests'.map (·.spot))
      (splitLoop ruby prodThreadID prodEventID rounds curAdd prevReqSize numBytes)
      (splitLoop ruby prodThreadID' prodEventID' rounds curAdd prevReqSize numBytes) := by
  induction rounds generalizing curAdd prevReqSize numBytes with
  | zero => exact .error _
  | succ rounds ih =>
    obtain ⟨addr, size, left, round⟩ := splitLoop_round ruby rounds curAdd prevReqSize numBytes
    rw [round, round]
    split
    · refine ih.bind fun requests requests' _ same => .ok ?_
      rw [map_cons, map_cons, same]
      rfl
    · exact .ok rfl

theorem Tiles.sizes {first count : Nat} {requests : List SharedInfo}
    (tiles : Tiles ruby first count requests) : (requests.map (·.numBytes)).sum = count := by
  have length := congrArg List.length tiles.bytes
  rw [length_map, length_range] at length
  rw [← length, bytesOf, length_flatMap]
  simp

/-- Each request for a range lies in one block, and byte `j` of them all is byte `j` of the range,
wrapped at the end of the memory. -/
theorem requests_tile (ruby : Ruby) (whole : ruby.blockSizeBytes ∣ ruby.memorySizeBytes)
    (prodThreadID prodEventID memStart memEnd : Nat) (order : memStart ≤ memEnd)
    (few : memEnd - memStart + 1 < 2 ^ 64) :
    ∃ comm writes reads, commRequests ruby prodThreadID prodEventID memStart memEnd = .ok comm ∧
      compWriteRequests ruby memStart memEnd = .ok writes ∧
      compReadRequests ruby memStart memEnd = .ok reads ∧
      comm.map (·.spot) = writes.map (·.spot) ∧ writes.map (·.spot) = reads.map (·.spot) ∧
      ∀ requests ∈ [comm, writes, reads], (∀ request ∈ requests, request.Fits ruby) ∧
        (requests.map (·.numBytes)).sum = memEnd - memStart + 1 ∧
        bytesOf requests = (List.range (memEnd - memStart + 1)).map
          fun j => (memStart + j) % ruby.memorySizeBytes := by
  obtain ⟨comm, commRun, commTiles⟩ := splitRange_tiles whole prodThreadID prodEventID order few
  obtain ⟨comp, compRun, compTiles⟩ := splitRange_tiles whole 0 0 order few
  refine ⟨comm, comp, comp, commRun, compRun, compRun, ?_, rfl, ?_⟩
  · obtain ⟨requests, run, same⟩ := (splitLoop_spots prodThreadID prodEventID 0 0).of_ok compRun
    rw [← same, Except.ok.inj (commRun.symm.trans run)]
  · intro requests one
    have tiles : Tiles ruby memStart (memEnd - memStart + 1) requests := by
      rcases mem_cons.mp one with rfl | one
      · exact commTiles
      · have isComp : requests = comp := by simpa using one
        rwa [isComp]
    exact ⟨tiles.fits, tiles.sizes, tiles.bytes⟩

theorem requests_tile_across_memory_end : ∃ comm writes reads,
      commRequests { blockSizeBits := 3, memorySizeBytes := 16 } 0 0 13 26 = .ok comm ∧
      compWriteRequests { blockSizeBits := 3, memorySizeBytes := 16 } 13 26 = .ok writes ∧
      compReadRequests { blockSizeBits := 3, memorySizeBytes := 16 } 13 26 = .ok reads ∧
      bytesOf comm = [13, 14, 15, 0, 1, 2, 3, 4, 5, 6, 7, 8, 9, 10] := by
  obtain ⟨comm, writes, reads, commRun, writesRun, readsRun, _, _, tiles⟩ :=
    requests_tile { blockSizeBits := 3, memorySizeBytes := 16 } (by decide) 0 0 13 26 (by decide)
      (by decide)
  exact ⟨comm, writes, reads, commRun, writesRun, readsRun, (tiles comm mem_cons_self).2.2⟩

end Loop

end SynchroTrace.Replay
