import SynchroTrace.Ruby.Address

namespace SynchroTrace.Ruby
open Outcome BitFields PhysAddress

/-- The sizes of a directory. Its entries are left out. -/
structure DirectoryMemory where
  version : Nat
  sizeBytes : Nat
  sizeBits : Nat
  numEntries : Nat
  deriving DecidableEq, Repr

namespace DirectoryMemory

structure Params where
  version : Nat
  size : BitVec 64
  numaHighBit : Int

/-- The static members. The number of directories is an `int` that does not overflow. -/
structure Statics where
  numDirectories : Nat
  numDirectoriesBits : Nat
  totalSizeBytes : BitVec 64
  numaHighBit : Int
  deriving DecidableEq, Repr

def construct (p : Params) (statics : Statics) : Except MemoryFault (Statics × DirectoryMemory) := do
  let sizeBits ← floorLog2 p.size.toNat
  return ({ statics with numaHighBit := p.numaHighBit },
    { version := p.version, sizeBytes := p.size.toNat, sizeBits, numEntries := 0 })

variable (system : RubySystem)

def init (directory : DirectoryMemory) (statics : Statics) :
    Except MemoryFault (Statics × DirectoryMemory) := do
  let numEntries := directory.sizeBytes / system.blockSizeBytes
  let numDirectories := statics.numDirectories + 1
  let numDirectoriesBits ← floorLog2 numDirectories
  let totalSizeBytes := statics.totalSizeBytes + BitVec.ofNat 64 directory.sizeBytes
  let numaHighBit :=
    if statics.numaHighBit = 0 then (system.memorySizeBits : Int) - 1 else statics.numaHighBit
  require (numaHighBit ≠ 0) .assertion
  return ({ numDirectories, numDirectoriesBits, totalSizeBytes, numaHighBit },
    { directory with numEntries })

/-- All directories are constructed before the first of them is initialised. -/
def startUp (params : List Params) : Except MemoryFault (Statics × List DirectoryMemory) := do
  let (statics, directories) ← mapAccumM construct params ⟨0, 0, 0, 0⟩
  mapAccumM (init system) directories statics

def mapAddressToDirectoryVersion (statics : Statics) (address : PhysAddress) :
    Except MemoryFault (BitVec 64) :=
  if statics.numDirectoriesBits = 0 then .ok 0
  else address.bitSelect (statics.numaHighBit - statics.numDirectoriesBits + 1) statics.numaHighBit

def mapAddressToLocalIdx (statics : Statics) (address : PhysAddress) :
    Except MemoryFault (BitVec 64) := do
  let ret ← (if 0 < statics.numDirectoriesBits then
      address.bitRemove (statics.numaHighBit - statics.numDirectoriesBits + 1) statics.numaHighBit
    else .ok address)
  return ret >>> system.blockSizeBits

def selectionHigh (numaHighBit : Int) : Int :=
  if numaHighBit = 0 then (system.memorySizeBits : Int) - 1 else numaHighBit

/-- `2 ^ d` directories that share `2 ^ n` bytes. -/
def equalParams (n d : Nat) (numaHighBit : Int) : List Params :=
  (List.range (2 ^ d)).map fun version => ⟨version, BitVec.ofNat 64 (2 ^ (n - d)), numaHighBit⟩

section StartUp

variable {system : RubySystem} {n d : Nat} {numaHighBit : Int}

structure Constructed (numaHighBit : Int) (k : Nat) (statics : Statics) : Prop where
  none : statics.numDirectories = 0
  high : 0 < k → statics.numaHighBit = numaHighBit

theorem constructs (d : Nat) (numaHighBit : Int) (inside : n < 64) : ∃ statics directories,
      mapAccumM construct (equalParams n d numaHighBit) ⟨0, 0, 0, 0⟩ = .ok (statics, directories) ∧
      statics.numDirectories = 0 ∧ statics.numaHighBit = numaHighBit ∧
      directories.length = 2 ^ d ∧ ∀ dir ∈ directories, dir.sizeBytes = 2 ^ (n - d) := by
  have small : 2 ^ (n - d) < 2 ^ 64 := Nat.pow_lt_pow_right (by decide) (by omega)
  have size : (BitVec.ofNat 64 (2 ^ (n - d))).toNat = 2 ^ (n - d) := by
    rw [BitVec.toNat_ofNat, Nat.mod_eq_of_lt small]
  have count : (equalParams n d numaHighBit).length = 2 ^ d := by simp [equalParams]
  have keep : ∀ p ∈ equalParams n d numaHighBit, ∀ k statics, k < 2 ^ d →
      Constructed numaHighBit k statics → ∃ statics' dir, construct p statics = .ok (statics', dir) ∧
        Constructed numaHighBit (k + 1) statics' ∧ dir.sizeBytes = 2 ^ (n - d) := by
    intro p member k statics _ before
    obtain ⟨version, -, rfl⟩ := List.mem_map.mp member
    rw [construct, size, floorLog2_eq (Nat.two_pow_pos _) small]
    exact ⟨_, _, rfl, ⟨before.none, fun _ => rfl⟩, rfl⟩
  obtain ⟨statics, directories, ran, after, length, all⟩ :=
    mapAccumM_ok (Constructed numaHighBit) (fun dir : DirectoryMemory => dir.sizeBytes = 2 ^ (n - d))
      keep ((Nat.zero_add _).trans count) (s := ⟨0, 0, 0, 0⟩) ⟨rfl, (absurd · (Nat.lt_irrefl 0))⟩
  exact ⟨statics, directories, ran, after.none, after.high (Nat.two_pow_pos d), length.trans count,
    all⟩

theorem init_ok {statics : Statics} {directory : DirectoryMemory}
    (set : selectionHigh system statics.numaHighBit ≠ 0)
    (inside : statics.numDirectories + 1 < 2 ^ 64) :
    init system directory statics = .ok
      ({ numDirectories := statics.numDirectories + 1
         numDirectoriesBits := (statics.numDirectories + 1).log2
         totalSizeBytes := statics.totalSizeBytes + BitVec.ofNat 64 directory.sizeBytes
         numaHighBit := selectionHigh system statics.numaHighBit },
        { directory with numEntries := directory.sizeBytes / system.blockSizeBytes }) := by
  simp only [init, floorLog2_eq (Nat.succ_pos _) inside, ok_bind]
  rw [selectionHigh] at set
  rw [require_of set, ok_bind]
  rfl

structure Initialised (system : RubySystem) (high : Int) (k : Nat) (statics : Statics) : Prop where
  count : statics.numDirectories = k
  selected : selectionHigh system statics.numaHighBit = high
  bits : 0 < k → statics.numDirectoriesBits = k.log2
  high : 0 < k → statics.numaHighBit = high

theorem selectionHigh_set {high : Int} (set : high ≠ 0) : selectionHigh system high = high :=
  if_neg set

structure Started (system : RubySystem) (n d : Nat) (high : Int) (statics : Statics)
    (directories : List DirectoryMemory) : Prop where
  bits : statics.numDirectoriesBits = d
  high : statics.numaHighBit = high
  length : directories.length = 2 ^ d
  entries : ∀ dir ∈ directories, dir.numEntries = 2 ^ (n - d - system.blockSizeBits)

theorem startUp_ok (sized : system.Sized) (inside : n < 64) (few : system.blockSizeBits + d ≤ n)
    (set : selectionHigh system numaHighBit ≠ 0) :
    ∃ statics directories, startUp system (equalParams n d numaHighBit) =
      .ok (statics, directories) ∧
      Started system n d (selectionHigh system numaHighBit) statics directories := by
  obtain ⟨statics, constructed, built, none, high, length, sizes⟩ := constructs d numaHighBit inside
  have small : 2 ^ d < 2 ^ 64 := Nat.pow_lt_pow_right (by decide) (by omega)
  have keep : ∀ dir ∈ constructed, ∀ k statics, k < 2 ^ d →
      Initialised system (selectionHigh system numaHighBit) k statics →
      ∃ statics' dir', init system dir statics = .ok (statics', dir') ∧
        Initialised system (selectionHigh system numaHighBit) (k + 1) statics' ∧
        dir'.numEntries = 2 ^ (n - d - system.blockSizeBits) := by
    intro dir member k statics below before
    obtain ⟨rfl, selected, -, -⟩ := before
    refine ⟨_, _, init_ok (selected ▸ set) (by omega), ⟨rfl, ?_, fun _ => rfl, fun _ => selected⟩, ?_⟩
    · rw [selected, selectionHigh_set set]
    · rw [sizes dir member, sized.block, Nat.pow_div (by omega) (by decide)]
  obtain ⟨statics', directories, ran, after, length', entries⟩ :=
    mapAccumM_ok (Initialised system (selectionHigh system numaHighBit))
      (fun dir : DirectoryMemory => dir.numEntries = 2 ^ (n - d - system.blockSizeBits)) keep
      ((Nat.zero_add _).trans length)
      ⟨none, by rw [high], (absurd · (Nat.lt_irrefl 0)), (absurd · (Nat.lt_irrefl 0))⟩
  refine ⟨statics', directories, ?_, ?_⟩
  · rw [startUp, built]
    exact ran
  · have bits := after.bits (Nat.two_pow_pos d)
    rw [Nat.log2_two_pow] at bits
    exact ⟨bits, after.high (Nat.two_pow_pos d), length'.trans length, entries⟩

end StartUp

structure Interleaves (system : RubySystem) (statics : Statics)
    (directories : List DirectoryMemory) : Prop where
  inRange : ∀ address, system.IsBlock address → ∃ version idx,
    mapAddressToDirectoryVersion statics address = .ok version ∧
    mapAddressToLocalIdx system statics address = .ok idx ∧
    version.toNat < directories.length ∧ ∀ dir ∈ directories, idx.toNat < dir.numEntries
  injective : ∀ address address', system.IsBlock address → system.IsBlock address' →
    mapAddressToDirectoryVersion statics address = mapAddressToDirectoryVersion statics address' →
    mapAddressToLocalIdx system statics address = mapAddressToLocalIdx system statics address' →
    address = address'

section Interleaving

variable {system : RubySystem} {statics : Statics} {directories : List DirectoryMemory}
  {n d low : Nat} {high : Int}

section
variable (started : Started system n d high statics directories) (some : 0 < d)
include started some

theorem version_ok (selected : high - d + 1 = low) (inside : high < 63) (address : PhysAddress) :
    ∃ version, mapAddressToDirectoryVersion statics address = .ok version ∧
      version.toNat = address.toNat / 2 ^ low % 2 ^ d := by
  obtain ⟨big, rfl⟩ : ∃ big : Nat, high = big := ⟨high.toNat, by omega⟩
  rw [mapAddressToDirectoryVersion, started.bits, if_neg some.ne', started.high, selected]
  obtain ⟨field, selects, value⟩ :=
    bitSelect_ok address (show low ≤ big by omega) (by omega)
  have width : big + 1 - low = d := by omega
  rw [width] at value
  exact ⟨field, selects, value⟩

theorem idx_ok (selected : high - d + 1 = low) (inside : high < 63) (positive : 0 < low)
    (address : PhysAddress) :
    ∃ idx, mapAddressToLocalIdx system statics address = .ok idx ∧
      idx.toNat = closeGap address.toNat low d / 2 ^ system.blockSizeBits := by
  obtain ⟨big, rfl⟩ : ∃ big : Nat, high = big := ⟨high.toNat, by omega⟩
  obtain ⟨rest, removes, value⟩ :=
    bitRemove_ok address (show low ≤ big by omega) (by omega) positive
  have top : big + 1 = low + d := by omega
  rw [top, Nat.pow_add, ← Nat.div_div_eq_div_mul] at value
  rw [mapAddressToLocalIdx, started.bits, if_pos some, started.high, selected, removes]
  exact ⟨_, rfl, by rw [toNat_shiftRight, value, closeGap]⟩

/-- A selection from bit 0 on leaves the index of the last byte too large. -/
theorem idx_from_zero (selected : high - d + 1 = 0) (inside : high < 63) (address : PhysAddress) :
    ∃ idx, mapAddressToLocalIdx system statics address = .ok idx ∧ idx.toNat =
      address.toNat / 2 ^ (d - 1) * 2 ^ (d - 1) / 2 ^ system.blockSizeBits := by
  obtain ⟨big, rfl⟩ : ∃ big : Nat, high = big := ⟨high.toNat, by omega⟩
  obtain ⟨rest, removes, value⟩ := bitRemove_zero address (show big < 63 by omega)
  have top : big = d - 1 := by omega
  rw [top] at value
  rw [mapAddressToLocalIdx, started.bits, if_pos some, started.high, selected, removes]
  exact ⟨_, rfl, by rw [toNat_shiftRight, value]⟩

end

theorem Started.interleaves_one (started : Started system n 0 high statics directories)
    (sized : system.Sized) (memory : system.memorySizeBytes = 2 ^ n)
    (few : system.blockSizeBits ≤ n) : Interleaves system statics directories := by
  have version (address : PhysAddress) : mapAddressToDirectoryVersion statics address = .ok 0 := by
    rw [mapAddressToDirectoryVersion, if_pos started.bits]
  have idx (address : PhysAddress) : mapAddressToLocalIdx system statics address =
      .ok (address >>> system.blockSizeBits) := by
    rw [mapAddressToLocalIdx, started.bits, if_neg (Nat.lt_irrefl 0)]
    rfl
  constructor
  · rintro address ⟨inside, -⟩
    refine ⟨_, _, version address, idx address, ?_, fun dir member => ?_⟩
    · rw [started.length]
      decide
    · rw [started.entries dir member, toNat_shiftRight, Nat.sub_zero]
      refine Nat.div_lt_of_lt_mul ?_
      rw [← Nat.pow_add, Nat.add_sub_cancel' few, ← memory]
      exact inside
  · rintro address address' ⟨-, aligned⟩ ⟨-, aligned'⟩ - same
    rw [idx, idx] at same
    have same := congrArg BitVec.toNat (Except.ok.inj same)
    rw [toNat_shiftRight, toNat_shiftRight] at same
    rw [sized.block] at aligned aligned'
    exact BitVec.eq_of_toNat_eq (Nat.div_left_inj aligned aligned' |>.mp same)

section
variable (started : Started system n d high statics directories) (sized : system.Sized)
  (memory : system.memorySizeBytes = 2 ^ n) (some : 0 < d)
include started sized memory some

theorem Started.interleaves (selected : high - d + 1 = low) (top : high < n)
    (above : system.blockSizeBits ≤ low) (positive : 0 < low) (inside : n < 64) :
    Interleaves system statics directories := by
  have version := version_ok started some selected (by omega)
  have idx := idx_ok started some selected (by omega) positive
  constructor
  · rintro address ⟨below, -⟩
    obtain ⟨v, versionOk, versionEq⟩ := version address
    obtain ⟨i, idxOk, idxEq⟩ := idx address
    refine ⟨v, i, versionOk, idxOk, ?_, fun dir member => ?_⟩
    · rw [started.length, versionEq]
      exact Nat.mod_lt _ (Nat.two_pow_pos d)
    · rw [started.entries dir member, idxEq]
      refine Nat.div_lt_of_lt_mul ?_
      rw [← Nat.pow_add, show system.blockSizeBits + (n - d - system.blockSizeBits) = n - d by omega]
      exact closeGap_lt (memory ▸ below) (by omega)
  · rintro address address' ⟨-, aligned⟩ ⟨-, aligned'⟩ sameVersion sameIdx
    obtain ⟨v, versionOk, versionEq⟩ := version address
    obtain ⟨i, idxOk, idxEq⟩ := idx address
    obtain ⟨v', versionOk', versionEq'⟩ := version address'
    obtain ⟨i', idxOk', idxEq'⟩ := idx address'
    rw [versionOk, versionOk'] at sameVersion
    rw [idxOk, idxOk'] at sameIdx
    obtain rfl := Except.ok.inj sameVersion
    obtain rfl := Except.ok.inj sameIdx
    rw [sized.block] at aligned aligned'
    have rest := (Nat.div_left_inj (closeGap_dvd above aligned) (closeGap_dvd above aligned')).mp
      (idxEq.symm.trans idxEq')
    exact BitVec.eq_of_toNat_eq (eq_of_closeGap (versionEq.symm.trans versionEq') rest)

theorem Started.not_interleaves (selected : high - d + 1 = 0) (top : high < n)
    (bytes : system.blockSizeBits = 0) (inside : n < 64) :
    ¬ Interleaves system statics directories := by
  intro interleaves
  -- the block with only the top bit set
  have value : (BitVec.ofNat 64 (2 ^ (n - 1))).toNat = 2 ^ (n - 1) := by
    rw [BitVec.toNat_ofNat, Nat.mod_eq_of_lt]
    exact Nat.pow_lt_pow_right (by decide) (by omega)
  have block : system.IsBlock (BitVec.ofNat 64 (2 ^ (n - 1))) := by
    rw [RubySystem.IsBlock, value, memory, sized.block, bytes]
    exact ⟨Nat.pow_lt_pow_right (by decide) (by omega), Nat.one_dvd _⟩
  obtain ⟨_, idx, -, idxOk, -, range⟩ := interleaves.inRange _ block
  obtain ⟨idx', idxOk', idxEq⟩ :=
    idx_from_zero started some selected (by omega) (BitVec.ofNat 64 (2 ^ (n - 1)))
  obtain rfl := Except.ok.inj (idxOk.symm.trans idxOk')
  obtain ⟨dir, member⟩ := List.exists_mem_of_length_pos
    (show 0 < directories.length from started.length ▸ Nat.two_pow_pos d)
  have bound := range dir member
  have divides : 2 ^ (d - 1) ∣ 2 ^ (n - 1) := Nat.pow_dvd_pow 2 (by omega)
  rw [started.entries dir member, idxEq, value, bytes, Nat.div_mul_cancel divides, Nat.pow_zero,
    Nat.div_one] at bound
  exact absurd bound (Nat.not_lt.mpr (Nat.pow_le_pow_right (by decide) (by omega)))

end

/-- Directories of equal sizes that divide the memory interleave exactly if there is only one, or
the lowest selection bit is not bit 0. -/
theorem interleaves_iff (sized : system.Sized) (numaHighBit : Int)
    (memory : system.memorySizeBytes = 2 ^ n) (few : system.blockSizeBits + d ≤ n)
    (set : selectionHigh system numaHighBit ≠ 0)
    (within : 0 < d → system.blockSizeBits ≤ selectionHigh system numaHighBit - d + 1 ∧
      selectionHigh system numaHighBit ≤ n - 1) :
    ∃ statics directories,
      startUp system (equalParams n d numaHighBit) = .ok (statics, directories) ∧
      (Interleaves system statics directories ↔
        d = 0 ∨ 0 < selectionHigh system numaHighBit - d + 1) := by
  have inside : n < 64 := (Nat.pow_lt_pow_iff_right (by decide)).mp (memory ▸ sized.memory)
  obtain ⟨statics, directories, ran, started⟩ := startUp_ok sized inside few set
  refine ⟨statics, directories, ran, ?_⟩
  obtain rfl | some := Nat.eq_zero_or_pos d
  · simp only [true_or, iff_true]
    exact started.interleaves_one sized memory few
  · obtain ⟨above, top⟩ := within some
    obtain ⟨low, selected⟩ : ∃ low : Nat, selectionHigh system numaHighBit - d + 1 = low :=
      ⟨(selectionHigh system numaHighBit - d + 1).toNat, by omega⟩
    rw [selected] at above ⊢
    obtain rfl | positive := Nat.eq_zero_or_pos low
    · have fails := started.not_interleaves sized memory some selected (by omega) (by omega) inside
      simp only [fails, false_iff]
      omega
    · have holds := started.interleaves sized memory some selected (by omega) (by omega) positive inside
      simp only [holds, true_iff]
      omega

end Interleaving

/-- Four directories for 4096 bytes in blocks of 64, selected by the bits 6 and 7. -/
theorem interleaves_iff_blocks : ∃ statics directories,
      startUp ⟨64, 6, 4096, 12⟩ (equalParams 12 2 7) = .ok (statics, directories) ∧
      Interleaves ⟨64, 6, 4096, 12⟩ statics directories := by
  have sized : RubySystem.Sized ⟨64, 6, 4096, 12⟩ := by constructor <;> decide
  obtain ⟨statics, directories, ran, exactly⟩ :=
    interleaves_iff (n := 12) (d := 2) sized 7 rfl (by decide) (by decide) (by decide)
  exact ⟨statics, directories, ran, exactly.mpr (.inr (by decide))⟩

/-- Four directories for 16 blocks of one byte, selected by the bits 0 and 1: address 14 is in
directory 2, which has 4 entries, and its index there is 14. -/
theorem selection_from_bit_zero :
    ∃ statics directories, startUp ⟨1, 0, 16, 4⟩ (equalParams 4 2 1) = .ok (statics, directories) ∧
      RubySystem.IsBlock ⟨1, 0, 16, 4⟩ 14 ∧ mapAddressToDirectoryVersion statics 14 = .ok 2 ∧
      mapAddressToLocalIdx ⟨1, 0, 16, 4⟩ statics 14 = .ok 14 ∧
      ∀ dir ∈ directories, dir.numEntries = 4 := by
  have ran : (startUp ⟨1, 0, 16, 4⟩ (equalParams 4 2 1)).toOption.any (fun (statics, directories) =>
      mapAddressToDirectoryVersion statics 14 = .ok 2 ∧
      mapAddressToLocalIdx ⟨1, 0, 16, 4⟩ statics 14 = .ok 14 ∧
      ∀ dir ∈ directories, dir.numEntries = 4) = true := by decide +kernel
  obtain ⟨⟨statics, directories⟩, ran, checked⟩ := any_toOption ran
  obtain ⟨version, idx, entries⟩ := of_decide_eq_true checked
  exact ⟨statics, directories, ran, ⟨by decide, Nat.one_dvd _⟩, version, idx, entries⟩

end DirectoryMemory
end SynchroTrace.Ruby
