import SynchroTrace.Lib.BitFields
import SynchroTrace.Lib.Outcome

namespace SynchroTrace.Ruby
open Outcome BitFields BitVec Nat

inductive MemoryFault where
  | assertion
  | nullPointer
  | outOfBounds
  | panic
  | divisionByZero
  deriving DecidableEq, Repr

inductive AccessPermission where
  | readOnly
  | readWrite
  | maybeStale
  | backingStore
  | invalid
  | notPresent
  | busy
  deriving DecidableEq, Repr

def leastSigBit (n : BitVec 32) : BitVec 32 := n &&& ~~~(n - 1)

def isPowerOf2 (n : BitVec 32) : Bool := n ≠ 0 && leastSigBit n = n

theorem isPowerOf2_pow {n : BitVec 32} (h : isPowerOf2 n = true) : ∃ k, n.toNat = 2 ^ k := by
  obtain ⟨nonzero, least⟩ := Bool.and_eq_true_iff.mp h
  have nonzero := of_decide_eq_true nonzero
  have least : n &&& ~~~(n - 1) = n := of_decide_eq_true least
  have positive : n.toNat ≠ 0 := by
    intro zero
    exact nonzero (eq_of_toNat_eq (by simpa using zero))
  have disjoint : n &&& (n - 1) = 0 := by
    calc n &&& (n - 1) = n &&& ~~~(n - 1) &&& (n - 1) := by rw [least]
      _ = 0 := by simp [BitVec.and_assoc]
  have before : (n - 1).toNat = n.toNat - 1 := by bv_omega
  have cleared : n.toNat &&& (n.toNat - 1) = 0 := by
    rw [← before, ← toNat_and, disjoint]
    simp
  exact (and_sub_one_eq_zero_iff_isPowerOfTwo positive).mp cleared

def log2Step (mask shift : Nat) (step : Nat × Nat) : Nat × Nat :=
  if step.2 &&& mask ≠ 0 then (step.1 + shift, step.2 >>> shift) else step

def floorLog2 (x : Nat) : Except MemoryFault Nat := do
  require (0 < x) .assertion
  let step := log2Step 0xffffffff00000000 32 (0, x)
  let step := log2Step 0x00000000ffff0000 16 step
  let step := log2Step 0x000000000000ff00 8 step
  let step := log2Step 0x00000000000000f0 4 step
  let step := log2Step 0x000000000000000c 2 step
  let step := log2Step 0x0000000000000002 1 step
  return step.1

theorem log2_div_pow {x s : Nat} (high : x / 2 ^ s ≠ 0) : x.log2 = s + (x / 2 ^ s).log2 := by
  have positive : x ≠ 0 := by
    rintro rfl
    exact high (Nat.zero_div _)
  obtain ⟨le, lt⟩ := (log2_eq_iff high).mp rfl
  refine (log2_eq_iff positive).mpr ⟨?_, ?_⟩
  · rw [Nat.pow_add, Nat.mul_comm]
    exact (Nat.le_div_iff_mul_le (Nat.two_pow_pos s)).mp le
  · rw [Nat.add_assoc, Nat.pow_add, Nat.mul_comm]
    exact (Nat.div_lt_iff_lt_mul (Nat.two_pow_pos s)).mp lt

/-- What the tests keep: the logarithm is that of the number that is left and the counted bits. -/
structure Log2 (x bits : Nat) (step : Nat × Nat) : Prop where
  positive : step.2 ≠ 0
  lt : step.2 < 2 ^ bits
  sum : step.1 + step.2.log2 = x.log2

theorem Log2.step {x : Nat} {y : Nat × Nat} (s mask : Nat) (before : Log2 x (s + s) y)
    (masked : mask = (2 ^ s - 1) * 2 ^ s) : Log2 x s (log2Step mask s y) := by
  obtain ⟨positive, lt, sum⟩ := before
  have small : y.2 / 2 ^ s < 2 ^ s := Nat.div_lt_of_lt_mul (by rwa [← Nat.pow_add])
  have test : y.2 &&& mask = y.2 / 2 ^ s * 2 ^ s := by
    rw [masked, and_field, mod_eq_of_lt small]
  rw [log2Step, test]
  split_ifs with high
  · rw [shiftRight_eq_div_pow]
    have nonzero : y.2 / 2 ^ s ≠ 0 := fun zero => high (by rw [zero, Nat.zero_mul])
    refine ⟨nonzero, small, ?_⟩
    have whole : y.2.log2 = s + (y.2 / 2 ^ s).log2 := log2_div_pow nonzero
    show y.1 + s + (y.2 / 2 ^ s).log2 = x.log2
    omega
  · have zero : y.2 / 2 ^ s = 0 := by
      by_contra nonzero
      exact high (Nat.mul_ne_zero nonzero (Nat.two_pow_pos s).ne')
    exact ⟨positive, (div_eq_zero_iff_lt (Nat.two_pow_pos s)).mp zero, sum⟩

theorem Log2.counted {x : Nat} {y : Nat × Nat} (last : Log2 x 1 y) : y.1 = x.log2 := by
  obtain ⟨positive, lt, sum⟩ := last
  have one : y.2 = 1 := by omega
  have zero : Nat.log2 1 = 0 := by decide
  rw [one, zero] at sum
  exact sum

theorem floorLog2_eq {x : Nat} (positive : 0 < x) (inside : x < 2 ^ 64) :
    floorLog2 x = .ok x.log2 := by
  have start : Log2 x (32 + 32) (0, x) := ⟨positive.ne', inside, Nat.zero_add _⟩
  have step := start.step 32 0xffffffff00000000 rfl
  have step := step.step 16 0x00000000ffff0000 rfl
  have step := step.step 8 0x000000000000ff00 rfl
  have step := step.step 4 0x00000000000000f0 rfl
  have step := step.step 2 0x000000000000000c rfl
  have step := step.step 1 0x0000000000000002 rfl
  rw [floorLog2, require_of positive, ok_bind]
  exact congrArg Except.ok step.counted

structure RubySystem where
  blockSizeBytes : Nat
  blockSizeBits : Nat
  memorySizeBytes : Nat
  memorySizeBits : Nat
  deriving DecidableEq, Repr

namespace RubySystem

def construct (blockSizeBytes : BitVec 32) (memorySizeBytes : BitVec 64) :
    Except MemoryFault RubySystem := do
  require (isPowerOf2 blockSizeBytes) .assertion
  require (0 < blockSizeBytes.toInt) .assertion
  let blockSizeBits ← floorLog2 blockSizeBytes.toNat
  let memorySizeBits ← (if memorySizeBytes = 0 then .ok 0 else floorLog2 memorySizeBytes.toNat)
  return { blockSizeBytes := blockSizeBytes.toNat, blockSizeBits
           memorySizeBytes := memorySizeBytes.toNat, memorySizeBits }

structure Sized (system : RubySystem) : Prop where
  block : system.blockSizeBytes = 2 ^ system.blockSizeBits
  blockBits : system.blockSizeBits < 31
  memory : system.memorySizeBytes < 2 ^ 64
  memoryBits : system.memorySizeBits = system.memorySizeBytes.log2

variable {system : RubySystem}

theorem Sized.memoryBits_lt (sized : system.Sized) :
    system.memorySizeBits < 64 := by
  rw [sized.memoryBits]
  by_cases none : system.memorySizeBytes = 0
  · rw [none]
    decide
  · exact (log2_lt none).mpr sized.memory

theorem construct_sized {blockSizeBytes : BitVec 32} {memorySizeBytes : BitVec 64}
    (built : construct blockSizeBytes memorySizeBytes = .ok system) :
    Sized system ∧ system.blockSizeBytes = blockSizeBytes.toNat ∧
      system.memorySizeBytes = memorySizeBytes.toNat := by
  obtain ⟨_, power, built⟩ := bind_ok built
  obtain ⟨_, positive, built⟩ := bind_ok built
  obtain ⟨blockSizeBits, blockBits, built⟩ := bind_ok built
  obtain ⟨memorySizeBits, memoryBits, built⟩ := bind_ok built
  obtain rfl := pure_ok built
  have positive := require_ok positive
  obtain ⟨k, block⟩ := isPowerOf2_pow (require_ok power)
  have inside : blockSizeBytes.toNat < 2 ^ 31 := by
    have bound := blockSizeBytes.isLt
    rw [toInt_eq_toNat_cond] at positive
    split at positive <;> omega
  rw [floorLog2_eq (by rw [block]; exact Nat.two_pow_pos k) (by omega), block,
    log2_two_pow] at blockBits
  obtain rfl := Except.ok.inj blockBits
  have few : k < 31 := (Nat.pow_lt_pow_iff_right (by decide)).mp (block ▸ inside)
  refine ⟨⟨block, few, memorySizeBytes.isLt, ?_⟩, rfl, rfl⟩
  split_ifs at memoryBits with zero
  · cases memoryBits
    rw [zero]
    rfl
  · have nonzero : memorySizeBytes.toNat ≠ 0 := by
      intro empty
      exact zero (eq_of_toNat_eq (by simpa using empty))
    rw [floorLog2_eq (Nat.pos_of_ne_zero nonzero) memorySizeBytes.isLt] at memoryBits
    cases memoryBits
    rfl

theorem construct_sized_lines : ∃ system, construct 64 512 = .ok system ∧ Sized system ∧
    system.blockSizeBytes = 64 ∧ system.memorySizeBytes = 512 := by
  have built : construct 64 512 = .ok ⟨64, 6, 512, 9⟩ := rfl
  exact ⟨_, built, construct_sized built⟩

end RubySystem

abbrev PhysAddress := BitVec 64

def addressWidth : Int := 64

namespace PhysAddress

variable (address : PhysAddress)

def bitSelect (small big : Int) : Except MemoryFault PhysAddress := do
  require (BitVec.ofInt 32 small ≤ BitVec.ofInt 32 big) .assertion
  if addressWidth - 1 ≤ big then
    return address >>> small.toNat
  else
    let mask := ~~~(BitVec.allOnes 64 <<< (big + 1).toNat)
    let partialBits := address &&& mask
    return partialBits >>> small.toNat

def bitRemove (small big : Int) : Except MemoryFault PhysAddress := do
  require (BitVec.ofInt 32 small ≤ BitVec.ofInt 32 big) .assertion
  if addressWidth - 1 ≤ small then
    return address
  else if addressWidth - 1 ≤ big then
    let mask := BitVec.allOnes 64 >>> small.toNat
    return address &&& mask
  else if small = 0 then
    let mask := BitVec.allOnes 64 <<< big.toNat
    return address &&& mask
  else
    let mask := ~~~(BitVec.allOnes 64 <<< small.toNat)
    let lowerBits := address &&& mask
    let mask := BitVec.allOnes 64 <<< (big + 1).toNat
    let higherBits := address &&& mask
    let higherBits := higherBits >>> (big - small + 1).toNat
    return higherBits ||| lowerBits

def maskLowOrderBits (number : Int) : PhysAddress :=
  let mask :=
    if addressWidth - 1 ≤ number then BitVec.allOnes 64 else BitVec.allOnes 64 <<< number.toNat
  address &&& mask

def lineAddress (system : RubySystem) (address : PhysAddress) : PhysAddress :=
  address.maskLowOrderBits system.blockSizeBits

def IsLine (system : RubySystem) (address : PhysAddress) : Prop :=
  address = address.lineAddress system

instance (system : RubySystem) (address : PhysAddress) : Decidable (address.IsLine system) :=
  inferInstanceAs (Decidable (_ = _))

variable {small big : Nat}

theorem isLine_iff {system : RubySystem} (sized : system.Sized) (address : PhysAddress) :
    address.IsLine system ↔ system.blockSizeBytes ∣ address.toNat := by
  have bits := sized.blockBits
  have small : ¬ addressWidth - 1 ≤ (system.blockSizeBits : Int) := by
    rw [addressWidth]
    omega
  rw [IsLine, lineAddress, maskLowOrderBits, if_neg small, Int.toNat_natCast, sized.block,
    ← toNat_inj, toNat_and_high]
  constructor
  · intro same
    exact Dvd.intro_left _ same.symm
  · intro aligned
    exact (Nat.div_mul_cancel aligned).symm

theorem ofInt_le (order : small ≤ big) (inside : big < 2 ^ 32) :
    BitVec.ofInt 32 small ≤ BitVec.ofInt 32 big := by
  simp only [le_def, BitVec.ofInt_natCast, BitVec.toNat_ofNat]
  omega

variable (address : PhysAddress)

theorem bitSelect_ok (order : small ≤ big) (inside : big < 64) :
    ∃ field, bitSelect address small big = .ok field ∧
      field.toNat = address.toNat / 2 ^ small % 2 ^ (big + 1 - small) := by
  have width : big + 1 = small + (big + 1 - small) := by omega
  rw [bitSelect, require_of (ofInt_le order (by omega)), ok_bind]
  split_ifs with high
  · refine ⟨_, rfl, ?_⟩
    have bound : address.toNat < 2 ^ small * 2 ^ (big + 1 - small) := by
      rw [addressWidth] at high
      rw [← Nat.pow_add, show small + (big + 1 - small) = 64 by omega]
      exact address.isLt
    rw [toNat_shiftRight, Int.toNat_natCast, mod_eq_of_lt (Nat.div_lt_of_lt_mul bound)]
  · refine ⟨_, rfl, ?_⟩
    have top : ((big : Int) + 1).toNat = big + 1 := by omega
    rw [toNat_shiftRight, toNat_and_low, top, Int.toNat_natCast, width, Nat.pow_add,
      mod_mul_right_div_self, Nat.add_sub_cancel_left]

theorem exists_bitSelect (order : small ≤ big) (inside : big < 2 ^ 32) :
    ∃ field, bitSelect address small big = .ok field := by
  rw [bitSelect, require_of (ofInt_le order inside), ok_bind]
  split_ifs
  · exact ⟨_, rfl⟩
  · exact ⟨_, rfl⟩

theorem bitRemove_ok (order : small ≤ big) (inside : big < 63) (positive : 0 < small) :
    ∃ rest, bitRemove address small big = .ok rest ∧
      rest.toNat = address.toNat / 2 ^ (big + 1) * 2 ^ small + address.toNat % 2 ^ small := by
  have low : ¬ addressWidth - 1 ≤ (small : Int) := by
    rw [addressWidth]
    omega
  have high : ¬ addressWidth - 1 ≤ (big : Int) := by
    rw [addressWidth]
    omega
  rw [bitRemove, require_of (ofInt_le order (by omega)), ok_bind, if_neg low, if_neg high,
    if_neg (by omega)]
  refine ⟨_, rfl, ?_⟩
  have top : ((big : Int) + 1).toNat = big + 1 := by omega
  have gap : ((big : Int) - small + 1).toNat = big + 1 - small := by omega
  have width : big + 1 = small + (big + 1 - small) := by omega
  have lower : address.toNat % 2 ^ small < 2 ^ small := mod_lt _ (Nat.two_pow_pos _)
  rw [toNat_or, toNat_shiftRight, toNat_and_low, toNat_and_high, top, gap, Int.toNat_natCast]
  have shifted : address.toNat / 2 ^ (big + 1) * 2 ^ (big + 1) / 2 ^ (big + 1 - small) =
      2 ^ small * (address.toNat / 2 ^ (big + 1)) := by
    have split : 2 ^ (big + 1) = 2 ^ small * 2 ^ (big + 1 - small) := by
      rw [← Nat.pow_add, ← width]
    nth_rewrite 2 [split]
    rw [← Nat.mul_assoc, Nat.mul_div_cancel _ (Nat.two_pow_pos _), Nat.mul_comm]
  rw [shifted, ← two_pow_add_eq_or_of_lt lower, Nat.mul_comm]

/-- A field that begins at bit 0 is not removed: its top bit stays and nothing is shifted. -/
theorem bitRemove_zero (inside : big < 63) :
    ∃ rest, bitRemove address 0 big = .ok rest ∧
      rest.toNat = address.toNat / 2 ^ big * 2 ^ big := by
  have high : ¬ addressWidth - 1 ≤ (big : Int) := by
    rw [addressWidth]
    omega
  have order : BitVec.ofInt 32 0 ≤ BitVec.ofInt 32 big := ofInt_le (Nat.zero_le big) (by omega)
  rw [bitRemove, require_of order, ok_bind, if_neg (by decide), if_neg high, if_pos rfl]
  refine ⟨_, rfl, ?_⟩
  rw [toNat_and_high, Int.toNat_natCast]

/-- `bitRemove` of the field removes it and shifts the bits above it down. -/
def ClosesGap (small big : Nat) : Prop :=
  ∀ address, ∃ rest, bitRemove address small big = .ok rest ∧
    rest.toNat = address.toNat / 2 ^ (big + 1) * 2 ^ small + address.toNat % 2 ^ small

theorem bitRemove_upper_half : ClosesGap 32 63 := by
  intro address
  refine ⟨_, rfl, ?_⟩
  have bound := address.isLt
  rw [show BitVec.allOnes 64 >>> Int.toNat (32 : Nat) = ~~~(BitVec.allOnes 64 <<< 32) by decide,
    toNat_and_low, Nat.div_eq_of_lt bound, Nat.zero_mul, Nat.zero_add]

theorem bitRemove_one_bit : ∀ small : Nat, small < 64 → small ≠ 32 →
    ¬ ∀ k : Nat, k < 64 → (bitRemove (1#64 <<< k) small 63).map BitVec.toNat =
      .ok ((1#64 <<< k).toNat % 2 ^ small) := by
  decide +kernel

/-- A field is removed exactly if it begins above bit 0 and ends below bit 63, or is the upper half
of the address; the field and what is left then determine the address. -/
theorem bitRemove_closes_gap (order : small ≤ big) (inside : big < 64) :
    (ClosesGap small big ↔ 0 < small ∧ big < 63 ∨ small = 32 ∧ big = 63) ∧
    (ClosesGap small big → ∀ address, ∃ field rest, bitSelect address small big = .ok field ∧
      bitRemove address small big = .ok rest ∧ ∀ other, bitSelect other small big = .ok field →
        bitRemove other small big = .ok rest → other = address) := by
  refine ⟨⟨fun closes => ?_, ?_⟩, fun closes address => ?_⟩
  · by_cases top : big = 63
    · subst top
      by_contra outside
      apply bitRemove_one_bit small (by omega) (by omega)
      intro k _
      obtain ⟨rest, removes, left⟩ := closes (1#64 <<< k)
      rw [Nat.div_eq_of_lt (isLt _), Nat.zero_mul, Nat.zero_add] at left
      rw [← left]
      exact congrArg _ removes
    · refine .inl ⟨Nat.pos_of_ne_zero ?_, by omega⟩
      rintro rfl
      obtain ⟨rest, removes, left⟩ := closes (twoPow 64 big)
      obtain ⟨kept, same, value⟩ := bitRemove_zero (twoPow 64 big) (show big < 63 by omega)
      cases same.symm.trans removes
      have bit : (twoPow 64 big).toNat = 2 ^ big := toNat_twoPow_of_lt (by omega)
      rw [left, bit, Nat.div_eq_of_lt (Nat.pow_lt_pow_succ (by decide)),
        Nat.div_self (Nat.two_pow_pos big), Nat.pow_zero, Nat.mod_one] at value
      have positive := Nat.two_pow_pos big
      omega
  · rintro (⟨positive, below⟩ | ⟨rfl, rfl⟩)
    · exact fun address => bitRemove_ok address order below positive
    · exact bitRemove_upper_half
  · have gap (x : Nat) : closeGap x small (big + 1 - small) =
        x / 2 ^ (big + 1) * 2 ^ small + x % 2 ^ small := by
      rw [closeGap, Nat.div_div_eq_div_mul, ← Nat.pow_add,
        show small + (big + 1 - small) = big + 1 by omega]
    obtain ⟨field, selects, value⟩ := bitSelect_ok address order inside
    obtain ⟨rest, removes, left⟩ := closes address
    refine ⟨field, rest, selects, removes, fun other selects' removes' => ?_⟩
    obtain ⟨field', same, value'⟩ := bitSelect_ok other order inside
    cases same.symm.trans selects'
    obtain ⟨rest', same, left'⟩ := closes other
    cases same.symm.trans removes'
    apply eq_of_toNat_eq
    apply eq_of_closeGap (value'.symm.trans value)
    rw [gap, gap, ← left', left]

theorem bitRemove_closes_gap_middle : ClosesGap 4 7 ∧ ∃ rest, bitRemove 0xabcd 4 7 = .ok rest ∧
    rest.toNat = 0xabd := by
  have closes : ClosesGap 4 7 :=
    (@bitRemove_closes_gap 4 7 (by decide) (by decide)).1.mpr (.inl (by decide))
  exact ⟨closes, closes 0xabcd⟩

/-- A field at bit 0, a field that ends at bit 63 and bit 63 alone stay in the address. -/
theorem bitRemove_keeps_field : bitRemove 1 0 0 = .ok 1 ∧ 1 / 2 ^ 1 * 2 ^ 0 + 1 % 2 ^ 0 = 0 ∧
    bitRemove 6 1 63 = .ok 6 ∧ 6 / 2 ^ 64 * 2 ^ 1 + 6 % 2 ^ 1 = 0 ∧
    bitRemove (1#64 <<< 63) 63 63 = .ok (1#64 <<< 63) ∧
      2 ^ 63 / 2 ^ 64 * 2 ^ 63 + 2 ^ 63 % 2 ^ 63 = 0 := by
  decide

end PhysAddress

/-- The address of a block of the memory. -/
def RubySystem.IsBlock (system : RubySystem) (address : PhysAddress) : Prop :=
  address.toNat < system.memorySizeBytes ∧ system.blockSizeBytes ∣ address.toNat

end SynchroTrace.Ruby
