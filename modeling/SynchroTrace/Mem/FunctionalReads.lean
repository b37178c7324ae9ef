import SynchroTrace.Ruby.Address

namespace SynchroTrace.Mem.Functional
open Outcome BitVec Option
open Ruby (MemoryFault)

inductive Command where
  | print
  | read
  | write
  | other
  deriving DecidableEq

/-- A packet with a buffer of its own. -/
structure Packet where
  command : Command
  addr : BitVec 64
  size : BitVec 32
  data : Nat → BitVec 8
  bytesValidStart : BitVec 16
  bytesValidEnd : BitVec 16

/-- A buffered value. The size is an `int`; a packet that has no data passes a null pointer. -/
structure Value where
  addr : BitVec 64
  size : BitVec 32
  data : Option (Nat → BitVec 8)

def toInt (x : BitVec 64) : Int := (x.setWidth 32).toInt

/-- The arrays have `destSize` and `srcSize` bytes. -/
def memcpy (dest : Nat → BitVec 8) (destSize : Nat) (destOffset : Int) (src : Nat → BitVec 8)
    (srcSize : Nat) (srcOffset count : Int) : Except MemoryFault (Nat → BitVec 8) := do
  require (0 ≤ destOffset ∧ 0 ≤ srcOffset ∧ 0 ≤ count ∧ destOffset + count ≤ destSize ∧
    srcOffset + count ≤ srcSize) .outOfBounds
  return fun i => if destOffset ≤ i ∧ i < destOffset + count
    then src (srcOffset + (i - destOffset)).toNat else dest i

structure Overlap where
  valOffset : Int
  funcOffset : Int
  size : Int

def overlap (funcStart funcEnd valStart valEnd : BitVec 64) (size : Int) :
    Except MemoryFault Overlap :=
  if valStart < funcStart ∧ valEnd ≤ funcEnd then
    .ok ⟨toInt (funcStart - valStart), 0, toInt (valEnd - funcStart)⟩
  else if valStart ≥ funcStart ∧ valEnd > funcEnd then
    .ok ⟨0, toInt (valStart - funcStart), toInt (funcEnd - valStart)⟩
  else if valStart ≥ funcStart ∧ valEnd ≤ funcEnd then
    .ok ⟨0, toInt (valStart - funcStart), size⟩
  else .error .panic

namespace Packet

/-- How much of the overlap is to be copied, so that no byte found before is overwritten. -/
def extend (pkt : Packet) (data : Nat → BitVec 8) (size : Nat) (o : Overlap) :
    Except MemoryFault (Packet × Overlap) :=
  if pkt.bytesValidStart = 0 ∧ pkt.bytesValidEnd = 0 then
    .ok ({ pkt with
      bytesValidStart := .ofInt 16 o.funcOffset
      bytesValidEnd := .ofInt 16 (o.funcOffset + o.size) }, o)
  else
    let first : Int := pkt.bytesValidStart.toNat
    let last : Int := pkt.bytesValidEnd.toNat
    let a := o.funcOffset - first
    let b := o.funcOffset + o.size - last
    let c := o.funcOffset - last
    let d := o.funcOffset + o.size - first
    let behind : Overlap := ⟨o.valOffset + (last - o.funcOffset), last, o.funcOffset + o.size - last⟩
    if a ≥ 0 ∧ b ≤ 0 then .ok (pkt, { o with size := 0 })
    else if a < 0 ∧ d ≥ 0 ∧ b ≤ 0 then
      .ok ({ pkt with bytesValidStart := .ofInt 16 o.funcOffset },
        { o with size := first - o.funcOffset })
    else if b > 0 ∧ c ≤ 0 ∧ a ≥ 0 then
      .ok ({ pkt with bytesValidEnd := .ofInt 16 (last + behind.size) }, behind)
    else if a < 0 ∧ b > 0 then do
      let bytes ← memcpy pkt.data pkt.size.toNat o.funcOffset data size o.valOffset
        (first - o.funcOffset)
      return ({ pkt with
        data := bytes
        bytesValidStart := .ofInt 16 o.funcOffset
        bytesValidEnd := .ofInt 16 (last + behind.size) }, behind)
    else if (c > 0 ∧ b > 0) ∨ (a < 0 ∧ d < 0) then .error .panic
    else .ok (pkt, o)

/-- Whether the packet is satisfied, with the packet and the value that are left. -/
def checkFunctional (pkt : Packet) (value : Value) : Except MemoryFault (Bool × Packet × Value) :=
  let funcStart := pkt.addr
  let funcEnd := pkt.addr + pkt.size.setWidth 64 - 1
  let valStart := value.addr
  let valEnd := value.addr + value.size.signExtend 64 - 1
  if funcStart > valEnd ∨ valStart > funcEnd ∨ pkt.command = .print then .ok (false, pkt, value)
  else match value.data with
    | none => .ok (false, pkt, value)
    | some data =>
      let offset := toInt (funcStart - valStart)
      match pkt.command with
      | .read =>
        if funcStart ≥ valStart ∧ funcEnd ≤ valEnd then do
          let bytes ← memcpy pkt.data pkt.size.toNat 0 data value.size.toNat offset pkt.size.toNat
          return (true, { pkt with data := bytes }, value)
        else do
          let found ← overlap funcStart funcEnd valStart valEnd value.size.toInt
          let (pkt, part) ← pkt.extend data value.size.toNat found
          require (pkt.bytesValidEnd.toNat ≤ pkt.size.toNat) .assertion
          let bytes ← memcpy pkt.data pkt.size.toNat part.funcOffset data value.size.toNat
            part.valOffset part.size
          let done := pkt.bytesValidStart = 0 ∧ pkt.bytesValidEnd.toNat = pkt.size.toNat
          return (done, { pkt with data := bytes }, value)
      | .write => do
        let last := if funcEnd ≤ valEnd then funcEnd else valEnd
        let bytes ← if offset ≥ 0 then
            memcpy data value.size.toNat offset pkt.data pkt.size.toNat 0 (last - funcStart + 1).toNat
          else
            memcpy data value.size.toNat 0 pkt.data pkt.size.toNat (-offset)
              (last - valStart + 1).toNat
        return (false, pkt, { value with data := some bytes })
      | _ => .error .panic

/-- The loop over the values that are buffered, as `PacketQueue` and the lists of an MSHR have it.
What is left of the values of a read are the values. -/
def checkAll (pkt : Packet) : List Value → Except MemoryFault (Bool × Packet)
  | [] => .ok (false, pkt)
  | value :: rest => do
    let (found, pkt, _) ← pkt.checkFunctional value
    if found then return (true, pkt) else checkAll pkt rest

end Packet

def Value.byte (value : Value) (addr : BitVec 64) (i : Nat) : Option (BitVec 8) :=
  if value.addr.toNat ≤ addr.toNat + i ∧ addr.toNat + i < value.addr.toNat + value.size.toNat then
    value.data.map (· (addr.toNat + i - value.addr.toNat))
  else none

/-- Byte `i` of a read, from the first value that has it. -/
def firstByte (addr : BitVec 64) (values : List Value) (i : Nat) : Option (BitVec 8) :=
  values.findSome? (·.byte addr i)

def Contiguous (pkt : Packet) (values : List Value) : Prop :=
  ∀ i j k, i ≤ j → j ≤ k → k < pkt.size.toNat → (firstByte pkt.addr values i).isSome →
    (firstByte pkt.addr values k).isSome → (firstByte pkt.addr values j).isSome

/-- A value that is not empty, and misses the read, or is a proper part of it, or contains it with
the bytes that have been found. -/
structure Suits (pkt : Packet) (before : List Value) (value : Value) : Prop where
  size : 0 < value.size.toInt
  wraps : value.addr.toNat + value.size.toNat ≤ 2 ^ 64
  place : value.addr.toNat + value.size.toNat ≤ pkt.addr.toNat ∨
    pkt.addr.toNat + pkt.size.toNat ≤ value.addr.toNat ∨
    (pkt.addr.toNat ≤ value.addr.toNat ∧ value.size.toNat < pkt.size.toNat ∧
      value.addr.toNat + value.size.toNat ≤ pkt.addr.toNat + pkt.size.toNat ∧
      value.addr.toNat + value.size.toNat < pkt.addr.toNat + 2 ^ 16) ∨
    (value.addr.toNat ≤ pkt.addr.toNat ∧
      pkt.addr.toNat + pkt.size.toNat ≤ value.addr.toNat + value.size.toNat ∧
      ∀ i < pkt.size.toNat, ∀ b, firstByte pkt.addr before i = some b →
        ∀ b' ∈ value.byte pkt.addr i, b' = b)

/-- A read as it is constructed. -/
structure Fresh (pkt : Packet) : Prop where
  command : pkt.command = .read
  size : 0 < pkt.size.toNat
  wraps : pkt.addr.toNat + pkt.size.toNat ≤ 2 ^ 64
  valid : pkt.bytesValidStart = 0 ∧ pkt.bytesValidEnd = 0

/-- The bytes that have been found are in the packet, and the range is theirs. -/
structure Assembled (start pkt : Packet) (values : List Value) : Prop where
  same : pkt.command = start.command ∧ pkt.addr = start.addr ∧ pkt.size = start.size
  bytes : ∀ i < start.size.toNat, ∀ b, firstByte start.addr values i = some b → pkt.data i = b
  range : ∀ i < start.size.toNat, (firstByte start.addr values i).isSome ↔
    pkt.bytesValidStart.toNat ≤ i ∧ i < pkt.bytesValidEnd.toNat
  proper : pkt.bytesValidStart = 0 ∧ pkt.bytesValidEnd = 0 ∨
    pkt.bytesValidStart.toNat < pkt.bytesValidEnd.toNat
  inside : pkt.bytesValidEnd.toNat ≤ start.size.toNat

theorem firstByte_append (addr : BitVec 64) (values more : List Value) (i : Nat) :
    firstByte addr (values ++ more) i = (firstByte addr values i).or (firstByte addr more i) :=
  List.findSome?_append

theorem firstByte_one (addr : BitVec 64) (value : Value) (i : Nat) :
    firstByte addr [value] i = value.byte addr i := by
  rw [firstByte, List.findSome?_cons]
  cases value.byte addr i <;> rfl

theorem memcpy_of {dest src : Nat → BitVec 8} {d f n srcSize destSize : Nat} {x y z : Int}
    (isDest : x = d) (isSource : y = f) (isCount : z = n) (room : d + n ≤ destSize)
    (there : f + n ≤ srcSize) : memcpy dest destSize x src srcSize y z =
      .ok fun i => if d ≤ i ∧ i < d + n then src (f + i - d) else dest i := by
  subst isDest isSource isCount
  rw [memcpy, require_of (by omega), ok_bind]
  refine congrArg Except.ok (funext fun i => ?_)
  by_cases within : d ≤ i ∧ i < d + n
  · rw [if_pos (by omega), if_pos within]
    congr 1
    omega
  · rw [if_neg (by omega), if_neg within]

section Words
variable {a b : BitVec 64} {size : BitVec 32}

theorem toNat_last (positive : 0 < size.toNat) (wraps : a.toNat + size.toNat ≤ 2 ^ 64) :
    (a + size.setWidth 64 - 1).toNat = a.toNat + size.toNat - 1 := by
  have := a.isLt
  rw [toNat_sub, toNat_add, toNat_setWidth,
    Nat.mod_eq_of_lt (show size.toNat < 2 ^ 64 by omega), show (1 : BitVec 64).toNat = 1 from rfl]
  omega

theorem toInt_sub (le : b.toNat ≤ a.toNat) (small : a.toNat - b.toNat < 2 ^ 31) :
    toInt (a - b) = (a.toNat - b.toNat : Nat) := by
  have difference : (a - b).toNat = a.toNat - b.toNat := toNat_sub_of_le le
  rw [toInt, toInt_eq_toNat_of_lt, toNat_setWidth, difference]
  · congr 1
    omega
  · rw [toNat_setWidth, difference]
    omega

theorem signExtend_of_pos (positive : 0 < size.toInt) :
    size.signExtend 64 = size.setWidth 64 ∧ size.toInt = size.toNat ∧ 0 < size.toNat ∧
      size.toNat < 2 ^ 31 := by
  have small : size.toNat < 2 ^ 31 := by
    by_contra large
    rw [toInt_eq_toNat_cond] at positive
    split at positive <;> omega
  have msb : size.msb = false := by
    rw [msb_eq_decide]
    simpa using small
  have same := toInt_eq_toNat_of_msb msb
  exact ⟨signExtend_eq_setWidth_of_msb_false msb, same, by omega, small⟩

theorem toNat_ofInt {k : Int} {n : Nat} (same : k = n) (small : n < 2 ^ 16) :
    (BitVec.ofInt 16 k).toNat = n := by
  rw [same, BitVec.ofInt_natCast, BitVec.toNat_ofNat, Nat.mod_eq_of_lt small]

end Words

theorem overlap_inside {funcStart funcEnd valStart valEnd : BitVec 64} (size : Int)
    (above : funcStart.toNat ≤ valStart.toNat) (within : valEnd.toNat ≤ funcEnd.toNat) :
    overlap funcStart funcEnd valStart valEnd size =
      .ok ⟨0, toInt (valStart - funcStart), size⟩ := by
  simp only [overlap, lt_def, le_def, gt_iff_lt, ge_iff_le]
  rw [if_neg (by omega), if_neg (by omega), if_pos ⟨above, within⟩]

/-- The packet `next` has found the bytes from `d` to `d + n` beside those of `pkt`. -/
structure Extended (pkt next : Packet) (data : Nat → BitVec 8) (d n : Nat) : Prop where
  same : next.command = pkt.command ∧ next.addr = pkt.addr ∧ next.size = pkt.size
  range : ∀ i, next.bytesValidStart.toNat ≤ i ∧ i < next.bytesValidEnd.toNat ↔
    pkt.bytesValidStart.toNat ≤ i ∧ i < pkt.bytesValidEnd.toNat ∨ d ≤ i ∧ i < d + n
  proper : next.bytesValidStart.toNat < next.bytesValidEnd.toNat
  inside : next.bytesValidEnd.toNat ≤ pkt.size.toNat
  bytes : ∀ i, next.data i = if (d ≤ i ∧ i < d + n) ∧
    ¬ (pkt.bytesValidStart.toNat ≤ i ∧ i < pkt.bytesValidEnd.toNat) then data (i - d) else pkt.data i

theorem exists_extended {pkt : Packet} (data : Nat → BitVec 8) {d n : Nat}
    (small : d + n < 2 ^ 16) (some : 0 < n) (room : d + n ≤ pkt.size.toNat)
    (proper : pkt.bytesValidStart = 0 ∧ pkt.bytesValidEnd = 0 ∨
      pkt.bytesValidStart.toNat < pkt.bytesValidEnd.toNat ∧ d ≤ pkt.bytesValidEnd.toNat ∧
      pkt.bytesValidStart.toNat ≤ d + n)
    (inside : pkt.bytesValidEnd.toNat ≤ pkt.size.toNat) :
    ∃ ext part bytes, pkt.extend data n ⟨0, d, n⟩ = .ok (ext, part) ∧
      memcpy ext.data pkt.size.toNat part.funcOffset data n part.valOffset part.size = .ok bytes ∧
      Extended pkt { ext with data := bytes } data d n := by
  have start := toNat_ofInt (k := d) rfl (show d < 2 ^ 16 by omega)
  rw [Packet.extend]
  by_cases fresh : pkt.bytesValidStart = 0 ∧ pkt.bytesValidEnd = 0
  · have stop := toNat_ofInt (k := d + n) (n := d + n) rfl (by omega)
    have zero : (0 : BitVec 16).toNat = 0 := rfl
    rw [if_pos fresh]
    refine ⟨_, _, _, rfl, memcpy_of (f := 0) rfl rfl rfl room (by omega), ⟨rfl, rfl, rfl⟩,
      fun i => ?_, ?_, ?_, fun i => if_congr ?_ (congrArg data (by omega)) rfl⟩ <;>
      simp only [start, stop, fresh.1, fresh.2, zero] <;> omega
  obtain ⟨nonempty, notRight, notLeft⟩ := proper.resolve_left fresh
  have stop := toNat_ofInt (k := pkt.bytesValidEnd.toNat + (d + n - pkt.bytesValidEnd.toNat))
    (n := d + n) (by omega) (by omega)
  rw [if_neg fresh]
  -- the part before the bytes that were found, and the part behind them
  have front (before : d ≤ pkt.bytesValidStart.toNat) :
      memcpy pkt.data pkt.size.toNat d data n 0 (pkt.bytesValidStart.toNat - d) = _ :=
    memcpy_of (f := 0) (n := pkt.bytesValidStart.toNat - d) rfl rfl (by omega) (by omega) (by omega)
  have back (dest : Nat → BitVec 8) (behind : pkt.bytesValidEnd.toNat ≤ d + n) :
      memcpy dest pkt.size.toNat pkt.bytesValidEnd.toNat data n (0 + (pkt.bytesValidEnd.toNat - d))
        (d + n - pkt.bytesValidEnd.toNat) = _ :=
    memcpy_of (f := pkt.bytesValidEnd.toNat - d) (n := d + n - pkt.bytesValidEnd.toNat) rfl
      (by omega) (by omega) (by omega) (by omega)
  dsimp only
  split_ifs with covered left right both apart
  · refine ⟨_, _, _, rfl, memcpy_of (f := 0) (n := 0) rfl rfl rfl (by omega) (by omega),
      ⟨rfl, rfl, rfl⟩, fun i => ?_, nonempty, inside,
      fun i => if_congr (by omega) (congrArg data (by omega)) rfl⟩
    dsimp only
    omega
  · refine ⟨_, _, _, rfl, front (by omega), ⟨rfl, rfl, rfl⟩, fun i => ?_, ?_, inside,
      fun i => if_congr (by omega) (congrArg data (by omega)) rfl⟩ <;> simp only [start] <;> omega
  · refine ⟨_, _, _, rfl, back _ (by omega), ⟨rfl, rfl, rfl⟩, fun i => ?_, ?_, ?_,
      fun i => if_congr (by omega) (congrArg data (by omega)) rfl⟩ <;> simp only [stop] <;> omega
  · rw [front (by omega), ok_bind]
    refine ⟨_, _, _, rfl, back _ (by omega), ⟨rfl, rfl, rfl⟩, fun i => ?_, ?_, ?_, fun i => ?_⟩ <;>
      simp only [start, stop]
    · omega
    · omega
    · exact room
    · split_ifs <;> first | rfl | omega | (congr 1; omega)
  · omega
  · omega

section Reads
variable {start pkt : Packet} {values : List Value} {value : Value}

def Complete (start : Packet) (values : List Value) : Prop :=
  ∀ i < start.size.toNat, (firstByte start.addr values i).isSome

theorem Assembled.complete_iff (assembled : Assembled start pkt values)
    (nonempty : 0 < start.size.toNat) :
    Complete start values ↔
      pkt.bytesValidStart = 0 ∧ pkt.bytesValidEnd.toNat = start.size.toNat := by
  have inside := assembled.inside
  constructor
  · intro complete
    have first := (assembled.range 0 nonempty).mp (complete 0 nonempty)
    have last := (assembled.range _ (Nat.sub_one_lt_of_lt nonempty)).mp
      (complete _ (Nat.sub_one_lt_of_lt nonempty))
    exact ⟨eq_of_toNat_eq (Nat.le_zero.mp first.1), by omega⟩
  · rintro ⟨first, last⟩ i inside
    rw [assembled.range i inside, first, last]
    exact ⟨Nat.zero_le i, inside⟩

/-- What a call leaves, and whether it returns true. -/
structure Checked (start next : Packet) (values : List Value) (found : Bool) : Prop where
  complete : found = true ↔ Complete start values
  bytes : ∀ i < start.size.toNat, ∀ b, firstByte start.addr values i = some b → next.data i = b
  assembled : found = false → Assembled start next values

theorem Assembled.miss (assembled : Assembled start pkt values) (lacks : ¬ Complete start values)
    (none : ∀ i < start.size.toNat, value.byte start.addr i = none) :
    Checked start pkt (values ++ [value]) false := by
  have first : ∀ i < start.size.toNat, firstByte start.addr (values ++ [value]) i =
      firstByte start.addr values i := by
    intro i inside
    rw [firstByte_append, firstByte_one, none i inside, or_none]
  have bytes : ∀ i < start.size.toNat, ∀ b, firstByte start.addr (values ++ [value]) i = some b →
      pkt.data i = b := fun i inside b found => assembled.bytes i inside b (first i inside ▸ found)
  refine ⟨⟨nofun, fun complete => absurd (fun i inside => ?_) lacks⟩, bytes, fun _ =>
    ⟨assembled.same, bytes, fun i inside => ?_, assembled.proper, assembled.inside⟩⟩
  · exact first i inside ▸ complete i inside
  · rw [first i inside]
    exact assembled.range i inside

theorem byte_of_above {data : Nat → BitVec 8} (has : value.data = some data)
    (above : start.addr.toNat ≤ value.addr.toNat) (i : Nat) : value.byte start.addr i =
      if value.addr.toNat - start.addr.toNat ≤ i ∧
        i < value.addr.toNat - start.addr.toNat + value.size.toNat
      then some (data (i - (value.addr.toNat - start.addr.toNat))) else none := by
  rw [Value.byte, has]
  refine if_congr (by omega) ?_ rfl
  rw [map_some]
  congr 2
  omega

section
variable {data : Nat → BitVec 8} (assembled : Assembled start pkt values)
  (has : value.data = some data) (above : start.addr.toNat ≤ value.addr.toNat)
include assembled has above

theorem Assembled.covered_iff {i : Nat} (inside : i < start.size.toNat) :
    (firstByte start.addr (values ++ [value]) i).isSome ↔
      pkt.bytesValidStart.toNat ≤ i ∧ i < pkt.bytesValidEnd.toNat ∨
        value.addr.toNat - start.addr.toNat ≤ i ∧
          i < value.addr.toNat - start.addr.toNat + value.size.toNat := by
  rw [firstByte_append, firstByte_one, isSome_or, Bool.or_eq_true,
    assembled.range i inside, byte_of_above has above]
  split_ifs with new
  · simp [new]
  · simp only [new, isSome_none, Bool.false_eq_true]

theorem Assembled.extend {next : Packet}
    (extended : Extended pkt next data (value.addr.toNat - start.addr.toNat) value.size.toNat) :
    Assembled start next (values ++ [value]) := by
  obtain ⟨command, addr, size⟩ := extended.same
  obtain ⟨command', addr', size'⟩ := assembled.same
  refine ⟨⟨command.trans command', addr.trans addr', size.trans size'⟩, fun i inside b => ?_,
    fun i inside => ?_, .inr extended.proper, size' ▸ extended.inside⟩
  · rw [firstByte_append, firstByte_one, byte_of_above has above, extended.bytes i]
    have range := assembled.range i inside
    cases found : firstByte start.addr values i with
    | some =>
      rintro ⟨⟩
      rw [found] at range
      rw [if_neg fun new => new.2 (range.mp rfl)]
      exact assembled.bytes i inside b found
    | none =>
      rw [found] at range
      simp only [← range, none_or, isSome_none, Bool.false_eq_true, not_false_eq_true, and_true]
      split_ifs
      · exact fun same => Option.some.inj same
      · exact nofun
  · rw [assembled.covered_iff has above inside, extended.range]

theorem Assembled.touches {d : Nat} (place : value.addr.toNat - start.addr.toNat = d)
    (nonempty : 0 < value.size.toNat) (room : d + value.size.toNat ≤ start.size.toNat)
    (contiguous : Contiguous start (values ++ [value])) :
    pkt.bytesValidStart = 0 ∧ pkt.bytesValidEnd = 0 ∨
      pkt.bytesValidStart.toNat < pkt.bytesValidEnd.toNat ∧ d ≤ pkt.bytesValidEnd.toNat ∧
        pkt.bytesValidStart.toNat ≤ d + value.size.toNat := by
  have inside := assembled.inside
  have covered i (within : i < start.size.toNat) := assembled.covered_iff has above within
  simp only [place] at covered
  refine assembled.proper.imp_right fun proper => ⟨proper, ?_, ?_⟩
  · by_contra gap
    have between := contiguous (pkt.bytesValidEnd.toNat - 1) pkt.bytesValidEnd.toNat d (by omega)
      (by omega) (by omega) ((covered _ (by omega)).mpr (by omega))
      ((covered _ (by omega)).mpr (by omega))
    have := (covered _ (by omega)).mp between
    omega
  · by_contra gap
    have between := contiguous (d + value.size.toNat - 1) (d + value.size.toNat)
      pkt.bytesValidStart.toNat (by omega) (by omega) (by omega)
      ((covered _ (by omega)).mpr (by omega)) ((covered _ (by omega)).mpr (by omega))
    have := (covered _ (by omega)).mp between
    omega

end

theorem firstByte_of_contains {data : Nat → BitVec 8} (has : value.data = some data)
    (below : value.addr.toNat ≤ start.addr.toNat) {i : Nat}
    (inside : start.addr.toNat + i < value.addr.toNat + value.size.toNat)
    (agrees : ∀ b, firstByte start.addr values i = some b →
      ∀ b' ∈ value.byte start.addr i, b' = b) :
    firstByte start.addr (values ++ [value]) i =
      some (data (start.addr.toNat - value.addr.toNat + i)) := by
  have own : value.byte start.addr i = some (data (start.addr.toNat - value.addr.toNat + i)) := by
    rw [Value.byte, if_pos (by omega), has, map_some, Nat.sub_add_comm below]
  rw [firstByte_append, firstByte_one, own]
  cases found : firstByte start.addr values i with
  | none => rfl
  | some b => exact congrArg some (agrees b found _ own).symm

theorem Assembled.check (fresh : Fresh start) (assembled : Assembled start pkt values)
    (lacks : ¬ Complete start values) (suits : Suits start values value)
    (contiguous : Contiguous start (values ++ [value])) :
    ∃ found next, pkt.checkFunctional value = .ok (found, next, value) ∧
      Checked start next (values ++ [value]) found := by
  obtain ⟨extends_, size, nonempty, small⟩ := signExtend_of_pos suits.size
  have someSize := fresh.size
  obtain ⟨command, addr, sizes⟩ := assembled.same
  rw [fresh.command] at command
  have funcEnd := toNat_last someSize fresh.wraps
  have valEnd := toNat_last nonempty suits.wraps
  simp only [Packet.checkFunctional, command, addr, sizes, extends_, size, gt_iff_lt, ge_iff_le,
    lt_def, le_def, funcEnd, valEnd, reduceCtorEq, or_false]
  by_cases meets : value.addr.toNat + value.size.toNat ≤ start.addr.toNat ∨
      start.addr.toNat + start.size.toNat ≤ value.addr.toNat
  · rw [if_pos (by omega)]
    refine ⟨_, _, rfl, assembled.miss lacks fun i inside => if_neg (by omega)⟩
  rw [if_neg (by omega)]
  cases has : value.data with
  | none => exact ⟨_, _, rfl, assembled.miss lacks fun i inside => by simp [Value.byte, has]⟩
  | some data =>
    obtain below | above | ⟨above, less, within, near⟩ |
      ⟨below, contains, agrees⟩ := suits.place
    · omega
    · omega
    · have offset := toInt_sub (a := value.addr) (b := start.addr) above (by omega)
      have touches := assembled.touches has above rfl nonempty (by omega) contiguous
      obtain ⟨ext, part, bytes, extends_, copies, extended⟩ := exists_extended data
        (by omega) nonempty (by rw [sizes]; omega) touches (sizes ▸ assembled.inside)
      have after := assembled.extend has above extended
      have extSize : ext.size = start.size := extended.same.2.2.trans sizes
      rw [sizes, ← extSize] at copies
      dsimp only
      rw [if_neg (by omega), overlap_inside _ above (by omega), ok_bind, offset, extends_, ok_bind]
      dsimp only
      rw [require_of (extSize ▸ sizes ▸ extended.inside), ok_bind, copies, ok_bind]
      refine ⟨_, _, rfl, ?_, after.bytes, fun _ => after⟩
      rw [decide_eq_true_iff, after.complete_iff someSize, extSize]
    · have offset := toInt_sub (a := start.addr) (b := value.addr) below (by omega)
      have copy : memcpy pkt.data start.size.toNat 0 data value.size.toNat
          (start.addr.toNat - value.addr.toNat : Nat) start.size.toNat = _ :=
        memcpy_of (d := 0) rfl rfl rfl (by omega) (by omega)
      dsimp only
      rw [if_pos (by omega), offset, copy]
      have byte : ∀ i < start.size.toNat, firstByte start.addr (values ++ [value]) i =
          some (data (start.addr.toNat - value.addr.toNat + i)) := fun i inside =>
        firstByte_of_contains has below (by omega) (agrees i inside)
      refine ⟨_, _, rfl, ⟨fun _ i inside => ?_, fun _ => rfl⟩, fun i inside b found => ?_, nofun⟩
      · rw [byte i inside]
        rfl
      · rw [byte i inside] at found
        cases found
        dsimp only
        rw [if_pos (by omega), Nat.sub_zero]

def Presentable (start : Packet) (values : List Value) : Prop :=
  ∀ before value after, values = before ++ value :: after →
    Suits start before value ∧ Contiguous start (before ++ [value])

theorem Assembled.checkAll (fresh : Fresh start) (assembled : Assembled start pkt values)
    (lacks : ¬ Complete start values) {rest : List Value}
    (presentable : Presentable start (values ++ rest)) :
    ∃ found final, pkt.checkAll rest = .ok (found, final) ∧
      (found = true ↔ Complete start (values ++ rest)) ∧
      ∀ i < start.size.toNat, ∀ b, firstByte start.addr (values ++ rest) i = some b →
        final.data i = b := by
  induction rest generalizing pkt values with
  | nil =>
    rw [List.append_nil]
    exact ⟨false, pkt, rfl, ⟨nofun, fun complete => absurd complete lacks⟩, assembled.bytes⟩
  | cons value rest ih =>
    obtain ⟨suits, contiguous⟩ := presentable values value rest rfl
    obtain ⟨found, next, ran, checked⟩ := assembled.check fresh lacks suits contiguous
    rw [List.append_cons] at presentable ⊢
    cases found with
    | true =>
      refine ⟨true, next, by rw [Packet.checkAll, ran]; rfl, ⟨fun _ i inside => ?_, fun _ => rfl⟩,
        fun i inside b => ?_⟩
      all_goals
        obtain ⟨b', held⟩ := isSome_iff_exists.mp (checked.complete.mp rfl i inside)
        rw [firstByte_append, held, some_or]
      · rfl
      · rintro ⟨⟩
        exact checked.bytes i inside b held
    | false =>
      obtain ⟨found, final, rest, right⟩ := ih (checked.assembled rfl)
        (fun complete => Bool.noConfusion (checked.complete.mpr complete)) presentable
      exact ⟨found, final, by rw [Packet.checkAll, ran]; exact rest, right⟩

end Reads

theorem contiguous_two {pkt : Packet} (two : pkt.size.toNat = 2) (values : List Value) :
    Contiguous pkt values := by
  intro i j k le le' small first last
  obtain rfl | rfl : i = j ∨ j = k := by omega
  · exact first
  · exact last

end SynchroTrace.Mem.Functional
