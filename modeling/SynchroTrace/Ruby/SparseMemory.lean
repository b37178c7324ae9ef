import Mathlib.Algebra.Order.BigOperators.Group.List
import Mathlib.Algebra.Ring.Int.Defs
import SynchroTrace.Lib.Transition
import SynchroTrace.Lib.Trie
import SynchroTrace.Ruby.Address

/-!
Tables of tables that the bits of a block address lead through. If the size of the memory is no
power of two, the highest bit of an address is not looked at.
-/

namespace SynchroTrace.Ruby
open Outcome Transition List Function PhysAddress Trie

/-- An entry of the memory; the protocol keeps its own fields in the content. -/
structure AbstractEntry (α : Type) where
  dataBlk : List UInt8
  content : α
  deriving DecidableEq, Repr

def AbstractEntry.clear {α : Type} (system : RubySystem) (entry : AbstractEntry α) :
    AbstractEntry α :=
  { entry with dataBlk := List.replicate system.blockSizeBytes 0 }

/-- What `recordBlocks` records of a block: a store at time and program counter 0. -/
structure TraceRecord where
  cntrlId : Nat
  dataAddress : PhysAddress
  data : List UInt8
  deriving DecidableEq, Repr

/-- `SparseMapType`, with the number of levels below it. A hash map is a list with different keys
here; the order of its elements is that of the list. -/
abbrev SparseMapType (α : Type) (levels : Nat) : Type := Trie.Table PhysAddress (AbstractEntry α) levels

/-- The memory without its statistics. The bits per level are an array of `m_number_of_levels`. -/
structure SparseMemory (α : Type) where
  totalNumberOfBits : Int
  numberOfBitsPerLevel : List Int
  mapHead : Trie PhysAddress (AbstractEntry α) numberOfBitsPerLevel.length

namespace SparseMemory
variable {α : Type}

def bitsOfLevels (totalNumberOfBits : Int) (numberOfLevels : Nat) : List Int :=
  let evenLevelBits := totalNumberOfBits.tdiv numberOfLevels
  let extra := totalNumberOfBits.tmod numberOfLevels
  (List.range numberOfLevels).map fun level : Nat =>
    if (level : Int) < extra then evenLevelBits + 1 else evenLevelBits

def newEntry (entry : AbstractEntry α) :
    (bits : List Int) → Trie PhysAddress (AbstractEntry α) bits.length
  | [] => entry
  | _ :: bits => (∅ : SparseMapType α bits.length)

variable (system : RubySystem)

def construct (numberOfLevels : Nat) : Except MemoryFault (SparseMemory α) :=
  let totalNumberOfBits := (system.memorySizeBits : Int) - system.blockSizeBits
  match bitsOfLevels totalNumberOfBits numberOfLevels with
  | [] => .error .divisionByZero
  | first :: bits =>
    .ok { totalNumberOfBits
          numberOfBitsPerLevel := first :: bits
          mapHead := (∅ : SparseMapType α bits.length) }

def lookupLoop (address : PhysAddress) :
    (bits : List Int) → Int → Trie PhysAddress (AbstractEntry α) bits.length →
    Except MemoryFault (Option (AbstractEntry α))
  | [], _, entry => .ok (some entry)
  | levelBits :: bits, highBit, curTable => do
    let lowBit := highBit - levelBits
    let curAddress ← address.bitSelect lowBit (highBit - 1)
    match AList.lookup curAddress (curTable : SparseMapType α bits.length) with
    | some next => lookupLoop address bits (highBit - levelBits) next
    | none => return none

def existLoop (address : PhysAddress) :
    (bits : List Int) → Int → Trie PhysAddress (AbstractEntry α) bits.length →
    Except MemoryFault Bool
  | [], _, _ => .ok true
  | levelBits :: bits, highBit, curTable => do
    let lowBit := highBit - levelBits
    let curAddress ← address.bitSelect lowBit (highBit - 1)
    match AList.lookup curAddress (curTable : SparseMapType α bits.length) with
    | some next => existLoop address bits (highBit - levelBits) next
    | none => return false

def addLoop (address : PhysAddress) (entry : AbstractEntry α) :
    (bits : List Int) → Int → Trie PhysAddress (AbstractEntry α) bits.length →
    Except MemoryFault (Trie PhysAddress (AbstractEntry α) bits.length)
  | [], _, curTable => .ok curTable
  | levelBits :: bits, highBit, curTable => do
    let curTable : SparseMapType α bits.length := curTable
    let lowBit := highBit - levelBits
    let curAddress ← address.bitSelect lowBit (highBit - 1)
    let next := (curTable.lookup curAddress).getD (newEntry entry bits)
    let next ← addLoop address entry bits (highBit - levelBits) next
    return curTable.insert curAddress next

/-- `recursivelyRemoveLevels`, with the table that it leaves and its size. -/
def recursivelyRemoveLevels (address : PhysAddress) (levelBits highBit lowBit : Int) :
    (bits : List Int) → SparseMapType α bits.length →
    Except MemoryFault (SparseMapType α bits.length × Nat)
  | [], curTable => do
    let curAddress ← address.bitSelect lowBit (highBit - 1)
    require ((curTable.lookup curAddress).isSome) .assertion
    let curTable := curTable.erase curAddress
    return (curTable, curTable.entries.length)
  | nextBits :: bits, curTable => do
    let curAddress ← address.bitSelect lowBit (highBit - 1)
    match curTable.lookup curAddress with
    | none => .error .assertion
    | some entry =>
      let (next, tableSize) ← recursivelyRemoveLevels address nextBits (highBit - levelBits)
        (lowBit - nextBits) bits entry
      let curTable : SparseMapType α (bits.length + 1) :=
        if tableSize = 0 then curTable.erase curAddress else curTable.insert curAddress next
      return (curTable, curTable.entries.length)

def highBit (m : SparseMemory α) : Int :=
  m.totalNumberOfBits + system.blockSizeBits

def exist (m : SparseMemory α) (address : PhysAddress) : Except MemoryFault Bool := do
  require (address.IsLine system) .assertion
  existLoop address m.numberOfBitsPerLevel (m.highBit system) m.mapHead

def lookup (m : SparseMemory α) (address : PhysAddress) :
    Except MemoryFault (Option (AbstractEntry α)) := do
  require (address.IsLine system) .assertion
  lookupLoop address m.numberOfBitsPerLevel (m.highBit system) m.mapHead

def add (m : SparseMemory α) (address : PhysAddress)
    (entry : AbstractEntry α) : Except MemoryFault (SparseMemory α) := do
  require (address.IsLine system) .assertion
  let before ← m.exist system address
  require (before = false) .assertion
  let mapHead ← addLoop address (entry.clear system) m.numberOfBitsPerLevel (m.highBit system)
    m.mapHead
  let m := { m with mapHead }
  let after ← m.exist system address
  require (after = true) .assertion
  return m

def removeFrom (address : PhysAddress) (highBit : Int) :
    (bits : List Int) → Trie PhysAddress (AbstractEntry α) bits.length →
    Except MemoryFault (Trie PhysAddress (AbstractEntry α) bits.length)
  | [], _ => .error .outOfBounds
  | first :: bits, mapHead => do
    let (mapHead, _) ← recursivelyRemoveLevels address first highBit (highBit - first) bits mapHead
    return mapHead

def remove (m : SparseMemory α) (address : PhysAddress) : Except MemoryFault (SparseMemory α) := do
  require (address.IsLine system) .assertion
  let before ← m.exist system address
  require (before = true) .assertion
  let mapHead ← removeFrom address (m.highBit system) m.numberOfBitsPerLevel m.mapHead
  let m := { m with mapHead }
  let after ← m.exist system address
  require (after = false) .assertion
  return m

/-- The nodes that the elements of the unexplored nodes lead to, with their addresses. -/
def explore {levels : Nat} (lowBit : Int) (nodes : List (SparseMapType α levels × PhysAddress)) :
    List (Trie PhysAddress (AbstractEntry α) levels × PhysAddress) :=
  nodes.flatMap fun (node, address) =>
    node.entries.map fun element =>
      let curAddress : PhysAddress := element.1
      (element.2, address ||| curAddress <<< lowBit.toNat)

def recordLevels (cntrlId : Nat) :
    (bits : List Int) → Int → List (Trie PhysAddress (AbstractEntry α) bits.length × PhysAddress) →
    List TraceRecord
  | [], _, _ => []
  | [levelBits], highBit, nodes =>
    (explore (highBit - levelBits) nodes).map fun (entry, address) =>
      ⟨cntrlId, address, entry.dataBlk⟩
  | levelBits :: nextBits :: bits, highBit, nodes =>
    recordLevels cntrlId (nextBits :: bits) (highBit - levelBits)
      (explore (highBit - levelBits) nodes)

def recordBlocks (cntrlId : Nat) (m : SparseMemory α) : List TraceRecord :=
  recordLevels cntrlId m.numberOfBitsPerLevel (m.highBit system) [(m.mapHead, 0)]

def key (address : PhysAddress) (lowBit levelBits : Int) : PhysAddress :=
  BitVec.ofNat 64 (address.toNat / 2 ^ lowBit.toNat % 2 ^ levelBits.toNat)

def path (address : PhysAddress) : List Int → Int → List PhysAddress
  | [], _ => []
  | levelBits :: bits, highBit =>
    key address (highBit - levelBits) levelBits :: path address bits (highBit - levelBits)

@[simp] theorem path_length (address : PhysAddress) (bits : List Int) (highBit : Int) :
    (path address bits highBit).length = bits.length := by
  induction bits generalizing highBit with
  | nil => rfl
  | cons levelBits bits ih => simp [path, ih]

/-- The levels take the bits from `lowBit` to `highBit`, each of them at least one. -/
structure Sliced (bits : List Int) (highBit lowBit : Int) : Prop where
  positive : ∀ levelBits ∈ bits, 0 < levelBits
  sum : bits.sum + lowBit = highBit
  nonneg : 0 ≤ lowBit
  inside : highBit ≤ 63

variable {system : RubySystem} {address : PhysAddress} {levelBits highBit lowBit : Int}
  {bits : List Int}

theorem Sliced.low_le (sliced : Sliced bits highBit lowBit) : lowBit ≤ highBit := by
  have nonneg : 0 ≤ bits.sum := sum_nonneg fun b member => (sliced.positive b member).le
  have sum := sliced.sum
  omega

section
variable (sliced : Sliced (levelBits :: bits) highBit lowBit)
include sliced

theorem Sliced.tail :
    Sliced bits (highBit - levelBits) lowBit := by
  obtain ⟨positive, sum, nonneg, inside⟩ := sliced
  have first := positive levelBits mem_cons_self
  rw [sum_cons] at sum
  exact ⟨fun b member => positive b (mem_cons_of_mem _ member), by omega, nonneg, by omega⟩

theorem Sliced.bitSelect (address : PhysAddress) :
    address.bitSelect (highBit - levelBits) (highBit - 1) =
      .ok (key address (highBit - levelBits) levelBits) := by
  have first := sliced.positive levelBits mem_cons_self
  have low := sliced.tail.low_le
  have nonneg := sliced.nonneg
  have inside := sliced.inside
  obtain ⟨small, smallEq⟩ : ∃ small : Nat, highBit - levelBits = small :=
    ⟨(highBit - levelBits).toNat, by omega⟩
  obtain ⟨big, bigEq⟩ : ∃ big : Nat, highBit - 1 = big := ⟨(highBit - 1).toNat, by omega⟩
  obtain ⟨field, selects, value⟩ :=
    bitSelect_ok address (show small ≤ big by omega) (by omega)
  have width : levelBits.toNat = big + 1 - small := by omega
  rw [smallEq, bigEq, selects, key, Int.toNat_natCast, width, ← value, BitVec.ofNat_toNat,
    BitVec.setWidth_eq]

theorem recursivelyRemoveLevels_eq {t : SparseMapType α bits.length}
    (present : Trie.find (n := bits.length + 1) t (path address (levelBits :: bits) highBit) ≠ none) :
    recursivelyRemoveLevels address levelBits highBit (highBit - levelBits) bits t =
      .ok (cut (path address (levelBits :: bits) highBit) t,
        (cut (path address (levelBits :: bits) highBit) t).entries.length) := by
  induction bits generalizing levelBits highBit with
  | nil =>
    rw [path, find_cons] at present
    have found : (AList.lookup (key address (highBit - levelBits) levelBits) t).isSome := by
      cases lookup : AList.lookup (key address (highBit - levelBits) levelBits) t with
      | none => exact absurd (by rw [lookup]; rfl) present
      | some entry => rfl
    rw [recursivelyRemoveLevels, sliced.bitSelect, ok_bind, require_of found, ok_bind]
    rfl
  | cons nextBits bits ih =>
    rw [path, find_cons] at present
    rw [recursivelyRemoveLevels, sliced.bitSelect, ok_bind, path, cut]
    cases lookup : AList.lookup (key address (highBit - levelBits) levelBits) t with
    | none => exact absurd (by rw [lookup]; rfl) present
    | some next =>
      rw [lookup, Option.bind_some] at present
      dsimp only
      rw [ih sliced.tail present, ok_bind]
      rfl

end

theorem existLoop_eq (sliced : Sliced bits highBit lowBit)
    (t : Trie PhysAddress (AbstractEntry α) bits.length) :
    existLoop address bits highBit t = .ok (t.find (path address bits highBit)).isSome := by
  induction bits generalizing highBit with
  | nil => rfl
  | cons levelBits bits ih =>
    rw [existLoop, sliced.bitSelect, ok_bind, path, find_cons]
    cases AList.lookup (key address (highBit - levelBits) levelBits)
      (t : SparseMapType α bits.length) with
    | none => rfl
    | some next => exact ih sliced.tail next

theorem lookupLoop_eq (sliced : Sliced bits highBit lowBit)
    (t : Trie PhysAddress (AbstractEntry α) bits.length) :
    lookupLoop address bits highBit t = .ok (t.find (path address bits highBit)) := by
  induction bits generalizing highBit with
  | nil => rfl
  | cons levelBits bits ih =>
    rw [lookupLoop, sliced.bitSelect, ok_bind, path, find_cons]
    cases AList.lookup (key address (highBit - levelBits) levelBits)
      (t : SparseMapType α bits.length) with
    | none => rfl
    | some next => exact ih sliced.tail next

theorem addLoop_eq (sliced : Sliced bits highBit lowBit) {entry : AbstractEntry α}
    (next : Option (Trie PhysAddress (AbstractEntry α) bits.length))
    (absent : ∀ t ∈ next, t.find (path address bits highBit) = none) :
    addLoop address entry bits highBit (next.getD (newEntry entry bits)) =
      .ok (Trie.put (path address bits highBit) entry next) := by
  induction bits generalizing highBit with
  | nil =>
    cases next with
    | none => rfl
    | some t => cases absent t rfl
  | cons levelBits bits ih =>
    rw [addLoop, sliced.bitSelect, ok_bind]
    have below : ∀ t ∈ AList.lookup (key address (highBit - levelBits) levelBits)
        (next.getD (newEntry entry (levelBits :: bits)) : SparseMapType α bits.length),
        t.find (path address bits (highBit - levelBits)) = none := by
      intro t found
      cases next with
      | none => cases found
      | some table =>
        have found : AList.lookup (key address (highBit - levelBits) levelBits)
          (table : SparseMapType α bits.length) = some t := found
        have whole := absent table rfl
        rw [path, find_cons, found, Option.bind_some] at whole
        exact whole
    dsimp only
    rw [ih sliced.tail _ below]
    rfl

/-- The address that the keys of a path make up, below the bits that are given. -/
def join (address : PhysAddress) : List Int → Int → List PhysAddress → PhysAddress
  | levelBits :: bits, highBit, k :: keys =>
    join (address ||| k <<< (highBit - levelBits).toNat) bits (highBit - levelBits) keys
  | _, _, _ => address

theorem recordLevels_eq (cntrlId : Nat) (some : bits ≠ [])
    (nodes : List (Trie PhysAddress (AbstractEntry α) bits.length × PhysAddress)) :
    recordLevels cntrlId bits highBit nodes = nodes.flatMap fun (node, address) =>
      (Trie.elements node).map fun (keys, entry) =>
        ⟨cntrlId, join address bits highBit keys, entry.dataBlk⟩ := by
  induction bits generalizing highBit with
  | nil => exact absurd rfl some
  | cons levelBits bits ih =>
    cases bits with
    | nil =>
      rw [recordLevels, explore, map_flatMap]
      congr 1
      funext path
      obtain ⟨node, address⟩ := path
      simp only [Trie.elements, join, map_flatMap, map_map, map_cons, map_nil]
      exact map_eq_flatMap
    | cons nextBits bits =>
      rw [recordLevels, ih (cons_ne_nil _ _), explore, flatMap_assoc]
      congr 1
      funext path
      obtain ⟨node, address⟩ := path
      dsimp only
      rw [flatMap_map, Trie.elements, map_flatMap]
      congr 1
      funext element
      rw [map_map]
      rfl

theorem join_path (sliced : Sliced bits highBit lowBit) (address above : PhysAddress)
    (upper : above.toNat = address.toNat / 2 ^ highBit.toNat * 2 ^ highBit.toNat) :
    (join above bits highBit (path address bits highBit)).toNat =
      address.toNat / 2 ^ lowBit.toNat * 2 ^ lowBit.toNat := by
  induction bits generalizing highBit above with
  | nil =>
    have sum := sliced.sum
    rw [sum_nil, Int.zero_add] at sum
    rw [sum]
    exact upper
  | cons levelBits bits ih =>
    have first := sliced.positive levelBits mem_cons_self
    have low := sliced.tail.low_le
    have nonneg := sliced.nonneg
    have inside := sliced.inside
    have split : highBit.toNat = (highBit - levelBits).toNat + levelBits.toNat := by omega
    rw [split] at upper
    rw [path, join]
    exact ih sliced.tail _ (BitFields.toNat_or_field address above (by omega) upper)

variable {totalNumberOfBits : Int} {numberOfLevels : Nat}

theorem sum_levels (evenLevelBits : Int) (extra : Nat) (levels : Nat) :
    ((List.range levels).map fun level : Nat =>
      if (level : Int) < extra then evenLevelBits + 1 else evenLevelBits).sum =
      levels * evenLevelBits + min levels extra := by
  induction levels with
  | zero => simp
  | succ levels ih =>
    rw [range_succ, map_append, sum_append, ih, map_singleton, sum_singleton]
    push_cast
    rw [Int.add_mul]
    split_ifs <;> omega

theorem bitsOfLevels_sliced (some : 0 < numberOfLevels)
    (few : (numberOfLevels : Int) ≤ totalNumberOfBits) (nonneg : 0 ≤ lowBit)
    (inside : totalNumberOfBits + lowBit ≤ 63) :
    Sliced (bitsOfLevels totalNumberOfBits numberOfLevels) (totalNumberOfBits + lowBit) lowBit := by
  obtain ⟨total, rfl⟩ : ∃ total : Nat, totalNumberOfBits = total :=
    ⟨totalNumberOfBits.toNat, by omega⟩
  have even : (total : Int).tdiv numberOfLevels = (total / numberOfLevels : Nat) := rfl
  have extra : (total : Int).tmod numberOfLevels = (total % numberOfLevels : Nat) := rfl
  have least : 0 < total / numberOfLevels := Nat.div_pos (by omega) some
  refine ⟨fun levelBits member => ?_, ?_, nonneg, inside⟩
  · rw [bitsOfLevels, even, extra] at member
    obtain ⟨level, -, rfl⟩ := mem_map.mp member
    split_ifs <;> omega
  · have remainder := Nat.mod_lt total some
    have whole := Nat.div_add_mod total numberOfLevels
    rw [bitsOfLevels, even, extra, sum_levels, Nat.min_eq_right remainder.le, ← Int.natCast_mul]
    omega

theorem construct_ok (system : RubySystem) (some : 0 < numberOfLevels) : ∃ first bits,
    bitsOfLevels (system.memorySizeBits - system.blockSizeBits) numberOfLevels = first :: bits ∧
    construct system numberOfLevels =
      .ok { totalNumberOfBits := system.memorySizeBits - system.blockSizeBits
            numberOfBitsPerLevel := first :: bits
            mapHead := (∅ : SparseMapType α bits.length) } := by
  rw [construct]
  cases levels : bitsOfLevels (system.memorySizeBits - system.blockSizeBits) numberOfLevels with
  | nil =>
    have length := congrArg List.length levels
    rw [bitsOfLevels, length_map, length_range, length_nil] at length
    omega
  | cons first bits => exact ⟨first, bits, rfl, rfl⟩

variable {m m' : SparseMemory α} {entry : AbstractEntry α}

structure Shaped (system : RubySystem) (m : SparseMemory α) : Prop where
  levels : m.numberOfBitsPerLevel ≠ []
  high : m.highBit system = system.memorySizeBits
  sliced : Sliced m.numberOfBitsPerLevel (m.highBit system) system.blockSizeBits

def pathOf (system : RubySystem) (m : SparseMemory α) (address : PhysAddress) : List PhysAddress :=
  path address m.numberOfBitsPerLevel (m.highBit system)

theorem Shaped.exist_eq (shaped : Shaped system m) (line : address.IsLine system) :
    m.exist system address = .ok (m.mapHead.find (m.pathOf system address)).isSome := by
  rw [exist, require_of line, ok_bind]
  exact existLoop_eq shaped.sliced m.mapHead

theorem Shaped.lookup_eq (shaped : Shaped system m) (line : address.IsLine system) :
    m.lookup system address = .ok (m.mapHead.find (m.pathOf system address)) := by
  rw [lookup, require_of line, ok_bind]
  exact lookupLoop_eq shaped.sliced m.mapHead

def added (system : RubySystem) (m : SparseMemory α) (address : PhysAddress)
    (entry : AbstractEntry α) : SparseMemory α :=
  { m with mapHead := Trie.put (m.pathOf system address) (entry.clear system) (some m.mapHead) }

theorem find_added (keys : List PhysAddress) : (m.added system address entry).mapHead.find keys =
      if keys = m.pathOf system address then some (entry.clear system)
      else m.mapHead.find keys := by
  have fits : (m.pathOf system address).length = m.numberOfBitsPerLevel.length := path_length _ _ _
  split_ifs with here
  · subst here
    exact find_put_same _ _ fits
  · exact find_put_ne _ _ fits here

theorem Shaped.added (shaped : Shaped system m) : Shaped system (m.added system address entry) :=
  ⟨shaped.levels, shaped.high, shaped.sliced⟩

theorem Shaped.add_eq (shaped : Shaped system m) (line : address.IsLine system)
    (absent : m.mapHead.find (m.pathOf system address) = none) (entry : AbstractEntry α) :
    m.add system address entry = .ok (m.added system address entry) := by
  have put : addLoop address (entry.clear system) m.numberOfBitsPerLevel (m.highBit system)
      m.mapHead = .ok (Trie.put (m.pathOf system address) (entry.clear system) (some m.mapHead)) :=
    addLoop_eq shaped.sliced (some m.mapHead) fun t same => by
      cases same
      exact absent
  have found : (m.added system address entry).mapHead.find (m.pathOf system address) =
      some (entry.clear system) := by
    rw [find_added, if_pos rfl]
  have present : (m.added system address entry).exist system address = .ok true :=
    (shaped.added.exist_eq line).trans (congrArg (fun e => Except.ok (Option.isSome e)) found)
  rw [add, require_of line, ok_bind, shaped.exist_eq line, absent, Option.isSome_none, ok_bind,
    require_of rfl, ok_bind, put, ok_bind]
  exact congrArg (fun x => x >>= fun after => require (after = true) .assertion >>= fun _ =>
    pure (m.added system address entry)) present

theorem Shaped.add_ok (shaped : Shaped system m) (h : m.add system address entry = .ok m') :
    address.IsLine system ∧ m.mapHead.find (m.pathOf system address) = none ∧
      m' = m.added system address entry := by
  obtain ⟨_, line, rest⟩ := bind_ok h
  have line := require_ok line
  obtain ⟨before, exists', rest⟩ := bind_ok rest
  obtain ⟨_, absent, -⟩ := bind_ok rest
  rw [shaped.exist_eq line, require_ok absent, Except.ok.injEq, Option.isSome_eq_false_iff,
    Option.isNone_iff_eq_none] at exists'
  exact ⟨line, exists', Except.ok.inj (h.symm.trans (shaped.add_eq line exists' entry))⟩

/-- What an addition or a removal leaves: only the value at the end of one path is another. -/
structure Changed (system : RubySystem) (m : SparseMemory α) (address : PhysAddress)
    (value : Option (AbstractEntry α)) (m' : SparseMemory α) : Prop where
  shaped : Shaped system m'
  path : ∀ other, m'.pathOf system other = m.pathOf system other
  find : ∀ keys, m'.mapHead.find keys =
    if keys = m.pathOf system address then value else m.mapHead.find keys
  pruned : Trie.Pruned m.mapHead → Trie.Pruned m'.mapHead

theorem Shaped.changed_added (shaped : Shaped system m) :
    Changed system m address (some (entry.clear system)) (m.added system address entry) := by
  refine ⟨shaped.added, fun _ => rfl, find_added, fun pruned => ?_⟩
  refine pruned_put _ (path_length _ _ _) ?_
  rintro t ⟨⟩
  exact pruned

theorem removeFrom_spec (sliced : Sliced bits highBit lowBit) (some : bits ≠ [])
    {t : Trie PhysAddress (AbstractEntry α) bits.length}
    (present : t.find (path address bits highBit) ≠ none) :
    ∃ t', removeFrom address highBit bits t = .ok t' ∧
      (∀ keys, t'.find keys = if keys = path address bits highBit then none else t.find keys) ∧
      (Trie.Pruned t → Trie.Pruned t') := by
  cases bits with
  | nil => exact absurd rfl some
  | cons levelBits bits =>
    rw [removeFrom, recursivelyRemoveLevels_eq sliced present, ok_bind]
    refine ⟨_, rfl, fun keys => ?_, fun pruned => pruned_cut pruned⟩
    have fits := path_length address (levelBits :: bits) highBit
    split_ifs with here
    · subst here
      exact find_cut_same t fits
    · exact find_cut_ne t fits here

theorem Shaped.exists_remove (shaped : Shaped system m) (line : address.IsLine system)
    (present : m.mapHead.find (m.pathOf system address) ≠ none) :
    ∃ m', m.remove system address = .ok m' ∧ Changed system m address none m' := by
  obtain ⟨t, removes, find, pruned⟩ := removeFrom_spec shaped.sliced shaped.levels present
  have shaped' : Shaped system { m with mapHead := t } :=
    ⟨shaped.levels, shaped.high, shaped.sliced⟩
  have gone : t.find (m.pathOf system address) = none := (find _).trans (if_pos rfl)
  have absent : exist system { m with mapHead := t } address = .ok false :=
    (shaped'.exist_eq line).trans (congrArg (fun e => Except.ok (Option.isSome e)) gone)
  have here : (m.mapHead.find (m.pathOf system address)).isSome = true :=
    Option.isSome_iff_ne_none.mpr present
  refine ⟨{ m with mapHead := t }, ?_, shaped', fun _ => rfl, find, pruned⟩
  rw [remove, require_of line, ok_bind, shaped.exist_eq line, here, ok_bind, require_of rfl, ok_bind,
    removes, ok_bind]
  exact congrArg (fun x => x >>= fun after => require (after = false) .assertion >>= fun _ =>
    pure { m with mapHead := t }) absent

theorem Shaped.remove_ok (shaped : Shaped system m) (h : m.remove system address = .ok m') :
    address.IsLine system ∧ m.mapHead.find (m.pathOf system address) ≠ none ∧
      Changed system m address none m' := by
  obtain ⟨_, line, rest⟩ := bind_ok h
  have line := require_ok line
  obtain ⟨before, exists', rest⟩ := bind_ok rest
  obtain ⟨_, present, -⟩ := bind_ok rest
  rw [shaped.exist_eq line, require_ok present, Except.ok.injEq, Option.isSome_iff_ne_none]
    at exists'
  obtain ⟨_, same, removed⟩ := shaped.exists_remove line exists'
  cases same.symm.trans h
  exact ⟨line, exists', removed⟩

structure Run (α : Type) where
  memory : SparseMemory α
  map : PhysAddress → Option (AbstractEntry α)

inductive Call (α : Type) where
  | add (address : PhysAddress) (entry : AbstractEntry α)
  | remove (address : PhysAddress)

def Call.target : Call α → PhysAddress
  | .add address _ => address
  | .remove address => address

def perform (system : RubySystem) (s : Run α) : Call α → Except MemoryFault (Run α)
  | .add address entry => do
    let memory ← s.memory.add system address entry
    return ⟨memory, Function.update s.map address (some (entry.clear system))⟩
  | .remove address => do
    let memory ← s.memory.remove system address
    return ⟨memory, Function.update s.map address none⟩

def Initial (system : RubySystem) (numberOfLevels : Nat) (s : Run α) : Prop :=
  construct system numberOfLevels = .ok s.memory ∧ s.map = fun _ => none

def runs (system : RubySystem) (numberOfLevels : Nat) (α : Type) : System (Run α) (Call α) :=
  ofFunction (Initial system numberOfLevels) (perform system)

/-- The call is for an address below the size of the memory. -/
def InMemory (system : RubySystem) (_ : Run α) (call : Call α) : Prop :=
  call.target.toNat < system.memorySizeBytes

structure IsMap (system : RubySystem) (s : Run α) : Prop where
  exist : ∀ address, system.IsBlock address →
    s.memory.exist system address = .ok (s.map address).isSome
  lookup : ∀ address, system.IsBlock address → s.memory.lookup system address = .ok (s.map address)
  add : ∀ address entry, system.IsBlock address → s.map address = none →
    ∃ next, perform system s (.add address entry) = .ok next
  remove : ∀ address, system.IsBlock address → s.map address ≠ none →
    ∃ next, perform system s (.remove address) = .ok next
  pruned : Trie.Pruned s.memory.mapHead
  records : ∀ cntrlId, ((s.memory.recordBlocks system cntrlId).map (·.dataAddress)).Nodup ∧
    ∀ record, record ∈ s.memory.recordBlocks system cntrlId ↔ ∃ address entry,
      s.map address = some entry ∧ record = ⟨cntrlId, address, entry.dataBlk⟩

structure Represents (system : RubySystem) (s : Run α) : Prop where
  shaped : Shaped system s.memory
  pruned : Trie.Pruned s.memory.mapHead
  blocks : ∀ address, s.map address ≠ none → system.IsBlock address
  find : ∀ address, system.IsBlock address →
    s.memory.mapHead.find (s.memory.pathOf system address) = s.map address
  found : ∀ keys, s.memory.mapHead.find keys ≠ none →
    ∃ address, system.IsBlock address ∧ keys = s.memory.pathOf system address

variable {s s' : Run α}

section
variable (shaped : Shaped system m) (sized : system.Sized)
  (power : system.memorySizeBytes = 2 ^ system.memorySizeBits) (block : system.IsBlock address)
include shaped sized power block

theorem Shaped.join_pathOf :
    join 0 m.numberOfBitsPerLevel (m.highBit system) (m.pathOf system address) = address := by
  obtain ⟨inside, aligned⟩ := block
  rw [power] at inside
  rw [sized.block] at aligned
  have joined := join_path shaped.sliced address 0 (by
    rw [shaped.high, Int.toNat_natCast, Nat.div_eq_of_lt inside, Nat.zero_mul]
    rfl)
  rw [Int.toNat_natCast, Nat.div_mul_cancel aligned] at joined
  exact BitVec.eq_of_toNat_eq joined

theorem Shaped.pathOf_inj {other : PhysAddress} (block' : system.IsBlock other)
    (same : m.pathOf system address = m.pathOf system other) : address = other := by
  rw [← shaped.join_pathOf sized power block, same, shaped.join_pathOf sized power block']

end

theorem construct_represents (sized : system.Sized) (some : 0 < numberOfLevels)
    (few : (numberOfLevels : Int) ≤ system.memorySizeBits - system.blockSizeBits)
    (initial : Initial system numberOfLevels s) : Represents system s := by
  obtain ⟨built, empty⟩ := initial
  obtain ⟨first, bits, levels, built'⟩ := construct_ok (α := α) system some
  obtain ⟨memory, map⟩ := s
  cases built'.symm.trans built
  obtain rfl : map = fun _ => none := empty
  have inside := sized.memoryBits_lt
  have sliced := bitsOfLevels_sliced some few (Int.natCast_nonneg system.blockSizeBits) (by omega)
  rw [levels] at sliced
  have absent (keys : List PhysAddress) :
      Trie.find (n := bits.length + 1) (∅ : SparseMapType α bits.length) keys = none :=
    find_empty _ rfl keys
  exact ⟨⟨cons_ne_nil _ _, Int.sub_add_cancel _ _, sliced⟩, pruned_empty,
    fun _ none => absurd rfl none, fun address _ => absent _,
    fun keys found => absurd (absent keys) found⟩

section
variable (represents : Represents system s) (sized : system.Sized)
  (power : system.memorySizeBytes = 2 ^ system.memorySizeBits)
include represents sized power

theorem Represents.change (block : system.IsBlock address) {value : Option (AbstractEntry α)}
    (changed : Changed system s.memory address value m') :
    Represents system ⟨m', Function.update s.map address value⟩ := by
  refine ⟨changed.shaped, changed.pruned represents.pruned, fun other held => ?_,
    fun other block' => ?_, fun keys found => ?_⟩ <;> dsimp only at *
  · by_cases here : other = address
    · exact here ▸ block
    · rw [update_of_ne here] at held
      exact represents.blocks other held
  · rw [changed.path, changed.find]
    by_cases here : other = address
    · subst here
      rw [if_pos rfl, update_self]
    · rw [if_neg fun same => here (represents.shaped.pathOf_inj sized power block' block same),
        update_of_ne here, represents.find other block']
  · rw [changed.find] at found
    split_ifs at found with here
    · exact ⟨address, block, here.trans (changed.path address).symm⟩
    · obtain ⟨other, block', same⟩ := represents.found keys found
      exact ⟨other, block', same.trans (changed.path other).symm⟩

theorem Represents.step {call : Call α} (inside : InMemory system s call)
    (h : perform system s call = .ok s') :
    Represents system s' := by
  have block (line : call.target.IsLine system) : system.IsBlock call.target :=
    ⟨inside, (isLine_iff sized _).mp line⟩
  cases call with
  | add address entry =>
    obtain ⟨memory, adds, h⟩ := bind_ok h
    obtain rfl := pure_ok h
    obtain ⟨line, -, rfl⟩ := represents.shaped.add_ok adds
    exact represents.change sized power (block line) represents.shaped.changed_added
  | remove address =>
    obtain ⟨memory, removes, h⟩ := bind_ok h
    obtain rfl := pure_ok h
    obtain ⟨line, -, removed⟩ := represents.shaped.remove_ok removes
    exact represents.change sized power (block line) removed

end

theorem reachable_represents (sized : system.Sized) (some : 0 < numberOfLevels)
    (few : (numberOfLevels : Int) ≤ system.memorySizeBits - system.blockSizeBits)
    (power : system.memorySizeBytes = 2 ^ system.memorySizeBits)
    (reach : ReachableVia (runs system numberOfLevels α) (InMemory system) s) :
    Represents system s := by
  refine reach.invariant (Represents system) (fun s initial => ?_)
    fun s call next _ inside represents step => ?_
  · exact construct_represents sized some few initial
  · exact represents.step sized power inside step

theorem Shaped.recordBlocks_eq (shaped : Shaped system m) (cntrlId : Nat) :
    m.recordBlocks system cntrlId = (Trie.elements m.mapHead).map fun (keys, entry) =>
      ⟨cntrlId, join 0 m.numberOfBitsPerLevel (m.highBit system) keys, entry.dataBlk⟩ := by
  rw [recordBlocks, recordLevels_eq cntrlId shaped.levels, flatMap_singleton]

section
variable (represents : Represents system s) (sized : system.Sized)
  (power : system.memorySizeBytes = 2 ^ system.memorySizeBits)
include represents sized power

theorem Represents.records (cntrlId : Nat) :
    ((s.memory.recordBlocks system cntrlId).map (·.dataAddress)).Nodup ∧
      ∀ record, record ∈ s.memory.recordBlocks system cntrlId ↔ ∃ address entry,
        s.map address = some entry ∧ record = ⟨cntrlId, address, entry.dataBlk⟩ := by
  have shaped := represents.shaped
  rw [shaped.recordBlocks_eq]
  constructor
  · have addresses : (((Trie.elements s.memory.mapHead).map fun (keys, entry) =>
        (⟨cntrlId, join 0 s.memory.numberOfBitsPerLevel (s.memory.highBit system) keys,
          entry.dataBlk⟩ : TraceRecord)).map (·.dataAddress)) =
        ((Trie.elements s.memory.mapHead).map Prod.fst).map
          (join 0 s.memory.numberOfBitsPerLevel (s.memory.highBit system)) := by
      simp only [map_map]
      rfl
    rw [addresses]
    refine List.Nodup.map_on (fun keys listed keys' listed' same => ?_) (nodup_elements _)
    obtain ⟨⟨_, entry⟩, element, rfl⟩ := mem_map.mp listed
    obtain ⟨⟨_, entry'⟩, element', rfl⟩ := mem_map.mp listed'
    obtain ⟨address, block, path⟩ := represents.found _ (by rw [mem_elements.mp element]; simp)
    obtain ⟨address', block', path'⟩ :=
      represents.found _ (by rw [mem_elements.mp element']; simp)
    dsimp only at path path' same ⊢
    rw [path, path', shaped.join_pathOf sized power block,
      shaped.join_pathOf sized power block'] at same
    rw [path, path', same]
  · intro record
    simp only [mem_map, Prod.exists]
    constructor
    · rintro ⟨keys, entry, element, rfl⟩
      have here := mem_elements.mp element
      obtain ⟨address, block, rfl⟩ := represents.found keys (by simp [here])
      rw [represents.find address block] at here
      exact ⟨address, entry, here, by rw [shaped.join_pathOf sized power block]⟩
    · rintro ⟨address, entry, held, rfl⟩
      have block := represents.blocks address (by simp [held])
      refine ⟨s.memory.pathOf system address, entry, mem_elements.mpr ?_, ?_⟩
      · rw [represents.find address block, held]
      · rw [shaped.join_pathOf sized power block]

theorem Represents.isMap : IsMap system s := by
  have shaped := represents.shaped
  have line (address : PhysAddress) (block : system.IsBlock address) : address.IsLine system :=
    (isLine_iff sized address).mpr block.2
  refine ⟨fun address block => ?_, fun address block => ?_, fun address entry block absent => ?_,
    fun address block present => ?_, represents.pruned, represents.records sized power⟩
  · rw [shaped.exist_eq (line address block), represents.find address block]
  · rw [shaped.lookup_eq (line address block), represents.find address block]
  · have adds := shaped.add_eq (line address block)
      ((represents.find address block).trans absent) entry
    exact ⟨_, by rw [perform, adds]; rfl⟩
  · obtain ⟨_, removes, -⟩ := shaped.exists_remove (line address block)
      (represents.find address block ▸ present)
    exact ⟨_, by rw [perform, removes]; rfl⟩

end

theorem path_congr {other : PhysAddress} (sliced : Sliced bits highBit lowBit)
    (same : address.toNat % 2 ^ highBit.toNat = other.toNat % 2 ^ highBit.toNat) :
    path address bits highBit = path other bits highBit := by
  induction bits generalizing highBit with
  | nil => rfl
  | cons levelBits bits ih =>
    have first := sliced.positive levelBits mem_cons_self
    have low := sliced.tail.low_le
    have nonneg := sliced.nonneg
    have split : highBit.toNat = (highBit - levelBits).toNat + levelBits.toNat := by omega
    rw [split] at same
    have below : address.toNat % 2 ^ (highBit - levelBits).toNat =
        other.toNat % 2 ^ (highBit - levelBits).toNat := by
      have divides : 2 ^ (highBit - levelBits).toNat ∣
          2 ^ ((highBit - levelBits).toNat + levelBits.toNat) := Nat.pow_dvd_pow 2 (by omega)
      rw [← Nat.mod_mod_of_dvd address.toNat divides, same, Nat.mod_mod_of_dvd _ divides]
    rw [path, path, key, key, ih sliced.tail below, ← Nat.mod_mul_right_div_self,
      ← Nat.mod_mul_right_div_self, ← Nat.pow_add, same]

def aliasOfZero (system : RubySystem) : PhysAddress := BitVec.ofNat 64 (2 ^ system.memorySizeBits)

theorem aliasOfZero_toNat (sized : system.Sized) :
    (aliasOfZero system).toNat = 2 ^ system.memorySizeBits := by
  rw [aliasOfZero, BitVec.toNat_ofNat, Nat.mod_eq_of_lt]
  exact Nat.pow_lt_pow_right (by decide) sized.memoryBits_lt

theorem aliasOfZero_isBlock (sized : system.Sized) (few : system.blockSizeBits ≤ system.memorySizeBits)
    (nonzero : system.memorySizeBytes ≠ 0)
    (other : system.memorySizeBytes ≠ 2 ^ system.memorySizeBits) :
    system.IsBlock (aliasOfZero system) := by
  rw [RubySystem.IsBlock, aliasOfZero_toNat sized, sized.block]
  have least := ((Nat.log2_eq_iff nonzero).mp sized.memoryBits.symm).1
  exact ⟨Nat.lt_of_le_of_ne least other.symm, Nat.pow_dvd_pow 2 few⟩

theorem Shaped.exist_alias (shaped : Shaped system m) (sized : system.Sized)
    (line : (aliasOfZero system).IsLine system) :
    (m.added system 0 entry).exist system (aliasOfZero system) = .ok true := by
  have same : m.pathOf system (aliasOfZero system) = m.pathOf system 0 := by
    refine path_congr shaped.sliced ?_
    rw [shaped.high, Int.toNat_natCast, aliasOfZero_toNat sized, Nat.mod_self]
    rfl
  have found : (m.added system 0 entry).mapHead.find (m.pathOf system (aliasOfZero system)) =
      some (entry.clear system) := by
    rw [find_added, if_pos same]
  exact (shaped.added.exist_eq line).trans (congrArg (fun e => Except.ok (Option.isSome e)) found)

theorem exists_not_isMap [Nonempty α] (sized : system.Sized) (positive : 0 < numberOfLevels)
    (few : (numberOfLevels : Int) ≤ system.memorySizeBits - system.blockSizeBits)
    (other : system.memorySizeBytes ≠ 2 ^ system.memorySizeBits) :
    ∃ s : Run α, ReachableVia (runs system numberOfLevels α) (InMemory system) s ∧
      ¬ IsMap system s := by
  obtain ⟨content⟩ := ‹Nonempty α›
  let entry : AbstractEntry α := ⟨[], content⟩
  obtain ⟨first, bits, -, built⟩ := construct_ok (α := α) system positive
  generalize SparseMemory.mk _ _ _ = memory at built
  let start : Run α := ⟨memory, fun _ => none⟩
  have initial : Initial system numberOfLevels start := ⟨built, rfl⟩
  have represents := construct_represents sized positive few initial
  have nonzero : system.memorySizeBytes ≠ 0 := by
    intro none
    have bits := sized.memoryBits
    rw [none] at bits
    have zero : Nat.log2 0 = 0 := rfl
    omega
  have block := aliasOfZero_isBlock sized (by omega) nonzero other
  have zero : system.IsBlock 0 := ⟨Nat.pos_of_ne_zero nonzero, Nat.dvd_zero _⟩
  have line := (isLine_iff sized _).mpr zero.2
  have adds : perform system start (.add 0 entry) =
      .ok ⟨memory.added system 0 entry, Function.update start.map 0 (some (entry.clear system))⟩ := by
    rw [perform, represents.shaped.add_eq line (represents.find 0 zero) entry]
    rfl
  have inside : InMemory system start (.add 0 entry) := zero.1
  refine ⟨_, .step (.initial initial) inside adds, fun isMap => ?_⟩
  have told := isMap.exist _ block
  have apart : aliasOfZero system ≠ 0 := by
    intro same
    have value := aliasOfZero_toNat sized
    rw [same] at value
    exact (Nat.two_pow_pos _).ne value
  rw [represents.shaped.exist_alias sized ((isLine_iff sized _).mpr block.2)] at told
  dsimp only at told
  rw [update_of_ne apart] at told
  cases told

/-- After additions and removals of blocks of the memory, the sparse memory is the map that was
built, without empty tables, and its records are those of the map, exactly if the size of the memory
is a power of two. -/
theorem isMap_iff_power [Nonempty α] (sized : system.Sized) {numberOfLevels : Nat}
    (positive : 0 < numberOfLevels)
    (few : (numberOfLevels : Int) ≤ system.memorySizeBits - system.blockSizeBits) :
    (∃ s : Run α, Initial system numberOfLevels s) ∧
    ((∀ s : Run α, ReachableVia (runs system numberOfLevels α) (InMemory system) s →
        IsMap system s) ↔ ∃ n, system.memorySizeBytes = 2 ^ n) := by
  constructor
  · obtain ⟨first, bits, -, built⟩ := construct_ok (α := α) system positive
    exact ⟨⟨_, fun _ => none⟩, built, rfl⟩
  · constructor
    · intro all
      by_contra noPower
      obtain ⟨s, reach, fails⟩ := exists_not_isMap (α := α) sized positive few
        fun power => noPower ⟨_, power⟩
      exact fails (all s reach)
    · rintro ⟨n, size⟩ s reach
      have power : system.memorySizeBytes = 2 ^ system.memorySizeBits := by
        rw [sized.memoryBits, size, Nat.log2_two_pow]
      exact (reachable_represents sized positive few power reach).isMap sized power

def fresh : AbstractEntry Unit := ⟨[], ()⟩

def script : List (Call Unit) := [.add 64 fresh, .add 128 fresh, .remove 64]

/-- 64 blocks in three levels. -/
theorem isMap_iff_power_blocks :
    ∃ s : Run Unit, ReachableVia (runs ⟨64, 6, 4096, 12⟩ 3 Unit) (InMemory ⟨64, 6, 4096, 12⟩) s ∧
      s.map 128 ≠ none ∧ s.map 64 = none ∧ IsMap ⟨64, 6, 4096, 12⟩ s := by
  have sized : RubySystem.Sized ⟨64, 6, 4096, 12⟩ := by constructor <;> decide
  obtain ⟨⟨start, initial⟩, exactly⟩ :=
    isMap_iff_power (α := Unit) sized (show 0 < 3 by decide) (by decide)
  have inside : ∀ call ∈ script, call.target.toNat < 4096 := by decide
  have ran : (script.foldlM (perform ⟨64, 6, 4096, 12⟩) ⟨⟨6, [2, 2, 2], (∅ : SparseMapType Unit 2)⟩,
      fun _ => none⟩).toOption.any (fun s => s.map 128 ≠ none ∧ s.map 64 = none) = true := by
    decide +kernel
  have permitted : ∀ call ∈ script, ∀ s, InMemory ⟨64, 6, 4096, 12⟩ s call :=
    fun call member _ => inside call member
  obtain ⟨s, reach, checked⟩ :=
    foldlM_check (Initial ⟨64, 6, 4096, 12⟩ 3) permitted ⟨rfl, rfl⟩ ran
  obtain ⟨present, absent⟩ := of_decide_eq_true checked
  exact ⟨s, reach, present, absent, exactly.mpr ⟨12, rfl⟩ s reach⟩

/-- Three blocks of 64 bytes: after block 0 is added, the third block exists too. -/
theorem third_block_aliased :
    RubySystem.construct 64 192 = .ok ⟨64, 6, 192, 7⟩ ∧ RubySystem.IsBlock ⟨64, 6, 192, 7⟩ 128 ∧
    ∃ s : Run Unit, ReachableVia (runs ⟨64, 6, 192, 7⟩ 1 Unit) (InMemory ⟨64, 6, 192, 7⟩) s ∧
      s.map 128 = none ∧ s.memory.exist ⟨64, 6, 192, 7⟩ 128 = .ok true := by
  refine ⟨by decide +kernel, ⟨by decide, by decide⟩, ?_⟩
  have ran : (([.add 0 fresh] : List (Call Unit)).foldlM (perform ⟨64, 6, 192, 7⟩)
      ⟨⟨1, [1], (∅ : SparseMapType Unit 0)⟩, fun _ => none⟩).toOption.any (fun s =>
        s.map 128 = none ∧ s.memory.exist ⟨64, 6, 192, 7⟩ 128 = .ok true) = true := by
    decide +kernel
  have inside : ∀ call ∈ ([.add 0 fresh] : List (Call Unit)), call.target.toNat < 192 := by decide
  have permitted : ∀ call ∈ ([.add 0 fresh] : List (Call Unit)), ∀ s,
      InMemory ⟨64, 6, 192, 7⟩ s call := fun call member _ => inside call member
  obtain ⟨s, reach, checked⟩ :=
    foldlM_check (Initial ⟨64, 6, 192, 7⟩ 1) permitted ⟨rfl, rfl⟩ ran
  obtain ⟨absent, told⟩ := of_decide_eq_true checked
  exact ⟨s, reach, absent, told⟩

end SparseMemory
end SynchroTrace.Ruby
