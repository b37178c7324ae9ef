import Mathlib.Logic.Function.Basic
import SynchroTrace.Lib.Transition
import SynchroTrace.Ruby.PseudoLRUPolicy

namespace SynchroTrace.Ruby
open Outcome Transition

structure CacheEntry (α : Type) where
  address : PhysAddress
  permission : AccessPermission
  locked : Int
  content : α
  deriving DecidableEq, Repr

namespace CacheEntry
variable {α : Type}

def changePermission (entry : CacheEntry α) (permission : AccessPermission) : CacheEntry α :=
  { entry with
    permission
    locked := if permission = .invalid ∨ permission = .notPresent then -1 else entry.locked }

end CacheEntry

structure LRUPolicy where
  numSets : Nat
  assoc : Nat
  lastRefPtr : List (List Nat)
  deriving DecidableEq, Repr

def LRUPolicy.construct (numSets assoc : Nat) : LRUPolicy :=
  { numSets, assoc, lastRefPtr := List.replicate numSets (List.replicate assoc 0) }

def LRUPolicy.touch (policy : LRUPolicy) (set index time : Nat) : Except MemoryFault LRUPolicy := do
  require (index < policy.assoc) .assertion
  require (set < policy.numSets) .assertion
  return { policy with lastRefPtr := policy.lastRefPtr.modify set (·.set index time) }

inductive ReplacementPolicy where
  | pseudoLRU (policy : PseudoLRUPolicy)
  | lru (policy : LRUPolicy)
  deriving DecidableEq, Repr

namespace ReplacementPolicy

def construct (policy : String) (numSets assoc : Nat) : Except MemoryFault ReplacementPolicy :=
  if policy = "PSEUDO_LRU" then .pseudoLRU <$> PseudoLRUPolicy.construct numSets assoc
  else if policy = "LRU" then .ok (.lru (LRUPolicy.construct numSets assoc))
  else .error .assertion

def touch (set index time : Nat) : ReplacementPolicy → Except MemoryFault ReplacementPolicy
  | .pseudoLRU policy => .pseudoLRU <$> policy.touch set index time
  | .lru policy => .lru <$> policy.touch set index time

end ReplacementPolicy

/-- A cache. The sets and ways are numbered from 0, and a null pointer is `none`. -/
structure CacheMemory (α : Type) where
  cacheNumSets : Nat
  cacheNumSetBits : Nat
  cacheAssoc : Nat
  startIndexBit : Nat
  replacementPolicy : ReplacementPolicy
  tagIndex : PhysAddress → Option Nat
  cache : Nat → Nat → Option (CacheEntry α)

namespace CacheMemory
variable {α : Type}

structure Params where
  size : Nat
  assoc : Nat
  replacementPolicy : String
  startIndexBit : Nat
  size_lt : size < 2 ^ 31
  startIndexBit_lt : startIndexBit < 2 ^ 31

variable (system : RubySystem)

def init (p : Params) : Except MemoryFault (CacheMemory α) := do
  let cacheNumSets := p.size / p.assoc / system.blockSizeBytes
  require (1 < cacheNumSets) .assertion
  let cacheNumSetBits ← floorLog2 cacheNumSets
  require (0 < cacheNumSetBits) .assertion
  let replacementPolicy ← ReplacementPolicy.construct p.replacementPolicy cacheNumSets p.assoc
  return { cacheNumSets, cacheNumSetBits, cacheAssoc := p.assoc, startIndexBit := p.startIndexBit
           replacementPolicy, tagIndex := fun _ => none, cache := fun _ _ => none }

variable (c : CacheMemory α) (address : PhysAddress)

def addressToCacheSet : Except MemoryFault Nat := do
  require (address.IsLine system) .assertion
  let set ← address.bitSelect c.startIndexBit (c.startIndexBit + c.cacheNumSetBits - 1)
  return set.toNat

def findTagInSet (cacheSet : Nat) (tag : PhysAddress) : Except MemoryFault (Option Nat) := do
  require (tag.IsLine system) .assertion
  match c.tagIndex tag with
  | none => return none
  | some way =>
    match c.cache cacheSet way with
    | none => .error .nullPointer
    | some entry => return if entry.permission ≠ .notPresent then some way else none

def isTagPresent : Except MemoryFault Bool := do
  require (address.IsLine system) .assertion
  let cacheSet ← c.addressToCacheSet system address
  let loc ← c.findTagInSet system cacheSet address
  return loc.isSome

/-- A slot with a tag match or an unused line. -/
def slotAvail (cacheSet i : Nat) : Bool :=
  match c.cache cacheSet i with
  | some entry => entry.address = address || entry.permission = .notPresent
  | none => true

def cacheAvail : Except MemoryFault Bool := do
  require (address.IsLine system) .assertion
  let cacheSet ← c.addressToCacheSet system address
  return (List.range c.cacheAssoc).any (c.slotAvail address cacheSet)

def slotOpen (cacheSet i : Nat) : Bool :=
  match c.cache cacheSet i with
  | some entry => entry.permission = .notPresent
  | none => true

def firstOpen (cacheSet : Nat) : Option Nat :=
  (List.range c.cacheAssoc).find? (c.slotOpen cacheSet)

def setSlot (cacheSet i : Nat) (slot : Option (CacheEntry α)) : CacheMemory α :=
  { c with cache := Function.update c.cache cacheSet (Function.update (c.cache cacheSet) i slot) }

def setTag (way : Option Nat) : CacheMemory α :=
  { c with tagIndex := Function.update c.tagIndex address way }

def allocate (entry : CacheEntry α) (time : Nat) : Except MemoryFault (CacheMemory α) := do
  require (address.IsLine system) .assertion
  let present ← c.isTagPresent system address
  require (present = false) .assertion
  let avail ← c.cacheAvail system address
  require (avail = true) .assertion
  let cacheSet ← c.addressToCacheSet system address
  match c.firstOpen cacheSet with
  | none => .error .panic
  | some i =>
    let entry := { entry with address, permission := .invalid, locked := -1 }
    let replacementPolicy ← c.replacementPolicy.touch cacheSet i time
    return { (c.setSlot cacheSet i (some entry)).setTag address (some i) with replacementPolicy }

def deallocate : Except MemoryFault (CacheMemory α) := do
  require (address.IsLine system) .assertion
  let present ← c.isTagPresent system address
  require (present = true) .assertion
  let cacheSet ← c.addressToCacheSet system address
  let loc ← c.findTagInSet system cacheSet address
  match loc with
  | some way => return (c.setSlot cacheSet way none).setTag address none
  | none => return c

def lookup : Except MemoryFault (Option (CacheEntry α)) := do
  require (address.IsLine system) .assertion
  let cacheSet ← c.addressToCacheSet system address
  let loc ← c.findTagInSet system cacheSet address
  match loc with
  | some way => return c.cache cacheSet way
  | none => return none

/-- A controller changes the permission of an entry that it has a pointer to. -/
def changePermission (c : CacheMemory α) (cacheSet way : Nat) (permission : AccessPermission) :
    Except MemoryFault (CacheMemory α) :=
  match c.cache cacheSet way with
  | none => .error .nullPointer
  | some entry => .ok (c.setSlot cacheSet way (some (entry.changePermission permission)))

variable {system : RubySystem} {c c' : CacheMemory α} {address : PhysAddress} {cacheSet way : Nat}

@[simp] theorem setSlot_cache (c : CacheMemory α) (cacheSet i : Nat) (slot : Option (CacheEntry α))
    (set w : Nat) : (c.setSlot cacheSet i slot).cache set w =
      if set = cacheSet ∧ w = i then slot else c.cache set w := by
  unfold setSlot
  by_cases row : set = cacheSet
  · subst row
    by_cases column : w = i <;> simp [column]
  · simp [row]

theorem addressToCacheSet_line (h : c.addressToCacheSet system address = .ok cacheSet) :
    address.IsLine system := by
  obtain ⟨_, line, -⟩ := bind_ok h
  exact require_ok line

theorem findTagInSet_eq (line : address.IsLine system) : c.findTagInSet system cacheSet address =
      match c.tagIndex address with
      | none => .ok none
      | some way =>
        match c.cache cacheSet way with
        | none => .error .nullPointer
        | some entry => .ok (if entry.permission ≠ .notPresent then some way else none) := by
  rw [findTagInSet, require_of line, ok_bind]
  rfl

section
variable (set : c.addressToCacheSet system address = .ok cacheSet)
include set

theorem isTagPresent_eq :
    c.isTagPresent system address = Option.isSome <$> c.findTagInSet system cacheSet address := by
  rw [isTagPresent, require_of (addressToCacheSet_line set), ok_bind, set, ok_bind]
  rfl

theorem cacheAvail_eq : c.cacheAvail system address =
      .ok ((List.range c.cacheAssoc).any (c.slotAvail address cacheSet)) := by
  rw [cacheAvail, require_of (addressToCacheSet_line set), ok_bind, set, ok_bind]
  rfl

theorem lookup_eq : c.lookup system address =
      (fun loc => loc.bind (c.cache cacheSet)) <$> c.findTagInSet system cacheSet address := by
  rw [lookup, require_of (addressToCacheSet_line set), ok_bind, set, ok_bind]
  cases c.findTagInSet system cacheSet address with
  | error => rfl
  | ok loc => cases loc <;> rfl

end

variable {i time : Nat}

theorem firstOpen_some (h : c.firstOpen cacheSet = some i) :
    i < c.cacheAssoc ∧ c.slotOpen cacheSet i = true := by
  refine ⟨List.mem_range.mp (List.mem_of_find?_eq_some h), List.find?_some h⟩

variable {entry : CacheEntry α}

theorem allocate_ok (h : c.allocate system address entry time = .ok c') :
    ∃ cacheSet i replacementPolicy, c.addressToCacheSet system address = .ok cacheSet ∧
      c.isTagPresent system address = .ok false ∧ c.firstOpen cacheSet = some i ∧
      c' = { (c.setSlot cacheSet i (some { entry with
        address, permission := .invalid, locked := -1 })).setTag address (some i) with
          replacementPolicy } := by
  obtain ⟨_, -, h⟩ := bind_ok h
  obtain ⟨present, isPresent, h⟩ := bind_ok h
  obtain ⟨_, absent, h⟩ := bind_ok h
  obtain ⟨_, -, h⟩ := bind_ok h
  obtain ⟨_, -, h⟩ := bind_ok h
  obtain ⟨cacheSet, set, h⟩ := bind_ok h
  rw [require_ok absent] at isPresent
  split at h
  · cases h
  · rename_i i slot
    obtain ⟨replacementPolicy, -, h⟩ := bind_ok h
    exact ⟨cacheSet, i, replacementPolicy, set, isPresent, slot, pure_ok h⟩

theorem deallocate_ok (h : c.deallocate system address = .ok c') :
    ∃ cacheSet way, c.addressToCacheSet system address = .ok cacheSet ∧
      c.findTagInSet system cacheSet address = .ok (some way) ∧
      c' = (c.setSlot cacheSet way none).setTag address none := by
  obtain ⟨_, -, h⟩ := bind_ok h
  obtain ⟨present, isPresent, h⟩ := bind_ok h
  obtain ⟨_, holds, h⟩ := bind_ok h
  obtain ⟨cacheSet, set, h⟩ := bind_ok h
  obtain ⟨loc, found, h⟩ := bind_ok h
  rw [require_ok holds, isTagPresent_eq set, found] at isPresent
  cases loc with
  | none => cases isPresent
  | some way => exact ⟨cacheSet, way, set, found, pure_ok h⟩

inductive Call (α : Type) where
  | allocate (address : PhysAddress) (entry : CacheEntry α) (time : Nat)
  | deallocate (address : PhysAddress)
  | changePermission (cacheSet way : Nat) (permission : AccessPermission)

def perform (system : RubySystem) (c : CacheMemory α) : Call α → Except MemoryFault (CacheMemory α)
  | .allocate address entry time => c.allocate system address entry time
  | .deallocate address => c.deallocate system address
  | .changePermission cacheSet way permission => c.changePermission cacheSet way permission

def runs (system : RubySystem) (α : Type) : System (CacheMemory α) (Call α) :=
  ofFunction (fun c => ∃ p, init system p = .ok c) (perform system)

/-- What `allocate` does not check: the slot that it takes has the old entry of the same address, or
it is empty and the address has no entry anywhere. -/
def spare (system : RubySystem) (c : CacheMemory α) : Call α → Bool
  | .allocate address _ _ =>
    match c.addressToCacheSet system address with
    | .error _ => true
    | .ok cacheSet => (c.firstOpen cacheSet).all fun i =>
      match c.cache cacheSet i with
      | some entry => entry.address = address
      | none => c.tagIndex address = none
  | _ => true

structure Consistent (system : RubySystem) (c : CacheMemory α) : Prop where
  bits : 0 < c.cacheNumSetBits ∧ c.startIndexBit + c.cacheNumSetBits ≤ 2 ^ 32
  tagged : ∀ address way, c.tagIndex address = some way → ∃ cacheSet entry,
    c.addressToCacheSet system address = .ok cacheSet ∧ c.cache cacheSet way = some entry ∧
    entry.address = address
  indexed : ∀ cacheSet way entry, c.cache cacheSet way = some entry →
    c.tagIndex entry.address = some way ∧ way < c.cacheAssoc ∧
    c.addressToCacheSet system entry.address = .ok cacheSet

theorem init_consistent {p : Params} (h : init system p = .ok c) : Consistent system c := by
  obtain ⟨_, sets, h⟩ := bind_ok h
  obtain ⟨bits, isLog, h⟩ := bind_ok h
  obtain ⟨_, some, h⟩ := bind_ok h
  obtain ⟨policy, -, h⟩ := bind_ok h
  obtain rfl := pure_ok h
  have sets := require_ok sets
  have some := require_ok some
  have small : p.size / p.assoc / system.blockSizeBytes < 2 ^ 31 :=
    (Nat.div_le_self _ _).trans_lt ((Nat.div_le_self _ _).trans_lt p.size_lt)
  rw [floorLog2_eq (by omega) (by omega)] at isLog
  obtain rfl := Except.ok.inj isLog
  have few := (Nat.log2_lt (by omega)).mpr small
  have start := p.startIndexBit_lt
  exact ⟨⟨some, by dsimp only; omega⟩, fun _ _ => nofun, fun _ _ _ => nofun⟩

theorem Consistent.exists_cacheSet (consistent : Consistent system c) (line : address.IsLine system) :
    ∃ cacheSet, c.addressToCacheSet system address = .ok cacheSet := by
  obtain ⟨some, inside⟩ := consistent.bits
  have last : (c.startIndexBit : Int) + c.cacheNumSetBits - 1 =
      (c.startIndexBit + c.cacheNumSetBits - 1 : Nat) := by omega
  obtain ⟨set, selects⟩ := address.exists_bitSelect
    (show c.startIndexBit ≤ c.startIndexBit + c.cacheNumSetBits - 1 by omega) (by omega)
  rw [addressToCacheSet, require_of line, ok_bind, last, selects]
  exact ⟨_, rfl⟩

theorem Consistent.unique (consistent : Consistent system c) {set set' w w' : Nat}
    {entry' : CacheEntry α} (here : c.cache set w = some entry)
    (there : c.cache set' w' = some entry') (same : entry.address = entry'.address) :
    set = set' ∧ w = w' := by
  obtain ⟨tag, -, place⟩ := consistent.indexed set w entry here
  obtain ⟨tag', -, place'⟩ := consistent.indexed set' w' entry' there
  rw [same] at tag place
  exact ⟨Except.ok.inj (place.symm.trans place'), Option.some.inj (tag.symm.trans tag')⟩

theorem spare_allocate (spared : c.spare system (.allocate address entry time) = true)
    (set : c.addressToCacheSet system address = .ok cacheSet) (slot : c.firstOpen cacheSet = some i) :
    c.cache cacheSet i = none ∧ c.tagIndex address = none ∨
      ∃ old, c.cache cacheSet i = some old ∧ old.address = address := by
  rw [spare, set] at spared
  simp only [slot, Option.all_some] at spared
  cases taken : c.cache cacheSet i with
  | none =>
    rw [taken] at spared
    exact .inl ⟨rfl, of_decide_eq_true spared⟩
  | some old =>
    rw [taken] at spared
    exact .inr ⟨old, rfl, of_decide_eq_true spared⟩

section
variable (consistent : Consistent system c)
include consistent

theorem Consistent.place (entry : CacheEntry α)
    (set : c.addressToCacheSet system entry.address = .ok cacheSet) (inside : way < c.cacheAssoc)
    (spared : c.cache cacheSet way = none ∧ c.tagIndex entry.address = none ∨
      ∃ old, c.cache cacheSet way = some old ∧ old.address = entry.address) :
    Consistent system ((c.setSlot cacheSet way (some entry)).setTag entry.address (some way)) := by
  refine ⟨consistent.bits, fun address w tag => ?_, fun set' w entry' found => ?_⟩
  · by_cases here : address = entry.address
    · subst here
      obtain rfl : way = w := by simpa [setTag] using tag
      exact ⟨cacheSet, entry, set, by simp [setTag], rfl⟩
    · have tag : c.tagIndex address = some w := by simpa [setTag, setSlot, here] using tag
      obtain ⟨set', old, place, held, rfl⟩ := consistent.tagged address w tag
      have elsewhere : ¬ (set' = cacheSet ∧ w = way) := by
        rintro ⟨rfl, rfl⟩
        obtain ⟨empty, -⟩ | ⟨_, held', same⟩ := spared
        · cases empty.symm.trans held
        · cases held'.symm.trans held
          exact here same
      exact ⟨set', old, place, by simp [setTag, elsewhere, held], rfl⟩
  · by_cases here : set' = cacheSet ∧ w = way
    · obtain ⟨rfl, rfl⟩ := here
      obtain rfl : entry = entry' := by simpa [setTag] using found
      exact ⟨by simp [setTag], inside, set⟩
    · have held : c.cache set' w = some entry' := by simpa [setTag, here] using found
      obtain ⟨tag, bound, place⟩ := consistent.indexed set' w entry' held
      have other : entry'.address ≠ entry.address := by
        intro same
        obtain ⟨-, untagged⟩ | ⟨old, held', address⟩ := spared
        · cases (same ▸ tag).symm.trans untagged
        · exact here (consistent.unique held held' (same.trans address.symm))
      exact ⟨by simpa [setTag, setSlot, other] using tag, bound, place⟩

variable {entry : CacheEntry α}

theorem Consistent.remove (held : c.cache cacheSet way = some entry) :
    Consistent system ((c.setSlot cacheSet way none).setTag entry.address none) := by
  refine ⟨consistent.bits, fun address w tag => ?_, fun set' w entry' found => ?_⟩
  · have other : address ≠ entry.address := by
      rintro rfl
      simp [setTag] at tag
    have tag : c.tagIndex address = some w := by simpa [setTag, setSlot, other] using tag
    obtain ⟨set', old, place, held', rfl⟩ := consistent.tagged address w tag
    have elsewhere : ¬ (set' = cacheSet ∧ w = way) := by
      rintro ⟨rfl, rfl⟩
      cases held.symm.trans held'
      exact other rfl
    exact ⟨set', old, place, by simp [setTag, elsewhere, held'], rfl⟩
  · have elsewhere : ¬ (set' = cacheSet ∧ w = way) := by
      intro here
      simp [setTag, here] at found
    have held' : c.cache set' w = some entry' := by simpa [setTag, elsewhere] using found
    obtain ⟨tag, bound, place⟩ := consistent.indexed set' w entry' held'
    have other : entry'.address ≠ entry.address := fun same =>
      elsewhere (consistent.unique held' held same)
    exact ⟨by simpa [setTag, setSlot, other] using tag, bound, place⟩

theorem Consistent.allocate {time : Nat}
    (spared : c.spare system (.allocate address entry time) = true)
    (h : c.allocate system address entry time = .ok c') : Consistent system c' := by
  obtain ⟨cacheSet, i, policy, set, -, slot, rfl⟩ := allocate_ok h
  have placed := consistent.place { entry with address, permission := .invalid, locked := -1 } set
    (firstOpen_some slot).1 (spare_allocate spared set slot)
  exact ⟨placed.bits, placed.tagged, placed.indexed⟩

theorem Consistent.found (set : c.addressToCacheSet system address = .ok cacheSet)
    (tag : c.tagIndex address = some way) :
    ∃ entry, c.cache cacheSet way = some entry ∧ entry.address = address := by
  obtain ⟨set', entry, set'Ok, held, same⟩ := consistent.tagged address way tag
  obtain rfl := Except.ok.inj (set'Ok.symm.trans set)
  exact ⟨entry, held, same⟩

end

theorem findTagInSet_some (line : address.IsLine system)
    (h : c.findTagInSet system cacheSet address = .ok (some way)) :
    c.tagIndex address = some way := by
  rw [findTagInSet_eq line] at h
  split at h
  · cases h
  · split at h
    · cases h
    · split_ifs at h with present
      · cases h
        assumption
      · cases h

theorem Consistent.deallocate (consistent : Consistent system c)
    (h : c.deallocate system address = .ok c') : Consistent system c' := by
  obtain ⟨cacheSet, way, set, found, rfl⟩ := deallocate_ok h
  obtain ⟨entry, held, rfl⟩ :=
    consistent.found set (findTagInSet_some (addressToCacheSet_line set) found)
  exact consistent.remove held

theorem Consistent.changePermission (consistent : Consistent system c)
    {permission : AccessPermission} (h : c.changePermission cacheSet way permission = .ok c') :
    Consistent system c' := by
  rw [CacheMemory.changePermission] at h
  split at h
  · cases h
  · rename_i entry held
    obtain rfl := Except.ok.inj h
    obtain ⟨tag, inside, place⟩ := consistent.indexed cacheSet way entry held
    have placed := consistent.place (entry.changePermission permission) place inside
      (.inr ⟨entry, held, rfl⟩)
    -- the tag of the entry stays as it is
    have same : c.tagIndex = Function.update c.tagIndex entry.address (some way) := by
      rw [← tag, Function.update_eq_self]
    refine ⟨placed.bits, fun address w tagged => placed.tagged address w ?_,
      fun set w entry' found => ?_⟩
    · rw [← tagged]
      exact congrFun same.symm address
    · obtain ⟨tagged, rest⟩ := placed.indexed set w entry' found
      refine ⟨?_, rest⟩
      rw [← tagged]
      exact congrFun same _

theorem reachable_consistent
    (reach : ReachableVia (runs system α) (fun c call => c.spare system call = true) c) :
    Consistent system c := by
  refine reach.invariant (Consistent system) (fun c start => ?_)
    fun c call next _ spared consistent step => ?_
  · obtain ⟨p, built⟩ := start
    exact init_consistent built
  · cases call with
    | allocate => exact consistent.allocate spared step
    | deallocate => exact consistent.deallocate step
    | changePermission => exact consistent.changePermission step

def Holds (c : CacheMemory α) (address : PhysAddress) (entry : CacheEntry α) : Prop :=
  ∃ cacheSet way, c.cache cacheSet way = some entry ∧ entry.address = address ∧
    entry.permission ≠ .notPresent

structure LooksUp (system : RubySystem) (c : CacheMemory α) (address : PhysAddress) : Prop where
  found : ∀ cacheSet way, c.addressToCacheSet system address = .ok cacheSet →
    c.findTagInSet system cacheSet address = .ok (some way) →
    ∃ entry, c.cache cacheSet way = some entry ∧ entry.address = address
  unique : ∀ set way set' way' entry entry', c.cache set way = some entry →
    c.cache set' way' = some entry' → entry.address = address → entry'.address = address →
    entry.permission ≠ .notPresent → entry'.permission ≠ .notPresent → set = set' ∧ way = way'
  lookup : ∃ result, c.lookup system address = .ok result ∧
    ∀ entry, result = some entry ↔ c.Holds address entry
  isTagPresent : ∃ present, c.isTagPresent system address = .ok present ∧
    (present = true ↔ ∃ entry, c.Holds address entry)
  cacheAvail : ∃ cacheSet avail, c.addressToCacheSet system address = .ok cacheSet ∧
    c.cacheAvail system address = .ok avail ∧
    (avail = true ↔ (∃ entry, c.Holds address entry) ∨
      ∃ way < c.cacheAssoc, c.slotOpen cacheSet way = true)

theorem Consistent.findTagInSet (consistent : Consistent system c)
    (set : c.addressToCacheSet system address = .ok cacheSet) :
    (∃ way entry, c.findTagInSet system cacheSet address = .ok (some way) ∧
      c.cache cacheSet way = some entry ∧ entry.address = address ∧
      entry.permission ≠ .notPresent) ∨
    c.findTagInSet system cacheSet address = .ok none ∧ ∀ entry, ¬ c.Holds address entry := by
  rw [findTagInSet_eq (addressToCacheSet_line set)]
  cases tag : c.tagIndex address with
  | none =>
    refine .inr ⟨rfl, ?_⟩
    rintro entry ⟨set', way, held, rfl, -⟩
    cases tag.symm.trans (consistent.indexed set' way entry held).1
  | some way =>
    obtain ⟨entry, held, same⟩ := consistent.found set tag
    simp only [held]
    by_cases present : entry.permission = .notPresent
    · refine .inr ⟨by simp [present], ?_⟩
      rintro entry' ⟨set', way', held', same', present'⟩
      obtain ⟨rfl, rfl⟩ := consistent.unique held held' (same.trans same'.symm)
      cases held.symm.trans held'
      exact present' present
    · exact .inl ⟨way, entry, by simp [present], held, same, present⟩

theorem slotAvail_iff (i : Nat) : c.slotAvail address cacheSet i = true ↔
    c.slotOpen cacheSet i = true ∨
      ∃ entry, c.cache cacheSet i = some entry ∧ entry.address = address := by
  rw [slotAvail, slotOpen]
  cases c.cache cacheSet i with
  | none => simp
  | some entry => simp [or_comm]

theorem Consistent.cacheAvail_iff (consistent : Consistent system c)
    (set : c.addressToCacheSet system address = .ok cacheSet) :
    (List.range c.cacheAssoc).any (c.slotAvail address cacheSet) = true ↔
      (∃ entry, c.Holds address entry) ∨ ∃ way < c.cacheAssoc, c.slotOpen cacheSet way = true := by
  simp only [List.any_eq_true, List.mem_range, slotAvail_iff]
  constructor
  · rintro ⟨way, inside, isOpen | ⟨entry, held, same⟩⟩
    · exact .inr ⟨way, inside, isOpen⟩
    · by_cases present : entry.permission = .notPresent
      · exact .inr ⟨way, inside, by simp [slotOpen, held, present]⟩
      · exact .inl ⟨entry, cacheSet, way, held, same, present⟩
  · rintro (⟨entry, set', way, held, rfl, -⟩ | ⟨way, inside, isOpen⟩)
    · obtain ⟨-, inside, place⟩ := consistent.indexed set' way entry held
      obtain rfl := Except.ok.inj (place.symm.trans set)
      exact ⟨way, inside, .inr ⟨entry, held, rfl⟩⟩
    · exact ⟨way, inside, .inl isOpen⟩

/-- In every run whose allocations take no slot from another address, the lookups of every line
address tell of its entry. -/
theorem lookups_right
    (reach : ReachableVia (runs system α) (fun c call => c.spare system call = true) c)
    (line : address.IsLine system) : LooksUp system c address := by
  have consistent := reachable_consistent reach
  obtain ⟨cacheSet, set⟩ := consistent.exists_cacheSet line
  have search := consistent.findTagInSet set
  refine ⟨fun set' way set'Ok found => ?_, fun _ _ _ _ _ _ held held' same same' _ _ => ?_, ?_, ?_,
    ?_⟩
  · exact consistent.found set'Ok (findTagInSet_some line found)
  · exact consistent.unique held held' (same.trans same'.symm)
  · obtain ⟨way, entry, found, held, same, present⟩ | ⟨found, absent⟩ := search
    · refine ⟨some entry, ?_, fun entry' => ?_⟩
      · rw [lookup_eq set, found]
        exact congrArg Except.ok held
      · constructor
        · rintro ⟨⟩
          exact ⟨cacheSet, way, held, same, present⟩
        · rintro ⟨set', way', held', same', -⟩
          obtain ⟨rfl, rfl⟩ := consistent.unique held held' (same.trans same'.symm)
          exact held.symm.trans held'
    · refine ⟨none, ?_, fun entry => ?_⟩
      · rw [lookup_eq set, found]
        rfl
      · simp [absent]
  · rw [isTagPresent_eq set]
    obtain ⟨way, entry, found, held, same, present⟩ | ⟨found, absent⟩ := search
    · rw [found]
      exact ⟨true, rfl, by simpa using ⟨entry, cacheSet, way, held, same, present⟩⟩
    · rw [found]
      exact ⟨false, rfl, by simpa using absent⟩
  · exact ⟨cacheSet, _, set, cacheAvail_eq set, consistent.cacheAvail_iff set⟩

def blocks : RubySystem := ⟨64, 6, 4096, 12⟩

def small : CacheMemory Unit where
  cacheNumSets := 2
  cacheNumSetBits := 1
  cacheAssoc := 2
  startIndexBit := 6
  replacementPolicy := .lru (LRUPolicy.construct 2 2)
  tagIndex := fun _ => none
  cache := fun _ _ => none

theorem small_init : ∃ p, init blocks p = .ok small :=
  ⟨⟨256, 2, "LRU", 6, by decide, by decide⟩, rfl⟩

def blank : CacheEntry Unit := ⟨0, .notPresent, -1, ()⟩

/-- Two addresses of one set are allocated. -/
theorem lookups_right_small :
    ∃ c : CacheMemory Unit, c.tagIndex 128 = some 1 ∧ LooksUp blocks c 0 := by
  have ran : (([.allocate 0 blank 1, .allocate 128 blank 2] : List (Call Unit)).foldlM
      (fun c call => if spare blocks c call = true then perform blocks c call
        else Except.error MemoryFault.assertion) small).toOption.any
          (fun c => c.tagIndex 128 = some 1) = true := by
    decide +kernel
  obtain ⟨c, reach, checked⟩ :=
    foldlM_check_allowed (fun c => ∃ p, init blocks p = .ok c) small_init ran
  exact ⟨c, of_decide_eq_true checked, lookups_right reach (by decide)⟩

/-- The slot of an entry that is not present is taken for another address: the old address is still
in the map, and is found where the new one is. -/
theorem reused_slot_found : ∃ c : CacheMemory Unit, Reachable (runs blocks Unit) c ∧
      PhysAddress.IsLine blocks 0 ∧ c.addressToCacheSet blocks 0 = .ok 0 ∧
      c.findTagInSet blocks 0 0 = .ok (some 0) ∧
      ∃ entry, c.cache 0 0 = some entry ∧ entry.address = 128 ∧
        c.lookup blocks 0 = .ok (some entry) := by
  have ran : (([.allocate 0 blank 1, .changePermission 0 0 .notPresent, .allocate 128 blank 2] :
      List (Call Unit)).foldlM (perform blocks) small).toOption.any (fun c =>
        c.addressToCacheSet blocks 0 = .ok 0 ∧ c.findTagInSet blocks 0 0 = .ok (some 0) ∧
        c.cache 0 0 = some { blank with address := 128, permission := .invalid } ∧
        c.lookup blocks 0 = .ok (some { blank with address := 128, permission := .invalid })) =
      true := by
    decide +kernel
  obtain ⟨c, reach, checked⟩ := foldlM_check (fun c => ∃ p, init blocks p = .ok c)
    (fun _ _ _ => trivial) small_init ran
  obtain ⟨set, found, held, looked⟩ := of_decide_eq_true checked
  exact ⟨c, reach, by decide, set, found, _, held, rfl, looked⟩

end CacheMemory
end SynchroTrace.Ruby
