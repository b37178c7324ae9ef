import Mathlib.Algebra.BigOperators.Fin
import Mathlib.Data.Fintype.Sigma
import SynchroTrace.Garnet.Message
import SynchroTrace.Ruby.NodeSet

namespace SynchroTrace.Ruby

open Outcome Transition Garnet List NodeSet

/-- The class `NetDest`, with one set of controllers for each machine type. -/
structure NetDestBits where
  bits : List NodeSet
deriving DecidableEq

namespace NetDestBits

variable {m : Machines}

def set (d : NetDestBits) (i : Nat) : NodeSet := d.bits.getD i (setSize 0)

def resize (m : Machines) : NetDestBits where
  bits := (List.finRange m.numTypes).map fun i => setSize (m.count i)

/-- `vecIndex`: the base level of a machine's type is its place among the types. -/
def vecIndex (d : NetDestBits) (machine : MachineID m) : Except MemoryFault Nat := do
  require (machine.1.val < d.bits.length) .assertion
  return machine.1

def add (d : NetDestBits) (newElement : MachineID m) : Except MemoryFault NetDestBits := do
  let i ← d.vecIndex newElement
  return ⟨d.bits.modify i (·.add newElement.2)⟩

def remove (d : NetDestBits) (oldElement : MachineID m) : Except MemoryFault NetDestBits := do
  let i ← d.vecIndex oldElement
  return ⟨d.bits.modify i (·.remove oldElement.2)⟩

def combine (op : NodeSet → NodeSet → Except MemoryFault NodeSet) (d netDest : NetDestBits) :
    Except MemoryFault NetDestBits := do
  require (d.bits.length = netDest.bits.length) .assertion
  return ⟨← (List.range d.bits.length).mapM fun i => op (d.set i) (netDest.set i)⟩

def addNetDest : NetDestBits → NetDestBits → Except MemoryFault NetDestBits :=
  combine NodeSet.addSet

def removeNetDest : NetDestBits → NetDestBits → Except MemoryFault NetDestBits :=
  combine NodeSet.removeSet

def or : NetDestBits → NetDestBits → Except MemoryFault NetDestBits := combine NodeSet.or

def and : NetDestBits → NetDestBits → Except MemoryFault NetDestBits := combine NodeSet.and

def clear (d : NetDestBits) : NetDestBits := ⟨d.bits.map NodeSet.clear⟩

def broadcastType (m : Machines) (d : NetDestBits) (machineType : Fin m.numTypes) :
    Except MemoryFault NetDestBits :=
  (List.finRange (m.count machineType)).foldlM
    (fun d i => d.add (⟨machineType, i⟩ : MachineID m)) d

def broadcast (m : Machines) (d : NetDestBits) : Except MemoryFault NetDestBits :=
  (List.finRange m.numTypes).foldlM (broadcastType m) d

def copy (d : NetDestBits) : NetDestBits := ⟨d.bits.map NodeSet.copy⟩

def assign (same : Bool) (d obj : NetDestBits) : NetDestBits := if same then d else copy obj

def getAllDest (m : Machines) (d : NetDestBits) : List Nat :=
  (List.range d.bits.length).flatMap fun i =>
    ((List.range (d.set i).nSize).filter (d.set i).isElement).map (m.baseNumber i + ·)

def count (d : NetDestBits) : Nat :=
  (List.range d.bits.length).foldl (fun counter i => counter + (d.set i).count) 0

def isBroadcast (d : NetDestBits) : Bool :=
  (List.range d.bits.length).all fun i => (d.set i).isBroadcast

def isEmpty (d : NetDestBits) : Bool := (List.range d.bits.length).all fun i => (d.set i).isEmpty

def intersectionIsNotEmpty (d other : NetDestBits) : Except MemoryFault Bool := do
  require (d.bits.length = other.bits.length) .assertion
  return (List.range d.bits.length).any fun i => !(d.set i).intersectionIsEmpty (other.set i)

def isSuperset (d test : NetDestBits) : Except MemoryFault Bool := do
  require (d.bits.length = test.bits.length) .assertion
  (List.range d.bits.length).allM fun i => (d.set i).isSuperset (test.set i)

def isElement (d : NetDestBits) (element : MachineID m) : Except MemoryFault Bool := do
  let i ← d.vecIndex element
  return (d.set i).isElement element.2

def slice (D : NetDest m) (i : Fin m.numTypes) : Finset Nat :=
  (Finset.univ.filter fun j : Fin (m.count i) => (⟨i, j⟩ : MachineID m) ∈ D).map Fin.valEmbedding

theorem mem_slice {D : NetDest m} {i : Fin m.numTypes} {j : Nat} :
    j ∈ slice D i ↔ ∃ h : j < m.count i, (⟨i, ⟨j, h⟩⟩ : MachineID m) ∈ D := by
  simp only [slice, Finset.mem_map, Finset.mem_filter, Finset.mem_univ, true_and,
    Fin.valEmbedding_apply]
  constructor
  · rintro ⟨j, member, rfl⟩
    exact ⟨j.isLt, member⟩
  · rintro ⟨h, member⟩
    exact ⟨⟨j, h⟩, member, rfl⟩

@[simp] theorem mem_slice_fin {D : NetDest m} {i : Fin m.numTypes} {j : Fin (m.count i)} :
    j.val ∈ slice D i ↔ (⟨i, j⟩ : MachineID m) ∈ D := by
  rw [mem_slice]
  exact ⟨fun ⟨_, member⟩ => member, fun member => ⟨j.isLt, member⟩⟩

section Slices
variable (D E : NetDest m) (i : Fin m.numTypes)

theorem slice_union : slice (D ∪ E) i = slice D i ∪ slice E i := by
  ext j
  simp only [mem_slice, Finset.mem_union, exists_or]

theorem slice_inter : slice (D ∩ E) i = slice D i ∩ slice E i := by
  ext j
  simp only [mem_slice, Finset.mem_inter]
  exact ⟨fun ⟨h, l, r⟩ => ⟨⟨h, l⟩, h, r⟩, fun ⟨⟨h, l⟩, _, r⟩ => ⟨h, l, r⟩⟩

theorem slice_sdiff : slice (D \ E) i = slice D i \ slice E i := by
  ext j
  simp only [mem_slice, Finset.mem_sdiff]
  exact ⟨fun ⟨h, l, r⟩ => ⟨⟨h, l⟩, fun ⟨_, r'⟩ => r r'⟩, fun ⟨⟨h, l⟩, r⟩ => ⟨h, l, fun r' => r ⟨h, r'⟩⟩⟩

theorem slice_empty : slice (∅ : NetDest m) i = ∅ := by
  ext j
  simp [mem_slice]

theorem slice_univ : slice (Finset.univ : NetDest m) i = Finset.range (m.count i) := by
  ext j
  simp [mem_slice]

theorem slice_singleton_self (j : Fin (m.count i)) : slice ({⟨i, j⟩} : NetDest m) i = {j.val} := by
  ext k
  simp only [mem_slice, Finset.mem_singleton, Sigma.mk.injEq, heq_eq_eq, true_and]
  constructor
  · rintro ⟨h, same⟩
    exact congrArg Fin.val same
  · rintro rfl
    exact ⟨j.isLt, rfl⟩

variable {i} in
theorem slice_singleton_of_ne {id : MachineID m} (other : i ≠ id.1) :
    slice ({id} : NetDest m) i = ∅ := by
  ext k
  simp only [mem_slice, Finset.mem_singleton, Finset.notMem_empty, iff_false, not_exists]
  rintro h rfl
  exact other rfl

theorem subset_iff_slices : D ⊆ E ↔ ∀ i, slice D i ⊆ slice E i := by
  constructor
  · intro sub i j member
    obtain ⟨h, member⟩ := mem_slice.mp member
    exact mem_slice.mpr ⟨h, sub member⟩
  · rintro sub ⟨i, j⟩ member
    exact mem_slice_fin.mp (sub i (mem_slice_fin.mpr member))

theorem eq_iff_slices : D = E ↔ ∀ i, slice D i = slice E i := by
  rw [Finset.Subset.antisymm_iff, subset_iff_slices, subset_iff_slices, ← forall_and]
  exact forall_congr' fun i => Finset.Subset.antisymm_iff.symm

theorem card_eq_sum_slices : D.card = ∑ i, (slice D i).card := by
  have whole : D = Finset.univ.sigma fun i =>
      Finset.univ.filter fun j : Fin (m.count i) => (⟨i, j⟩ : MachineID m) ∈ D := by
    ext id
    simp
  conv_lhs => rw [whole]
  rw [Finset.card_sigma]
  exact Finset.sum_congr rfl fun i _ => (Finset.card_map _).symm

end Slices

structure Holds (m : Machines) (d : NetDestBits) (D : NetDest m) : Prop where
  types : d.bits.length = m.numTypes
  sets : ∀ i : Fin m.numTypes, (d.set i).Holds (m.count i) (slice D i)

variable {d e : NetDestBits} {D E U : NetDest m}

theorem resize_holds (m : Machines) : Holds m (resize m) ∅ := by
  refine ⟨by simp [resize], fun i => ?_⟩
  rw [slice_empty]
  have : (resize m).set i = setSize (m.count i) := by simp [resize, set]
  rw [this]
  exact setSize_holds _

section
variable (held : Holds m d D)
include held

theorem Holds.inside (i : Fin m.numTypes) : i.val < d.bits.length := by
  rw [held.types]
  exact i.isLt

theorem Holds.vecIndex (id : MachineID m) : d.vecIndex id = .ok id.1.val := by
  rw [NetDestBits.vecIndex, require_of (held.inside id.1)]
  rfl

theorem Holds.modify (id : MachineID m) {change : NodeSet → NodeSet}
    (here : (change (d.set id.1)).Holds (m.count id.1) (slice U id.1))
    (elsewhere : ∀ i ≠ id.1, slice U i = slice D i) :
    Holds m ⟨d.bits.modify id.1 change⟩ U := by
  refine ⟨(length_modify ..).trans held.types, fun i => ?_⟩
  by_cases same : i = id.1
  · subst same
    have inside := held.inside id.1
    have changed : set ⟨d.bits.modify id.1 change⟩ id.1 = change (d.set id.1) := by
      simp [set, inside]
    rw [changed]
    exact here
  · have kept : set ⟨d.bits.modify id.1 change⟩ i = d.set i := by
      have : id.1.val ≠ i.val := fun h => same (Fin.ext h.symm)
      simp [set, this]
    rw [kept, elsewhere i same]
    exact held.sets i

theorem Holds.add (id : MachineID m) : ∃ d', d.add id = .ok d' ∧ Holds m d' (insert id D) := by
  refine ⟨_, by rw [NetDestBits.add, held.vecIndex]; rfl, held.modify id ?_ fun i other => ?_⟩
  · rw [Finset.insert_eq, slice_union, slice_singleton_self, ← Finset.insert_eq]
    exact (held.sets id.1).add id.2.isLt
  · rw [Finset.insert_eq, slice_union, slice_singleton_of_ne other, Finset.empty_union]

theorem Holds.remove (id : MachineID m) : ∃ d', d.remove id = .ok d' ∧ Holds m d' (D.erase id) := by
  refine ⟨_, by rw [NetDestBits.remove, held.vecIndex]; rfl, held.modify id ?_ fun i other => ?_⟩
  · rw [← Finset.sdiff_singleton_eq_erase, slice_sdiff, slice_singleton_self,
      Finset.sdiff_singleton_eq_erase]
    exact (held.sets id.1).remove id.2.isLt
  · rw [← Finset.sdiff_singleton_eq_erase, slice_sdiff, slice_singleton_of_ne other,
      Finset.sdiff_empty]

theorem Holds.combine (held' : Holds m e E) {op : NodeSet → NodeSet → Except MemoryFault NodeSet}
    (each : ∀ i : Fin m.numTypes, ∃ u, op (d.set i) (e.set i) = .ok u ∧ u.Holds (m.count i) (slice U i)) :
    ∃ d', combine op d e = .ok d' ∧ Holds m d' U := by
  choose result done results using each
  have mapped : (List.range d.bits.length).mapM (fun i => op (d.set i) (e.set i)) =
      .ok (List.ofFn result) := by
    rw [held.types, ← map_coe_finRange_eq_range, mapM_map (fun i _ => done i),
      mapM_eq_map (fun i _ => rfl), ofFn_eq_map]
  refine ⟨⟨List.ofFn result⟩, ?_, by simp, fun i => ?_⟩
  · rw [NetDestBits.combine, require_of (held.types.trans held'.types.symm), ok_bind, mapped]
    rfl
  · have : set ⟨List.ofFn result⟩ i = result i := by simp [set]
    rw [this]
    exact results i

theorem Holds.addNetDest (held' : Holds m e E) :
    ∃ d', d.addNetDest e = .ok d' ∧ Holds m d' (D ∪ E) :=
  held.combine held' fun i => slice_union D E i ▸ (held.sets i).addSet (held'.sets i)

theorem Holds.removeNetDest (held' : Holds m e E) :
    ∃ d', d.removeNetDest e = .ok d' ∧ Holds m d' (D \ E) :=
  held.combine held' fun i => slice_sdiff D E i ▸ (held.sets i).removeSet (held'.sets i)

theorem Holds.and (held' : Holds m e E) : ∃ d', d.and e = .ok d' ∧ Holds m d' (D ∩ E) :=
  held.combine held' fun i => slice_inter D E i ▸ (held.sets i).and (held'.sets i)

theorem Holds.clear : Holds m d.clear ∅ := by
  refine ⟨(length_map _).trans held.types, fun i => ?_⟩
  have inside := held.inside i
  have cleared : d.clear.set i = (d.set i).clear := by simp [NetDestBits.clear, set, inside]
  rw [cleared, slice_empty]
  exact (held.sets i).clear

theorem Holds.broadcastType (machineType : Fin m.numTypes) :
    ∃ d', broadcastType m d machineType = .ok d' ∧
      Holds m d' (D ∪ Finset.univ.filter (·.1 = machineType)) := by
  have loop : ∀ (numbers : List (Fin (m.count machineType))) {d : NetDestBits} {D : NetDest m},
      Holds m d D → ∃ d', numbers.foldlM
        (fun d i => d.add (⟨machineType, i⟩ : MachineID m)) d = .ok d' ∧
        Holds m d' (D ∪ (numbers.map fun i => (⟨machineType, i⟩ : MachineID m)).toFinset) := by
    intro numbers
    induction numbers with
    | nil => exact fun held => ⟨_, rfl, by simpa using held⟩
    | cons i numbers ih =>
      intro d D held
      obtain ⟨middle, first, held⟩ := held.add ⟨machineType, i⟩
      obtain ⟨last, rest, held⟩ := ih held
      refine ⟨last, by rw [foldlM_cons, first]; exact rest, ?_⟩
      rwa [map_cons, toFinset_cons, Finset.union_insert, ← Finset.insert_union]
  obtain ⟨d', done, held⟩ := loop (List.finRange _) held
  refine ⟨d', done, ?_⟩
  convert held using 2
  ext ⟨i, j⟩
  simp only [Finset.mem_filter, Finset.mem_univ, true_and, mem_toFinset, mem_map, mem_finRange]
  constructor
  · rintro rfl
    exact ⟨j, rfl⟩
  · rintro ⟨k, same⟩
    exact (congrArg Sigma.fst same).symm

theorem Holds.broadcast : ∃ d', d.broadcast m = .ok d' ∧ Holds m d' Finset.univ := by
  have loop : ∀ (types : List (Fin m.numTypes)) {d : NetDestBits} {D : NetDest m},
      Holds m d D → ∃ d', types.foldlM (NetDestBits.broadcastType m) d = .ok d' ∧
        Holds m d' (D ∪ Finset.univ.filter (·.1 ∈ types)) := by
    intro types
    induction types with
    | nil => exact fun held => ⟨_, rfl, by simpa using held⟩
    | cons i types ih =>
      intro d D held
      obtain ⟨middle, first, held⟩ := held.broadcastType i
      obtain ⟨last, rest, held⟩ := ih held
      refine ⟨last, by rw [foldlM_cons, first]; exact rest, ?_⟩
      rw [Finset.union_assoc, ← Finset.filter_or] at held
      simpa only [mem_cons] using held
  obtain ⟨d', done, held⟩ := loop (List.finRange _) held
  refine ⟨d', done, ?_⟩
  simpa [Finset.union_eq_right.mpr (Finset.subset_univ D)] using held

end

theorem copy_eq (d : NetDestBits) : copy d = d := by
  rw [copy, show (NodeSet.copy : NodeSet → NodeSet) = id from funext NodeSet.copy_eq, map_id]

section
variable (held : Holds m d D)
include held

theorem isElement_eq (id : MachineID m) : d.isElement id = .ok (decide (id ∈ D)) := by
  rw [isElement, held.vecIndex, ok_bind, isElement_iff (held.sets id.1)]
  simp only [mem_slice_fin]
  rfl

theorem count_eq : d.count = D.card := by
  have fold : ∀ (types : List Nat) (counter : Nat),
      types.foldl (fun counter i => counter + (d.set i).count) counter =
        counter + (types.map fun i => (d.set i).count).sum := by
    intro types
    induction types with
    | nil => simp
    | cons i types ih =>
      intro counter
      rw [foldl_cons, ih, map_cons, sum_cons, Nat.add_assoc]
  rw [count, fold, Nat.zero_add, held.types, ← map_coe_finRange_eq_range, map_map,
    card_eq_sum_slices, ← ofFn_eq_map, sum_ofFn]
  exact Finset.sum_congr rfl fun i _ => NodeSet.count_eq (held.sets i)

theorem all_types (test : Nat → Bool) {P : Fin m.numTypes → Prop} [DecidablePred P]
    (each : ∀ i : Fin m.numTypes, test i = decide (P i)) :
    (List.range d.bits.length).all test = decide (∀ i, P i) := by
  rw [held.types, ← map_coe_finRange_eq_range, Bool.eq_iff_iff, all_eq_true, decide_eq_true_eq]
  simp only [forall_mem_map, mem_finRange, forall_const, each, decide_eq_true_eq]

theorem isEmpty_eq : d.isEmpty = decide (D = ∅) := by
  rw [isEmpty, all_types held _ fun i => NodeSet.isEmpty_iff (held.sets i)]
  simp only [eq_iff_slices, slice_empty]

theorem isBroadcast_eq : d.isBroadcast = decide (D = Finset.univ) := by
  rw [isBroadcast, all_types held _ fun i => isBroadcast_iff (held.sets i)]
  simp only [eq_iff_slices, slice_univ]

theorem intersectionIsNotEmpty_eq (held' : Holds m e E) :
    d.intersectionIsNotEmpty e = .ok (decide (D ∩ E ≠ ∅)) := by
  have test := all_types held (fun i => (d.set i).intersectionIsEmpty (e.set i)) fun i =>
    intersectionIsEmpty_eq (held.sets i) (held'.sets i)
  rw [intersectionIsNotEmpty, require_of (held.types.trans held'.types.symm), ok_bind,
    any_eq_not_all_not]
  simp only [Bool.not_not, test, ← slice_inter]
  rw [decide_not]
  simp only [eq_iff_slices, slice_empty]
  rfl

theorem isSuperset_eq (held' : Holds m e E) : d.isSuperset e = .ok (decide (E ⊆ D)) := by
  have answer : ∀ i : Fin m.numTypes,
      (d.set i).isSuperset (e.set i) = .ok (decide (slice E i ⊆ slice D i)) :=
    fun i => NodeSet.isSuperset_eq (held.sets i) (held'.sets i)
  let test i := ((d.set i).isSuperset (e.set i)).toOption.getD false
  have total : ∀ i ∈ List.range d.bits.length, (d.set i).isSuperset (e.set i) = .ok (test i) := by
    intro i inside
    rw [held.types, mem_range] at inside
    simp only [test, answer ⟨i, inside⟩]
    rfl
  rw [isSuperset, require_of (held.types.trans held'.types.symm), ok_bind, allM_eq_all total,
    all_types held test (P := fun i => slice E i ⊆ slice D i)]
  · simp only [subset_iff_slices]
  · intro i
    simp only [test, answer]
    rfl

theorem getAllDest_eq : d.getAllDest m = NetDest.getAllDest D := by
  rw [getAllDest, held.types, ← map_coe_finRange_eq_range, flatMap_map,
    NetDest.getAllDest, NetDest.members, Machines.all, filter_flatMap, map_flatMap]
  refine flatMap_congr fun i _ => ?_
  have elements : (d.set i).isElement = fun j => decide (j ∈ slice D i) :=
    funext fun j => isElement_iff (held.sets i) j
  rw [(held.sets i).size, elements, ← map_coe_finRange_eq_range, filter_map,
    filter_map, map_map, map_map]
  simp only [Function.comp_def, mem_slice_fin]
  rfl

end

structure Answers (d e : NetDestBits) (D E : NetDest m) : Prop where
  isElement : ∀ id : MachineID m, d.isElement id = .ok (decide (id ∈ D))
  getAllDest : d.getAllDest m = NetDest.getAllDest D
  count : d.count = D.card
  isEmpty : d.isEmpty = decide (D = ∅)
  isBroadcast : d.isBroadcast = decide (D = Finset.univ)
  isSuperset : d.isSuperset e = .ok (decide (E ⊆ D))
  intersectionIsNotEmpty : d.intersectionIsNotEmpty e = .ok (decide (D ∩ E ≠ ∅))
  or : ∃ u, d.or e = .ok u ∧ Holds m u (D ∪ E)
  and : ∃ u, d.and e = .ok u ∧ Holds m u (D ∩ E)
  removeNetDest : ∃ u, d.removeNetDest e = .ok u ∧ Holds m u (D \ E)

theorem Holds.answers (held : Holds m d D) (held' : Holds m e E) : Answers d e D E where
  isElement := isElement_eq held
  getAllDest := getAllDest_eq held
  count := count_eq held
  isEmpty := isEmpty_eq held
  isBroadcast := isBroadcast_eq held
  isSuperset := isSuperset_eq held held'
  intersectionIsNotEmpty := intersectionIsNotEmpty_eq held held'
  or := held.addNetDest held'
  and := held.and held'
  removeNetDest := held.removeNetDest held'

def operations (m : Machines) : SetObjects.Operations MemoryFault NetDestBits (MachineID m) where
  add := add
  remove := remove
  addSet := addNetDest
  removeSet := removeNetDest
  clear := clear
  broadcast := broadcast m
  copy := copy
  assign := assign

theorem implements (m : Machines) :
    SetObjects.Implements (operations m) Finset.univ (resize m) (Holds m) where
  empty := resize_holds m
  add held _ := held.add _
  remove held _ := held.remove _
  addSet held held' := held.addNetDest held'
  removeSet held held' := held.removeNetDest held'
  clear held := held.clear
  broadcast held := held.broadcast
  copy {d _} held := by
    rw [show (operations m).copy d = d from copy_eq d]
    exact held
  assign {same d e _ _} held held' one := by
    cases same with
    | true => exact one rfl ▸ held'
    | false =>
      rw [show (operations m).assign false d e = e from copy_eq e]
      exact held'

end NetDestBits

/-- In every run over sets of one size, and in every run over destinations, the calls succeed and
the answers are those of the sets of ids and of machines. -/
theorem sets_implemented :
    (∀ n, 1 ≤ n → ∀ (ι : Type) [DecidableEq ι] (s : SetObjects.Run ι NodeSet Nat),
      ReachableVia (SetObjects.runs NodeSet.operations (Finset.range n) (setSize n) ι)
        (SetObjects.Within (Finset.range n)) s →
      (∀ call, SetObjects.Within (Finset.range n) s call →
        ∃ next, SetObjects.perform NodeSet.operations (Finset.range n) s call = .ok next) ∧
      ∀ x y, NodeSet.Answers n (s.objects x) (s.objects y) (s.sets x) (s.sets y)) ∧
    (∀ (m : Machines) (ι : Type) [DecidableEq ι] (s : SetObjects.Run ι NetDestBits (MachineID m)),
      ReachableVia (SetObjects.runs (NetDestBits.operations m) Finset.univ (NetDestBits.resize m) ι)
        (SetObjects.Within Finset.univ) s →
      (∀ call, ∃ next, SetObjects.perform (NetDestBits.operations m) Finset.univ s call = .ok next) ∧
      ∀ x y, NetDestBits.Answers (s.objects x) (s.objects y) (s.sets x) (s.sets y)) := by
  constructor
  · intro n _ ι _ s reach
    have held := (NodeSet.implements n).reachable reach
    refine ⟨fun call within => ?_, fun x y => (held x).answers (held y)⟩
    obtain ⟨next, done, -⟩ := (NodeSet.implements n).step held within
    exact ⟨next, done⟩
  · intro m ι _ s reach
    have held := (NetDestBits.implements m).reachable reach
    refine ⟨fun call => ?_, fun x y => (held x).answers (held y)⟩
    have within : SetObjects.Within Finset.univ s call := by
      cases call <;> simp [SetObjects.Within]
    obtain ⟨next, done, -⟩ := (NetDestBits.implements m).step held within
    exact ⟨next, done⟩

def allButOne {α : Type} (x : α) : List (SetObjects.Call Bool α) :=
  [.broadcast true, .add false x, .removeSet true false]

theorem allButOne_within {σ α : Type} {all : Finset α} {x : α} (member : x ∈ all) :
    ∀ call ∈ allButOne x, ∀ s : SetObjects.Run Bool σ α, SetObjects.Within all s call := by
  simp [allButOne, SetObjects.Within, member]

def fourMachines : Machines := ⟨2, fun _ => 2⟩

def secondType : MachineID fourMachines := ⟨⟨1, by decide⟩, ⟨0, by decide⟩⟩

/-- All 65 ids but one are in two words, and all machines but one are of two types. -/
theorem sets_implemented_two_words : (∃ s : SetObjects.Run Bool NodeSet Nat,
      ReachableVia (SetObjects.runs NodeSet.operations (Finset.range 65) (setSize 65) Bool)
        (SetObjects.Within (Finset.range 65)) s ∧
      (s.objects true).count = 64 ∧ (s.objects false).smallestElement = .ok 64) ∧
    ∃ s : SetObjects.Run Bool NetDestBits (MachineID fourMachines),
      ReachableVia (SetObjects.runs (NetDestBits.operations fourMachines) Finset.univ
        (NetDestBits.resize fourMachines) Bool) (SetObjects.Within Finset.univ) s ∧
      (s.objects true).count = 3 ∧ (s.objects true).isSuperset (s.objects false) = .ok false := by
  constructor
  · have ran : ((allButOne 64).foldlM (SetObjects.perform NodeSet.operations (Finset.range 65))
        ⟨fun _ => setSize 65, fun _ => ∅⟩).toOption.any
        (fun s => (s.sets true).card = 64 ∧ s.sets false = {64}) = true := by
      decide +kernel
    obtain ⟨s, reach, checked⟩ := foldlM_check (fun s => s = ⟨fun _ => setSize 65, fun _ => ∅⟩)
      (allButOne_within (Finset.mem_range.mpr (by decide : 64 < 65))) rfl ran
    obtain ⟨card, single⟩ := of_decide_eq_true checked
    have answers := (sets_implemented.1 65 (by decide) Bool s reach).2
    refine ⟨s, reach, (answers true true).count.trans card,
      ((answers false false).smallestElement 64).mpr ?_⟩
    rw [single, Finset.coe_singleton]
    exact isLeast_singleton
  · have ran : ((allButOne secondType).foldlM
        (SetObjects.perform (NetDestBits.operations fourMachines) Finset.univ)
        ⟨fun _ => .resize fourMachines, fun _ => ∅⟩).toOption.any
        (fun s => (s.sets true).card = 3 ∧ ¬ s.sets false ⊆ s.sets true) = true := by
      decide +kernel
    obtain ⟨s, reach, checked⟩ := foldlM_check
      (fun s => s = ⟨fun _ => .resize fourMachines, fun _ => ∅⟩)
      (allButOne_within (Finset.mem_univ _)) rfl ran
    obtain ⟨card, other⟩ := of_decide_eq_true checked
    have answers := (sets_implemented.2 fourMachines Bool s reach).2
    refine ⟨s, reach, (answers true true).count.trans card, (answers true false).isSuperset.trans ?_⟩
    rw [decide_eq_false other]

end SynchroTrace.Ruby
