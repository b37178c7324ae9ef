import Mathlib.Data.Finset.SDiff
import Mathlib.Data.List.FinRange
import Mathlib.Data.List.Nodup

namespace SynchroTrace.Garnet
open List

/-- How many controllers there are of each machine type. -/
structure Machines where
  numTypes : Nat
  count : Fin numTypes → Nat

namespace Machines
variable {m : Machines}

def baseNumber (m : Machines) : Nat → Nat
  | 0 => 0
  | i + 1 => m.baseNumber i + if h : i < m.numTypes then m.count ⟨i, h⟩ else 0

def nodes (m : Machines) : Nat := m.baseNumber m.numTypes

theorem baseNumber_succ (i : Fin m.numTypes) :
    m.baseNumber (i + 1) = m.baseNumber i + m.count i := by
  simp [baseNumber]

theorem baseNumber_mono : Monotone m.baseNumber :=
  monotone_nat_of_le_succ fun _ => Nat.le_add_right _ _

end Machines

abbrev MachineID (m : Machines) := (i : Fin m.numTypes) × Fin (m.count i)

section MachineID
variable {m : Machines}

def MachineID.nodeID (id : MachineID m) : Nat := m.baseNumber id.1 + id.2

def Machines.all (m : Machines) : List (MachineID m) :=
  (List.finRange m.numTypes).flatMap fun i => (List.finRange (m.count i)).map fun j => ⟨i, j⟩

theorem Machines.mem_all (id : MachineID m) : id ∈ m.all := by
  simp only [all, mem_flatMap, mem_map]
  exact ⟨id.1, mem_finRange _, id.2, mem_finRange _, rfl⟩

theorem Machines.nodup_all (m : Machines) : m.all.Nodup := by
  unfold all
  rw [nodup_flatMap]
  constructor
  · intro i _
    refine (nodup_finRange _).map ?_
    intro j j' same
    simpa using same
  · refine (nodup_finRange _).imp ?_
    intro i i' different id first second
    obtain ⟨j, _, rfl⟩ := mem_map.mp first
    obtain ⟨j', _, same⟩ := mem_map.mp second
    exact different (congrArg Sigma.fst same).symm

def Machines.machineOf (m : Machines) (node : Nat) : Option (MachineID m) :=
  (List.finRange m.numTypes).findSome? fun i : Fin m.numTypes =>
    if h : m.baseNumber i ≤ node ∧ node < m.baseNumber (i + 1) then
      some ⟨i, node - m.baseNumber i, by
        have := Machines.baseNumber_succ i
        omega⟩
    else none

theorem Machines.machineOf_nodeID (id : MachineID m) : m.machineOf id.nodeID = some id := by
  obtain ⟨i, j⟩ := id
  have span := Machines.baseNumber_succ i
  have bound := j.isLt
  have here : m.baseNumber i ≤ MachineID.nodeID ⟨i, j⟩ ∧
      MachineID.nodeID ⟨i, j⟩ < m.baseNumber (i + 1) := by
    simp only [MachineID.nodeID]
    omega
  have found : ∀ {i' : Fin m.numTypes} (h : m.baseNumber i' ≤ MachineID.nodeID ⟨i, j⟩ ∧
      MachineID.nodeID ⟨i, j⟩ < m.baseNumber (i' + 1)), i' = i := by
    intro i' h
    by_contra different
    -- the node lies in the range of its own type only
    obtain less | more := lt_or_gt_of_ne different
    · have := Machines.baseNumber_mono (m := m) (show i'.val + 1 ≤ i.val from less)
      omega
    · have := Machines.baseNumber_mono (m := m) (show i.val + 1 ≤ i'.val from more)
      omega
  unfold machineOf
  rw [List.findSome?_eq_some_iff]
  obtain ⟨before, after, split⟩ := append_of_mem (mem_finRange i)
  refine ⟨before, i, after, split, ?_, ?_⟩
  · simp only [here, and_self, ↓reduceDIte, Option.some.injEq, Sigma.mk.injEq, heq_eq_eq, true_and]
    ext
    simp [MachineID.nodeID]
  · intro i' member
    have distinct : i' ≠ i := by
      rintro rfl
      have nodup := nodup_finRange m.numTypes
      rw [split, nodup_append] at nodup
      exact nodup.2.2 _ member _ mem_cons_self rfl
    split
    · rename_i h
      exact absurd (found h) distinct
    · rfl

end MachineID

abbrev NetDest (m : Machines) := Finset (MachineID m)

namespace NetDest
variable {m : Machines}

def members (dest : NetDest m) : List (MachineID m) := m.all.filter (· ∈ dest)

def getAllDest (dest : NetDest m) : List Nat := dest.members.map MachineID.nodeID

variable {dest : NetDest m} {id : MachineID m}

theorem mem_members : id ∈ dest.members ↔ id ∈ dest := by
  simp [members, Machines.mem_all]

theorem nodup_members (dest : NetDest m) : dest.members.Nodup := m.nodup_all.filter _

@[simp] theorem members_singleton (id : MachineID m) : members {id} = [id] := by
  have nodup := nodup_members {id}
  have mem : ∀ other, other ∈ members {id} ↔ other = id := by
    intro other
    simp [mem_members]
  match h : members {id} with
  | [] => simpa [h] using mem id
  | [other] => simpa [h] using mem other
  | first :: second :: rest =>
    rw [h] at nodup mem
    have one := (mem first).mp mem_cons_self
    have two := (mem second).mp (mem_cons_of_mem _ mem_cons_self)
    simp [one, two] at nodup

theorem members_sdiff {rest : List (MachineID m)}
    (h : dest.members = id :: rest) : members (dest \ {id}) = rest := by
  have nodup := dest.nodup_members
  rw [h, nodup_cons] at nodup
  have split : members (dest \ {id}) = dest.members.filter (· ≠ id) := by
    simp only [members, filter_filter]
    congr 1
    funext other
    simp [Finset.mem_sdiff, and_comm]
  rw [split, h, filter_cons_of_neg (by simp), filter_eq_self]
  intro other member
  have : other ≠ id := fun same => nodup.1 (same ▸ member)
  simpa using this

theorem eq_singleton (h : dest.members = [id]) :
    dest = {id} := by
  ext other
  rw [← mem_members, h]
  simp

end NetDest

inductive MessageSizeType where
  | undefined
  | control
  | data
  | requestControl
  | reissueControl
  | responseData
  | responseL2hitData
  | responseLocalData
  | responseControl
  | writebackData
  | writebackControl
  | broadcastControl
  | multicastControl
  | forwardedControl
  | invalidateControl
  | unblockControl
  | persistentControl
  | completionControl
  deriving DecidableEq, Repr

/-- A message of the protocol. `internalDest` is `m_internal_dest` once it is valid; `size` is the
number of bytes that `MessageSizeType_to_int` gives. -/
structure NetworkMessage (m : Machines) where
  destination : NetDest m
  internalDest : Option (NetDest m)
  size : Nat
  messageSize : MessageSizeType := .control
  deriving DecidableEq

def NetworkMessage.getInternalDestination {m : Machines} (msg : NetworkMessage m) : NetDest m :=
  msg.internalDest.getD msg.destination

end SynchroTrace.Garnet
