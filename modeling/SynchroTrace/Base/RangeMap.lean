import Mathlib.Order.Lattice
import SynchroTrace.Lib.Transition

/-!
`range_map` keeps ranges by their start, and looks at one neighbour to tell whether a range meets a
stored one.
-/

namespace SynchroTrace.Base

open Transition List

/-- The ends are inclusive. -/
structure Range (T : Type) where
  start : T
  stop : T
deriving DecidableEq

namespace Range
variable {T : Type} [LinearOrder T]

def Intersects (s r : Range T) : Prop := s.start ≤ r.stop ∧ r.start ≤ s.stop

instance (s r : Range T) : Decidable (s.Intersects r) := inferInstanceAs (Decidable (_ ∧ _))

def Contains (r : Range T) (pos : T) : Prop := r.start ≤ pos ∧ pos ≤ r.stop

instance (r : Range T) (pos : T) : Decidable (r.Contains pos) := inferInstanceAs (Decidable (_ ∧ _))

theorem Intersects.symm {s r : Range T} (h : s.Intersects r) : r.Intersects s := ⟨h.2, h.1⟩

end Range

structure RangeMap (T V : Type) [LinearOrder T] where
  tree : List (Range T × V)
  sorted : tree.Pairwise fun e e' => e.1.start < e'.1.start

namespace RangeMap
variable {T V : Type} [LinearOrder T] (m : RangeMap T V) (r : Range T)

/-- On an empty map, the source looks at an element that is not there; here nothing is found. -/
def find : Option (Range T × V) :=
  match (m.tree.filter (·.1.start ≤ r.start)).getLast? with
  -- the upper bound is the first element
  | none => m.tree.head?.filter (·.1.Intersects r)
  | some e => if e.1.Intersects r then some e else none

def intersect : Bool := (m.find r).isSome

/-- The insertion into the tree, where an element with the same start stays as it is. -/
def insertUnique (d : V) : RangeMap T V :=
  if ∃ e ∈ m.tree, e.1.start = r.start then m
  else {
    tree := m.tree.filter (·.1.start < r.start) ++ (r, d) :: m.tree.filter (r.start < ·.1.start)
    sorted := by
      rw [pairwise_append, pairwise_cons]
      refine ⟨m.sorted.filter _, ⟨?_, m.sorted.filter _⟩, ?_⟩
      · intro e member
        exact of_decide_eq_true (mem_filter.mp member).2
      · intro e before e' after
        have less : e.1.start < r.start := of_decide_eq_true (mem_filter.mp before).2
        obtain rfl | after := mem_cons.mp after
        · exact less
        · exact less.trans (of_decide_eq_true (mem_filter.mp after).2) }

/-- No map is returned where the source returns `end()`. -/
def insert (d : V) : Option (RangeMap T V) :=
  if m.intersect r then none else some (m.insertUnique r d)

def keep (test : Range T × V → Bool) : RangeMap T V :=
  ⟨m.tree.filter test, m.sorted.filter _⟩

def erase (p q : Nat) : RangeMap T V where
  tree := m.tree.take p ++ m.tree.drop (max p q)
  sorted := by
    have later : (m.tree.drop (max p q)).Sublist (m.tree.drop p) := by
      rw [show max p q = p + (max p q - p) by omega, ← drop_drop]
      exact drop_sublist ..
    refine m.sorted.sublist ((later.append_left _).trans ?_)
    simp

structure Disjoint (m : RangeMap T V) : Prop where
  proper : ∀ e ∈ m.tree, e.1.start ≤ e.1.stop
  apart : ∀ e ∈ m.tree, ∀ e' ∈ m.tree, e.1.Intersects e'.1 → e = e'

/-- The neighbour shows whether a range meets a stored one: the range starts in a stored one, or
before all of them, or none starts inside it after its start. -/
def Visible (m : RangeMap T V) (r : Range T) : Prop :=
  (∃ e ∈ m.tree, e.1.Contains r.start) ∨ (∀ e ∈ m.tree, r.start < e.1.start) ∨
    ∀ e ∈ m.tree, e.1.start ≤ r.start ∨ r.stop < e.1.start

instance (m : RangeMap T V) (r : Range T) : Decidable (m.Visible r) :=
  inferInstanceAs (Decidable (_ ∨ _))

section Find
variable {m m' : RangeMap T V} {r : Range T} {e : Range T × V} {d : V}

theorem find_some (found : m.find r = some e) : e ∈ m.tree ∧ e.1.Intersects r := by
  unfold find at found
  split at found
  · obtain ⟨head, test⟩ := Option.filter_eq_some_iff.mp found
    exact ⟨List.mem_of_head? head, of_decide_eq_true test⟩
  · rename_i last
    split_ifs at found with test
    cases found
    exact ⟨(mem_filter.mp (List.mem_of_getLast? last)).1, test⟩

theorem last_before (last : (m.tree.filter (·.1.start ≤ r.start)).getLast? = some e) :
    e.1.start ≤ r.start ∧ ∀ e' ∈ m.tree, e'.1.start ≤ r.start → e'.1.start ≤ e.1.start := by
  obtain ⟨front, eq⟩ := List.getLast?_eq_some_iff.mp last
  have ordered := m.sorted.filter fun e' => decide (e'.1.start ≤ r.start)
  rw [eq, pairwise_append] at ordered
  refine ⟨?_, fun e' member before => ?_⟩
  · exact of_decide_eq_true (mem_filter.mp (List.mem_of_getLast? last)).2
  · have here : e' ∈ m.tree.filter (·.1.start ≤ r.start) :=
      mem_filter.mpr ⟨member, decide_eq_true before⟩
    rw [eq] at here
    obtain front | same := mem_append.mp here
    · exact (ordered.2.2 e' front e mem_cons_self).le
    · rw [mem_singleton.mp same]

theorem Disjoint.find_of_contains (disjoint : m.Disjoint) (member : e ∈ m.tree)
    (proper : r.start ≤ r.stop) (inside : e.1.Contains r.start) : m.find r = some e := by
  have meets : e.1.Intersects r := ⟨inside.1.trans proper, inside.2⟩
  have here : e ∈ m.tree.filter (·.1.start ≤ r.start) :=
    mem_filter.mpr ⟨member, decide_eq_true inside.1⟩
  unfold find
  cases last : (m.tree.filter (·.1.start ≤ r.start)).getLast? with
  | none =>
    rw [List.getLast?_eq_none_iff.mp last] at here
    cases here
  | some e' =>
    obtain ⟨before, latest⟩ := last_before last
    have member' := (mem_filter.mp (List.mem_of_getLast? last)).1
    have same : e = e' := disjoint.apart e member e' member'
      ⟨(latest e member inside.1).trans (disjoint.proper e' member'), before.trans inside.2⟩
    subst same
    exact if_pos meets

section
variable (disjoint : m.Disjoint) (proper : r.start ≤ r.stop)
include disjoint proper

theorem Disjoint.find_right_iff :
    (m.find r = none → ∀ e ∈ m.tree, ¬ e.1.Intersects r) ↔ m.Visible r := by
  constructor
  · intro right
    by_contra hidden
    simp only [Visible, not_or, not_exists, not_and, not_forall, not_lt, not_le] at hidden
    obtain ⟨outside, ⟨first, member, before⟩, second, member', inside, reaches⟩ := hidden
    refine right ?_ second member' ⟨reaches, inside.le.trans (disjoint.proper second member')⟩
    unfold find
    cases last : (m.tree.filter (·.1.start ≤ r.start)).getLast? with
    | none =>
      have here : first ∈ m.tree.filter (·.1.start ≤ r.start) :=
        mem_filter.mpr ⟨member, decide_eq_true before⟩
      rw [List.getLast?_eq_none_iff.mp last] at here
      cases here
    | some e =>
      have early := (last_before last).1
      have member := (mem_filter.mp (List.mem_of_getLast? last)).1
      exact if_neg fun meets => outside e member ⟨early, meets.2⟩
  · intro visible missed e member meets
    have covered : ∀ e ∈ m.tree, ¬ e.1.Contains r.start := by
      intro e member inside
      rw [disjoint.find_of_contains member proper inside] at missed
      cases missed
    rcases visible with ⟨e', member', inside⟩ | after | none
    · exact covered e' member' inside
    · -- the first range is the neighbour
      have empty : m.tree.filter (·.1.start ≤ r.start) = [] :=
        filter_eq_nil_iff.mpr fun e' member' =>
          (decide_eq_true_iff).not.mpr (not_le.mpr (after e' member'))
      rw [find, empty] at missed
      obtain ⟨first, rest, tree⟩ := exists_cons_of_ne_nil (ne_nil_of_mem member)
      have least : first.1.start ≤ e.1.start := by
        have ordered := m.sorted
        rw [tree, pairwise_cons] at ordered
        rw [tree] at member
        obtain rfl | later := mem_cons.mp member
        · exact le_refl _
        · exact (ordered.1 e later).le
      have member' : first ∈ m.tree := by rw [tree]; exact mem_cons_self
      have near : first.1.Intersects r :=
        ⟨least.trans meets.1, (after first member').le.trans (disjoint.proper first member')⟩
      simp [tree, Option.filter, near] at missed
    · rcases none e member with before | past
      · exact covered e member ⟨before, meets.2⟩
      · exact absurd meets.1 (not_le.mpr past)

theorem Disjoint.mem_insert (inserted : m.insert r d = some m') (e' : Range T × V) :
    e' ∈ m'.tree ↔ e' = (r, d) ∨ e' ∈ m.tree := by
  unfold insert intersect at inserted
  split_ifs at inserted with found
  rw [Option.not_isSome_iff_eq_none] at found
  have new : ¬ ∃ e ∈ m.tree, e.1.start = r.start := by
    rintro ⟨e, member, same⟩
    have inside : e.1.Contains r.start := ⟨same.le, same.ge.trans (disjoint.proper e member)⟩
    rw [disjoint.find_of_contains member proper inside] at found
    cases found
  cases inserted
  rw [insertUnique, if_neg new]
  simp only [mem_append, mem_cons, mem_filter, decide_eq_true_eq]
  constructor
  · rintro (⟨member, -⟩ | rfl | ⟨member, -⟩)
    · exact .inr member
    · exact .inl rfl
    · exact .inr member
  rintro (rfl | member)
  · exact .inr (.inl rfl)
  · rcases lt_trichotomy e'.1.start r.start with before | same | after
    · exact .inl ⟨member, before⟩
    · exact absurd ⟨e', member, same⟩ new
    · exact .inr (.inr ⟨member, after⟩)

theorem Disjoint.insert_iff (visible : m.Visible r) :
    (m.insert r d).isSome ↔ ∀ e ∈ m.tree, ¬ e.1.Intersects r := by
  unfold insert intersect
  split_ifs with found
  · obtain ⟨e, found⟩ := Option.isSome_iff_exists.mp found
    obtain ⟨member, meets⟩ := find_some found
    exact iff_of_false (by simp) fun none => none e member meets
  · rw [Option.not_isSome_iff_eq_none] at found
    exact iff_of_true rfl ((disjoint.find_right_iff proper).mpr visible found)

theorem Disjoint.insert (visible : m.Visible r) (inserted : m.insert r d = some m') :
    m'.Disjoint := by
  have mem := disjoint.mem_insert proper inserted
  have free := (disjoint.insert_iff (d := d) proper visible).mp (by rw [inserted]; rfl)
  constructor
  · intro e member
    obtain rfl | old := (mem e).mp member
    · exact proper
    · exact disjoint.proper e old
  · intro e member e' member' meets
    obtain rfl | old := (mem e).mp member
    · obtain rfl | old' := (mem e').mp member'
      · rfl
      · exact absurd meets.symm (free e' old')
    · obtain rfl | old' := (mem e').mp member'
      · exact absurd meets (free e old)
      · exact disjoint.apart e old e' old' meets

end

theorem Disjoint.of_subset (disjoint : m.Disjoint) (subset : m'.tree ⊆ m.tree) : m'.Disjoint where
  proper e member := disjoint.proper e (subset member)
  apart e member e' member' := disjoint.apart e (subset member) e' (subset member')

end Find

inductive Call (T V : Type) where
  | insert (r : Range T) (d : V)
  | erase (p q : Nat)

def perform (m : RangeMap T V) : Call T V → RangeMap T V
  | .insert r d => (m.insert r d).getD m
  | .erase p q => m.erase p q

def runs (T V : Type) [LinearOrder T] : System (RangeMap T V) (Call T V) where
  initial m := m.tree = []
  step m call m' := m' = m.perform call

/-- What is inserted is proper, and its neighbour shows whether it meets a stored range. -/
def Careful (m : RangeMap T V) : Call T V → Prop
  | .insert r _ => r.start ≤ r.stop ∧ m.Visible r
  | .erase .. => True

theorem reachable_disjoint {m : RangeMap T V} (reach : ReachableVia (runs T V) Careful m) :
    m.Disjoint := by
  refine reach.invariant Disjoint (fun m empty => ?_) fun m call m' _ careful disjoint taken => ?_
  · replace empty : m.tree = [] := empty
    constructor <;> simp [empty]
  · replace taken : m' = m.perform call := taken
    subst taken
    cases call with
    | insert r d =>
      rw [perform]
      cases inserted : m.insert r d with
      | none => exact disjoint
      | some m' => exact disjoint.insert careful.1 careful.2 inserted
    | erase p q =>
      refine disjoint.of_subset fun e member => ?_
      rcases mem_append.mp member with front | back
      · exact mem_of_mem_take front
      · exact mem_of_mem_drop back

end RangeMap

end SynchroTrace.Base
