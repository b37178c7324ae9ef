import Mathlib.Data.List.Basic
import Mathlib.Order.Defs.Unbundled

structure PriorityQueue {α : Type*} (r : α → α → Prop) where
  items : List α
  ordered : items.Pairwise r

namespace PriorityQueue
open List
variable {α : Type*} {r : α → α → Prop}

def empty : PriorityQueue r := ⟨[], .nil⟩

@[simp] theorem empty_items : (empty : PriorityQueue r).items = [] := rfl

section Insert
variable [DecidableRel r]

variable (r) in
/-- `x` goes behind the items that are before it or equal to it. -/
def place (x : α) : List α → List α
  | [] => [x]
  | y :: rest => if r y x then y :: place x rest else x :: y :: rest

theorem place_perm (x : α) (items : List α) : (place r x items).Perm (x :: items) := by
  induction items with
  | nil => rfl
  | cons y rest ih =>
    unfold place
    split
    · exact (ih.cons y).trans (.swap x y rest)
    · rfl

variable {x y : α} {items : List α}

@[simp] theorem mem_place : y ∈ place r x items ↔ y = x ∨ y ∈ items := by
  rw [(place_perm x items).mem_iff, mem_cons]

variable {p : α → Bool}

theorem filter_place_of_false (out : p x = false) (items : List α) :
    (place r x items).filter p = items.filter p := by
  induction items with
  | nil => simp [place, out]
  | cons z rest ih =>
    unfold place
    split
    · simp only [filter_cons, ih]
    · simp [out]

theorem place_between (first last : List α) (before : ∀ y ∈ first, r y x)
    (after : ∀ y ∈ last, ¬ r y x) : place r x (first ++ last) = first ++ x :: last := by
  induction first with
  | nil =>
    cases last with
    | nil => rfl
    | cons y rest => exact if_neg (after y mem_cons_self)
  | cons y rest ih =>
    rw [cons_append, place, if_pos (before y mem_cons_self),
      ih fun z member => before z (mem_cons_of_mem _ member)]
    rfl

variable [IsTrans α r]

theorem filter_place_kind (ordered : items.Pairwise r)
    (kind : p x = true) : (place r x items).filter p = place r x (items.filter p) := by
  induction items with
  | nil => simp [place, kind]
  | cons y rest ih =>
    obtain ⟨first, others⟩ := pairwise_cons.mp ordered
    by_cases before : r y x
    · rw [place, if_pos before]
      by_cases isKind : p y = true
      · rw [filter_cons_of_pos isKind, filter_cons_of_pos isKind, ih others, place, if_pos before]
      · rw [filter_cons_of_neg isKind, filter_cons_of_neg isKind, ih others]
    · -- nothing from `y` on is before `x`
      have after : ∀ z ∈ y :: rest, ¬ r z x := by
        intro z member inFront
        obtain rfl | member := mem_cons.mp member
        · exact before inFront
        · exact before (trans_of r (first z member) inFront)
      have none : ∀ z ∈ (y :: rest).filter p, ¬ r z x := fun z member =>
        after z (mem_of_mem_filter member)
      rw [place, if_neg before, filter_cons_of_pos kind]
      exact (place_between [] _ nofun none).symm

theorem filter_place (ordered : items.Pairwise r)
    (kind : p x = true) (last : ∀ y ∈ items, p y = true → r y x) :
    (place r x items).filter p = items.filter p ++ [x] := by
  induction items with
  | nil => simp [place, kind]
  | cons z rest ih =>
    obtain ⟨first, others⟩ := pairwise_cons.mp ordered
    have later := ih others fun y member => last y (mem_cons_of_mem _ member)
    unfold place
    split
    · simp only [filter_cons, later]
      split <;> rfl
    · rename_i after
      -- nothing from `z` on is of the kind: it would be before `x`, and so would `z`
      have none : (z :: rest).filter p = [] := by
        rw [filter_eq_nil_iff]
        intro y member isKind
        have before := last y member isKind
        obtain rfl | member := mem_cons.mp member
        · exact after before
        · exact after (trans_of r (first y member) before)
      rw [filter_cons_of_pos kind, none]
      rfl

variable [Std.Total r]

theorem pairwise_place (ordered : items.Pairwise r) :
    (place r x items).Pairwise r := by
  induction items with
  | nil => simp [place]
  | cons z rest ih =>
    obtain ⟨first, others⟩ := pairwise_cons.mp ordered
    unfold place
    split
    · rename_i before
      refine pairwise_cons.mpr ⟨?_, ih others⟩
      intro y member
      obtain rfl | member := mem_place.mp member
      · exact before
      · exact first y member
    · rename_i after
      have ahead : r x z := (Std.Total.total x z).resolve_right after
      refine pairwise_cons.mpr ⟨?_, ordered⟩
      intro y member
      obtain rfl | member := mem_cons.mp member
      · exact ahead
      · exact trans_of r ahead (first y member)

def insert (x : α) (q : PriorityQueue r) : PriorityQueue r :=
  ⟨place r x q.items, pairwise_place q.ordered⟩

variable {q : PriorityQueue r}

@[simp] theorem mem_insert :
    y ∈ (q.insert x).items ↔ y = x ∨ y ∈ q.items := mem_place

theorem length_insert (x : α) (q : PriorityQueue r) :
    (q.insert x).items.length = q.items.length + 1 :=
  (place_perm x q.items).length_eq

theorem countP_insert (p : α → Bool) (x : α) (q : PriorityQueue r) :
    (q.insert x).items.countP p = q.items.countP p + if p x then 1 else 0 :=
  ((place_perm x q.items).countP_eq p).trans countP_cons

theorem filter_insert_of_false (out : p x = false) (q : PriorityQueue r) :
    (q.insert x).items.filter p = q.items.filter p :=
  filter_place_of_false out q.items

theorem filter_insert (kind : p x = true) (last : ∀ y ∈ q.items, p y = true → r y x) :
    (q.insert x).items.filter p = q.items.filter p ++ [x] :=
  filter_place q.ordered kind last

theorem filter_insert_between {first last : List α}
    (kind : p x = true) (parts : q.items.filter p = first ++ last) (before : ∀ y ∈ first, r y x)
    (after : ∀ y ∈ last, ¬ r y x) : (q.insert x).items.filter p = first ++ x :: last := by
  rw [insert, filter_place_kind q.ordered kind, parts, place_between first last before after]

theorem insert_items_of_last (last : ∀ y ∈ q.items, r y x) :
    (q.insert x).items = q.items ++ [x] := by
  simpa using filter_insert (p := fun _ => true) rfl fun y member _ => last y member

theorem foldl_insert_perm (later : List α) (q : PriorityQueue r) :
    (later.foldl (fun q x => q.insert x) q).items.Perm (q.items ++ later) := by
  induction later generalizing q with
  | nil => simp
  | cons x rest ih =>
    exact (ih (q.insert x)).trans (((place_perm x q.items).append_right rest).trans
      perm_middle.symm)

theorem foldl_insert_items {later : List α} (q : PriorityQueue r) (ordered : later.Pairwise r)
    (last : ∀ y ∈ q.items, ∀ x ∈ later, r y x) :
    (later.foldl (fun q x => q.insert x) q).items = q.items ++ later := by
  induction later generalizing q with
  | nil => simp
  | cons x rest ih =>
    obtain ⟨first, others⟩ := pairwise_cons.mp ordered
    have placed := insert_items_of_last fun y member => last y member x mem_cons_self
    rw [foldl_cons, ih (q.insert x) others, placed, append_assoc, singleton_append]
    intro y member z later
    obtain rfl | member := mem_insert.mp member
    · exact first z later
    · exact last y member z (mem_cons_of_mem _ later)

end Insert

def pop (q : PriorityQueue r) : PriorityQueue r := ⟨q.items.tail, q.ordered.tail⟩

@[simp] theorem pop_items (q : PriorityQueue r) : q.pop.items = q.items.tail := rfl

end PriorityQueue
