import Mathlib.Data.List.Basic
import Mathlib.Data.List.Perm.Basic

namespace Recency
open List

variable {α : Type*} [DecidableEq α]

def toFront (x : α) (items : List α) : List α := x :: items.erase x

theorem toFront_perm {x : α} {items : List α} (member : x ∈ items) : (toFront x items).Perm items :=
  (perm_cons_erase member).symm

theorem getElem?_toFront {x : α} {items : List α} {p : Nat} (distinct : items.Nodup)
    (here : items[p]? = some x) (q : Nat) : (toFront x items)[q]? =
      if q = 0 then some x else if q ≤ p then items[q - 1]? else items[q]? := by
  obtain ⟨inside, rfl⟩ := List.getElem?_eq_some_iff.mp here
  cases q with
  | zero => rfl
  | succ q =>
    rw [toFront, List.getElem?_cons_succ,
      erase_eq_eraseIdx_of_idxOf (distinct.idxOf_getElem p inside), List.getElem?_eraseIdx,
      if_neg (Nat.succ_ne_zero q), Nat.add_sub_cancel]
    rfl

/-- The later one is used, the nearer it stands to the front. `uses` has the last use first. -/
def Recent (uses items : List α) : Prop :=
  items.Pairwise fun x y => uses.idxOf x ≤ uses.idxOf y

variable {uses items : List α} {x : α}

theorem idxOf_le_cons {a b : α} (other : a ≠ x) (other' : b ≠ x)
    (before : uses.idxOf a ≤ uses.idxOf b) : (x :: uses).idxOf a ≤ (x :: uses).idxOf b := by
  rw [idxOf_cons_ne uses other.symm, idxOf_cons_ne uses other'.symm]
  omega

theorem Recent.toFront (recent : Recent uses items) (distinct : items.Nodup) :
    Recent (x :: uses) (toFront x items) := by
  have other : ∀ y ∈ items.erase x, y ≠ x := fun y member => (distinct.mem_erase_iff.mp member).1
  refine pairwise_cons.mpr ⟨fun y _ => by simp, ?_⟩
  refine (recent.sublist erase_sublist).imp_of_mem fun memA memB before => ?_
  exact idxOf_le_cons (other _ memA) (other _ memB) before

theorem Recent.use_other (recent : Recent uses items) (absent : x ∉ items) :
    Recent (x :: uses) items := by
  refine List.Pairwise.imp_of_mem (fun memA memB before => ?_) recent
  exact idxOf_le_cons (fun same => absent (same ▸ memA)) (fun same => absent (same ▸ memB)) before

theorem Recent.oldest (recent : Recent uses items) {y : α} (last : items.getLast? = some y) {z : α}
    (member : z ∈ items) : uses.idxOf z ≤ uses.idxOf y := by
  obtain ⟨front, rfl⟩ := List.getLast?_eq_some_iff.mp last
  obtain older | here := mem_append.mp member
  · exact (pairwise_append.mp recent).2.2 z older y (mem_singleton_self y)
  · exact (mem_singleton.mp here) ▸ Nat.le_refl _

end Recency
