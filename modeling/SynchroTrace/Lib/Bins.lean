import Mathlib.Data.List.Perm.Basic
import Mathlib.Order.Lattice

/-!
Priority queues as lists of bins, each a stack of the elements with one key, and their layout with
two pointers in each element.
-/

namespace Bins
open List

variable {α κ : Type*}

def flat (bins : List (α × List α)) : List α := bins.flatMap fun bin => bin.1 :: bin.2

@[simp] theorem flat_nil : flat ([] : List (α × List α)) = [] := rfl

@[simp] theorem flat_cons (bin : α × List α) (rest : List (α × List α)) :
    flat (bin :: rest) = bin.1 :: bin.2 ++ flat rest := rfl

theorem flat_append (bins bins' : List (α × List α)) :
    flat (bins ++ bins') = flat bins ++ flat bins' := flatMap_append

theorem length_le_flat (bins : List (α × List α)) : bins.length ≤ (flat bins).length := by
  induction bins with
  | nil => exact Nat.le_refl _
  | cons bin rest ih =>
    simp only [flat_cons, length_append, length_cons]
    omega

def pop : List (α × List α) → List (α × List α)
  | [] => []
  | (_, []) :: rest => rest
  | (_, next :: below) :: rest => (next, below) :: rest

theorem flat_pop (bins : List (α × List α)) : flat (pop bins) = (flat bins).tail := by
  match bins with
  | [] => rfl
  | (_, []) :: rest => rfl
  | (_, next :: below) :: rest => rfl

variable [LinearOrder κ] (key : α → κ)

/-- The keys of the bins grow, and all elements of a bin have its key. -/
inductive Ordered : List (α × List α) → Prop where
  | nil : Ordered []
  | cons {top below rest} (equal : ∀ a ∈ below, key a = key top)
      (later : ∀ a ∈ flat rest, key top < key a) (ordered : Ordered rest) :
      Ordered ((top, below) :: rest)

variable {key} in
variable {rest passed : List (α × List α)}

theorem Ordered.of_cons {top : α} {below : List α} (ordered : Ordered key ((top, below) :: rest)) :
    (∀ a ∈ below, key a = key top) ∧ (∀ a ∈ flat rest, key top < key a) ∧ Ordered key rest := by
  cases ordered with
  | cons equal later ordered => exact ⟨equal, later, ordered⟩

def place (a : α) : List (α × List α) → List (α × List α)
  | [] => [(a, [])]
  | (top, below) :: rest =>
    if key top < key a then (top, below) :: place a rest
    else if key a < key top then (a, []) :: (top, below) :: rest
    else (a, top :: below) :: rest

def withdraw [DecidableEq α] (a : α) : List (α × List α) → List (α × List α)
  | [] => []
  | (top, below) :: rest =>
    if key top < key a then (top, below) :: withdraw a rest
    else if a = top then pop ((top, below) :: rest)
    else (top, below.erase a) :: rest

variable {key} {a : α} {bins : List (α × List α)}

theorem flat_place (a : α) (bins : List (α × List α)) :
    (flat (place key a bins)).Perm (a :: flat bins) := by
  induction bins with
  | nil => exact .refl _
  | cons bin rest ih =>
    obtain ⟨top, below⟩ := bin
    unfold place
    split_ifs
    · simp only [flat_cons]
      exact (ih.append_left (top :: below)).trans perm_middle
    · exact .refl _
    · exact .refl _

theorem place_append (before : ∀ bin ∈ passed, key bin.1 < key a)
    (left : List (α × List α)) : place key a (passed ++ left) = passed ++ place key a left := by
  induction passed with
  | nil => rfl
  | cons bin rest ih =>
    rw [cons_append, place, if_pos (before bin mem_cons_self),
      ih fun bin member => before bin (mem_cons_of_mem _ member), cons_append]

theorem mem_place {b : α} : b ∈ flat (place key a bins) ↔ b = a ∨ b ∈ flat bins := by
  rw [(flat_place a bins).mem_iff, mem_cons]

theorem Ordered.mem_first {top : α} {below : List α}
    (ordered : Ordered key ((top, below) :: rest)) (member : a ∈ flat ((top, below) :: rest))
    (first : ¬ key top < key a) : a ∈ top :: below ∧ key top = key a := by
  obtain ⟨equal, later, -⟩ := ordered.of_cons
  rw [flat_cons, mem_append] at member
  have inBin : a ∈ top :: below := member.resolve_right fun inRest => first (later a inRest)
  refine ⟨inBin, ?_⟩
  obtain rfl | inBelow := mem_cons.mp inBin
  · rfl
  · exact (equal a inBelow).symm

theorem Ordered.mem_left {left : List (α × List α)} (ordered : Ordered key (passed ++ left))
    (member : a ∈ flat (passed ++ left)) (before : ∀ bin ∈ passed, key bin.1 < key a) :
    Ordered key left ∧ a ∈ flat left := by
  induction passed with
  | nil => exact ⟨ordered, member⟩
  | cons bin rest ih =>
    obtain ⟨first, before⟩ := forall_mem_cons.mp before
    obtain ⟨equal, -, ordered⟩ := ordered.of_cons
    rw [cons_append, flat_cons, mem_append, mem_cons] at member
    obtain (rfl | inBin) | member := member
    · exact absurd first (lt_irrefl _)
    · exact absurd (equal a inBin ▸ first) (lt_irrefl _)
    · exact ih ordered member before

theorem Ordered.place (ordered : Ordered key bins) (a : α) : Ordered key (place key a bins) := by
  induction ordered with
  | nil => exact .cons (by simp) (by simp) .nil
  | @cons top below rest equal later ordered ih =>
    unfold Bins.place
    split_ifs with before after
    · refine .cons equal (fun b member => ?_) ih
      obtain rfl | member := mem_place.mp member
      · exact before
      · exact later b member
    · refine .cons (by simp) (fun b member => ?_) (.cons equal later ordered)
      rw [flat_cons, cons_append, mem_cons, mem_append] at member
      obtain rfl | member | member := member
      · exact after
      · rw [equal b member]
        exact after
      · exact lt_trans after (later b member)
    · have same : key top = key a := le_antisymm (not_lt.mp after) (not_lt.mp before)
      refine .cons (fun b member => ?_) (fun b member => same ▸ later b member) ordered
      obtain rfl | member := mem_cons.mp member
      · exact same
      · rw [equal b member, same]

theorem Ordered.pop (ordered : Ordered key bins) : Ordered key (pop bins) := by
  cases ordered with
  | nil => exact .nil
  | @cons top below rest equal later ordered =>
    cases below with
    | nil => exact ordered
    | cons next below =>
      have same := equal next mem_cons_self
      refine .cons (fun b member => ?_) (fun b member => same ▸ later b member) ordered
      rw [equal b (mem_cons_of_mem _ member), same]

section Withdraw
variable [DecidableEq α]

theorem withdraw_append {passed : List (α × List α)} (before : ∀ bin ∈ passed, key bin.1 < key a)
    (left : List (α × List α)) :
    withdraw key a (passed ++ left) = passed ++ withdraw key a left := by
  induction passed with
  | nil => rfl
  | cons bin rest ih =>
    rw [cons_append, withdraw, if_pos (before bin mem_cons_self),
      ih fun bin member => before bin (mem_cons_of_mem _ member), cons_append]

theorem Ordered.flat_withdraw (ordered : Ordered key bins) (member : a ∈ flat bins) :
    flat (withdraw key a bins) = (flat bins).erase a := by
  induction ordered with
  | nil => cases member
  | @cons top below rest equal later ordered ih =>
    rw [flat_cons, cons_append, mem_cons, mem_append] at member
    unfold withdraw
    split_ifs with before here
    · have notTop : top ≠ a := fun same => absurd (same ▸ before) (lt_irrefl _)
      have notBelow : a ∉ below := fun member => absurd (equal a member ▸ before) (lt_irrefl _)
      obtain rfl | member | member := member
      · exact absurd rfl notTop
      · exact absurd member notBelow
      · rw [flat_cons, ih member, flat_cons, erase_append_right]
        simp [notTop.symm, notBelow]
    · rw [flat_pop, here]
      simp
    · obtain rfl | member | member := member
      · exact absurd rfl here
      · simp only [flat_cons, cons_append]
        rw [erase_cons_tail (by simpa using Ne.symm here), erase_append_left _ member]
      · exact absurd (later a member) before

theorem Ordered.withdraw (ordered : Ordered key bins) (member : a ∈ flat bins) :
    Ordered key (withdraw key a bins) := by
  induction ordered with
  | nil => cases member
  | @cons top below rest equal later ordered ih =>
    rw [flat_cons, cons_append, mem_cons, mem_append] at member
    unfold Bins.withdraw
    split_ifs with before here
    · obtain rfl | member | member := member
      · exact absurd before (lt_irrefl _)
      · exact absurd (equal a member ▸ before) (lt_irrefl _)
      · refine .cons equal (fun b inRest => later b ?_) (ih member)
        rw [ordered.flat_withdraw member] at inRest
        exact mem_of_mem_erase inRest
    · exact (Ordered.cons equal later ordered).pop
    · exact .cons (fun b member => equal b (mem_of_mem_erase member)) later ordered

end Withdraw

theorem Ordered.congr {key' : α → κ} (ordered : Ordered key bins)
    (same : ∀ a ∈ flat bins, key' a = key a) : Ordered key' bins := by
  induction ordered with
  | nil => exact .nil
  | @cons top below rest equal later ordered ih =>
    have atTop := same top (by simp)
    refine .cons (fun a member => ?_) (fun a member => ?_) (ih fun a member => same a (by simp [member]))
    · rw [same a (by simp [member]), atTop, equal a member]
    · rw [same a (by simp [member]), atTop]
      exact later a member

theorem Ordered.tops (ordered : Ordered key bins) :
    (bins.map Prod.fst).Pairwise fun a b => key a < key b := by
  induction ordered with
  | nil => exact .nil
  | @cons top below rest equal later ordered ih =>
    refine .cons (fun a member => later a ?_) ih
    obtain ⟨bin, inRest, rfl⟩ := mem_map.mp member
    exact mem_flatMap.mpr ⟨bin, inRest, mem_cons_self⟩

/-- Each element of a bin is related to those below it. -/
def Stacked (r : α → α → Prop) (bins : List (α × List α)) : Prop :=
  ∀ bin ∈ bins, (bin.1 :: bin.2).Pairwise r

section Stacked
variable {r : α → α → Prop}

theorem Stacked.place (stacked : Stacked r bins) (new : ∀ b ∈ flat bins, r a b) :
    Stacked r (place key a bins) := by
  induction bins with
  | nil =>
    intro bin member
    obtain rfl := mem_singleton.mp member
    exact pairwise_singleton r a
  | cons first rest ih =>
    obtain ⟨top, below⟩ := first
    have rest' : Stacked r rest := fun bin member => stacked bin (mem_cons_of_mem _ member)
    unfold Bins.place
    split_ifs
    · intro bin member
      obtain rfl | member := mem_cons.mp member
      · exact stacked _ mem_cons_self
      · exact ih rest' (fun b member => new b (by simp [member])) bin member
    · intro bin member
      obtain rfl | member := mem_cons.mp member
      · exact pairwise_singleton r a
      · exact stacked bin member
    · intro bin member
      obtain rfl | member := mem_cons.mp member
      · refine .cons (fun b member => new b ?_) (stacked (top, below) mem_cons_self)
        rw [flat_cons]
        exact mem_append_left _ member
      · exact rest' bin member

theorem Stacked.pop (stacked : Stacked r bins) : Stacked r (pop bins) := by
  match bins with
  | [] => exact stacked
  | (_, []) :: rest => exact fun bin member => stacked bin (mem_cons_of_mem _ member)
  | (top, next :: below) :: rest =>
    intro bin member
    obtain rfl | member := mem_cons.mp member
    · exact (pairwise_cons.mp (stacked _ mem_cons_self)).2
    · exact stacked bin (mem_cons_of_mem _ member)

theorem Stacked.withdraw [DecidableEq α] (stacked : Stacked r bins) (a : α) :
    Stacked r (withdraw key a bins) := by
  induction bins with
  | nil => exact stacked
  | cons first rest ih =>
    obtain ⟨top, below⟩ := first
    have rest' : Stacked r rest := fun bin member => stacked bin (mem_cons_of_mem _ member)
    unfold Bins.withdraw
    split_ifs
    · intro bin member
      obtain rfl | member := mem_cons.mp member
      · exact stacked _ mem_cons_self
      · exact ih rest' bin member
    · exact stacked.pop
    · intro bin member
      obtain rfl | member := mem_cons.mp member
      · exact (stacked _ mem_cons_self).sublist (erase_sublist.cons_cons top)
      · exact rest' bin member

theorem Stacked.mono {r' : α → α → Prop} (stacked : Stacked r bins)
    (weaken : ∀ a ∈ flat bins, ∀ b ∈ flat bins, r a b → r' a b) : Stacked r' bins := by
  intro bin member
  have inside : ∀ a ∈ bin.1 :: bin.2, a ∈ flat bins := fun a inBin =>
    mem_flatMap.mpr ⟨bin, member, inBin⟩
  exact (stacked bin member).imp_of_mem fun inA inB => weaken _ (inside _ inA) _ (inside _ inB)

end Stacked

section Layout
variable {next nextBin nextInBin : α → Option α} {p : Option α}

def Path (next : α → Option α) : Option α → List α → Prop
  | p, [] => p = none
  | p, a :: rest => p = some a ∧ Path next (next a) rest

/-- The bins that a pointer leads to. Only the top of a bin points to the next one. -/
def Linked (nextBin nextInBin : α → Option α) : Option α → List (α × List α) → Prop
  | p, [] => p = none
  | p, (top, below) :: rest =>
    p = some top ∧ Path nextInBin (nextInBin top) below ∧
      Linked nextBin nextInBin (nextBin top) rest

theorem Path.congr {next' : α → Option α} {l : List α} (path : Path next p l)
    (same : ∀ a ∈ l, next' a = next a) : Path next' p l := by
  induction l generalizing p with
  | nil => exact path
  | cons a rest ih =>
    obtain ⟨here, path⟩ := path
    refine ⟨here, ?_⟩
    rw [same a mem_cons_self]
    exact ih path fun b member => same b (mem_cons_of_mem _ member)

variable {nextBin' nextInBin' : α → Option α}

theorem Linked.congr (linked : Linked nextBin nextInBin p bins)
    (bin : ∀ bin ∈ bins, nextBin' bin.1 = nextBin bin.1)
    (inBin : ∀ a ∈ flat bins, nextInBin' a = nextInBin a) : Linked nextBin' nextInBin' p bins := by
  induction bins generalizing p with
  | nil => exact linked
  | cons first rest ih =>
    obtain ⟨here, path, linked⟩ := linked
    refine ⟨here, ?_, ?_⟩
    · rw [inBin _ (by simp)]
      exact path.congr fun a member => inBin a (by simp [member])
    · rw [bin _ mem_cons_self]
      exact ih linked (fun bin' member => bin bin' (mem_cons_of_mem _ member))
        fun a member => inBin a (by simp [member])

theorem last_mem {top : α} {below : List α} :
    (bins.map Prod.fst).getLastD top ∈ flat ((top, below) :: bins) := by
  induction bins generalizing top below with
  | nil => exact mem_cons_self
  | cons bin rest ih =>
    rw [map_cons, getLastD_cons, flat_cons]
    exact mem_append_right _ ih

/-- The bins behind the last of the passed ones are replaced, and its pointer leads to the new. -/
theorem Linked.replace [DecidableEq α] {passed left left' : List (α × List α)} {top : α}
    {below : List α} {p' : Option α}
    (linked : Linked nextBin nextInBin p ((top, below) :: passed ++ left))
    (nodup : (flat ((top, below) :: passed)).Nodup)
    (bin : ∀ a ∈ flat ((top, below) :: passed), nextBin' a = nextBin a)
    (inBin : ∀ a ∈ flat ((top, below) :: passed), nextInBin' a = nextInBin a)
    (behind : Linked (Function.update nextBin' ((passed.map Prod.fst).getLastD top) p') nextInBin'
      p' left') :
    Linked (Function.update nextBin' ((passed.map Prod.fst).getLastD top) p') nextInBin' p
      ((top, below) :: passed ++ left') := by
  induction passed generalizing p top below with
  | nil =>
    obtain ⟨here, path, -⟩ := linked
    refine ⟨here, ?_, ?_⟩
    · rw [inBin top (by simp)]
      exact path.congr fun a member => inBin a (by simp [member])
    · rw [map_nil, getLastD_nil, Function.update_self]
      exact behind
  | cons next rest ih =>
    obtain ⟨here, path, linked⟩ := linked
    obtain ⟨-, nodupRest, apart⟩ := nodup_append.mp nodup
    refine ⟨here, ?_, ?_⟩
    · rw [inBin top (by simp)]
      exact path.congr fun a member => inBin a (by simp [member])
    · rw [map_cons, getLastD_cons] at behind ⊢
      rw [Function.update_of_ne (apart top mem_cons_self _ last_mem), bin top (by simp)]
      exact ih linked nodupRest (fun a member => bin a (mem_append_right _ member))
        (fun a member => inBin a (mem_append_right _ member)) behind

theorem Linked.tops (linked : Linked nextBin nextInBin p bins) :
    Path nextBin p (bins.map Prod.fst) := by
  induction bins generalizing p with
  | nil => exact linked
  | cons first rest ih =>
    obtain ⟨here, -, linked⟩ := linked
    exact ⟨here, ih linked⟩

theorem Linked.stack (linked : Linked nextBin nextInBin p bins) {bin : α × List α}
    (member : bin ∈ bins) : Path nextInBin (some bin.1) (bin.1 :: bin.2) := by
  induction bins generalizing p with
  | nil => cases member
  | cons first rest ih =>
    obtain ⟨here, path, linked⟩ := linked
    obtain rfl | member := mem_cons.mp member
    · exact ⟨rfl, path⟩
    · exact ih linked member

end Layout

end Bins
