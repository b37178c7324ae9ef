import Mathlib.Data.Nat.Bitwise
import Mathlib.Data.List.FinRange
import Mathlib.Data.List.Perm.Subperm

/-!
Complete binary trees with a bit at each inner node, which a use turns to the leaf used. The leaf
that all bits turn away from is replaced next.
-/

namespace LruTree
open List

section Recent

variable {α : Type*} [BEq α] [LawfulBEq α]

/-- The last `n` different elements of a history, of which the first is the newest. -/
def recent (n : Nat) (history : List α) : List α := history.eraseDups.take n

theorem not_mem_recent {later others : List α} {a : α} (earlier : List α) (absent : a ∉ later)
    (different : others.Nodup) (included : others ⊆ later) :
    a ∉ recent others.length (later ++ a :: earlier) := by
  have enough : others.length ≤ later.eraseDups.length := by
    refine (different.subperm fun b member => ?_).length_le
    exact mem_eraseDups.mpr (included member)
  rw [recent, eraseDups_append, take_append_of_le_length enough]
  intro member
  exact absent (mem_eraseDups.mp (mem_of_mem_take member))

end Recent

/-- The node on the way to leaf `x` where bit `j` of `x` decides, in a tree of `levels` levels. The
nodes are numbered level by level from the root on. -/
def node (levels j x : Nat) : Nat := 2 ^ (levels - 1 - j) - 1 + x / 2 ^ (j + 1)

variable {levels j k x v : Nat}

theorem div_lt_pow (inside : x < 2 ^ levels) (below : j < levels) :
    x / 2 ^ (j + 1) < 2 ^ (levels - 1 - j) := by
  refine Nat.div_lt_of_lt_mul ?_
  rwa [← Nat.pow_add, show j + 1 + (levels - 1 - j) = levels by omega]

theorem node_lt (inside : x < 2 ^ levels) (below : j < levels) :
    node levels j x < 2 ^ levels - 1 := by
  have leaf := div_lt_pow inside below
  have level : 2 ^ (levels - 1 - j) * 2 ≤ 2 ^ levels := by
    rw [← Nat.pow_succ]
    exact Nat.pow_le_pow_right (by decide) (by omega)
  rw [node]
  omega

theorem node_ne (inside : x < 2 ^ levels) (below : k < levels) (above : j < k) :
    node levels j v ≠ node levels k x := by
  have leaf := div_lt_pow inside below
  have level : 2 ^ (levels - 1 - k) * 2 ≤ 2 ^ (levels - 1 - j) := by
    rw [← Nat.pow_succ]
    exact Nat.pow_le_pow_right (by decide) (by omega)
  rw [node, node]
  generalize v / 2 ^ (j + 1) = place
  omega

theorem node_inj (inside : x < 2 ^ levels) (inside' : v < 2 ^ levels) (below : j < levels)
    (below' : k < levels) :
    node levels j v = node levels k x ↔ j = k ∧ v / 2 ^ (j + 1) = x / 2 ^ (j + 1) := by
  constructor
  · intro same
    obtain earlier | rfl | later := Nat.lt_trichotomy j k
    · exact absurd same (node_ne inside below' earlier)
    · exact ⟨rfl, Nat.add_left_cancel same⟩
    · exact absurd same.symm (node_ne inside' below later)
  · rintro ⟨rfl, same⟩
    rw [node, node, same]

/-- The bits on the way to `x` are turned to it. -/
def Uses (levels x : Nat) (bits bits' : Nat → Bool) : Prop :=
  ∀ v < 2 ^ levels, ∀ j < levels, bits' (node levels j v) =
    if x / 2 ^ (j + 1) = v / 2 ^ (j + 1) then x.testBit j else bits (node levels j v)

/-- The bits after the uses of a history, whatever they were before. -/
inductive Used (levels : Nat) : List Nat → (Nat → Bool) → Prop
  | start (bits : Nat → Bool) : Used levels [] bits
  | step {x : Nat} {history : List Nat} {bits bits' : Nat → Bool} (before : Used levels history bits)
    (inside : x < 2 ^ levels) (uses : Uses levels x bits bits') : Used levels (x :: history) bits'

/-- All bits on the way to `v` turn away from it. -/
structure Victim (levels : Nat) (bits : Nat → Bool) (v : Nat) : Prop where
  inside : v < 2 ^ levels
  away : ∀ j < levels, bits (node levels j v) ≠ v.testBit j

variable {history later earlier : List Nat} {bits : Nat → Bool}

/-- A bit that turned to `v` when it was used and does no more was turned by a later use. -/
theorem Used.turned (used : Used levels (later ++ v :: earlier) bits) (below : j < levels)
    (away : bits (node levels j v) ≠ v.testBit j) (inside : v < 2 ^ levels) :
    ∃ x ∈ later, x / 2 ^ (j + 1) = v / 2 ^ (j + 1) ∧ x.testBit j ≠ v.testBit j := by
  induction later generalizing bits with
  | nil =>
    obtain - | ⟨-, -, uses⟩ := used
    rw [uses v inside j below, if_pos rfl] at away
    exact absurd rfl away
  | cons x later ih =>
    obtain - | ⟨before, -, uses⟩ := used
    rw [uses v inside j below] at away
    split_ifs at away with same
    · exact ⟨x, mem_cons_self, same, away⟩
    · obtain ⟨y, member, turned⟩ := ih before away
      exact ⟨y, mem_cons_of_mem x member, turned⟩

theorem testBit_eq_of_div (same : x / 2 ^ (j + 1) = v / 2 ^ (j + 1)) (above : j < k) :
    x.testBit k = v.testBit k := by
  have position : k = k - (j + 1) + (j + 1) := by omega
  rw [position, ← Nat.testBit_div_two_pow, ← Nat.testBit_div_two_pow, same]

theorem Used.victim_not_recent (used : Used levels history bits) (victim : Victim levels bits v) :
    v ∉ recent levels history := by
  by_cases known : v ∈ history
  · obtain ⟨later, earlier, rfl, absent⟩ := eq_append_cons_of_mem known
    have turned (j : Fin levels) := used.turned j.isLt (victim.away j j.isLt) victim.inside
    choose turner member same differs using turned
    -- each level was turned by a leaf that parts from `v` there
    have injective : Function.Injective turner := by
      intro i j equal
      by_contra apart
      obtain below | above := Nat.lt_or_gt_of_ne (Fin.val_ne_of_ne apart)
      · exact differs j (equal ▸ testBit_eq_of_div (same i) below)
      · exact differs i (equal ▸ testBit_eq_of_div (same j) above)
    have others := not_mem_recent earlier absent
      (nodup_ofFn.mpr injective) (fun x listed => by
        obtain ⟨j, rfl⟩ := mem_ofFn.mp listed
        exact member j)
    rwa [length_ofFn] at others
  · intro recently
    exact known (mem_eraseDups.mp (mem_of_mem_take recently))

theorem Used.other_half (used : Used levels (x :: history) bits) (victim : Victim levels bits v)
    (some : 0 < levels) : v.testBit (levels - 1) ≠ x.testBit (levels - 1) := by
  have away := victim.away (levels - 1) (by omega)
  obtain - | ⟨-, inside, uses⟩ := used
  have top : levels - 1 + 1 = levels := by omega
  rw [uses v victim.inside (levels - 1) (by omega), if_pos] at away
  · exact away.symm
  · rw [top, Nat.div_eq_of_lt inside, Nat.div_eq_of_lt victim.inside]

end LruTree
