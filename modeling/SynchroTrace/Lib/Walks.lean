import Mathlib.Algebra.Order.Group.Int
import Mathlib.Order.Bounds.Basic
import Mathlib.Tactic.Linarith

/-!
Walks in a directed graph with integer weights, and potentials that bound their costs from below.
-/

namespace Walks

variable {V : Type*} {link : V → V → Prop} {weight : V → V → ℤ}

/-- A walk from one vertex to another, as the list of the vertices after the first. -/
inductive Walk (link : V → V → Prop) : V → V → List V → Prop
  | nil {i : V} : Walk link i i []
  | cons {i k j : V} {rest : List V} (first : link i k) (later : Walk link k j rest) :
      Walk link i j (k :: rest)

def cost (weight : V → V → ℤ) : V → List V → ℤ
  | _, [] => 0
  | i, k :: rest => weight i k + cost weight k rest

@[simp] theorem cost_nil (i : V) : cost weight i [] = 0 := rfl

@[simp] theorem cost_cons (i k : V) (rest : List V) :
    cost weight i (k :: rest) = weight i k + cost weight k rest := rfl

variable {first rest : List V}

theorem Walk.append {i k j : V} (h : Walk link i k first)
    (later : Walk link k j rest) : Walk link i j (first ++ rest) := by
  induction h with
  | nil => exact later
  | cons head _ ih => exact .cons head (ih later)

theorem Walk.cost_append {i k : V} (h : Walk link i k first) (weight : V → V → ℤ) (rest : List V) :
    cost weight i (first ++ rest) = cost weight i first + cost weight k rest := by
  induction h with
  | nil => simp
  | cons head _ ih => simp only [List.cons_append, cost_cons, ih, Int.add_assoc]

theorem Walk.exists_last {i j : V} (h : Walk link i j rest) (away : i ≠ j) :
    ∃ k, link k j := by
  induction h with
  | nil => exact absurd rfl away
  | @cons i k j rest head _ ih =>
    by_cases there : k = j
    · exact ⟨i, there ▸ head⟩
    · exact ih there

def costs (link : V → V → Prop) (weight : V → V → ℤ) (i j : V) : Set ℤ :=
  { c | ∃ rest, Walk link i j rest ∧ cost weight i rest = c }

section Potential
variable {p : V → ℤ} {target : V}

/-- No link lowers the potential by more than its weight, and the target has none. -/
structure Potential (link : V → V → Prop) (weight : V → V → ℤ) (p : V → ℤ) (target : V) : Prop where
  step : ∀ i k, link i k → p i ≤ weight i k + p k
  target : p target = 0

variable {i j : V} {rest : List V}

theorem Potential.le_cost (potential : Potential link weight p target)
    (h : Walk link i target rest) : p i ≤ cost weight i rest := by
  induction h with
  | nil => exact potential.target.le
  | cons head _ ih => exact (potential.step _ _ head).trans (Int.add_le_add_left (ih potential) _)

theorem Potential.isLeast (potential : Potential link weight p target)
    (attained : p i ∈ costs link weight i target) : IsLeast (costs link weight i target) (p i) := by
  refine ⟨attained, ?_⟩
  rintro c ⟨rest, walk, rfl⟩
  exact potential.le_cost walk

theorem Potential.exists_next (potential : Potential link weight p target)
    (attained : p i ∈ costs link weight i target) (away : i ≠ target) :
    ∃ k, link i k ∧ weight i k + p k = p i := by
  obtain ⟨rest, walk, total⟩ := attained
  cases walk with
  | nil => exact absurd rfl away
  | @cons _ k _ rest head later =>
    refine ⟨k, head, le_antisymm ?_ (potential.step i k head)⟩
    rw [← total, cost_cons]
    exact Int.add_le_add_left (potential.le_cost later) _

structure Descends (link : V → V → Prop) (weight : V → V → ℤ) (p : V → ℤ) (i k : V) : Prop where
  link : link i k
  exact_weight : weight i k + p k = p i

variable {hop : V → V → Prop}

theorem Walk.of_descends (h : Walk hop i j rest)
    (descends : ∀ i k, hop i k → Descends link weight p i k) :
    Walk link i j rest ∧ cost weight i rest + p j = p i := by
  induction h with
  | nil => exact ⟨.nil, by simp⟩
  | cons head _ ih =>
    obtain ⟨walk, total⟩ := ih
    have step := descends _ _ head
    refine ⟨.cons step.link walk, ?_⟩
    rw [cost_cons, Int.add_assoc, total, step.exact_weight]

theorem Potential.descends (potential : Potential link weight p target)
    (h : Walk link i target rest) (least : cost weight i rest = p i) :
    Walk (Descends link weight p) i target rest := by
  induction h with
  | nil => exact .nil
  | @cons i k j rest head later ih =>
    have step := potential.step i k head
    have bound := potential.le_cost later
    rw [cost_cons] at least
    exact .cons ⟨head, by omega⟩ (ih potential (by omega))

/-- Over links of positive weight the potential falls at every hop, so no vertex comes twice. -/
theorem Walk.nodup (h : Walk hop i j rest) (descends : ∀ i k, hop i k → Descends link weight p i k)
    (positive : ∀ i k, link i k → 0 < weight i k) :
    (∀ v ∈ rest, p v < p i) ∧ (i :: rest).Nodup := by
  induction h with
  | nil => simp
  | @cons i k j rest head later ih =>
    obtain ⟨lower, distinct⟩ := ih
    have step := descends _ _ head
    have falls : p k < p i := by
      have := positive _ _ step.link
      have := step.exact_weight
      omega
    have below : ∀ v ∈ k :: rest, p v < p i := by
      intro v member
      obtain rfl | member := List.mem_cons.mp member
      · exact falls
      · exact (lower v member).trans falls
    exact ⟨below, List.nodup_cons.mpr ⟨fun member => (below i member).false, distinct⟩⟩

/-- If every vertex but the target has a hop that lowers the potential, the hops lead to the target.
-/
theorem exists_descent (good : V → Prop)
    (next : ∀ i, good i → i ≠ target → ∃ k, hop i k ∧ good k ∧ p k < p i)
    (nonneg : ∀ i, good i → 0 ≤ p i) (start : good i) : ∃ rest, Walk hop i target rest := by
  induction fuel : (p i).toNat using Nat.strong_induction_on generalizing i with
  | _ n ih =>
    by_cases away : i = target
    · subst away
      exact ⟨[], .nil⟩
    · obtain ⟨k, head, here, falls⟩ := next i start away
      have := nonneg i start
      have := nonneg k here
      obtain ⟨rest, walk⟩ := ih (p k).toNat (by omega) here rfl
      exact ⟨k :: rest, .cons head walk⟩

end Potential

end Walks
