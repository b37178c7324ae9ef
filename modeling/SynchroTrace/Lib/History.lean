import Mathlib.Data.List.Basic

namespace History
open List

variable {α : Type*}

/-- Every observation of the history has the property, with the observations before it. -/
def Throughout (P : List α → α → Prop) (history : List α) : Prop :=
  ∀ before x after, history = before ++ x :: after → P before x

variable {P : List α → α → Prop}

@[simp] theorem throughout_nil : Throughout P [] := by
  intro before x after split
  simp at split

variable {history : List α}

theorem throughout_snoc {x : α} :
    Throughout P (history ++ [x]) ↔ Throughout P history ∧ P history x := by
  constructor
  · intro h
    refine ⟨fun before y after split => h before y (after ++ [x]) (by simp [split]), ?_⟩
    exact h history x [] rfl
  · rintro ⟨earlier, last⟩ before y after split
    rcases eq_nil_or_concat after with rfl | ⟨after, z, rfl⟩
    · obtain ⟨rfl, same⟩ := append_inj' split rfl
      cases same
      exact last
    · refine earlier before y after ?_
      have same : history ++ [x] = (before ++ y :: after) ++ [z] := by simpa using split
      exact (append_inj' same rfl).1

theorem Throughout.append {more : List α} (h : Throughout P history)
    (each : ∀ before, ∀ x ∈ more, P before x) : Throughout P (history ++ more) := by
  induction more generalizing history with
  | nil => simpa using h
  | cons x rest ih =>
    rw [← singleton_append, ← append_assoc]
    refine ih (throughout_snoc.mpr ⟨h, each _ x mem_cons_self⟩) fun before y later => ?_
    exact each before y (mem_cons_of_mem _ later)

/-- Something with `P` was observed, and nothing with `Q` after it. -/
def Since (P Q : α → Prop) (history : List α) : Prop :=
  ∃ before x after, history = before ++ x :: after ∧ P x ∧ ∀ y ∈ after, ¬ Q y

variable {Q R : α → Prop}

@[simp] theorem not_since_nil : ¬ Since R Q [] := by
  rintro ⟨before, x, after, split, _⟩
  simp at split

theorem since_snoc {x : α} :
    Since R Q (history ++ [x]) ↔ R x ∨ Since R Q history ∧ ¬ Q x := by
  constructor
  · rintro ⟨before, y, after, split, start, none⟩
    rcases eq_nil_or_concat after with rfl | ⟨after, z, rfl⟩
    · obtain ⟨rfl, same⟩ := append_inj' split rfl
      cases same
      exact Or.inl start
    · have same : history ++ [x] = (before ++ y :: after) ++ [z] := by simpa using split
      obtain ⟨rfl, last⟩ := append_inj' same rfl
      cases last
      exact Or.inr ⟨⟨before, y, after, rfl, start, fun w later => none w (by simp [later])⟩,
        none x (by simp)⟩
  · rintro (start | ⟨⟨before, y, after, rfl, start, none⟩, last⟩)
    · exact ⟨history, x, [], rfl, start, by simp⟩
    · refine ⟨before, y, after ++ [x], by simp, start, fun w later => ?_⟩
      rcases mem_append.mp later with earlier | new
      · exact none w earlier
      · rw [mem_singleton.mp new]
        exact last

end History
