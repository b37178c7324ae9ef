import Mathlib.Data.Set.Insert

namespace Lock

variable {τ α : Type*}

@[ext] structure State (τ α : Type*) where
  locked : Set α
  holds : τ → α → Prop

inductive Step (s : State τ α) : State τ α → Prop where
  | acquire (t : τ) (a : α) (free : a ∉ s.locked) :
      Step s ⟨insert a s.locked, fun u b => u = t ∧ b = a ∨ s.holds u b⟩
  | release (t : τ) (a : α) (held : s.holds t a) :
      Step s ⟨s.locked \ {a}, fun u b => ¬ (u = t ∧ b = a) ∧ s.holds u b⟩

/-- A lock is locked while a thread holds it, and no other thread does. -/
structure Safe (s : State τ α) : Prop where
  exclusive : ∀ t u a, s.holds t a → s.holds u a → t = u
  locked : ∀ a, a ∈ s.locked ↔ ∃ t, s.holds t a

theorem Step.safe {s next : State τ α} (h : Step s next) (safe : Safe s) : Safe next := by
  cases h with
  | acquire t a free =>
    have nobody : ∀ u, ¬ s.holds u a := fun u holds => free ((safe.locked a).mpr ⟨u, holds⟩)
    constructor
    · rintro u v b (⟨rfl, rfl⟩ | holds) (⟨rfl, same⟩ | other)
      · rfl
      · exact absurd other (nobody v)
      · subst same
        exact absurd holds (nobody u)
      · exact safe.exclusive u v b holds other
    · intro b
      constructor
      · rintro (rfl | locked)
        · exact ⟨t, Or.inl ⟨rfl, rfl⟩⟩
        · obtain ⟨u, holds⟩ := (safe.locked b).mp locked
          exact ⟨u, Or.inr holds⟩
      · rintro ⟨u, ⟨rfl, rfl⟩ | holds⟩
        · exact Set.mem_insert _ _
        · exact Set.mem_insert_of_mem _ ((safe.locked b).mpr ⟨u, holds⟩)
  | release t a held =>
    constructor
    · exact fun u v b first second => safe.exclusive u v b first.2 second.2
    · intro b
      constructor
      · rintro ⟨locked, different⟩
        obtain ⟨u, holds⟩ := (safe.locked b).mp locked
        exact ⟨u, fun same => different same.2, holds⟩
      · rintro ⟨u, notThis, holds⟩
        refine ⟨(safe.locked b).mpr ⟨u, holds⟩, ?_⟩
        rintro rfl
        exact notThis ⟨safe.exclusive u t b holds held, rfl⟩

def alternates (first : Bool) : List Bool → Bool
  | [] => true
  | op :: rest => op == first && alternates (!first) rest

variable {done rest : List Bool}

theorem alternates_next {first op : Bool} (h : alternates first (done ++ op :: rest) = true) :
    op = (done.getLast?.map (!·)).getD first := by
  induction done generalizing first with
  | nil =>
    simp only [List.nil_append, alternates, Bool.and_eq_true, beq_iff_eq] at h
    exact h.1
  | cons head tail ih =>
    simp only [List.cons_append, alternates, Bool.and_eq_true, beq_iff_eq] at h
    obtain ⟨rfl, h⟩ := h
    rw [ih h]
    cases tail with
    | nil => rfl
    | cons next more =>
      rw [List.getLast?_cons_cons, List.getLast?_eq_some_getLast (List.cons_ne_nil next more)]
      rfl

theorem last_before_unlock
    (h : alternates true (done ++ false :: rest) = true) : done.getLast? = some true := by
  have next := alternates_next h
  cases last : done.getLast? with
  | none => simp [last] at next
  | some op => simpa [last] using next

end Lock
