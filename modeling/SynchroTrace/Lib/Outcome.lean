import Mathlib.Init

namespace Outcome
open List

universe u

variable {ε ι : Type*} {α β : Type u} {a b : α} {x : Except ε α} {items : List ι}

theorem bind_ok {f : α → Except ε β} {b : β} (h : (x >>= f) = .ok b) :
    ∃ a, x = .ok a ∧ f a = .ok b := by
  cases x with
  | error e => cases h
  | ok a => exact ⟨a, rfl, h⟩

theorem ok_bind (a : α) (f : α → Except ε β) : (Except.ok a >>= f) = f a := rfl

theorem pure_ok (h : (pure a : Except ε α) = .ok b) : b = a := by
  cases h
  rfl

def require (condition : Prop) [Decidable condition] (fault : ε) : Except ε Unit :=
  if condition then .ok () else .error fault

theorem require_of {condition : Prop} [Decidable condition] (holds : condition) (fault : ε) :
    require condition fault = .ok () :=
  if_pos holds

theorem require_ok {condition : Prop} [Decidable condition] {fault : ε} {u : Unit}
    (h : require condition fault = .ok u) : condition := by
  by_cases holds : condition
  · exact holds
  · rw [require, if_neg holds] at h
    cases h

theorem any_toOption {test : α → Bool} (h : x.toOption.any test = true) :
    ∃ a, x = .ok a ∧ test a = true := by
  cases x with
  | error e => cases h
  | ok a => exact ⟨a, rfl, h⟩

theorem foldlM_invariant (Inv : α → Prop) {f : α → ι → Except ε α}
    (keep : ∀ i ∈ items, ∀ a b, Inv a → f a i = .ok b → Inv b) (before : Inv a)
    (h : items.foldlM f a = .ok b) : Inv b := by
  induction items generalizing a with
  | nil => rwa [pure_ok h]
  | cons i rest ih =>
    rw [foldlM_cons] at h
    obtain ⟨middle, first, h⟩ := bind_ok h
    exact ih (fun i member => keep i (mem_cons_of_mem _ member))
      (keep i mem_cons_self _ _ before first) h

theorem foldlM_total {f : α → ι → Except ε α}
    (total : ∀ i ∈ items, ∀ a, ∃ b, f a i = .ok b) (a : α) : ∃ b, items.foldlM f a = .ok b := by
  induction items generalizing a with
  | nil => exact ⟨a, rfl⟩
  | cons i rest ih =>
    obtain ⟨middle, first⟩ := total i mem_cons_self a
    rw [foldlM_cons, first]
    exact ih (fun i member => total i (mem_cons_of_mem _ member)) middle

theorem foldlM_establish (P : α → Prop) {f : α → ι → Except ε α} {item : ι} (member : item ∈ items)
    (make : ∀ a b, f a item = .ok b → P b) (keep : ∀ i ∈ items, ∀ a b, P a → f a i = .ok b → P b)
    (h : items.foldlM f a = .ok b) : P b := by
  obtain ⟨before, after, rfl⟩ := append_of_mem member
  rw [foldlM_append] at h
  obtain ⟨middle, -, h⟩ := bind_ok h
  rw [foldlM_cons] at h
  obtain ⟨made, first, h⟩ := bind_ok h
  refine foldlM_invariant P (fun i later => ?_) (make _ _ first) h
  exact keep i (mem_append_right _ (mem_cons_of_mem _ later))

/-- If the state after a loop shows that no step has changed it, every step leaves the first state
as it is. -/
theorem foldlM_quiet (Quiet : α → Prop) {f : α → ι → Except ε α}
    (back : ∀ i ∈ items, ∀ a b, f a i = .ok b → Quiet b → b = a)
    (h : items.foldlM f a = .ok b) (quiet : Quiet b) : b = a ∧ ∀ i ∈ items, f a i = .ok a := by
  induction items generalizing a with
  | nil => exact ⟨pure_ok h, nofun⟩
  | cons i rest ih =>
    rw [foldlM_cons] at h
    obtain ⟨middle, first, h⟩ := bind_ok h
    obtain ⟨rfl, later⟩ := ih (fun i member => back i (mem_cons_of_mem _ member)) h
    obtain rfl := back i mem_cons_self _ _ first quiet
    exact ⟨rfl, forall_mem_cons.mpr ⟨first, later⟩⟩

theorem mapM_total {f : ι → Except ε α}
    (total : ∀ i ∈ items, ∃ a, f i = .ok a) : ∃ results, items.mapM f = .ok results := by
  induction items with
  | nil => exact ⟨[], rfl⟩
  | cons i rest ih =>
    obtain ⟨a, first⟩ := total i mem_cons_self
    obtain ⟨results, others⟩ := ih fun i member => total i (mem_cons_of_mem _ member)
    exact ⟨a :: results, by rw [mapM_cons, first, others]; rfl⟩

theorem mapM_eq_map {f : ι → Except ε α} {g : ι → α}
    (total : ∀ i ∈ items, f i = .ok (g i)) : items.mapM f = .ok (items.map g) := by
  induction items with
  | nil => rfl
  | cons i rest ih =>
    rw [mapM_cons, total i mem_cons_self, ih fun i member => total i (mem_cons_of_mem _ member)]
    rfl

theorem allM_eq_all {ι ε : Type} {items : List ι} {f : ι → Except ε Bool} {test : ι → Bool}
    (total : ∀ i ∈ items, f i = .ok (test i)) :
    items.allM f = .ok (items.all test) := by
  induction items with
  | nil => rfl
  | cons i rest ih =>
    rw [List.allM, total i mem_cons_self, ok_bind, all_cons]
    cases test i with
    | true => exact ih fun i member => total i (mem_cons_of_mem _ member)
    | false => rfl

theorem mapM_map {κ : Type*} {f : κ → Except ε α} {g : ι → Except ε α} {text : ι → κ}
    (same : ∀ i ∈ items, f (text i) = g i) :
    (items.map text).mapM f = items.mapM g := by
  induction items with
  | nil => rfl
  | cons i rest ih =>
    rw [map_cons, mapM_cons, mapM_cons, same i mem_cons_self,
      ih fun i member => same i (mem_cons_of_mem _ member)]

/-- Two computations that fail in the same way, or have related results. -/
inductive Matches {α β : Type*} (related : α → β → Prop) : Except ε α → Except ε β → Prop where
  | ok {a : α} {b : β} (h : related a b) : Matches related (.ok a) (.ok b)
  | error (e : ε) : Matches related (.error e) (.error e)

theorem Matches.refl {α : Type*} (x : Except ε α) : Matches Eq x x := by
  cases x with
  | error e => exact .error e
  | ok a => exact .ok rfl

theorem Matches.bind {α' β' : Type u} {related : α → β → Prop} {related' : α' → β' → Prop}
    {y : Except ε β} {f : α → Except ε α'} {g : β → Except ε β'} (first : Matches related x y)
    (rest : ∀ a b, y = .ok b → related a b → Matches related' (f a) (g b)) :
    Matches related' (x >>= f) (y >>= g) := by
  cases first with
  | ok h => exact rest _ _ rfl h
  | error e => exact .error e

theorem Matches.bind_pure {β' : Type u} {related : α → β → Prop} {related' : α → β' → Prop}
    {y : Except ε β} {g : β → β'} (both : Matches related x y)
    (rest : ∀ a b, related a b → related' a (g b)) :
    Matches related' x (y >>= fun b => pure (g b)) := by
  cases both with
  | ok h => exact .ok (rest _ _ h)
  | error e => exact .error e

theorem Matches.of_ok {α β : Type*} {related : α → β → Prop} {x : Except ε α} {y : Except ε β}
    {b : β} (both : Matches related x y) (h : y = .ok b) : ∃ a, x = .ok a ∧ related a b := by
  cases both with
  | ok related =>
    cases h
    exact ⟨_, rfl, related⟩
  | error e => cases h

def FailsOnly (failure : ε → Prop) (r : Except ε α) : Prop := ∀ e, r = .error e → failure e

variable {failure : ε → Prop}

theorem failsOnly_ok (a : α) : FailsOnly failure (.ok a : Except ε α) := by
  intro e h
  cases h

theorem failsOnly_error {e : ε} (known : failure e) :
    FailsOnly failure (.error e : Except ε α) := by
  intro e' h
  cases h
  exact known

theorem FailsOnly.bind {f : α → Except ε β} (first : FailsOnly failure x)
    (second : ∀ a, x = .ok a → FailsOnly failure (f a)) : FailsOnly failure (x >>= f) := by
  cases x with
  | error e => exact failsOnly_error (first e rfl)
  | ok a => exact second a rfl

theorem FailsOnly.mono {wider : ε → Prop} (weaken : ∀ e, failure e → wider e) {r : Except ε α}
    (h : FailsOnly failure r) : FailsOnly wider r :=
  fun e eq => weaken e (h e eq)

theorem failsOnly_foldlM (Inv : α → Prop) {f : α → ι → Except ε α}
    (keep : ∀ i ∈ items, ∀ a b, Inv a → f a i = .ok b → Inv b)
    (each : ∀ i ∈ items, ∀ a, Inv a → FailsOnly failure (f a i)) (before : Inv a) :
    FailsOnly failure (items.foldlM f a) := by
  induction items generalizing a with
  | nil => exact failsOnly_ok a
  | cons i rest ih =>
    rw [foldlM_cons]
    refine (each i mem_cons_self a before).bind fun b first => ?_
    exact ih (fun i member => keep i (mem_cons_of_mem _ member))
      (fun i member => each i (mem_cons_of_mem _ member))
      (keep i mem_cons_self a b before first)

def mapAccumM {σ ι : Type} {β : Type} (step : ι → σ → Except ε (σ × β)) :
    List ι → σ → Except ε (σ × List β)
  | [], s => .ok (s, [])
  | i :: items, s => do
    let (s, b) ← step i s
    let (s, rest) ← mapAccumM step items s
    return (s, b :: rest)

theorem mapAccumM_ok {σ ι β : Type} {step : ι → σ → Except ε (σ × β)} (Inv : Nat → σ → Prop)
    (P : β → Prop) {stop : Nat} : ∀ {items : List ι} {k : Nat} {s : σ},
    (∀ i ∈ items, ∀ k s, k < stop → Inv k s →
      ∃ s' b, step i s = .ok (s', b) ∧ Inv (k + 1) s' ∧ P b) →
    k + items.length = stop → Inv k s → ∃ s' results, mapAccumM step items s = .ok (s', results) ∧
      Inv stop s' ∧ results.length = items.length ∧ ∀ b ∈ results, P b
  | [], _, s, _, rfl, before => ⟨s, [], rfl, before, rfl, fun _ absent => nomatch absent⟩
  | i :: items, k, s, keep, count, before => by
    rw [length_cons] at count
    obtain ⟨s₁, b, first, after, returned⟩ := keep i mem_cons_self k s (by omega) before
    obtain ⟨s₂, results, rest, last, length, all⟩ := mapAccumM_ok Inv P
      (fun j member => keep j (mem_cons_of_mem i member)) (by omega) after
    refine ⟨s₂, b :: results, ?_, last, by simp [length], ?_⟩
    · rw [mapAccumM, first, ok_bind]
      simp only [rest, ok_bind]
      rfl
    · intro c member
      obtain rfl | later := mem_cons.mp member
      · exact returned
      · exact all c later

end Outcome
