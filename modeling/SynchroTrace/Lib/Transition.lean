import Mathlib.Logic.Relation
import SynchroTrace.Lib.Outcome

/-!
Labelled transition systems: what holds in every state that a run reaches, and how the states of
one system are explained by another.
-/

namespace Transition

structure System (σ α : Type*) where
  initial : σ → Prop
  step : σ → α → σ → Prop

variable {σ α τ : Type*} {sys : System σ α} {allowed : σ → α → Prop}

/-- The states that runs reach whose every step is allowed in the state it is taken from. -/
inductive ReachableVia (sys : System σ α) (allowed : σ → α → Prop) : σ → Prop where
  | initial {s : σ} : sys.initial s → ReachableVia sys allowed s
  | step {s next : σ} {a : α} :
      ReachableVia sys allowed s → allowed s a → sys.step s a next → ReachableVia sys allowed next

abbrev Reachable (sys : System σ α) : σ → Prop := ReachableVia sys fun _ _ => True

/-- What holds initially and is kept by every allowed step from a reachable state holds in every
reachable state. -/
theorem ReachableVia.invariant (Inv : σ → Prop) (initial : ∀ s, sys.initial s → Inv s)
    (step : ∀ s a next, ReachableVia sys allowed s → allowed s a → Inv s → sys.step s a next →
      Inv next)
    {s : σ} (reach : ReachableVia sys allowed s) : Inv s := by
  induction reach with
  | initial start => exact initial _ start
  | step before permitted taken ih => exact step _ _ _ before permitted ih taken

theorem ReachableVia.mono {wider : σ → α → Prop} (weaken : ∀ s a, allowed s a → wider s a) {s : σ}
    (reach : ReachableVia sys allowed s) : ReachableVia sys wider s := by
  induction reach with
  | initial start => exact .initial start
  | step _ permitted taken ih => exact .step ih (weaken _ _ permitted) taken

theorem ReachableVia.reachable {s : σ} (reach : ReachableVia sys allowed s) : Reachable sys s :=
  reach.mono fun _ _ _ => trivial

def Later (sys : System σ α) : σ → σ → Prop :=
  Relation.ReflTransGen fun s next => ∃ a, sys.step s a next

theorem Later.reachable {s next : σ} (later : Later sys s next) (reach : Reachable sys s) :
    Reachable sys next := by
  induction later with
  | refl => exact reach
  | tail _ taken ih =>
    obtain ⟨a, step⟩ := taken
    exact .step ih trivial step

theorem steps_invariant {r : σ → σ → Prop} (Inv : σ → Prop)
    (keep : ∀ s next, r s next → Inv s → Inv next) {s next : σ}
    (steps : Relation.ReflTransGen r s next) (before : Inv s) : Inv next := by
  induction steps with
  | refl => exact before
  | tail _ taken ih => exact keep _ _ taken ih

section OfFunction
variable {ε : Type*} {initial : σ → Prop} {perform : σ → α → Except ε σ}

/-- The system whose steps a function computes, if it does not fail. -/
def ofFunction (initial : σ → Prop) (perform : σ → α → Except ε σ) : System σ α where
  initial := initial
  step s a next := perform s a = .ok next

theorem ReachableVia.foldlM {script : List α} (permitted : ∀ a ∈ script, ∀ s, allowed s a)
    {s final : σ} (reach : ReachableVia (ofFunction initial perform) allowed s)
    (h : script.foldlM perform s = .ok final) :
    ReachableVia (ofFunction initial perform) allowed final := by
  induction script generalizing s with
  | nil =>
    cases h
    exact reach
  | cons a rest ih =>
    rw [List.foldlM_cons] at h
    obtain ⟨next, taken, h⟩ := Outcome.bind_ok h
    exact ih (fun a member => permitted a (List.mem_cons_of_mem _ member))
      (.step reach (permitted a List.mem_cons_self s) taken) h

variable (initial) in
theorem foldlM_check {script : List α} (permitted : ∀ a ∈ script, ∀ s, allowed s a) {start : σ}
    (starts : initial start) {check : σ → Bool}
    (h : (script.foldlM perform start).toOption.any check = true) :
    ∃ s, ReachableVia (ofFunction initial perform) allowed s ∧ check s = true := by
  obtain ⟨final, ran, passed⟩ := Outcome.any_toOption h
  exact ⟨final, .foldlM permitted (.initial starts) ran, passed⟩

theorem ReachableVia.foldlM_allowed [∀ s a, Decidable (allowed s a)] {script : List α} {s final : σ}
    {fault : ε} (reach : ReachableVia (ofFunction initial perform) allowed s)
    (h : script.foldlM (fun s a => if allowed s a then perform s a else .error fault) s =
      .ok final) :
    ReachableVia (ofFunction initial perform) allowed final := by
  refine Outcome.foldlM_invariant (ReachableVia (ofFunction initial perform) allowed) ?_ reach h
  intro a _ s next reach taken
  split at taken
  · exact .step reach ‹_› taken
  · cases taken

variable (initial) in
theorem foldlM_check_allowed [∀ s a, Decidable (allowed s a)] {script : List α} {start : σ}
    {fault : ε} (starts : initial start) {check : σ → Bool}
    (h : (script.foldlM (fun s a => if allowed s a then perform s a else .error fault)
      start).toOption.any check = true) :
    ∃ s, ReachableVia (ofFunction initial perform) allowed s ∧ check s = true := by
  obtain ⟨final, ran, passed⟩ := Outcome.any_toOption h
  exact ⟨final, (ReachableVia.initial starts).foldlM_allowed ran, passed⟩

end OfFunction

end Transition
