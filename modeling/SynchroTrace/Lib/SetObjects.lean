import Mathlib.Data.Finset.Erase
import Mathlib.Data.Finset.SDiff
import Mathlib.Logic.Function.Basic
import SynchroTrace.Lib.Transition

/-!
Objects that hold finite sets. If every operation does to its object what it should do to the set,
so does every run.
-/

namespace SetObjects
open Transition

variable {ε σ ι κ : Type} [DecidableEq ι]

/-- What can be done to an object with elements of type `κ`. -/
structure Operations (ε σ κ : Type) where
  add : σ → κ → Except ε σ
  remove : σ → κ → Except ε σ
  addSet : σ → σ → Except ε σ
  removeSet : σ → σ → Except ε σ
  clear : σ → σ
  broadcast : σ → Except ε σ
  copy : σ → σ
  /-- Assignment also sees whether the two objects are one. -/
  assign : Bool → σ → σ → σ

inductive Call (ι κ : Type) where
  | add (x : ι) (element : κ)
  | remove (x : ι) (element : κ)
  | addSet (x y : ι)
  | removeSet (x y : ι)
  | clear (x : ι)
  | broadcast (x : ι)
  | copy (x y : ι)
  | assign (x y : ι)
deriving DecidableEq

/-- The objects of a run, and beside each the set that it should be. -/
structure Run (ι σ κ : Type) where
  objects : ι → σ
  sets : ι → Finset κ

def Run.update (s : Run ι σ κ) (x : ι) (object : σ) (set : Finset κ) : Run ι σ κ :=
  ⟨Function.update s.objects x object, Function.update s.sets x set⟩

theorem Run.update_holds {s : Run ι σ κ} {holds : σ → Finset κ → Prop}
    (before : ∀ x, holds (s.objects x) (s.sets x)) {x : ι} {object : σ} {set : Finset κ}
    (here : holds object set) (y : ι) :
    holds ((s.update x object set).objects y) ((s.update x object set).sets y) := by
  by_cases same : y = x
  · subst same
    simpa [Run.update] using here
  · simpa [Run.update, same] using before y

variable [DecidableEq κ]

def perform (ops : Operations ε σ κ) (domain : Finset κ) (s : Run ι σ κ) :
    Call ι κ → Except ε (Run ι σ κ)
  | .add x e => do return s.update x (← ops.add (s.objects x) e) (insert e (s.sets x))
  | .remove x e => do return s.update x (← ops.remove (s.objects x) e) ((s.sets x).erase e)
  | .addSet x y => do
    return s.update x (← ops.addSet (s.objects x) (s.objects y)) (s.sets x ∪ s.sets y)
  | .removeSet x y => do
    return s.update x (← ops.removeSet (s.objects x) (s.objects y)) (s.sets x \ s.sets y)
  | .clear x => .ok (s.update x (ops.clear (s.objects x)) ∅)
  | .broadcast x => do return s.update x (← ops.broadcast (s.objects x)) domain
  | .copy x y => .ok (s.update x (ops.copy (s.objects y)) (s.sets y))
  | .assign x y =>
    .ok (s.update x (ops.assign (decide (x = y)) (s.objects x) (s.objects y)) (s.sets y))

def runs (ops : Operations ε σ κ) (domain : Finset κ) (empty : σ) (ι : Type) [DecidableEq ι] :
    System (Run ι σ κ) (Call ι κ) :=
  ofFunction (fun s => s = ⟨fun _ => empty, fun _ => ∅⟩) (perform ops domain)

def Within (domain : Finset κ) (_ : Run ι σ κ) : Call ι κ → Prop
  | .add _ e | .remove _ e => e ∈ domain
  | _ => True

/-- Every operation does to the object what it should do to the set. -/
structure Implements (ops : Operations ε σ κ) (domain : Finset κ) (empty : σ)
    (holds : σ → Finset κ → Prop) : Prop where
  empty : holds empty ∅
  add : ∀ {s S e}, holds s S → e ∈ domain → ∃ s', ops.add s e = .ok s' ∧ holds s' (insert e S)
  remove : ∀ {s S e}, holds s S → e ∈ domain → ∃ s', ops.remove s e = .ok s' ∧ holds s' (S.erase e)
  addSet : ∀ {s t S T}, holds s S → holds t T → ∃ s', ops.addSet s t = .ok s' ∧ holds s' (S ∪ T)
  removeSet : ∀ {s t S T}, holds s S → holds t T →
    ∃ s', ops.removeSet s t = .ok s' ∧ holds s' (S \ T)
  clear : ∀ {s S}, holds s S → holds (ops.clear s) ∅
  broadcast : ∀ {s S}, holds s S → ∃ s', ops.broadcast s = .ok s' ∧ holds s' domain
  copy : ∀ {s S}, holds s S → holds (ops.copy s) S
  assign : ∀ {same s t S T}, holds s S → holds t T → (same = true → s = t) →
    holds (ops.assign same s t) T

section Implements
variable {ops : Operations ε σ κ} {domain : Finset κ} {empty : σ} {holds : σ → Finset κ → Prop}
  {s : Run ι σ κ}

theorem Implements.step (implements : Implements ops domain empty holds)
    (before : ∀ x, holds (s.objects x) (s.sets x)) {call : Call ι κ}
    (within : Within domain s call) :
    ∃ next, perform ops domain s call = .ok next ∧ ∀ x, holds (next.objects x) (next.sets x) := by
  cases call with
  | add x e =>
    obtain ⟨object, done, here⟩ := implements.add (before x) within
    exact ⟨_, by rw [perform, done]; rfl, Run.update_holds before here⟩
  | remove x e =>
    obtain ⟨object, done, here⟩ := implements.remove (before x) within
    exact ⟨_, by rw [perform, done]; rfl, Run.update_holds before here⟩
  | addSet x y =>
    obtain ⟨object, done, here⟩ := implements.addSet (before x) (before y)
    exact ⟨_, by rw [perform, done]; rfl, Run.update_holds before here⟩
  | removeSet x y =>
    obtain ⟨object, done, here⟩ := implements.removeSet (before x) (before y)
    exact ⟨_, by rw [perform, done]; rfl, Run.update_holds before here⟩
  | clear x => exact ⟨_, rfl, Run.update_holds before (implements.clear (before x))⟩
  | broadcast x =>
    obtain ⟨object, done, here⟩ := implements.broadcast (before x)
    exact ⟨_, by rw [perform, done]; rfl, Run.update_holds before here⟩
  | copy x y => exact ⟨_, rfl, Run.update_holds before (implements.copy (before y))⟩
  | assign x y =>
    refine ⟨_, rfl, Run.update_holds before (implements.assign (before x) (before y) ?_)⟩
    intro same
    rw [of_decide_eq_true same]

theorem Implements.reachable (implements : Implements ops domain empty holds)
    (reach : ReachableVia (runs ops domain empty ι) (Within domain) s) (x : ι) :
    holds (s.objects x) (s.sets x) := by
  revert x
  refine reach.invariant (fun s => ∀ x, holds (s.objects x) (s.sets x)) ?_ ?_
  · rintro s rfl x
    exact implements.empty
  · intro s call next _ within before taken
    obtain ⟨next', done, after⟩ := implements.step before within
    cases done.symm.trans taken
    exact after

end Implements

end SetObjects
