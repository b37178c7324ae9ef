import Mathlib.Data.Set.Insert
import Mathlib.Logic.Function.Basic

/-!
Barriers that are used again and again: once all members wait, each of them passes before it can
wait again.
-/

namespace Barrier
open Function (update update_of_ne update_self)

variable {τ β : Type*}

@[ext] structure State (τ β : Type*) where
  /-- The barrier that a thread is at. -/
  next : τ → Option β
  waiting : β → Set τ
  /-- The threads that have been let through and have not gone on. -/
  passing : τ → Prop
  /-- How often the members of a barrier have been let through. -/
  rounds : β → Nat
  /-- How often a thread has passed a barrier. -/
  passed : τ → β → Nat
  /-- `reached t b k`: thread `t` has come to barrier `b` for the `k`-th time. -/
  reached : τ → β → Nat → Prop

def State.release [DecidableEq β] (s : State τ β) (members : β → Set τ) (b : β) : State τ β :=
  { s with
    waiting := update s.waiting b ∅
    passing := fun t => t ∈ members b ∨ s.passing t
    rounds := update s.rounds b (s.rounds b + 1) }

def State.pass [DecidableEq τ] [DecidableEq β] (s : State τ β) (t : τ) (b : β) (n : Option β) :
    State τ β :=
  { s with
    next := update s.next t n
    passing := fun u => u ≠ t ∧ s.passing u
    passed := fun u c => if u = t ∧ c = b then s.passed u c + 1 else s.passed u c }

inductive Step [DecidableEq τ] [DecidableEq β] (members : β → Set τ) (s : State τ β) :
    State τ β → Prop where
  /-- A thread that is at no barrier goes on. -/
  | move (t : τ) (n : Option β) (elsewhere : s.next t = none) :
      Step members s { s with next := update s.next t n }
  | reach (reached : τ → β → Nat → Prop) (grown : ∀ t b k, s.reached t b k → reached t b k) :
      Step members s { s with reached }
  | arrive (t : τ) (b : β) (here : s.next t = some b) (blocked : ¬ s.passing t)
      (reached : s.reached t b (s.passed t b + 1)) :
      Step members s { s with waiting := update s.waiting b (insert t (s.waiting b)) }
  | release (b : β) (complete : members b ⊆ s.waiting b) : Step members s (s.release members b)
  | pass (t : τ) (b : β) (n : Option β) (here : s.next t = some b) (passing : s.passing t) :
      Step members s (s.pass t b n)

structure Safe (members : β → Set τ) (s : State τ β) : Prop where
  waiting : ∀ b, ∀ t ∈ s.waiting b,
    s.next t = some b ∧ ¬ s.passing t ∧ s.reached t b (s.passed t b + 1)
  passing : ∀ t, s.passing t → ∃ b, s.next t = some b ∧ t ∈ members b ∧
    s.rounds b = s.passed t b + 1
  level : ∀ b, ∀ t ∈ members b, ¬ (s.passing t ∧ s.next t = some b) → s.rounds b = s.passed t b
  reached : ∀ b, ∀ k < s.rounds b, ∀ t ∈ members b, s.reached t b (k + 1)

section

variable [DecidableEq β] {members : β → Set τ} {s : State τ β}

theorem Safe.release (safe : Safe members s) {b : β} (complete : members b ⊆ s.waiting b) :
    Safe members (s.release members b) := by
  have waits : ∀ t ∈ members b, s.next t = some b ∧ s.rounds b = s.passed t b := by
    intro t member
    obtain ⟨here, blocked, _⟩ := safe.waiting b t (complete member)
    exact ⟨here, safe.level b t member fun both => blocked both.1⟩
  constructor
  · intro c t waiting
    by_cases same : c = b
    · subst same
      simp [State.release] at waiting
    · simp only [State.release, update_of_ne same] at waiting
      obtain ⟨here, blocked, reached⟩ := safe.waiting c t waiting
      refine ⟨here, ?_, reached⟩
      -- a member of the barrier is at this barrier
      rintro (member | passing)
      · have := (waits t member).1
        rw [here] at this
        exact same (Option.some.inj this)
      · exact blocked passing
  · intro t passing
    by_cases member : t ∈ members b
    · exact ⟨b, (waits t member).1, member, by simp [State.release, (waits t member).2]⟩
    · obtain ⟨c, here, inside, round⟩ := safe.passing t (passing.resolve_left member)
      have different : c ≠ b := by
        rintro rfl
        exact member inside
      exact ⟨c, here, inside, by simpa [State.release, different] using round⟩
  · intro c t member level
    by_cases same : c = b
    · subst same
      exact absurd ⟨Or.inl member, (waits t member).1⟩ level
    · simp only [State.release, update_of_ne same]
      exact safe.level c t member fun both => level ⟨Or.inr both.1, both.2⟩
  · intro c k before t member
    by_cases same : c = b
    · subst same
      simp only [State.release, update_self] at before
      rcases Nat.lt_succ_iff_lt_or_eq.mp before with earlier | rfl
      · exact safe.reached c k earlier t member
      · rw [(waits t member).2]
        exact (safe.waiting c t (complete member)).2.2
    · simp only [State.release, update_of_ne same] at before
      exact safe.reached c k before t member

variable [DecidableEq τ]

theorem Safe.pass (safe : Safe members s) {t : τ} {b : β} (here : s.next t = some b)
    (passing : s.passing t) (n : Option β) : Safe members (s.pass t b n) := by
  have round : s.rounds b = s.passed t b + 1 := by
    obtain ⟨c, at_c, _, round⟩ := safe.passing t passing
    rw [here] at at_c
    cases at_c
    exact round
  have other : ∀ u c, u ≠ t → (s.pass t b n).passed u c = s.passed u c := by
    intro u c different
    simp [State.pass, different]
  constructor
  · intro c u waiting
    obtain ⟨at_c, blocked, reached⟩ := safe.waiting c u waiting
    have different : u ≠ t := by
      rintro rfl
      exact blocked passing
    rw [other u c different]
    exact ⟨by simpa [State.pass, different] using at_c, fun both => blocked both.2, reached⟩
  · rintro u ⟨different, still⟩
    obtain ⟨c, at_c, member, round⟩ := safe.passing u still
    rw [← other u c different] at round
    exact ⟨c, by simpa [State.pass, different] using at_c, member, round⟩
  · intro c u member level
    by_cases same : u = t
    · subst same
      by_cases this : c = b
      · subst this
        simpa [State.pass] using round
      · have before := safe.level c u member fun both =>
          this (Option.some.inj (both.2.symm.trans here))
        simpa [State.pass, this] using before
    · rw [other u c same]
      refine safe.level c u member fun both => level ⟨⟨same, both.1⟩, ?_⟩
      simpa [State.pass, same] using both.2
  · exact safe.reached

theorem Step.safe {next : State τ β} (h : Step members s next) (safe : Safe members s) :
    Safe members next := by
  cases h with
  | move t n elsewhere =>
    have different : ∀ u b, s.next u = some b → u ≠ t := by
      rintro u b here rfl
      rw [elsewhere] at here
      cases here
    constructor
    · intro b u waiting
      obtain ⟨here, rest⟩ := safe.waiting b u waiting
      exact ⟨by simpa [different u b here] using here, rest⟩
    · intro u passing
      obtain ⟨b, here, rest⟩ := safe.passing u passing
      exact ⟨b, by simpa [different u b here] using here, rest⟩
    · intro b u member level
      refine safe.level b u member fun both => level ⟨both.1, ?_⟩
      simpa [different u b both.2] using both.2
    · exact safe.reached
  | reach reached grown =>
    refine ⟨fun b t waiting => ?_, safe.passing, safe.level, fun b k before t member => ?_⟩
    · obtain ⟨here, blocked, earlier⟩ := safe.waiting b t waiting
      exact ⟨here, blocked, grown _ _ _ earlier⟩
    · exact grown _ _ _ (safe.reached b k before t member)
  | arrive t b here blocked reached =>
    refine ⟨fun c u waiting => ?_, safe.passing, safe.level, safe.reached⟩
    by_cases same : c = b
    · subst same
      simp only [update_self, Set.mem_insert_iff] at waiting
      rcases waiting with rfl | waiting
      · exact ⟨here, blocked, reached⟩
      · exact safe.waiting c u waiting
    · simp only [update_of_ne same] at waiting
      exact safe.waiting c u waiting
  | release b complete => exact safe.release complete
  | pass t b n here passing => exact safe.pass here passing n

end

theorem safe_of_untouched {members : β → Set τ} {s : State τ β} (waiting : ∀ b, s.waiting b = ∅)
    (passing : ∀ t, ¬ s.passing t) (rounds : ∀ b, s.rounds b = 0)
    (passed : ∀ t b, s.passed t b = 0) : Safe members s where
  waiting b t member := by simp [waiting] at member
  passing t passes := absurd passes (passing t)
  level b t _ _ := by rw [rounds, passed]
  reached b k before := by simp [rounds] at before

end Barrier
