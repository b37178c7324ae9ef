import SynchroTrace.Sim.EventOrder

namespace SynchroTrace.Sim.EventQueue
open Bins Transition List

variable {ε : Type} [DecidableEq ε] {q : EventQueue ε} {e : ε} {bins : List (ε × List ε)}
  {w : Walk ε} {l : List ε}

def Walk.key (w : Walk ε) : Nat ×ₗ Int := toLex (w.time, w.priority)

omit [DecidableEq ε] in
theorem not_lt_key : ¬ q.key e < w.key ↔ ¬ (q.event e).when < w.time ∧
      ¬ ((q.event e).when = w.time ∧ (q.event e).priority < w.priority) := by
  rw [key, Walk.key, Prod.Lex.toLex_lt_toLex, not_or]

omit [DecidableEq ε] in
theorem key_lt_iff : q.key e < Walk.key (⟨0, 0, []⟩ : Walk ε) ↔
    (q.event e).when = 0 ∧ (q.event e).priority < 0 := by
  rw [key, Walk.key, Prod.Lex.toLex_lt_toLex]
  simp

theorem verifyBin_refuses (before : q.key e < w.key) (n : Nat) :
    q.verifyBin (n + 1) (some e) w = .ok none := by
  have fails : (q.event e).when < w.time ∨
      (q.event e).when = w.time ∧ (q.event e).priority < w.priority :=
    Prod.Lex.toLex_lt_toLex.mp before
  obtain earlier | inverted := fails
  · rw [verifyBin, if_pos earlier]
  · rw [verifyBin, if_neg (by omega), if_pos inverted]

variable {n rounds : Nat}

theorem verifyBin_passes {p : Option ε} (path : Path q.nextInBin p l) (nodup : l.Nodup)
    (unseen : ∀ f ∈ l, f ∉ w.seen) (later : ∀ f ∈ l, w.key ≤ q.key f)
    (equal : ∀ f ∈ l, ∀ g ∈ l, q.key f = q.key g) (enough : l.length ≤ n) :
    ∃ after : Walk ε, q.verifyBin n p w = .ok (some after) ∧
      (∀ f, f ∈ after.seen ↔ f ∈ l ∨ f ∈ w.seen) ∧
      (after.key = w.key ∨ ∃ f ∈ l, after.key = q.key f) := by
  induction l generalizing p n w with
  | nil =>
    obtain rfl : p = none := path
    refine ⟨w, ?_, by simp, .inl rfl⟩
    cases n <;> rfl
  | cons top rest ih =>
    obtain ⟨rfl, path⟩ := path
    obtain ⟨notBelow, nodup⟩ := nodup_cons.mp nodup
    obtain ⟨n, rfl⟩ := Nat.exists_eq_add_of_le' (Nat.le_trans (Nat.le_add_left 1 _) enough)
    obtain ⟨notEarlier, notInverted⟩ := not_lt_key.mp (not_lt.mpr (later top mem_cons_self))
    have same : Walk.key ⟨(q.event top).when, (q.event top).priority, top :: w.seen⟩ = q.key top :=
      rfl
    obtain ⟨after, done, seen, last⟩ :=
      ih (w := ⟨(q.event top).when, (q.event top).priority, top :: w.seen⟩) path nodup
        (fun f member => by
          rw [mem_cons, not_or]
          exact ⟨fun here => notBelow (here ▸ member), unseen f (mem_cons_of_mem _ member)⟩)
        (fun f member => (equal top mem_cons_self f (mem_cons_of_mem _ member)).le)
        (fun f inF g inG => equal f (mem_cons_of_mem _ inF) g (mem_cons_of_mem _ inG))
        (Nat.le_of_succ_le_succ enough)
    refine ⟨after, ?_, fun f => ?_, .inr ?_⟩
    · rw [verifyBin, if_neg notEarlier, if_neg notInverted, if_neg (unseen top mem_cons_self)]
      exact done
    · rw [seen f, mem_cons, mem_cons]
      exact or_left_comm.trans or_assoc.symm
    · obtain last | ⟨f, member, last⟩ := last
      · exact ⟨top, mem_cons_self, last.trans same⟩
      · exact ⟨f, mem_cons_of_mem _ member, last⟩

theorem verifyBins_passes {p : Option ε} (linked : Linked q.nextBin q.nextInBin p bins)
    (ordered : Ordered q.key bins) (nodup : (flat bins).Nodup)
    (unseen : ∀ f ∈ flat bins, f ∉ w.seen) (later : ∀ f ∈ flat bins, w.key ≤ q.key f)
    (enough : bins.length ≤ n) (enoughInBin : (flat bins).length ≤ rounds) :
    q.verifyBins rounds n p w = .ok true := by
  induction ordered generalizing p n w with
  | nil =>
    obtain rfl : p = none := linked
    cases n <;> rfl
  | @cons top below rest equal laterBins ordered ih =>
    obtain ⟨rfl, path, linked⟩ := linked
    obtain ⟨nodupBin, nodupRest, apart⟩ := nodup_append.mp nodup
    rw [flat_cons, length_append] at enoughInBin
    obtain ⟨n, rfl⟩ := Nat.exists_eq_add_of_le' (Nat.le_trans (Nat.le_add_left 1 _) enough)
    have inBin : ∀ f ∈ top :: below, f ∈ flat ((top, below) :: rest) :=
      fun f member => mem_append_left _ member
    have inRest : ∀ f ∈ flat rest, f ∈ flat ((top, below) :: rest) :=
      fun f member => mem_append_right _ member
    have keys : ∀ f ∈ top :: below, q.key f = q.key top := by
      intro f member
      obtain rfl | member := mem_cons.mp member
      · rfl
      · exact equal f member
    obtain ⟨after, passed, seen, last⟩ := verifyBin_passes (n := rounds) (p := some top) (l := top :: below)
      ⟨rfl, path⟩ nodupBin (fun f member => unseen f (inBin f member))
      (fun f member => later f (inBin f member))
      (fun f inF g inG => (keys f inF).trans (keys g inG).symm)
      (Nat.le_trans (Nat.le_add_right _ _) enoughInBin)
    rw [verifyBins, passed]
    refine ih linked nodupRest (fun f member => ?_) (fun f member => ?_)
      (Nat.le_of_succ_le_succ enough) (Nat.le_trans (Nat.le_add_left _ _) enoughInBin)
    · rw [seen f, not_or]
      exact ⟨fun here => apart f here f member rfl, unseen f (inRest f member)⟩
    · obtain last | ⟨g, member', last⟩ := last
      · exact last.le.trans (later f (inRest f member))
      · rw [last, keys g member']
        exact (laterBins f member).le

theorem Kept.debugVerify_true (kept : Kept none q bins) (enough : (flat bins).length ≤ rounds)
    (late : ∀ e ∈ flat bins, ¬ ((q.event e).when = 0 ∧ (q.event e).priority < 0)) :
    q.debugVerify rounds = .ok true := by
  refine verifyBins_passes kept.linked kept.ordered kept.nodup (fun _ _ => not_mem_nil)
    (fun e member => ?_) (Nat.le_trans (length_le_flat bins) enough) enough
  exact not_lt.mp fun before => late e member (key_lt_iff.mp before)

theorem Kept.debugVerify_false (kept : Kept none q bins) (enough : (flat bins).length ≤ rounds)
    (member : e ∈ flat bins) (early : (q.event e).when = 0 ∧ (q.event e).priority < 0) :
    q.debugVerify rounds = .ok false := by
  match bins, kept, member, enough with
  | (top, below) :: rest, kept, member, enough =>
    -- the least key of all is that of the first event
    have least : q.key top ≤ q.key e := by
      obtain ⟨equal, later, -⟩ := kept.ordered.of_cons
      rw [flat_cons, cons_append, mem_cons, mem_append] at member
      obtain rfl | inBin | behind := member
      · exact le_rfl
      · exact (equal e inBin).ge
      · exact (later e behind).le
    obtain ⟨n, rfl⟩ : ∃ n, rounds = n + 1 :=
      Nat.exists_eq_add_of_le' (Nat.le_trans (by simp) enough)
    have first : q.head = some top := kept.linked.1
    rw [debugVerify, first, verifyBins,
      verifyBin_refuses (lt_of_le_of_lt least (key_lt_iff.mpr early))]
    rfl

/-- In every run, `debugVerify` accepts the queue if and only if no scheduled event has tick 0 and a
negative priority. -/
theorem debugVerify_accepts_iff (reach : Reachable (eventQueue ε) q) :
    ∃ answer bound, (∀ rounds, bound ≤ rounds → q.debugVerify rounds = .ok answer) ∧
      (answer = true ↔ ∀ e, (q.event e).scheduled = true →
        ¬ ((q.event e).when = 0 ∧ (q.event e).priority < 0)) := by
  obtain ⟨bins, kept⟩ := reachable_kept reach
  by_cases late : ∀ e, (q.event e).scheduled = true →
      ¬ ((q.event e).when = 0 ∧ (q.event e).priority < 0)
  · refine ⟨true, (flat bins).length, fun rounds enough => ?_, iff_of_true rfl late⟩
    exact kept.debugVerify_true enough fun e member => late e ((kept.scheduled e nofun).mp member)
  · refine ⟨false, (flat bins).length, fun rounds enough => ?_, iff_of_false nofun late⟩
    push Not at late
    obtain ⟨e, scheduled, early⟩ := late
    exact kept.debugVerify_false enough ((kept.scheduled e nofun).mpr scheduled) early

/-- The events of `idle` have priorities 0, 0 and -1. -/
theorem debugVerify_accepts_iff_idle :
    ∃ q, Reachable (eventQueue (Fin 3)) q ∧ (∃ e, (q.event e).when = 0 ∧ (q.event e).priority = 0 ∧
      (q.event e).scheduled = true) ∧ ∃ bound, ∀ rounds, bound ≤ rounds →
      q.debugVerify rounds = .ok true := by
  have ran : ([.schedule 0 0, .schedule 1 0, .schedule 2 3].foldlM
      (fun q : EventQueue (Fin 3) => q.perform 3) idle).toOption.any (fun q =>
        ((q.event 0).when = 0 ∧ (q.event 0).priority = 0 ∧ (q.event 0).scheduled = true) ∧
        ∀ e, (q.event e).scheduled = true →
          ¬ ((q.event e).when = 0 ∧ (q.event e).priority < 0)) = true := by decide +kernel
  obtain ⟨q, reach, checked⟩ := foldlM_check Initial (fun _ _ _ => trivial) idle_initial ran
  obtain ⟨first, late⟩ := of_decide_eq_true checked
  have reach := reachable_of_rounds reach
  obtain ⟨answer, bound, done, accepts⟩ := debugVerify_accepts_iff reach
  rw [accepts.mpr late] at done
  exact ⟨q, reach, ⟨0, first⟩, bound, done⟩

/-- An event with priority -1 at tick 0 is taken for an inversion. -/
theorem negative_priority_refused : ∃ q : EventQueue (Fin 3), Reachable (eventQueue (Fin 3)) q ∧
      (∀ e, -128 ≤ (q.event e).priority ∧ (q.event e).priority ≤ 127) ∧
      ∃ bound, ∀ rounds, bound ≤ rounds → q.debugVerify rounds = .ok false := by
  have ran : ([.schedule 2 0].foldlM (fun q : EventQueue (Fin 3) => q.perform 3)
      idle).toOption.any (fun q => (∀ e, -128 ≤ (q.event e).priority ∧ (q.event e).priority ≤ 127) ∧
        (q.event 2).scheduled = true ∧ (q.event 2).when = 0 ∧ (q.event 2).priority < 0) = true := by
    decide +kernel
  obtain ⟨q, reach, checked⟩ := foldlM_check Initial (fun _ _ _ => trivial) idle_initial ran
  obtain ⟨range, scheduled, early⟩ := of_decide_eq_true checked
  have reach := reachable_of_rounds reach
  obtain ⟨bins, kept⟩ := reachable_kept reach
  refine ⟨q, reach, range, (flat bins).length, fun rounds enough => ?_⟩
  exact kept.debugVerify_false enough ((kept.scheduled 2 nofun).mpr scheduled) early

end SynchroTrace.Sim.EventQueue
