import SynchroTrace.Sim.EventBins

namespace SynchroTrace.Sim.EventQueue
open Bins Transition List

variable {ε : Type} [DecidableEq ε] {q q' : EventQueue ε} {e : ε} {bins : List (ε × List ε)}

def Newer (inserted : List ε) (e f : ε) : Prop := inserted.idxOf e < inserted.idxOf f

/-- The queue consists of some bins, with the scheduled events. The flag of one event may not tell
whether it is in the queue. -/
structure Kept (moving : Option ε) (q : EventQueue ε) (bins : List (ε × List ε)) : Prop where
  linked : Linked q.nextBin q.nextInBin q.head bins
  ordered : Ordered q.key bins
  nodup : (flat bins).Nodup
  scheduled : ∀ e, moving ≠ some e → (e ∈ flat bins ↔ (q.event e).scheduled = true)
  future : ∀ e ∈ flat bins, q.curTick ≤ (q.event e).when
  recent : Stacked (Newer q.inserted) bins
  known : ∀ e ∈ flat bins, e ∈ q.inserted
  times : q.serviced.Pairwise fun x y => y.2 ≤ x.2
  past : ∀ x ∈ q.serviced, x.2 ≤ q.curTick

theorem Kept.moving (kept : Kept none q bins) (e : ε) : Kept (some e) q bins :=
  { kept with scheduled := fun f _ => kept.scheduled f nofun }

theorem Kept.settle (kept : Kept (some e) q bins)
    (here : e ∈ flat bins ↔ (q.event e).scheduled = true) : Kept none q bins := by
  refine { kept with scheduled := fun f _ => ?_ }
  by_cases same : f = e
  · rw [same]
    exact here
  · exact kept.scheduled f fun moves => same (Option.some.inj moves).symm

variable {event : Event ε}

theorem set_other {f : ε} (ne : f ≠ e) :
    (q.set e event).event f = q.event f := Function.update_of_ne ne ..

theorem set_self : (q.set e event).event e = event := Function.update_self ..

theorem set_layout (bin : event.nextBin = q.nextBin e) (inBin : event.nextInBin = q.nextInBin e) :
    (q.set e event).nextBin = q.nextBin ∧ (q.set e event).nextInBin = q.nextInBin := by
  constructor <;> funext f <;> by_cases here : f = e
  · rw [here, nextBin, set_self]
    exact bin
  · rw [nextBin, nextBin, set_other here]
  · rw [here, nextInBin, set_self]
    exact inBin
  · rw [nextInBin, nextInBin, set_other here]

section
variable (kept : Kept (some e) q bins)
include kept

theorem Kept.set (bin : event.nextBin = q.nextBin e) (inBin : event.nextInBin = q.nextInBin e)
    (same : e ∈ flat bins → event.when = (q.event e).when ∧ event.priority = (q.event e).priority) :
    Kept (some e) (q.set e event) bins := by
  have keys : ∀ f ∈ flat bins, ((q.set e event).event f).when = (q.event f).when ∧
      ((q.set e event).event f).priority = (q.event f).priority := by
    intro f member
    by_cases here : f = e
    · subst here
      rw [set_self]
      exact same member
    · rw [set_other here]
      exact ⟨rfl, rfl⟩
  obtain ⟨nextBin, nextInBin⟩ := set_layout bin inBin
  refine ⟨?_, ?_, kept.nodup, fun f ne => ?_, fun f member => ?_, kept.recent, kept.known,
    kept.times, kept.past⟩
  · rw [nextBin, nextInBin]
    exact kept.linked
  · refine kept.ordered.congr fun f member => ?_
    rw [key, key, (keys f member).1, (keys f member).2]
  · rw [kept.scheduled f ne, set_other fun here => ne (congrArg some here.symm)]
  · rw [(keys f member).1]
    exact kept.future f member

theorem Kept.setFlags (scheduled squashed : Bool) :
    Kept (some e) (q.setFlags e scheduled squashed) bins :=
  kept.set rfl rfl fun _ => ⟨rfl, rfl⟩

theorem Kept.setWhen (absent : e ∉ flat bins) (when : Nat) :
    Kept (some e) (q.setWhen e when) bins :=
  kept.set rfl rfl fun member => absurd member absent

theorem Kept.insert (absent : e ∉ flat bins) (future : q.curTick ≤ (q.event e).when)
    (rounds : Nat) :
    q.insertNoted rounds e = .error .unfinished ∧ rounds < bins.length ∨
    ∃ q', q.insertNoted rounds e = .ok q' ∧ Kept (some e) q' (place q.key e bins) := by
  rw [insertNoted]
  obtain ⟨stuck, few⟩ | ⟨q', inserted, relinked, linked⟩ :=
    insert_place kept.linked kept.nodup absent rounds
  · rw [stuck]
    exact .inl ⟨rfl, few⟩
  rw [inserted]
  refine .inr ⟨_, rfl, linked, ?_, ?_, fun f ne => ?_, fun f member => ?_, ?_, fun f member => ?_,
    ?_, ?_⟩
  · show Ordered q'.key _
    exact relinked.key ▸ kept.ordered.place e
  · exact (flat_place e bins).nodup_iff.mpr (nodup_cons.mpr ⟨absent, kept.nodup⟩)
  · have different : f ≠ e := fun same => ne (congrArg some same.symm)
    show _ ↔ (q'.event f).scheduled = true
    rw [relinked.scheduled, ← kept.scheduled f ne, mem_place]
    exact or_iff_right different
  · show q'.curTick ≤ (q'.event f).when
    rw [relinked.curTick, relinked.when]
    obtain rfl | member := mem_place.mp member
    · exact future
    · exact kept.future f member
  · -- the new event is the newest, and the others keep their order
    show Stacked (Newer (e :: q'.inserted)) _
    rw [relinked.inserted]
    have later : ∀ f ∈ flat bins, (e :: q.inserted).idxOf f = q.inserted.idxOf f + 1 := by
      intro f member
      refine idxOf_cons_ne _ ?_
      rintro rfl
      exact absent member
    refine Stacked.place (kept.recent.mono fun f inF g inG newer => ?_) fun f member => ?_
    · rw [Newer, later f inF, later g inG]
      exact Nat.succ_lt_succ newer
    · rw [Newer, later f member, idxOf_cons_self]
      exact Nat.succ_pos _
  · show f ∈ e :: q'.inserted
    rw [relinked.inserted]
    obtain rfl | member := mem_place.mp member
    · exact mem_cons_self
    · exact mem_cons_of_mem _ (kept.known f member)
  · show q'.serviced.Pairwise _
    rw [relinked.serviced]
    exact kept.times
  · show ∀ x ∈ q'.serviced, x.2 ≤ q'.curTick
    rw [relinked.serviced, relinked.curTick]
    exact kept.past

theorem Kept.remove (member : e ∈ flat bins) (rounds : Nat) :
    q.remove rounds e = .error .unfinished ∧ rounds < (flat bins).length ∨
    ∃ q', q.remove rounds e = .ok q' ∧ Relinked q q' ∧
      Kept (some e) q' (withdraw q.key e bins) ∧ e ∉ flat (withdraw q.key e bins) := by
  obtain stuck | ⟨q', removed, relinked, linked⟩ :=
    remove_withdraw kept.linked kept.ordered kept.nodup member rounds
  · exact .inl stuck
  have left := kept.ordered.flat_withdraw member
  refine .inr ⟨q', removed, relinked, ⟨linked, ?_, ?_, fun f ne => ?_, fun f member => ?_, ?_,
    fun f member => ?_, ?_, ?_⟩, ?_⟩
  · exact relinked.key ▸ kept.ordered.withdraw member
  · rw [left]
    exact kept.nodup.erase e
  · have different : f ≠ e := fun same => ne (congrArg some same.symm)
    rw [left, relinked.scheduled, ← kept.scheduled f ne, mem_erase_of_ne different]
  · rw [relinked.curTick, relinked.when]
    rw [left] at member
    exact kept.future f (mem_of_mem_erase member)
  · rw [relinked.inserted]
    exact kept.recent.withdraw e
  · rw [relinked.inserted]
    rw [left] at member
    exact kept.known f (mem_of_mem_erase member)
  · rw [relinked.serviced]
    exact kept.times
  · rw [relinked.serviced, relinked.curTick]
    exact kept.past
  · rw [left]
    exact kept.nodup.not_mem_erase

end

theorem setFlags_scheduled (scheduled squashed : Bool) :
    ((q.setFlags e scheduled squashed).event e).scheduled = scheduled := by
  rw [EventQueue.setFlags, set_self]

def servicing (q : EventQueue ε) (e : ε) : EventQueue ε :=
  { q with curTick := (q.event e).when, serviced := (e, (q.event e).when) :: q.serviced }.setFlags
    e false false

theorem simulateOne_eq (first : q.head = some e) (future : q.curTick ≤ (q.event e).when)
    (rounds : Nat) : q.simulateOne = (q.servicing e).remove rounds e := by
  have self : (q.servicing e).event e = { q.event e with scheduled := false, squashed := false } :=
    set_self
  have same : ((q.servicing e).event e).eq ((q.servicing e).event e) := ⟨rfl, rfl⟩
  have head : (q.servicing e).head = some e := first
  rw [simulateOne, first, remove, head]
  dsimp only
  rw [if_pos same, removeItem, if_pos rfl, assert, if_pos future, serviceOne]
  simp only [self]
  cases (q.event e).nextInBin <;> rfl

theorem Kept.servicing (kept : Kept none q bins) (member : e ∈ flat bins)
    (first : ∀ f ∈ flat bins, q.key e ≤ q.key f) : Kept (some e) (q.servicing e) bins := by
  have now := kept.future e member
  refine Kept.setFlags (Kept.moving (q := { q with
    curTick := (q.event e).when, serviced := (e, (q.event e).when) :: q.serviced }) ?_ e) false false
  refine ⟨kept.linked, kept.ordered, kept.nodup, kept.scheduled, fun f member => ?_, kept.recent,
    kept.known, ?_, ?_⟩
  · exact (Prod.Lex.le_iff.mp (first f member)).elim Nat.le_of_lt fun same => same.1.le
  · exact .cons (fun x member => Nat.le_trans (kept.past x member) now) kept.times
  · intro x member
    obtain rfl | member := mem_cons.mp member
    · exact Nat.le_refl _
    · exact Nat.le_trans (kept.past x member) now

theorem Kept.first (kept : Kept none q bins) (first : q.head = some e) :
    (q.event e).scheduled = true ∧ ∀ f, (q.event f).scheduled = true → f ≠ e →
      q.key e < q.key f ∨ q.key e = q.key f ∧ Newer q.inserted e f := by
  match bins, kept with
  | [], kept => exact absurd (first.symm.trans kept.linked) nofun
  | (top, below) :: rest, kept =>
    obtain rfl : top = e := Option.some.inj (kept.linked.1.symm.trans first)
    refine ⟨(kept.scheduled top nofun).mp (by simp), fun f scheduled ne => ?_⟩
    have member := (kept.scheduled f nofun).mpr scheduled
    obtain ⟨equal, later, -⟩ := kept.ordered.of_cons
    rw [flat_cons, cons_append, mem_cons, mem_append] at member
    obtain same | inBin | behind := member
    · exact absurd same ne
    · have stack := kept.recent _ mem_cons_self
      exact .inr ⟨(equal f inBin).symm, rel_of_pairwise_cons stack inBin⟩
    · exact .inl (later f behind)

def Respects (q : EventQueue ε) : Call ε → Prop
  | .schedule e when => q.curTick ≤ when ∧ (q.event e).scheduled = false
  | .deschedule e => (q.event e).scheduled = true
  | .reschedule e when always => q.curTick ≤ when ∧ (always = true ∨ (q.event e).scheduled = true)
  | .squash _ => True
  | .serviceOne => q.head ≠ none

inductive Result (q : EventQueue ε) (call : Call ε) (bound rounds : Nat) :
    Except Fault (EventQueue ε) → Prop
  | refused (against : ¬ Respects q call) : Result q call bound rounds (.error .assertion)
  | unfinished (few : rounds < bound) : Result q call bound rounds (.error .unfinished)
  | done {q' : EventQueue ε} {bins : List (ε × List ε)} (kept : Kept none q' bins) :
      Result q call bound rounds (.ok q')

theorem bind_assert {p : Prop} [Decidable p] {α : Type} (holds : p) (rest : Except Fault α) :
    (assert p >>= fun _ => rest) = rest := by
  rw [assert, if_pos holds]
  rfl

theorem bind_assert_not {p : Prop} [Decidable p] {α : Type} (fails : ¬ p) (rest : Except Fault α) :
    (assert p >>= fun _ => rest) = .error .assertion := by
  rw [assert, if_neg fails]
  rfl

theorem Kept.enter {call : Call ε} {bound rounds : Nat} {q₀ : EventQueue ε}
    (kept : Kept (some e) q bins) (absent : e ∉ flat bins) {when : Nat} (future : q.curTick ≤ when)
    (squashed : EventQueue ε → Bool) (enough : bins.length ≤ bound) :
    Result q₀ call bound rounds (do
      let q ← (q.setWhen e when).insertNoted rounds e
      return q.setFlags e true (squashed q)) := by
  have now : (q.setWhen e when).curTick ≤ ((q.setWhen e when).event e).when := by
    rw [EventQueue.setWhen, set_self]
    exact future
  obtain ⟨stuck, few⟩ | ⟨q', inserted, kept⟩ := (kept.setWhen absent when).insert absent now rounds
  · rw [stuck]
    exact .unfinished (Nat.lt_of_lt_of_le few enough)
  · rw [inserted]
    refine .done ((kept.setFlags true (squashed q')).settle ?_)
    rw [setFlags_scheduled, mem_place]
    exact iff_of_true (.inl rfl) rfl

section
variable (kept : Kept none q bins)
include kept

theorem Kept.schedule (when rounds : Nat) :
    Result q (.schedule e when) (flat bins).length rounds (q.schedule rounds e when) := by
  rw [EventQueue.schedule]
  by_cases future : q.curTick ≤ when
  swap
  · rw [bind_assert_not future]
    exact .refused fun respects => future respects.1
  by_cases scheduled : (q.event e).scheduled = true
  · rw [bind_assert future, bind_assert_not (not_not.mpr scheduled)]
    exact .refused fun respects => nomatch scheduled.symm.trans respects.2
  rw [bind_assert future, bind_assert scheduled]
  have absent : e ∉ flat bins := fun member => scheduled ((kept.scheduled e nofun).mp member)
  exact (kept.moving e).enter absent future _ (length_le_flat bins)

theorem Kept.deschedule (rounds : Nat) :
    Result q (.deschedule e) (flat bins).length rounds (q.deschedule rounds e) := by
  rw [EventQueue.deschedule]
  by_cases scheduled : (q.event e).scheduled = true
  swap
  · rw [bind_assert_not scheduled]
    exact .refused scheduled
  rw [bind_assert scheduled]
  have member := (kept.scheduled e nofun).mpr scheduled
  obtain ⟨stuck, few⟩ | ⟨q', removed, -, kept, absent⟩ := (kept.moving e).remove member rounds
  · rw [stuck]
    exact .unfinished few
  · rw [removed]
    refine .done ((kept.setFlags false false).settle ?_)
    rw [setFlags_scheduled]
    exact iff_of_false absent nofun

theorem Kept.reschedule (when rounds : Nat) (always : Bool) :
    Result q (.reschedule e when always) (flat bins).length rounds
      (q.reschedule rounds e when always) := by
  rw [EventQueue.reschedule]
  by_cases future : q.curTick ≤ when
  swap
  · rw [bind_assert_not future]
    exact .refused fun respects => future respects.1
  by_cases meant : always = true ∨ (q.event e).scheduled = true
  swap
  · rw [bind_assert future, bind_assert_not meant]
    exact .refused fun respects => meant respects.2
  rw [bind_assert future, bind_assert meant]
  by_cases scheduled : (q.event e).scheduled = true
  · have member := (kept.scheduled e nofun).mpr scheduled
    have left := kept.ordered.flat_withdraw member
    rw [if_pos scheduled]
    obtain ⟨stuck, few⟩ | ⟨q', removed, relinked, moved, absent⟩ :=
      (kept.moving e).remove member rounds
    · rw [stuck]
      exact .unfinished few
    · rw [removed]
      refine moved.enter absent (relinked.curTick ▸ future) (fun _ => false) ?_
      refine (length_le_flat _).trans ?_
      rw [left]
      exact length_erase_le
  · rw [if_neg scheduled]
    have absent : e ∉ flat bins := fun member => scheduled ((kept.scheduled e nofun).mp member)
    exact (kept.moving e).enter absent future (fun _ => false) (length_le_flat bins)

theorem Kept.simulateOne (rounds : Nat) :
    Result q .serviceOne (flat bins).length rounds q.simulateOne := by
  match first : q.head with
  | none =>
    rw [EventQueue.simulateOne, first]
    exact .refused fun respects => respects first
  | some e =>
    have least := (kept.first first).2
    have member := (kept.scheduled e nofun).mpr (kept.first first).1
    rw [simulateOne_eq first (kept.future e member) (flat bins).length]
    have least : ∀ f ∈ flat bins, q.key e ≤ q.key f := by
      intro f member
      by_cases here : f = e
      · rw [here]
      · obtain before | ⟨same, -⟩ := least f ((kept.scheduled f nofun).mp member) here
        · exact le_of_lt before
        · exact le_of_eq same
    obtain ⟨-, few⟩ | ⟨q', removed, relinked, kept, absent⟩ :=
      (kept.servicing member least).remove member (flat bins).length
    · exact absurd few (Nat.lt_irrefl _)
    · rw [removed]
      refine .done (kept.settle (iff_of_false absent ?_))
      rw [relinked.scheduled, EventQueue.servicing, setFlags_scheduled]
      exact nofun

theorem Kept.perform (call : Call ε) (rounds : Nat) :
    Result q call (flat bins).length rounds (q.perform rounds call) := by
  cases call with
  | schedule e when => exact kept.schedule when rounds
  | deschedule e => exact kept.deschedule rounds
  | reschedule e when always => exact kept.reschedule when rounds always
  | squash e =>
    refine .done (((kept.moving e).setFlags _ true).settle ?_)
    rw [setFlags_scheduled]
    exact kept.scheduled e nofun
  | serviceOne => exact kept.simulateOne rounds

end

theorem Initial.kept (initial : Initial q) : Kept none q [] where
  linked := initial.head
  ordered := .nil
  nodup := .nil
  scheduled e _ := by simp [initial.unscheduled e]
  future := nofun
  recent := nofun
  known := nofun
  times := by simp [initial.serviced]
  past := by simp [initial.serviced]

theorem reachable_kept (reach : Reachable (eventQueue ε) q) : ∃ bins, Kept none q bins := by
  refine reach.invariant (fun q => ∃ bins, Kept none q bins)
    (fun q start => ⟨[], Initial.kept start⟩) ?_
  intro q call next _ _ ⟨bins, kept⟩ ⟨rounds, done⟩
  have result := kept.perform call rounds
  rw [done] at result
  cases result with
  | done kept => exact ⟨_, kept⟩

theorem Kept.service_takes (kept : Kept none q bins) (done : q.simulateOne = .ok q') :
    ∃ e, q'.serviced = (e, (q.event e).when) :: q.serviced ∧ (q.event e).scheduled = true ∧
      ∀ f, (q.event f).scheduled = true → f ≠ e →
        (q.event e).lt (q.event f) ∨ (q.event e).eq (q.event f) ∧ Newer q.inserted e f := by
  match first : q.head with
  | none =>
    rw [EventQueue.simulateOne, first] at done
    cases done
  | some e =>
    obtain ⟨scheduled, least⟩ := kept.first first
    have member := (kept.scheduled e nofun).mpr scheduled
    have note : q'.serviced = (e, (q.event e).when) :: q.serviced := by
      rw [EventQueue.simulateOne, first] at done
      simp only [bind_assert (kept.future e member)] at done
      rw [serviceOne] at done
      simp only at done
      split at done <;> cases done <;> rfl
    refine ⟨e, note, scheduled, fun f other ne => ?_⟩
    rw [lt_iff, eq_iff]
    exact least f other ne

theorem reachable_of_rounds {rounds : Nat}
    (reach : Reachable (ofFunction Initial fun q : EventQueue ε => q.perform rounds) q) :
    Reachable (eventQueue ε) q := by
  induction reach with
  | initial start => exact .initial start
  | step _ _ taken ih => exact .step ih trivial ⟨rounds, taken⟩

def idle : EventQueue (Fin 3) where
  event e := ⟨none, none, 0, if e.val = 2 then -1 else 0, false, false⟩
  head := none
  curTick := 0
  inserted := []
  serviced := []

def tied (e f g : Fin 3) : List (Call (Fin 3)) :=
  [.schedule e 5, .schedule f 5, .schedule g 6, .reschedule g 5 false, .serviceOne, .serviceOne,
    .serviceOne]

theorem idle_initial : Initial idle := ⟨rfl, fun _ => rfl, rfl⟩

end SynchroTrace.Sim.EventQueue
