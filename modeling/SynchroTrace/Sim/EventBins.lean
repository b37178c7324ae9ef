import Mathlib.Data.Prod.Lex
import SynchroTrace.Lib.Bins
import SynchroTrace.Sim.EventQueue

namespace SynchroTrace.Sim.EventQueue
open Function (update update_of_ne update_self)
open Bins List

variable {ε : Type} {q q' : EventQueue ε} {e : ε}

def key (q : EventQueue ε) (e : ε) : Nat ×ₗ Int := toLex ((q.event e).when, (q.event e).priority)

def nextBin (q : EventQueue ε) (e : ε) : Option ε := (q.event e).nextBin

def nextInBin (q : EventQueue ε) (e : ε) : Option ε := (q.event e).nextInBin

theorem lt_iff {f : ε} : (q.event e).lt (q.event f) ↔ q.key e < q.key f :=
  (Prod.Lex.toLex_lt_toLex (x := (_, _)) (y := (_, _))).symm

theorem le_iff {f : ε} : (q.event e).le (q.event f) ↔ q.key e ≤ q.key f :=
  (Prod.Lex.toLex_le_toLex (x := (_, _)) (y := (_, _))).symm

theorem eq_iff {f : ε} : (q.event e).eq (q.event f) ↔ q.key e = q.key f := by
  rw [key, key, toLex_inj, Prod.mk_inj]
  rfl

structure Relinked (q q' : EventQueue ε) : Prop where
  event : ∀ e, ∃ nextBin nextInBin, q'.event e = { q.event e with nextBin, nextInBin }
  curTick : q'.curTick = q.curTick
  inserted : q'.inserted = q.inserted
  serviced : q'.serviced = q.serviced

namespace Relinked

theorem refl (q : EventQueue ε) : Relinked q q := ⟨fun _ => ⟨_, _, rfl⟩, rfl, rfl, rfl⟩

theorem trans {q'' : EventQueue ε} (first : Relinked q q') (second : Relinked q' q'') :
    Relinked q q'' where
  event e := by
    obtain ⟨_, _, eq⟩ := first.event e
    obtain ⟨bin, inBin, eq'⟩ := second.event e
    exact ⟨bin, inBin, by rw [eq', eq]⟩
  curTick := second.curTick.trans first.curTick
  inserted := second.inserted.trans first.inserted
  serviced := second.serviced.trans first.serviced

theorem head (relinked : Relinked q q') (head : Option ε) : Relinked q { q' with head } :=
  ⟨relinked.event, relinked.curTick, relinked.inserted, relinked.serviced⟩

theorem key (relinked : Relinked q q') : q'.key = q.key := by
  funext e
  obtain ⟨_, _, eq⟩ := relinked.event e
  rw [EventQueue.key, EventQueue.key, eq]

theorem scheduled (relinked : Relinked q q') (e : ε) :
    (q'.event e).scheduled = (q.event e).scheduled := by
  obtain ⟨_, _, eq⟩ := relinked.event e
  rw [eq]

theorem when (relinked : Relinked q q') (e : ε) : (q'.event e).when = (q.event e).when := by
  obtain ⟨_, _, eq⟩ := relinked.event e
  rw [eq]

end Relinked

variable [DecidableEq ε]

theorem Relinked.set (q : EventQueue ε) (e : ε) (nextBin nextInBin : Option ε) :
    Relinked q (q.set e { q.event e with nextBin, nextInBin }) where
  event f := by
    by_cases here : f = e
    · subst here
      exact ⟨nextBin, nextInBin, by simp [EventQueue.set]⟩
    · exact ⟨_, _, by simp only [EventQueue.set, update_of_ne here]; rfl⟩
  curTick := rfl
  inserted := rfl
  serviced := rfl

theorem relinked_setNextBin (q : EventQueue ε) (e : ε) (next : Option ε) :
    Relinked q (q.setNextBin e next) :=
  .set q e next (q.event e).nextInBin

theorem relinked_setNextInBin (q : EventQueue ε) (e : ε) (next : Option ε) :
    Relinked q (q.setNextInBin e next) :=
  .set q e (q.event e).nextBin next

theorem set_pointers (q : EventQueue ε) (e : ε) (bin inBin : Option ε) :
    (q.set e { q.event e with nextBin := bin, nextInBin := inBin }).nextBin =
        update q.nextBin e bin ∧
      (q.set e { q.event e with nextBin := bin, nextInBin := inBin }).nextInBin =
        update q.nextInBin e inBin := by
  refine ⟨?_, ?_⟩ <;> funext f <;> by_cases here : f = e
  · simp [nextBin, set, here]
  · simp [nextBin, set, here]
  · simp [nextInBin, set, here]
  · simp [nextInBin, set, here]

theorem setNextBin_nextBin (q : EventQueue ε) (e : ε) (next : Option ε) :
    (q.setNextBin e next).nextBin = update q.nextBin e next :=
  (set_pointers q e next (q.event e).nextInBin).1

theorem setNextBin_nextInBin (q : EventQueue ε) (e : ε) (next : Option ε) :
    (q.setNextBin e next).nextInBin = q.nextInBin :=
  (set_pointers q e next (q.event e).nextInBin).2.trans (Function.update_eq_self ..)

theorem setNextInBin_nextInBin (q : EventQueue ε) (e : ε) (next : Option ε) :
    (q.setNextInBin e next).nextInBin = update q.nextInBin e next :=
  (set_pointers q e (q.event e).nextBin next).2

theorem setNextInBin_nextBin (q : EventQueue ε) (e : ε) (next : Option ε) :
    (q.setNextInBin e next).nextBin = q.nextBin :=
  (set_pointers q e (q.event e).nextBin next).1.trans (Function.update_eq_self ..)

theorem insertBefore_eq (q : EventQueue ε) (e : ε) (curr : Option ε) :
    ∃ bin inBin, q.insertBefore e curr = q.set e { q.event e with
      nextBin := bin, nextInBin := inBin } ∧
      ((curr = none ∧ bin = none ∧ inBin = none) ∨
      ∃ c, curr = some c ∧ (q.key e < q.key c ∧ bin = some c ∧ inBin = none ∨
        ¬ q.key e < q.key c ∧ bin = q.nextBin c ∧ inBin = some c)) := by
  cases curr with
  | none => exact ⟨none, none, rfl, .inl ⟨rfl, rfl, rfl⟩⟩
  | some curr =>
    by_cases before : q.key e < q.key curr
    · exact ⟨_, _, if_pos (lt_iff.mpr before), .inr ⟨curr, rfl, .inl ⟨before, rfl, rfl⟩⟩⟩
    · exact ⟨_, _, if_neg fun h => before (lt_iff.mp h),
        .inr ⟨curr, rfl, .inr ⟨before, rfl, rfl⟩⟩⟩

theorem relinked_insertBefore (q : EventQueue ε) (e : ε) (curr : Option ε) :
    Relinked q (q.insertBefore e curr) := by
  obtain ⟨bin, inBin, eq, -⟩ := q.insertBefore_eq e curr
  rw [eq]
  exact .set q e bin inBin

variable {bins : List (ε × List ε)}

omit [DecidableEq ε] in
/-- An event comes before the bins that are not before it, or on top of the first of them. -/
theorem linked_place {nextBin nextInBin : ε → Option ε} {p bin inBin : Option ε}
    (linked : Linked q.nextBin q.nextInBin p bins) (first : ∀ top ∈ p, ¬ q.key top < q.key e)
    (sameBin : ∀ f ∈ flat bins, nextBin f = q.nextBin f)
    (sameInBin : ∀ f ∈ flat bins, nextInBin f = q.nextInBin f)
    (own : nextBin e = bin ∧ nextInBin e = inBin)
    (pointers : (p = none ∧ bin = none ∧ inBin = none) ∨ ∃ c, p = some c ∧
      (q.key e < q.key c ∧ bin = some c ∧ inBin = none ∨ ¬ q.key e < q.key c ∧ bin = q.nextBin c ∧
      inBin = some c)) :
    Linked nextBin nextInBin (some e) (place q.key e bins) := by
  have linked' : Linked nextBin nextInBin p bins := by
    refine linked.congr (fun bin member => sameBin _ ?_) sameInBin
    exact mem_flatMap.mpr ⟨bin, member, mem_cons_self⟩
  cases bins with
  | nil =>
    obtain ⟨-, rfl, rfl⟩ | ⟨c, same, -⟩ := pointers
    · exact ⟨rfl, own.2, own.1⟩
    · cases linked.symm.trans same
  | cons bin rest =>
    obtain ⟨top, below⟩ := bin
    obtain rfl := linked.1
    rw [place, if_neg (first top rfl)]
    obtain ⟨isNone, -⟩ | ⟨c, same, pointers⟩ := pointers
    · cases isNone
    cases same
    obtain ⟨before, rfl, rfl⟩ | ⟨same, rfl, rfl⟩ := pointers
    · rw [if_pos before]
      refine ⟨rfl, own.2, ?_⟩
      rw [own.1]
      exact linked'
    · obtain ⟨-, stack, rest⟩ := linked'
      rw [if_neg same]
      refine ⟨rfl, ⟨own.2, stack⟩, ?_⟩
      rw [own.1, ← sameBin top (by simp)]
      exact rest

omit [DecidableEq ε] in
theorem seek_split {prev : ε} (linked : Linked q.nextBin q.nextInBin (q.nextBin prev) bins)
    (rounds : Nat) :
    q.seek e rounds prev (q.nextBin prev) = .error .unfinished ∧ rounds < bins.length ∨
    ∃ passed left curr, bins = passed ++ left ∧ Linked q.nextBin q.nextInBin curr left ∧
      (∀ bin ∈ passed, q.key bin.1 < q.key e) ∧ (∀ top ∈ curr, ¬ q.key top < q.key e) ∧
      q.seek e rounds prev (q.nextBin prev) = .ok ((passed.map Prod.fst).getLastD prev, curr) := by
  induction bins generalizing rounds prev with
  | nil =>
    have here : q.nextBin prev = none := linked
    rw [here]
    exact .inr ⟨[], [], none, rfl, rfl, nofun, nofun, by cases rounds <;> rfl⟩
  | cons bin rest ih =>
    obtain ⟨here, stack, behind⟩ := linked
    rw [here]
    cases rounds with
    | zero => exact .inl ⟨rfl, Nat.succ_pos _⟩
    | succ n =>
      by_cases before : q.key bin.1 < q.key e
      · rw [show q.seek e (n + 1) prev (some bin.1) = q.seek e n bin.1 (q.nextBin bin.1) from
          if_pos (lt_iff.mpr before)]
        obtain ⟨stuck, few⟩ | ⟨passed, left, curr, rfl, linked, passes, stops, found⟩ := ih behind n
        · exact .inl ⟨stuck, Nat.succ_lt_succ few⟩
        · exact .inr ⟨bin :: passed, left, curr, rfl, linked,
            forall_mem_cons.mpr ⟨before, passes⟩, stops,
            by rw [found, map_cons, getLastD_cons]⟩
      · refine .inr ⟨[], bin :: rest, some bin.1, rfl, ⟨rfl, stack, behind⟩, nofun, ?_,
          if_neg fun h => before (lt_iff.mp h)⟩
        rintro top ⟨⟩
        exact before

theorem insert_place (linked : Linked q.nextBin q.nextInBin q.head bins) (nodup : (flat bins).Nodup)
    (out : e ∉ flat bins) (rounds : Nat) :
    q.insert rounds e = .error .unfinished ∧ rounds < bins.length ∨
    ∃ q', q.insert rounds e = .ok q' ∧ Relinked q q' ∧
      Linked q'.nextBin q'.nextInBin q'.head (place q.key e bins) := by
  have notE : ∀ f ∈ flat bins, f ≠ e := by
    rintro f member rfl
    exact out member
  by_cases first : ∀ top ∈ q.head, q.key e ≤ q.key top
  · obtain ⟨bin, inBin, eq, pointers⟩ := q.insertBefore_eq e q.head
    obtain ⟨nextBin, nextInBin⟩ := set_pointers q e bin inBin
    refine .inr ⟨{ q.insertBefore e q.head with head := some e }, ?_,
      (relinked_insertBefore q e _).head _, ?_⟩
    · rw [insert]
      split
      · rename_i empty
        rw [empty]
      · rename_i top head
        rw [head, if_pos (le_iff.mpr (first top head))]
    · show Linked (q.insertBefore e q.head).nextBin (q.insertBefore e q.head).nextInBin (some e) _
      rw [eq, nextBin, nextInBin]
      exact linked_place linked (fun top head => not_lt.mpr (first top head))
        (fun f member => update_of_ne (notE f member) ..)
        (fun f member => update_of_ne (notE f member) ..) ⟨update_self .., update_self ..⟩ pointers
  · cases bins with
    | nil =>
      have empty : q.head = none := linked
      exact absurd (by simp [empty]) first
    | cons bin rest =>
      obtain ⟨top, below⟩ := bin
      have head : q.head = some top := linked.1
      have before : q.key top < q.key e := by
        rw [head] at first
        simpa using first
      have unfolded : q.insert rounds e = q.seek e rounds top (q.nextBin top) >>= fun found =>
          .ok ((q.insertBefore e found.2).setNextBin found.1 (some e)) := by
        rw [insert, head]
        exact if_neg fun h => not_le.mpr before (le_iff.mp h)
      rw [unfolded]
      obtain ⟨stuck, few⟩ | ⟨passed, left, curr, rfl, behind, passes, stops, found⟩ :=
        seek_split (e := e) linked.2.2 rounds
      · rw [stuck]
        exact .inl ⟨rfl, Nat.lt_succ_of_lt few⟩
      rw [← cons_append, flat_append] at nodup notE
      obtain ⟨nodupPassed, -, apart⟩ := nodup_append.mp nodup
      have notLast : ∀ f ∈ flat left, f ≠ (passed.map Prod.fst).getLastD top := fun f member same =>
        apart _ last_mem f member same.symm
      obtain ⟨bin, inBin, eq, pointers⟩ := q.insertBefore_eq e curr
      obtain ⟨nextBin, nextInBin⟩ := set_pointers q e bin inBin
      rw [found]
      refine .inr ⟨_, rfl, (relinked_insertBefore q e curr).trans (relinked_setNextBin ..), ?_⟩
      rw [setNextBin_nextBin, setNextBin_nextInBin, eq, nextBin, nextInBin, ← cons_append,
        place_append (forall_mem_cons.mpr ⟨before, passes⟩)]
      refine Linked.replace linked nodupPassed
        (fun f member => update_of_ne (notE f (mem_append_left _ member)) ..)
        (fun f member => update_of_ne (notE f (mem_append_left _ member)) ..)
        (linked_place behind stops (fun f member => ?_) (fun f member => ?_) ⟨?_, ?_⟩ pointers)
      · rw [update_of_ne (notLast f member), update_of_ne (notE f (mem_append_right _ member))]
      · rw [update_of_ne (notE f (mem_append_right _ member))]
      · rw [update_of_ne (notE _ (mem_append_left _ last_mem)).symm, update_self]
      · rw [update_self]

theorem findInBin_erase {curr : ε} {l : List ε} (path : Path q.nextInBin (q.nextInBin curr) l)
    (nodup : (curr :: l).Nodup) (member : e ∈ l) (rounds : Nat) :
    q.findInBin e rounds curr (q.nextInBin curr) = .error .unfinished ∧ rounds < l.length ∨
    ∃ last, q.findInBin e rounds curr (q.nextInBin curr) = .ok last ∧ (last = curr ∨ last ∈ l) ∧
      Path (update q.nextInBin last (q.nextInBin e))
        (update q.nextInBin last (q.nextInBin e) curr) (l.erase e) := by
  induction l generalizing curr rounds with
  | nil => cases member
  | cons next rest ih =>
    obtain ⟨here, path⟩ := path
    obtain ⟨outCurr, nodup⟩ := nodup_cons.mp nodup
    rw [here]
    cases rounds with
    | zero => exact .inl ⟨rfl, Nat.succ_pos _⟩
    | succ n =>
      by_cases found : next = e
      · subst found
        refine .inr ⟨curr, if_pos rfl, .inl rfl, ?_⟩
        rw [update_self, erase_cons_head]
        refine path.congr fun f member => update_of_ne ?_ ..
        rintro rfl
        exact outCurr (mem_cons_of_mem _ member)
      · have member : e ∈ rest := by
          obtain same | member := mem_cons.mp member
          · exact absurd same.symm found
          · exact member
        rw [show q.findInBin e (n + 1) curr (some next) =
          q.findInBin e n next (q.nextInBin next) from if_neg found]
        obtain ⟨stuck, few⟩ | ⟨last, ok, among, erased⟩ := ih path nodup member n
        · exact .inl ⟨stuck, Nat.succ_lt_succ few⟩
        have among : last ∈ next :: rest := by
          obtain rfl | among := among
          · exact mem_cons_self
          · exact mem_cons_of_mem _ among
        refine .inr ⟨last, ok, .inr among, ?_⟩
        rw [erase_cons_tail (by simpa using found)]
        refine ⟨?_, erased⟩
        rw [update_of_ne, here]
        rintro rfl
        exact outCurr among

/-- The parts of a queue that do not belong to some events have stayed as they were. -/
structure SameOutside (touched : List ε) (q q' : EventQueue ε) : Prop where
  relinked : Relinked q q'
  head : q'.head = q.head
  nextBin : ∀ f, f ∉ touched → q'.nextBin f = q.nextBin f
  nextInBin : ∀ f, f ∉ touched → q'.nextInBin f = q.nextInBin f

theorem removeItem_withdraw {top : ε} {below : List ε}
    (linked : Linked q.nextBin q.nextInBin (some top) ((top, below) :: bins))
    (nodup : (flat ((top, below) :: bins)).Nodup) (first : ¬ q.key top < q.key e)
    (member : e ∈ top :: below) (rounds : Nat) :
    q.removeItem rounds e top = .error .unfinished ∧ rounds < below.length ∨
    ∃ p q', q.removeItem rounds e top = .ok (p, q') ∧ SameOutside (top :: below) q q' ∧
      Linked q'.nextBin q'.nextInBin p (withdraw q.key e ((top, below) :: bins)) := by
  obtain ⟨-, stack, behind⟩ := linked
  obtain ⟨nodupBin, nodupRest, apart⟩ := nodup_append.mp nodup
  rw [withdraw, if_neg first]
  by_cases isTop : e = top
  · subst isTop
    rw [if_pos rfl]
    cases below with
    | nil =>
      refine .inr ⟨q.nextBin e, q, ?_, ⟨.refl q, rfl, fun _ _ => rfl, fun _ _ => rfl⟩, behind⟩
      rw [removeItem, if_pos rfl, show (q.event e).nextInBin = none from stack]
      rfl
    | cons next below =>
      obtain ⟨here, stack⟩ := stack
      have notNext : ∀ f ∈ flat bins, f ≠ next := by
        intro f inRest same
        exact apart next (by simp) f inRest same.symm
      refine .inr ⟨some next, q.setNextBin next (q.nextBin e), ?_,
        ⟨relinked_setNextBin .., rfl, fun f out => ?_, fun f out => ?_⟩, rfl, ?_, ?_⟩
      · rw [removeItem, if_pos rfl, show (q.event e).nextInBin = some next from here]
        rfl
      · rw [setNextBin_nextBin, update_of_ne]
        rintro rfl
        exact out (by simp)
      · rw [setNextBin_nextInBin]
      · rw [setNextBin_nextInBin]
        exact stack
      · rw [setNextBin_nextBin, update_self, setNextBin_nextInBin]
        refine behind.congr (fun bin member => update_of_ne (notNext _ ?_) ..) fun _ _ => rfl
        exact mem_flatMap.mpr ⟨bin, member, mem_cons_self⟩
  · have member : e ∈ below := by
      obtain same | member := mem_cons.mp member
      · exact absurd same isTop
      · exact member
    rw [if_neg isTop]
    have unfolded : q.removeItem rounds e top = (do
        let curr ← q.findInBin e rounds top (q.nextInBin top)
        return (some top, q.setNextInBin curr (q.nextInBin e))) := if_neg isTop
    rw [unfolded]
    obtain ⟨stuck, few⟩ | ⟨last, found, among, erased⟩ :=
      findInBin_erase stack nodupBin member rounds
    · rw [stuck]
      exact .inl ⟨rfl, few⟩
    have among : last ∈ top :: below := by
      obtain rfl | among := among
      · exact mem_cons_self
      · exact mem_cons_of_mem _ among
    rw [found]
    refine .inr ⟨some top, q.setNextInBin last (q.nextInBin e), rfl,
      ⟨relinked_setNextInBin .., rfl, fun f out => ?_, fun f out => ?_⟩, rfl, ?_, ?_⟩
    · rw [setNextInBin_nextBin]
    · rw [setNextInBin_nextInBin, update_of_ne]
      rintro rfl
      exact out among
    · rw [setNextInBin_nextInBin]
      exact erased
    · rw [setNextInBin_nextBin, setNextInBin_nextInBin]
      refine behind.congr (fun _ _ => rfl) fun f member => update_of_ne ?_ ..
      rintro rfl
      exact apart f among f member rfl

theorem remove_withdraw (linked : Linked q.nextBin q.nextInBin q.head bins)
    (ordered : Ordered q.key bins) (nodup : (flat bins).Nodup) (member : e ∈ flat bins)
    (rounds : Nat) :
    q.remove rounds e = .error .unfinished ∧ rounds < (flat bins).length ∨
    ∃ q', q.remove rounds e = .ok q' ∧ Relinked q q' ∧
      Linked q'.nextBin q'.nextInBin q'.head (withdraw q.key e bins) := by
  cases bins with
  | nil => cases member
  | cons bin rest =>
    obtain ⟨top, below⟩ := bin
    have head : q.head = some top := linked.1
    by_cases same : q.key top = q.key e
    · have unfolded : q.remove rounds e = q.removeItem rounds e top >>= fun left =>
          .ok { left.2 with head := left.1 } := by
        rw [remove, head]
        exact if_pos (eq_iff.mpr same)
      rw [unfolded]
      obtain ⟨stuck, few⟩ | ⟨p, q', removed, outside, linked'⟩ :=
        removeItem_withdraw (head ▸ linked) nodup same.not_lt
          (ordered.mem_first member same.not_lt).1 rounds
      · rw [stuck]
        refine .inl ⟨rfl, ?_⟩
        simp only [flat_cons, length_append, length_cons]
        omega
      · rw [removed]
        exact .inr ⟨{ q' with head := p }, rfl, outside.relinked.head p, linked'⟩
    · have before : q.key top < q.key e := by
        by_contra notBefore
        exact same (ordered.mem_first member notBefore).2
      have differs : ¬ (q.event top).eq (q.event e) := fun h => same (eq_iff.mp h)
      obtain ⟨stuck, few⟩ | ⟨passed, left, curr, rfl, behind, passes, stops, found⟩ :=
        seek_split (e := e) linked.2.2 rounds
      · refine .inl ⟨?_, Nat.lt_of_lt_of_le (Nat.lt_succ_of_lt few)
          (length_le_flat ((top, below) :: rest))⟩
        rw [remove, head]
        refine (if_neg differs).trans ?_
        rw [show q.seek e rounds top (q.event top).nextBin = _ from stuck]
        rfl
      have passes : ∀ bin ∈ (top, below) :: passed, q.key bin.1 < q.key e :=
        forall_mem_cons.mpr ⟨before, passes⟩
      rw [← cons_append] at ordered member nodup ⊢
      obtain ⟨ordered, member⟩ := ordered.mem_left member passes
      rw [flat_append] at nodup
      obtain ⟨nodupPassed, nodupLeft, apart⟩ := nodup_append.mp nodup
      cases left with
      | nil => cases member
      | cons bin left =>
        obtain ⟨c, below'⟩ := bin
        obtain rfl := behind.1
        obtain ⟨inBin, equal⟩ := ordered.mem_first member (stops c rfl)
        have notBin : ∀ f ∈ flat ((top, below) :: passed), f ∉ c :: below' := fun f inPassed inBin =>
          apart f inPassed f (mem_append_left _ inBin) rfl
        have unfolded : q.remove rounds e = q.removeItem rounds e c >>= fun left =>
            .ok (left.2.setNextBin ((passed.map Prod.fst).getLastD top) left.1) := by
          rw [remove, head]
          refine (if_neg differs).trans ?_
          rw [show q.seek e rounds top (q.event top).nextBin = _ from found]
          exact if_pos (eq_iff.mpr equal)
        rw [unfolded]
        obtain ⟨stuck, few⟩ | ⟨p, q', removed, outside, linked'⟩ :=
          removeItem_withdraw behind nodupLeft (stops c rfl) inBin rounds
        · rw [stuck]
          refine .inl ⟨rfl, ?_⟩
          simp only [flat_append, flat_cons, length_append, length_cons]
          omega
        rw [removed]
        refine .inr ⟨_, rfl, outside.relinked.trans (relinked_setNextBin ..), ?_⟩
        rw [setNextBin_nextBin, setNextBin_nextInBin, withdraw_append passes]
        refine Linked.replace (outside.head ▸ linked) nodupPassed
          (fun f inPassed => outside.nextBin f (notBin f inPassed))
          (fun f inPassed => outside.nextInBin f (notBin f inPassed))
          (linked'.congr (fun bin inLeft => update_of_ne ?_ ..) fun _ _ => rfl)
        intro isLast
        refine apart _ last_mem bin.1 (mem_of_mem_erase (b := e) ?_) isLast.symm
        rw [← ordered.flat_withdraw member]
        exact mem_flatMap.mpr ⟨bin, inLeft, mem_cons_self⟩

end SynchroTrace.Sim.EventQueue
