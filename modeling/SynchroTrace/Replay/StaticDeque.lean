import Mathlib.Data.List.Basic
import SynchroTrace.Lib.Objects
import SynchroTrace.Lib.Ring

/-!
`StaticDeque` is a double-ended list of bounded length. Its front is where the cursor `first`
stands, and `last` runs the other way.
-/

namespace SynchroTrace.Replay
open List Nat

/-- The ways a method can end: an exception, or what the language leaves undefined. -/
inductive StaticDeque.Failure where
  | runtimeError (what : String)
  | outOfBounds
  | diverges
  deriving DecidableEq, Repr

structure StaticDeque (T : Type) where
  data : Nat → T
  length : Int
  elems : Int
  first : Int
  last : Int

namespace StaticDeque

variable {T : Type}

def wrapIncr (i s : Int) : Int := if i = s - 1 then 0 else i + 1

def wrapDecr (i s : Int) : Int := if i = 0 then s - 1 else i - 1

def wrapRacc (f i s : Int) : Int := if f - i - 1 < 0 then s - (i - f) - 1 else f - i - 1

variable (d : StaticDeque T)

/-- The array has `length` elements. -/
def read (i : Int) : Except Failure T :=
  if 0 ≤ i ∧ i < d.length then .ok (d.data i.toNat) else .error .outOfBounds

def write (i : Int) (x : T) : Except Failure (StaticDeque T) :=
  if 0 ≤ i ∧ i < d.length then .ok { d with data := Function.update d.data i.toNat x }
  else .error .outOfBounds

/-- The elements of a new array are what `memory` has. -/
def new (memory : Nat → T) (staticSize : Int) : Except Failure (StaticDeque T) :=
  if staticSize ≤ 0 then
    .error (.runtimeError "Cannot instantiate deque to a non-positive size.")
  else .ok ⟨memory, staticSize, 0, 0, 0⟩

def copy (memory : Nat → T) (orig : StaticDeque T) : StaticDeque T where
  data := (List.range orig.length.toNat).foldl
    (fun data i => Function.update data i (orig.data i)) memory
  length := orig.length
  elems := orig.elems
  first := orig.first
  last := orig.last

def size : Int := d.elems

def empty : Bool := d.elems = 0

def full : Bool := d.elems = d.length

def containsFrom [DecidableEq T] (d : StaticDeque T) (elem : T) : Nat → Int → Except Failure Bool
  | 0, _ => .error .diverges
  | rounds + 1, i =>
    if i ≠ d.first then do
      if (← d.read i) = elem then return true
      else containsFrom d elem rounds (wrapIncr i d.length)
    else return false

def contains [DecidableEq T] (d : StaticDeque T) (elem : T) (rounds : Nat) : Except Failure Bool :=
  d.containsFrom elem rounds d.last

def front : Except Failure T :=
  if 0 < d.elems then d.read (wrapDecr d.first d.length)
  else .error (.runtimeError "Attempted to access element in empty deque.")

def back : Except Failure T :=
  if 0 < d.elems then d.read d.last
  else .error (.runtimeError "Attempted to access element in empty deque.")

def popFront : Except Failure T × StaticDeque T :=
  if 0 < d.elems then
    let d := { d with first := wrapDecr d.first d.length }
    (d.read d.first, { d with elems := d.elems - 1 })
  else (.error (.runtimeError "Attempted to remove element in empty deque."), d)

def popBack : Except Failure T × StaticDeque T :=
  if 0 < d.elems then
    (d.read d.last, { d with last := wrapIncr d.last d.length, elems := d.elems - 1 })
  else (.error (.runtimeError "Attempted to remove element in empty deque."), d)

def pushFront (elem : T) : Except Failure Unit × StaticDeque T :=
  if d.elems < d.length then
    match d.write d.first elem with
    | .error e => (.error e, d)
    | .ok d => (.ok (), { d with first := wrapIncr d.first d.length, elems := d.elems + 1 })
  else (.error (.runtimeError "Attempted to add element to full deque."), d)

def pushBack (elem : T) : Except Failure Unit × StaticDeque T :=
  if d.elems < d.length then
    let d := { d with last := wrapDecr d.last d.length }
    match d.write d.last elem with
    | .error e => (.error e, d)
    | .ok d => (.ok (), { d with elems := d.elems + 1 })
  else (.error (.runtimeError "Attempted to add element to full deque."), d)

def clear : StaticDeque T := { d with elems := 0, first := 0, last := 0 }

def slot (index : Int) : Except Failure Int :=
  if 0 ≤ index ∧ index < d.elems then .ok (wrapRacc d.first index d.length)
  else .error (.runtimeError "Attempted to retrieve non-existant element.")

def elementAt (index : Int) : Except Failure T := do d.read (← d.slot index)

def modifyAt (index : Int) (f : T → T) : Except Failure (StaticDeque T) := do
  let slot ← d.slot index
  d.write slot (f (← d.read slot))

inductive Call (T : Type) where
  | pushFront (elem : T)
  | pushBack (elem : T)
  | popFront
  | popBack
  | front
  | back
  | elementAt (index : Int)
  | size
  | empty
  | full
  | clear

inductive Answer (T : Type) where
  | done
  | element (elem : T)
  | number (n : Int)
  | truth (b : Bool)
  deriving DecidableEq, Repr

def perform : Call T → Except Failure (Answer T) × StaticDeque T
  | .pushFront elem => ((d.pushFront elem).1.map fun _ => .done, (d.pushFront elem).2)
  | .pushBack elem => ((d.pushBack elem).1.map fun _ => .done, (d.pushBack elem).2)
  | .popFront => (d.popFront.1.map .element, d.popFront.2)
  | .popBack => (d.popBack.1.map .element, d.popBack.2)
  | .front => (d.front.map .element, d)
  | .back => (d.back.map .element, d)
  | .elementAt index => ((d.elementAt index).map .element, d)
  | .size => (.ok (.number d.size), d)
  | .empty => (.ok (.truth d.empty), d)
  | .full => (.ok (.truth d.full), d)
  | .clear => (.ok .done, d.clear)

end StaticDeque

namespace BoundedList
open StaticDeque

variable {T : Type}

/-- What a call does to a list of at most `n` elements. -/
def perform (n : Nat) (xs : List T) : Call T → Except Failure (Answer T) × List T
  | .pushFront elem =>
    if xs.length < n then (.ok .done, elem :: xs)
    else (.error (.runtimeError "Attempted to add element to full deque."), xs)
  | .pushBack elem =>
    if xs.length < n then (.ok .done, xs ++ [elem])
    else (.error (.runtimeError "Attempted to add element to full deque."), xs)
  | .popFront =>
    match xs.head? with
    | none => (.error (.runtimeError "Attempted to remove element in empty deque."), xs)
    | some elem => (.ok (.element elem), xs.tail)
  | .popBack =>
    match xs.getLast? with
    | none => (.error (.runtimeError "Attempted to remove element in empty deque."), xs)
    | some elem => (.ok (.element elem), xs.dropLast)
  | .front =>
    match xs.head? with
    | none => (.error (.runtimeError "Attempted to access element in empty deque."), xs)
    | some elem => (.ok (.element elem), xs)
  | .back =>
    match xs.getLast? with
    | none => (.error (.runtimeError "Attempted to access element in empty deque."), xs)
    | some elem => (.ok (.element elem), xs)
  | .elementAt index =>
    match if 0 ≤ index then xs[index.toNat]? else none with
    | none => (.error (.runtimeError "Attempted to retrieve non-existant element."), xs)
    | some elem => (.ok (.element elem), xs)
  | .size => (.ok (.number xs.length), xs)
  | .empty => (.ok (.truth xs.isEmpty), xs)
  | .full => (.ok (.truth (xs.length = n)), xs)
  | .clear => (.ok .done, [])

end BoundedList

namespace StaticDeque
open Ring

variable {T : Type}

/-- A deque with the elements of a list. -/
inductive Represents : StaticDeque T → Nat → List T → Prop where
  | mk {data : Nat → T} {n last : Nat} {xs : List T} (inside : last < n) (fits : xs.length ≤ n)
      (contents : window data n last xs.length = xs.reverse) :
      Represents ⟨data, n, xs.length, ((last + xs.length) % n : Nat), last⟩ n xs

theorem Represents.of_fields {d : StaticDeque T} {n last : Nat} {xs : List T} (inside : last < n)
    (fits : xs.length ≤ n) (contents : window d.data n last xs.length = xs.reverse)
    (length : d.length = n) (elems : d.elems = xs.length)
    (first : d.first = ((last + xs.length) % n : Nat)) (cursor : d.last = last) :
    Represents d n xs := by
  obtain ⟨data, _, _, _, _⟩ := d
  cases length
  cases elems
  cases first
  cases cursor
  exact .mk inside fits contents

section Cursors
variable {n : Nat}

theorem succ_mod (pos : 0 < n) (a : Nat) :
    (a + 1) % n = if a % n = n - 1 then 0 else a % n + 1 := by
  have lt := mod_lt a pos
  rw [← mod_add_mod]
  split_ifs with wraps
  · rw [wraps, Nat.sub_add_cancel pos, mod_self]
  · exact mod_eq_of_lt (by omega)

theorem wrapIncr_mod (pos : 0 < n) (a : Nat) :
    wrapIncr ((a % n : Nat) : Int) n = (((a + 1) % n : Nat) : Int) := by
  have lt := mod_lt a pos
  rw [succ_mod pos, wrapIncr]
  split_ifs <;> omega

theorem wrapDecr_mod (pos : 0 < n) (a : Nat) :
    wrapDecr (((a + 1) % n : Nat) : Int) n = ((a % n : Nat) : Int) := by
  have lt := mod_lt a pos
  rw [succ_mod pos, wrapDecr]
  split_ifs <;> omega

theorem wrapRacc_mod {last count i : Nat} (inside : last < n) (fits : count ≤ n) (lt : i < count) :
    wrapRacc (((last + count) % n : Nat) : Int) i n =
      (((last + (count - 1 - i)) % n : Nat) : Int) := by
  have near {a : Nat} (h : a < n + n) : a % n = if a < n then a else a - n := by
    split_ifs with small
    · exact mod_eq_of_lt small
    · rw [mod_eq_sub_mod (by omega), mod_eq_of_lt (by omega)]
  rw [near (by omega), near (by omega), wrapRacc]
  split_ifs <;> omega

end Cursors

section Methods
variable {d : StaticDeque T} {n : Nat} {xs : List T} {x : T}

theorem read_slot {data : Nat → T} {elems first last : Int} {i : Nat} (lt : i < n) :
    read ⟨data, n, elems, first, last⟩ i = .ok (data i) :=
  if_pos ⟨by omega, Int.ofNat_lt.mpr lt⟩

theorem write_slot {data : Nat → T} {elems first last : Int} {i : Nat} (lt : i < n) (x : T) :
    write ⟨data, n, elems, first, last⟩ i x =
      .ok ⟨Function.update data i x, n, elems, first, last⟩ :=
  if_pos ⟨by omega, Int.ofNat_lt.mpr lt⟩

section
variable (rep : Represents d n xs)
include rep

theorem Represents.fits : xs.length ≤ n := by
  cases rep
  assumption

theorem Represents.elems : d.elems = xs.length := by
  cases rep
  rfl

theorem Represents.length : d.length = n := by
  cases rep
  rfl

theorem Represents.pushFront_room (room : xs.length < n) (x : T) :
    (d.pushFront x).1 = .ok () ∧ Represents (d.pushFront x).2 n (x :: xs) := by
  cases rep with
  | @mk data _ last _ inside fits contents =>
    have pos : 0 < n := by omega
    rw [pushFront, if_pos (Int.ofNat_lt.mpr room), write_slot (mod_lt _ pos)]
    refine ⟨rfl, .of_fields inside room ?_ rfl ?_ ?_ rfl⟩
    · rw [length_cons, window_push_last x room, contents, reverse_cons]
    · simp
    · rw [length_cons, ← Nat.add_assoc, ← wrapIncr_mod pos]

theorem Represents.pushBack_room (room : xs.length < n) (x : T) :
    (d.pushBack x).1 = .ok () ∧ Represents (d.pushBack x).2 n (xs ++ [x]) := by
  cases rep with
  | @mk data _ last _ inside fits contents =>
    have pos : 0 < n := by omega
    -- the slot in front of `last`, without its wrap
    obtain ⟨before, isLast⟩ : ∃ before, before + 1 = last + n := ⟨last + n - 1, by omega⟩
    have wraps : (before + 1) % n = last := by
      rw [isLast, add_mod_right, mod_eq_of_lt inside]
    have decr : wrapDecr (last : Int) n = ((before % n : Nat) : Int) := by
      rw [← wrapDecr_mod pos, wraps]
    rw [pushBack, if_pos (Int.ofNat_lt.mpr room)]
    simp only [decr, write_slot (mod_lt before pos)]
    refine ⟨trivial, .of_fields (mod_lt before pos) (by simp; omega) ?_ rfl ?_ ?_ rfl⟩
    · rw [length_append, length_singleton, window_mod, window_push_first x room,
        ← window_mod, wraps, contents, reverse_append]
      rfl
    · simp
    · rw [length_append, length_singleton, mod_add_mod, Nat.add_comm xs.length,
        ← Nat.add_assoc, isLast, Nat.add_right_comm, add_mod_right]

theorem Represents.slot {i : Nat} (inside : i < xs.length) :
    ∃ k, d.slot i = .ok ((k : Nat) : Int) ∧ d.read k = .ok xs[i] ∧
      ∀ y, ∃ d', d.write k y = .ok d' ∧ Represents d' n (xs.set i y) := by
  cases rep with
  | @mk data _ last _ lastInside fits contents =>
    have pos : 0 < n := by omega
    have behind : xs.length - 1 - i < xs.length := by omega
    have here : (window data n last xs.length)[xs.length - 1 - i]? = some _ :=
      getElem?_window behind
    rw [contents, List.getElem?_reverse behind, show xs.length - 1 - (xs.length - 1 - i) = i by
      omega, List.getElem?_eq_getElem inside] at here
    refine ⟨(last + (xs.length - 1 - i)) % n, ?_, ?_, fun y => ⟨_, write_slot (mod_lt _ pos) y,
      .of_fields lastInside ?_ ?_ rfl ?_ ?_ rfl⟩⟩
    · rw [slot, if_pos ⟨by omega, Int.ofNat_lt.mpr inside⟩, wrapRacc_mod lastInside fits inside]
    · rw [read_slot (mod_lt _ pos), Option.some.inj here]
    · simpa using fits
    · rw [List.length_set, window_set y behind fits, contents]
      refine ext_getElem (by simp) fun j before _ => ?_
      have before : j < xs.length := by simpa using before
      simp only [getElem_set, getElem_reverse, List.length_set]
      congr 1
      simp only [eq_iff_iff]
      omega
    · simp
    · simp

theorem Represents.push_full (full : ¬ xs.length < n) (x : T) :
    d.pushFront x = (.error (.runtimeError "Attempted to add element to full deque."), d) ∧
    d.pushBack x = (.error (.runtimeError "Attempted to add element to full deque."), d) := by
  have full : ¬ d.elems < d.length := by
    rw [rep.elems, rep.length]
    omega
  exact ⟨if_neg full, if_neg full⟩

theorem Represents.slot_outside {index : Int} (outside : ¬ (0 ≤ index ∧ index < xs.length)) :
    d.slot index = .error (.runtimeError "Attempted to retrieve non-existant element.") :=
  if_neg (by rwa [rep.elems])

theorem Represents.elementAt (index : Int) :
    d.elementAt index = match if 0 ≤ index then xs[index.toNat]? else none with
      | none => .error (.runtimeError "Attempted to retrieve non-existant element.")
      | some elem => .ok elem := by
  by_cases inside : 0 ≤ index ∧ index < xs.length
  · obtain ⟨nonneg, lt⟩ := inside
    obtain ⟨i, rfl⟩ := Int.eq_ofNat_of_zero_le nonneg
    obtain ⟨k, slot, read, -⟩ := rep.slot (Int.ofNat_lt.mp lt)
    rw [StaticDeque.elementAt, slot, if_pos nonneg, Int.toNat_natCast,
      List.getElem?_eq_getElem (Int.ofNat_lt.mp lt)]
    exact read
  · have outside : (if 0 ≤ index then xs[index.toNat]? else none) = none := by
      split_ifs with nonneg
      · exact List.getElem?_eq_none (by omega)
      · rfl
    rw [StaticDeque.elementAt, rep.slot_outside inside, outside]
    rfl

theorem Represents.clear (pos : 0 < n) : Represents d.clear n [] :=
  .of_fields pos (Nat.zero_le n) rfl rep.length rfl (by simp [StaticDeque.clear]) rfl

end

theorem Represents.front_cons (rep : Represents d n (x :: xs)) : d.front = .ok x := by
  cases rep with
  | @mk data _ last _ inside fits contents =>
    have pos : 0 < n := by omega
    rw [length_cons, window_concat, reverse_cons] at contents
    have here : [data ((last + xs.length) % n)] = [x] := (append_inj' contents rfl).2
    rw [front, if_pos (by simp), length_cons, ← Nat.add_assoc, wrapDecr_mod pos,
      read_slot (mod_lt _ pos), singleton_inj.mp here]

theorem Represents.popFront_cons (rep : Represents d n (x :: xs)) :
    d.popFront.1 = .ok x ∧ Represents d.popFront.2 n xs := by
  have read := rep.front_cons
  cases rep with
  | @mk data _ last _ inside fits contents =>
    have pos : 0 < n := by omega
    have some : (0 : Int) < (x :: xs).length := by simp
    rw [front, if_pos some] at read
    rw [popFront, if_pos some]
    refine ⟨read, .of_fields inside (le_of_succ_le fits) ?_ rfl ?_ ?_ rfl⟩
    · rw [length_cons, window_concat, reverse_cons] at contents
      exact (append_inj' contents rfl).1
    · simp
    · exact wrapDecr_mod pos _

theorem Represents.back_concat (rep : Represents d n (xs ++ [x])) : d.back = .ok x := by
  generalize whole : xs ++ [x] = ys at rep
  cases rep with
  | @mk data _ last _ inside fits contents =>
    subst whole
    rw [length_append, length_singleton, window_cons, reverse_append] at contents
    have here : data (last % n) = x := (cons_eq_cons.mp contents).1
    rw [mod_eq_of_lt inside] at here
    rw [back, if_pos (by simp), read_slot inside, here]

theorem Represents.popBack_concat (rep : Represents d n (xs ++ [x])) :
    d.popBack.1 = .ok x ∧ Represents d.popBack.2 n xs := by
  have read := rep.back_concat
  generalize whole : xs ++ [x] = ys at rep
  cases rep with
  | @mk data _ last _ inside fits contents =>
    subst whole
    have pos : 0 < n := by omega
    have some : (0 : Int) < (xs ++ [x]).length := by simp
    rw [back, if_pos some] at read
    rw [popBack, if_pos some]
    rw [length_append, length_singleton] at fits
    refine ⟨read, .of_fields (mod_lt (last + 1) pos) (le_of_succ_le fits) ?_ rfl ?_ ?_ ?_⟩
    · rw [length_append, length_singleton, window_cons, reverse_append] at contents
      rw [window_mod]
      exact (cons_eq_cons.mp contents).2
    · simp
    · simp [Nat.add_assoc, Nat.add_comm 1]
    · rw [← wrapIncr_mod pos, mod_eq_of_lt inside]

theorem Represents.nil (rep : Represents d n []) :
    d.front = .error (.runtimeError "Attempted to access element in empty deque.") ∧
    d.back = .error (.runtimeError "Attempted to access element in empty deque.") ∧
    d.popFront = (.error (.runtimeError "Attempted to remove element in empty deque."), d) ∧
    d.popBack = (.error (.runtimeError "Attempted to remove element in empty deque."), d) := by
  have none : ¬ 0 < d.elems := by rw [rep.elems]; simp
  exact ⟨if_neg none, if_neg none, if_neg none, if_neg none⟩

theorem simulates (pos : 0 < n) :
    Objects.Simulates (fun d xs => Represents d n xs) (perform (T := T)) (BoundedList.perform n) := by
  intro d xs call rep
  cases call with
  | pushFront x =>
    by_cases room : xs.length < n
    · obtain ⟨answer, rep'⟩ := rep.pushFront_room room x
      simp only [perform, BoundedList.perform, answer, if_pos room]
      exact ⟨rfl, rep'⟩
    · simp only [perform, BoundedList.perform, (rep.push_full room x).1, if_neg room]
      exact ⟨rfl, rep⟩
  | pushBack x =>
    by_cases room : xs.length < n
    · obtain ⟨answer, rep'⟩ := rep.pushBack_room room x
      simp only [perform, BoundedList.perform, answer, if_pos room]
      exact ⟨rfl, rep'⟩
    · simp only [perform, BoundedList.perform, (rep.push_full room x).2, if_neg room]
      exact ⟨rfl, rep⟩
  | popFront =>
    cases xs with
    | nil =>
      obtain ⟨-, -, popped, -⟩ := rep.nil
      simp only [perform, BoundedList.perform, popped]
      exact ⟨rfl, rep⟩
    | cons x xs =>
      obtain ⟨answer, rep'⟩ := rep.popFront_cons
      simp only [perform, BoundedList.perform, answer]
      exact ⟨rfl, rep'⟩
  | popBack =>
    obtain rfl | ⟨xs, x, rfl⟩ := xs.eq_nil_or_concat'
    · obtain ⟨-, -, -, popped⟩ := rep.nil
      simp only [perform, BoundedList.perform, popped]
      exact ⟨rfl, rep⟩
    · obtain ⟨answer, rep'⟩ := rep.popBack_concat
      simp only [perform, BoundedList.perform, answer, List.getLast?_concat, dropLast_concat]
      exact ⟨rfl, rep'⟩
  | front =>
    cases xs with
    | nil =>
      simp only [perform, BoundedList.perform, rep.nil.1]
      exact ⟨rfl, rep⟩
    | cons x xs =>
      simp only [perform, BoundedList.perform, rep.front_cons]
      exact ⟨rfl, rep⟩
  | back =>
    obtain rfl | ⟨xs, x, rfl⟩ := xs.eq_nil_or_concat'
    · simp only [perform, BoundedList.perform, rep.nil.2.1]
      exact ⟨rfl, rep⟩
    · simp only [perform, BoundedList.perform, rep.back_concat, List.getLast?_concat]
      exact ⟨rfl, rep⟩
  | elementAt index =>
    simp only [perform, BoundedList.perform, rep.elementAt]
    split <;> exact ⟨rfl, rep⟩
  | size =>
    simp only [perform, BoundedList.perform, size, rep.elems]
    exact ⟨trivial, rep⟩
  | empty =>
    simp only [perform, BoundedList.perform, empty, rep.elems]
    exact ⟨by cases xs <;> simp; omega, rep⟩
  | full =>
    simp only [perform, BoundedList.perform, full, rep.elems, rep.length]
    exact ⟨by simp only [Int.natCast_inj], rep⟩
  | clear => exact ⟨rfl, rep.clear pos⟩

end Methods

section Runs
variable {d : StaticDeque T} {n : Nat} {xs : List T}
open Objects

theorem new_represents (memory : Nat → T) (pos : 0 < n) :
    ∃ d, new memory n = .ok d ∧ Represents d n [] :=
  ⟨_, if_neg (by omega), .of_fields pos (Nat.zero_le n) rfl rfl rfl (by simp) rfl⟩

theorem copied (memory source : Nat → T) (m i : Nat) :
    (List.range m).foldl (fun data i => Function.update data i (source i)) memory i =
      if i < m then source i else memory i := by
  induction m with
  | zero => rfl
  | succ m ih =>
    rw [range_succ, foldl_append, foldl_cons, foldl_nil]
    by_cases here : i = m
    · subst here
      rw [Function.update_self, if_pos (lt_succ_self i)]
    · rw [Function.update_of_ne here, ih]
      congr 1
      simp only [eq_iff_iff]
      omega

theorem Represents.copy (rep : Represents d n xs) (memory : Nat → T) :
    Represents (d.copy memory) n xs := by
  cases rep with
  | mk inside fits contents =>
    refine .of_fields inside fits ?_ rfl rfl rfl rfl
    rw [← contents]
    refine window_congr (by omega) fun i lt => ?_
    exact (copied ..).trans (if_pos lt)

theorem Represents.of_error (rep : Represents d n xs) {call : Call T} {e : Failure}
    (threw : (d.perform call).1 = .error e) : (d.perform call).2 = d := by
  cases call with
  | pushFront x =>
    by_cases room : xs.length < n
    · simp only [perform, (rep.pushFront_room room x).1] at threw
      cases threw
    · simp only [perform, (rep.push_full room x).1]
  | pushBack x =>
    by_cases room : xs.length < n
    · simp only [perform, (rep.pushBack_room room x).1] at threw
      cases threw
    · simp only [perform, (rep.push_full room x).2]
  | popFront =>
    cases xs with
    | nil => simp only [perform, rep.nil.2.2.1]
    | cons x xs =>
      simp only [perform, rep.popFront_cons.1] at threw
      cases threw
  | popBack =>
    obtain rfl | ⟨xs, x, rfl⟩ := xs.eq_nil_or_concat'
    · simp only [perform, rep.nil.2.2.2]
    · simp only [perform, rep.popBack_concat.1] at threw
      cases threw
  | clear => cases threw
  | _ => rfl

theorem run_represents (memory : Nat → T) (pos : 1 ≤ n) (calls : List (Call T)) :
    ∃ d, new memory n = .ok d ∧ (run perform d calls).1 = (run (BoundedList.perform n) [] calls).1 ∧
      Represents (run perform d calls).2 n (run (BoundedList.perform n) [] calls).2 := by
  obtain ⟨d, created, start⟩ := new_represents memory pos
  exact ⟨d, created, (simulates pos).run start calls⟩

/-- A new deque answers every sequence of calls as a bounded list does, and so does a copy of it. -/
theorem refines_boundedList (memory : Nat → T) (n : Nat) (pos : 1 ≤ n) (calls : List (Call T)) :
    ∃ d, new memory n = .ok d ∧ (run perform d calls).1 = (run (BoundedList.perform n) [] calls).1 ∧
      (run (BoundedList.perform n) [] calls).2.length ≤ n ∧
      (∀ call e, ((run perform d calls).2.perform call).1 = .error e →
        ((run perform d calls).2.perform call).2 = (run perform d calls).2) ∧
      ∀ memory' more, (run perform ((run perform d calls).2.copy memory') more).1 =
        (run perform (run perform d calls).2 more).1 := by
  obtain ⟨d, created, answers, rep⟩ := run_represents memory pos calls
  refine ⟨d, created, answers, rep.fits, fun call e threw => rep.of_error threw, fun memory' more => ?_⟩
  rw [((simulates pos).run rep more).1, ((simulates pos).run (rep.copy memory') more).1]

theorem refines_boundedList_three : (1 : Nat) ≤ 3 ∧ ∃ d, new (fun _ => 'a') 3 = .ok d ∧
      (run perform d [.pushFront 'b', .pushBack 'c', .elementAt 1, .popFront]).1 =
        [.ok .done, .ok .done, .ok (.element 'c'), .ok (.element 'b')] := by
  obtain ⟨d, created, answers, -⟩ := refines_boundedList (fun _ => 'a') 3 (by decide)
    [.pushFront 'b', .pushBack 'c', .elementAt 1, .popFront]
  exact ⟨by decide, d, created, answers⟩

variable [DecidableEq T]

theorem containsFrom_window {data : Nat → T} {last count k rounds : Nat} (room : count < n)
    (inside : k ≤ count) (enough : count - k < rounds) (x : T) :
    containsFrom ⟨data, n, count, ((last + count) % n : Nat), last⟩ x rounds
        (((last + k) % n : Nat) : Int) =
      .ok (decide (x ∈ window data n (last + k) (count - k))) := by
  have pos : 0 < n := by omega
  induction rounds generalizing k with
  | zero => omega
  | succ rounds ih =>
    rw [containsFrom]
    by_cases atEnd : k = count
    · subst atEnd
      rw [if_neg (by simp), Nat.sub_self]
      rfl
    · have apart : (last + k) % n ≠ (last + count) % n := slot_ne (by omega) (by omega)
      obtain ⟨left, isLeft⟩ : ∃ left, count - k = left + 1 := ⟨count - k - 1, by omega⟩
      rw [if_pos fun same => apart (Int.natCast_inj.mp same), read_slot (mod_lt _ pos), isLeft,
        window_cons, wrapIncr_mod pos, Nat.add_assoc, ih (by omega) (by omega),
        show count - (k + 1) = left by omega]
      show (if data ((last + k) % n) = x then _ else _) = _
      by_cases here : data ((last + k) % n) = x
      · simp [here]
        rfl
      · simp [here, Ne.symm here]

/-- `contains` decides membership while the deque has room for another element, and finds nothing
in a full one. -/
theorem contains_iff_mem (memory : Nat → T) (n : Nat) (pos : 1 ≤ n) (calls : List (Call T)) (x : T) :
    ∃ d, new memory n = .ok d ∧ ∀ rounds, n ≤ rounds → (run perform d calls).2.contains x rounds =
        .ok (decide ((run (BoundedList.perform n) [] calls).2.length < n ∧
          x ∈ (run (BoundedList.perform n) [] calls).2)) := by
  obtain ⟨d, created, -, rep⟩ := run_represents memory pos calls
  refine ⟨d, created, fun rounds enough => ?_⟩
  generalize (run perform d calls).2 = final at rep ⊢
  generalize (run (BoundedList.perform n) [] calls).2 = xs at rep ⊢
  cases rep with
  | @mk data _ last _ inside fits contents =>
    by_cases room : xs.length < n
    · have found : containsFrom ⟨data, _, _, _, last⟩ x rounds _ = _ :=
        containsFrom_window room (Nat.zero_le _) (Nat.lt_of_lt_of_le room enough) x
      rw [Nat.add_zero, mod_eq_of_lt inside, Nat.sub_zero, contents] at found
      exact found.trans (by simp [room])
    · obtain ⟨rounds, rfl⟩ := Nat.exists_eq_add_one.mpr (show 0 < rounds by omega)
      rw [contains, containsFrom, if_neg, decide_eq_false fun both => room both.1]
      · rfl
      · rw [show xs.length = n by omega, Nat.add_mod_right, mod_eq_of_lt inside]
        exact fun apart => apart rfl

theorem contains_iff_mem_two : ∃ d, new (fun _ => 'a') 2 = .ok d ∧
    (run perform d [.pushBack 'b']).2.contains 'b' 2 = .ok true := by
  obtain ⟨d, created, found⟩ := contains_iff_mem (fun _ => 'a') 2 (by decide) [.pushBack 'b'] 'b'
  exact ⟨d, created, found 2 (by decide)⟩

/-- In a full deque the cursors have met, and nothing is found. -/
theorem contains_full_misses : ∃ d, new (fun _ => 'a') 1 = .ok d ∧
      'b' ∈ (run (BoundedList.perform 1) [] [.pushBack 'b']).2 ∧
      (run perform d [.pushBack 'b']).2.contains 'b' 1 = .ok false :=
  ⟨_, rfl, by decide, rfl⟩

end Runs

end StaticDeque

end SynchroTrace.Replay
