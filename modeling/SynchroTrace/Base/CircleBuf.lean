import SynchroTrace.Lib.Ring
import SynchroTrace.Lib.Transition
import SynchroTrace.Ruby.Address

/-!
`CircleBuf` keeps a start, a stop and a number of bytes. `Plain` are the calls along which it is the
queue of the bytes that are written and not yet read.
-/

namespace SynchroTrace.Base
open Outcome Transition Ring List
open Ruby (MemoryFault)

structure CircleBuf where
  buf : Nat → UInt8
  rollover : Bool
  buflen : Nat
  size : Nat
  start : Nat
  stop : Nat

namespace CircleBuf

def new (memory : Nat → UInt8) (l : Nat) : CircleBuf := ⟨memory, false, l, 0, 0, 0⟩

variable (c : CircleBuf)

def flush : CircleBuf := { c with start := 0, stop := 0, rollover := false }

/-- The bytes that `memcpy` or `write` takes from the buffer. -/
def slice (i len : Nat) : List UInt8 := (List.range len).map fun k => c.buf (i + k)

def read (c : CircleBuf) (len : Nat) : Except MemoryFault (List UInt8 × CircleBuf) := do
  -- `_size` stops at zero, as the difference does
  let c := { c with size := c.size - len }
  if c.start < c.stop then
    let len := min len (c.stop - c.start)
    return (c.slice c.start len, { c with start := c.start + len })
  else
    -- a start behind the end makes `endlen` negative
    require (c.start ≤ c.buflen) .outOfBounds
    let endlen := c.buflen - c.start
    if len < endlen then return (c.slice c.start len, { c with start := c.start + len })
    else
      let start := min (len - endlen) c.stop
      return (c.slice c.start endlen ++ c.slice 0 start, { c with start })

def readOut : Except MemoryFault (List UInt8 × CircleBuf) := do
  let c := { c with size := 0 }
  if c.start < c.stop then
    return (c.slice c.start (c.stop - c.start), { c with start := c.stop })
  else
    require (c.start ≤ c.buflen) .outOfBounds
    return (c.slice c.start (c.buflen - c.start) ++ c.slice 0 c.stop, { c with start := c.stop })

/-- The copies of a write that is shorter than the buffer. -/
def place (b : List UInt8) : CircleBuf :=
  if c.stop + b.length ≤ c.buflen then
    { c with buf := copy c.buf c.stop b, stop := c.stop + b.length }
  else
    let endLen := c.buflen - c.stop
    { c with
      buf := copy (copy c.buf c.stop (b.take endLen)) 0 (b.drop endLen)
      stop := b.length - endLen
      rollover := true }

def write (c : CircleBuf) (b : List UInt8) : CircleBuf :=
  if b = [] then c
  else
    let c := { c with size := min (c.size + b.length) c.buflen }
    if c.buflen ≤ b.length then
      { c with
        start := 0
        stop := c.buflen
        rollover := true
        buf := copy c.buf 0 (b.drop (b.length - c.buflen)) }
    else
      let placed := c.place b
      if (c.stop < c.start ∧ c.start < placed.stop) ∨ (c.start < c.stop ∧ placed.stop < c.stop) then
        { placed with start := placed.stop + 1 }
      else placed

inductive Call where
  | write (b : List UInt8)
  | read (len : Nat)
  | readOut
  | flush

def perform : Call → Except MemoryFault (List UInt8 × CircleBuf)
  | .write b => .ok ([], c.write b)
  | .read len => c.read len
  | .readOut => c.readOut
  | .flush => .ok ([], c.flush)

/-- What a call puts out and leaves of a queue of bytes that keeps its last `n`. -/
def expected (n : Nat) (unread : List UInt8) : Call → List UInt8 × List UInt8
  | .write b => ([], (unread ++ b).drop ((unread ++ b).length - n))
  | .read len => (unread.take len, unread.drop len)
  | .readOut => (unread, [])
  | .flush => ([], [])

/-- A buffer with the bytes that are to be unread in it. -/
def performBoth (s : CircleBuf × List UInt8) (call : Call) :
    Except MemoryFault (CircleBuf × List UInt8) := do
  return ((← s.1.perform call).2, (expected s.1.buflen s.2 call).2)

def Initial (n : Nat) (s : CircleBuf × List UInt8) : Prop := ∃ memory, s = (new memory n, [])

def Plain (s : CircleBuf × List UInt8) : Call → Prop
  | .write b => b = [] ∨ s.1.buflen ≤ b.length ∨ s.2 = [] ∨
      s.1.start < s.1.stop ∧ s.1.stop + b.length ≤ s.1.buflen ∨
      s.1.stop < s.1.start ∧ s.1.stop + b.length ≤ s.1.start ∨
      s.1.size + b.length + 1 = s.1.buflen
  | .flush => s.2 = []
  | .read len => s.2 ≠ [] ∨ len = 0 ∧ s.1.start < s.1.buflen
  | .readOut => s.2 ≠ []

instance (s : CircleBuf × List UInt8) (call : Call) : Decidable (Plain s call) := by
  cases call <;> unfold Plain <;> infer_instance

structure Represents (c : CircleBuf) (n : Nat) (unread : List UInt8) : Prop where
  buflen : c.buflen = n
  contents : window c.buf n c.start c.size = unread
  start : c.start ≤ n
  stop : c.stop ≤ n
  cursors : c.size = 0 ∧ c.start = c.stop ∨
    0 < c.size ∧ (c.start < c.stop ∧ c.stop = c.start + c.size ∨
      c.stop ≤ c.start ∧ c.stop + n = c.start + c.size)

theorem slice_eq {c : CircleBuf} {n i len : Nat} (inside : i + len ≤ n) :
    c.slice i len = window c.buf n i len := by
  apply map_congr_left
  intro k member
  rw [Nat.mod_eq_of_lt (by have := mem_range.mp member; omega)]

theorem window_around (data : Nat → UInt8) (n i count : Nat) :
    window data n (n + i) count = window data n i count := by
  rw [← window_mod, Nat.add_mod_left, window_mod]

namespace Represents

variable {c : CircleBuf} {n : Nat} {unread : List UInt8} (holds : Represents c n unread)
include holds

theorem size_eq : c.size = unread.length := by
  rw [← holds.contents, length_window]

theorem size_le : c.size ≤ n := by
  have := holds.start
  have := holds.stop
  rcases holds.cursors with ⟨zero, -⟩ | ⟨-, linear | wrapped⟩ <;> omega

/-- The start moves by `k` bytes, maybe around the end. -/
theorem advance (k start : Nat) (some' : k ≤ c.size) (inside : start ≤ n)
    (moved : start = c.start + k ∨ n + start = c.start + k)
    (cursors : c.size - k = 0 ∧ start = c.stop ∨ 0 < c.size - k ∧
      (start < c.stop ∧ c.stop = start + (c.size - k) ∨ c.stop ≤ start ∧ c.stop + n =
      start + (c.size - k))) :
    window c.buf n c.start k = unread.take k ∧
      Represents { c with size := c.size - k, start } n (unread.drop k) := by
  have parts := window_append c.buf n c.start k (c.size - k)
  rw [Nat.add_sub_cancel' some', holds.contents] at parts
  refine ⟨?_, holds.buflen, ?_, inside, holds.stop, cursors⟩
  · rw [parts, take_left' length_window]
  · rw [parts, drop_left' length_window]
    rcases moved with rfl | around
    · rfl
    · rw [← around, window_around]

theorem read (len : Nat) (some' : unread ≠ [] ∨ len = 0 ∧ c.start < c.buflen) :
    ∃ c', c.read len = .ok (unread.take len, c') ∧ Represents c' n (unread.drop len) := by
  have size := holds.size_eq
  rw [← length_pos_iff] at some'
  obtain ⟨rfl, -, start, stop, cursors⟩ := id holds
  have cut : unread.take len = unread.take (min len c.size) ∧
      unread.drop len = unread.drop (min len c.size) := by
    rcases Nat.le_total len c.size with few | many
    · rw [Nat.min_eq_left few]
      exact ⟨rfl, rfl⟩
    · rw [Nat.min_eq_right many, size, take_length, drop_length,
        take_of_length_le (by omega), drop_of_length_le (by omega)]
      exact ⟨rfl, rfl⟩
  have left : c.size - len = c.size - min len c.size := by omega
  rw [cut.1, cut.2, CircleBuf.read, left]
  simp only
  split_ifs with linear short
  · obtain ⟨taken, holds⟩ := holds.advance (min len c.size) (c.start + min len c.size) (by omega)
      (by omega) (.inl rfl) (by omega)
    rw [← taken, show c.stop - c.start = c.size by omega, slice_eq (n := c.buflen) (by omega)]
    exact ⟨_, rfl, holds⟩
  · obtain ⟨taken, holds⟩ := holds.advance (min len c.size) (c.start + len) (by omega)
      (by omega) (by omega) (by omega)
    rw [← taken, require_of start, ok_bind, slice_eq (n := c.buflen) (by omega)]
    rw [show min len c.size = len by omega] at holds ⊢
    exact ⟨_, rfl, holds⟩
  · obtain ⟨taken, holds⟩ := holds.advance (min len c.size)
      (min (len - (c.buflen - c.start)) c.stop) (by omega) (by omega) (by omega) (by omega)
    have around := window_append c.buf c.buflen c.start (c.buflen - c.start)
      (min (len - (c.buflen - c.start)) c.stop)
    rw [show c.start + (c.buflen - c.start) = c.buflen + 0 by omega, window_around,
      show c.buflen - c.start + min (len - (c.buflen - c.start)) c.stop = min len c.size by omega]
      at around
    rw [← taken, around, require_of start, ok_bind, slice_eq (n := c.buflen) (by omega),
      slice_eq (n := c.buflen) (by omega)]
    exact ⟨_, rfl, holds⟩

theorem readOut (some' : unread ≠ []) :
    ∃ c', c.readOut = .ok (unread, c') ∧ Represents c' n [] := by
  have whole : c.readOut = c.read c.size := by
    have size := holds.size_eq
    have positive := length_pos_iff.mpr some'
    obtain ⟨rfl, -, start, stop, cursors⟩ := holds
    rw [CircleBuf.readOut, CircleBuf.read, Nat.sub_self]
    simp only
    by_cases linear : c.start < c.stop
    · rw [if_pos linear, if_pos linear, show min c.size (c.stop - c.start) = c.stop - c.start by omega,
        Nat.add_sub_cancel' linear.le]
    · rw [if_neg linear, if_neg linear, if_neg (by omega),
        show min (c.size - (c.buflen - c.start)) c.stop = c.stop by omega]
  rw [whole]
  simpa [holds.size_eq] using holds.read c.size (.inl some')

theorem write {b : List UInt8} (plain : Plain (c, unread) (.write b)) :
    Represents (c.write b) n ((unread ++ b).drop ((unread ++ b).length - n)) := by
  have size := holds.size_eq
  have fits := holds.size_le
  obtain ⟨rfl, contents, start, stop, cursors⟩ := id holds
  rw [CircleBuf.write, length_append]
  by_cases none : b = []
  · rw [if_pos none, none, append_nil, length_nil,
      show unread.length + 0 - c.buflen = 0 by omega]
    exact holds
  rw [if_neg none]
  simp only
  by_cases long : c.buflen ≤ b.length
  · rw [if_pos long]
    refine ⟨rfl, ?_, Nat.zero_le _, le_rfl, by simp only; omega⟩
    have length : (b.drop (b.length - c.buflen)).length = c.buflen := by
      rw [length_drop]
      omega
    rw [drop_append, @drop_of_length_le _ _ unread (by omega), nil_append,
      show unread.length + b.length - c.buflen - unread.length = b.length - c.buflen by omega,
      show min (c.size + b.length) c.buflen = 0 + (b.drop (b.length - c.buflen)).length by omega]
    exact window_copy (by omega) rfl (by omega)
  rw [if_neg long]
  have room : c.size = 0 ∨ c.start < c.stop ∧ c.stop + b.length ≤ c.buflen ∨
      c.stop < c.start ∧ c.stop + b.length ≤ c.start ∨ c.size + b.length + 1 = c.buflen := by
    simpa [Plain, none, long, ← length_eq_zero_iff, ← size] using plain
  have behind : c.stop % c.buflen = (c.start + c.size) % c.buflen := by
    rcases Nat.lt_or_ge c.stop (c.start + c.size) with before | after
    · rw [show c.start + c.size = c.stop + c.buflen by omega, Nat.add_mod_right]
    · rw [show c.start + c.size = c.stop by omega]
  rw [show unread.length + b.length - c.buflen = 0 by omega, drop_zero, CircleBuf.place,
    show min (c.size + b.length) c.buflen = c.size + b.length by omega]
  simp only
  by_cases straight : c.stop + b.length ≤ c.buflen
  · rw [if_pos straight, if_neg (by simp only; omega)]
    refine ⟨rfl, ?_, start, straight, by simp only; omega⟩
    rw [window_copy straight behind (by omega), contents]
  · rw [if_neg straight]
    -- a write that leaves one byte free sets the start to where it is
    have kept (stop : Nat) (d : CircleBuf) (isStop : stop + 1 = d.start) :
        { d with start := stop + 1 } = d := by rw [isStop]
    rw [ite_eq_right_iff.mpr fun passed => kept _ _ (by simp only at passed ⊢; omega)]
    refine ⟨rfl, ?_, start, by simp only; omega, by simp only; omega⟩
    have first : (b.take (c.buflen - c.stop)).length = c.buflen - c.stop := by
      rw [length_take]
      omega
    have second := length_drop (i := c.buflen - c.stop) (l := b)
    rw [show c.size + b.length = c.size + (b.take (c.buflen - c.stop)).length +
      (b.drop (c.buflen - c.stop)).length by omega, window_copy (by omega) _ (by omega),
      window_copy (by omega) behind (by omega), contents, append_assoc, take_append_drop]
    rw [first, show c.start + (c.size + (c.buflen - c.stop)) = c.buflen by omega, Nat.mod_self,
      Nat.zero_mod]

theorem perform (call : Call) (plain : Plain (c, unread) call) :
    ∃ c', c.perform call = .ok ((expected n unread call).1, c') ∧
      Represents c' n (expected n unread call).2 := by
  cases call with
  | write b => exact ⟨_, rfl, holds.write plain⟩
  | read len => exact holds.read len plain
  | readOut => exact holds.readOut plain
  | flush =>
    have size := holds.size_eq
    rw [show unread = [] from plain] at size
    refine ⟨_, rfl, holds.buflen, ?_, Nat.zero_le n, Nat.zero_le n, .inl ⟨size, rfl⟩⟩
    exact length_eq_zero_iff.mp (length_window.trans size)

end Represents

/-- After plain calls `size()` is the number of the bytes to be read, and the next one puts out what
the queue does. -/
theorem perform_expected {n : Nat} {s : CircleBuf × List UInt8}
    (reach : ReachableVia (ofFunction (Initial n) performBoth) Plain s) :
    s.1.size = s.2.length ∧ ∀ call, Plain s call →
      ∃ c', s.1.perform call = .ok ((expected n s.2 call).1, c') := by
  have holds : Represents s.1 n s.2 := by
    refine reach.invariant (fun s => Represents s.1 n s.2) ?_ ?_
    · rintro s ⟨memory, rfl⟩
      exact ⟨rfl, rfl, Nat.zero_le n, Nat.zero_le n, .inl ⟨rfl, rfl⟩⟩
    · intro s call next _ plain holds taken
      obtain ⟨c', performed, kept⟩ := holds.perform call plain
      have taken : performBoth s call = .ok next := taken
      rw [performBoth, performed, ok_bind, holds.buflen] at taken
      cases taken
      exact kept
  refine ⟨holds.size_eq, fun call plain => ?_⟩
  obtain ⟨c', performed, -⟩ := holds.perform call plain
  exact ⟨c', performed⟩

theorem perform_expected_wrapped : ∃ s, ReachableVia (ofFunction (Initial 4) performBoth) Plain s ∧
    s.2 = [4, 5] ∧ Plain s (.read 1) ∧ s.1.size = 2 ∧ ∃ c', s.1.perform (.read 1) = .ok ([4], c') := by
  have ran : ([.write [1, 2, 3], .read 2, .readOut, .write [4, 5]].foldlM
      (fun s call => if Plain s call then performBoth s call else .error .assertion)
      (new (fun _ => 0) 4, [])).toOption.any (fun s => s.2 = [4, 5]) = true := by decide +kernel
  obtain ⟨s, reach, unread⟩ := foldlM_check_allowed (Initial 4) ⟨_, rfl⟩ ran
  have unread := of_decide_eq_true unread
  obtain ⟨size, next⟩ := perform_expected reach
  have plain : Plain s (.read 1) := by simp [Plain, unread]
  refine ⟨s, reach, unread, plain, by rw [size, unread]; rfl, ?_⟩
  have := next _ plain
  rwa [unread] at this

/-- A fresh buffer of two bytes puts out both. -/
theorem fresh_readOut : ∃ s, ReachableVia (ofFunction (Initial 2) performBoth) (fun _ _ => True) s ∧
    ∃ c', s.1.perform .readOut = .ok ([0, 0], c') ∧ expected 2 s.2 .readOut = ([], []) :=
  ⟨(new (fun _ => 0) 2, []), .initial ⟨_, rfl⟩, _, rfl, rfl⟩

end CircleBuf
end SynchroTrace.Base
