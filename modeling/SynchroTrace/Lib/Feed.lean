import Mathlib.Data.List.Basic

/-!
A queue that is fed from a finite source. When it holds fewer than `low` items a block of the
source is appended to it; `low` is at most the block size.
-/

namespace Feed
open List

variable {α : Type*} {low block : Nat}

structure Buffer (α : Type*) where
  queue : List α
  source : List α

def Buffer.contents (b : Buffer α) : List α := b.queue ++ b.source

def Buffer.refill (low block : Nat) (b : Buffer α) : Buffer α :=
  if b.queue.length < low then ⟨b.queue ++ b.source.take block, b.source.drop block⟩ else b

/-- The queue is within its capacity, and is short only when the source is used up. -/
structure WellFed (low block : Nat) (b : Buffer α) : Prop where
  bounded : b.queue.length ≤ block + low
  short : b.queue.length < low → b.source = []

theorem refill_contents (b : Buffer α) : (b.refill low block).contents = b.contents := by
  unfold Buffer.refill Buffer.contents
  split
  · simp only [append_assoc, take_append_drop]
  · rfl

variable {b : Buffer α}

theorem refill_wellFed (fits : low ≤ block)
    (bounded : b.queue.length ≤ block + low) : WellFed low block (b.refill low block) := by
  unfold Buffer.refill
  split
  · rename_i short
    constructor
    · simp only [length_append, length_take]
      omega
    · intro still
      simp only [length_append, length_take] at still
      have used : b.source.length ≤ block := by omega
      exact drop_of_length_le used
  · rename_i enough
    exact ⟨bounded, fun short => absurd short enough⟩

theorem WellFed.refill (fits : low ≤ block) (fed : WellFed low block b) :
    WellFed low block (b.refill low block) :=
  refill_wellFed fits fed.bounded

theorem WellFed.contents_eq_nil (positive : 0 < low) (fed : WellFed low block b) :
    b.contents = [] ↔ b.queue = [] := by
  unfold Buffer.contents
  constructor
  · intro none
    exact (append_eq_nil_iff.mp none).1
  · intro none
    have used := fed.short (by simp [none, positive])
    simp [none, used]

/-- The head is taken and the queue refilled, unless the head was the last item of the queue. -/
def Buffer.next (low block : Nat) (rest : List α) (b : Buffer α) : Buffer α :=
  if rest = [] then ⟨rest, b.source⟩ else Buffer.refill low block ⟨rest, b.source⟩

theorem next_contents {x : α} {rest : List α} (head : b.queue = x :: rest) :
    b.contents = x :: (b.next low block rest).contents := by
  unfold Buffer.next
  split
  · simp [Buffer.contents, head]
  · rw [refill_contents]
    simp [Buffer.contents, head]

/-- Not refilling an empty queue does no harm: when its last item is taken the source has been
used up already. -/
theorem WellFed.next (fits : low ≤ block) (several : 1 < low) {x : α}
    {rest : List α} (fed : WellFed low block b) (head : b.queue = x :: rest) :
    WellFed low block (b.next low block rest) := by
  have bounded : rest.length ≤ block + low := by
    have := fed.bounded
    rw [head, length_cons] at this
    omega
  unfold Buffer.next
  split
  · rename_i last
    subst last
    have used := fed.short (by simpa [head] using several)
    exact ⟨bounded, fun _ => used⟩
  · exact refill_wellFed fits bounded

end Feed
