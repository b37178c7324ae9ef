import Mathlib.Data.List.Basic
import Mathlib.Tactic.Common

/-!
A virtual channel with credits, by the counters of the packet on it. The credit for its last piece
frees the channel.
-/

namespace Channel
open List
variable {P : Type*}

structure State (P : Type*) where
  /-- The packet that has the channel, or had it last, and the number of its pieces. -/
  packet : P
  size : Nat
  busy : Bool
  sent : Nat
  arrived : Nat
  taken : Nat
  credits : Int
  /-- Credits on their way back, without and with the free signal. -/
  plain : Nat
  freeing : Nat

def segment (packet : P) (size first last : Nat) : List (P × Nat × Nat) :=
  (List.range' first (last - first)).map fun i => (packet, size, i)

@[simp] theorem segment_self (packet : P) (size k : Nat) : segment packet size k k = [] := by
  simp [segment]

theorem segment_length (packet : P) (size first last : Nat) :
    (segment packet size first last).length = last - first := by
  simp [segment]

variable {size first last : Nat}

theorem segment_cons (packet : P) (less : first < last) :
    segment packet size first last = (packet, size, first) :: segment packet size (first + 1) last := by
  obtain ⟨k, rfl⟩ : ∃ k, last = first + 1 + k := ⟨last - (first + 1), by omega⟩
  have total : first + 1 + k - first = k + 1 := by omega
  simp [segment, total, range'_succ]

theorem segment_concat (packet : P) (le : first ≤ last) :
    segment packet size first (last + 1) = segment packet size first last ++ [(packet, size, last)] := by
  obtain ⟨k, rfl⟩ := Nat.exists_eq_add_of_le le
  have total : first + k + 1 - first = k + 1 := by omega
  simp [segment, total, range'_concat]

variable {packet : P}

theorem segment_eq_nil_iff :
    segment packet size first last = [] ↔ last ≤ first := by
  rw [← length_eq_zero_iff, segment_length]
  omega

variable {piece : P × Nat × Nat}

theorem mem_segment :
    piece ∈ segment packet size first last ↔
      piece.1 = packet ∧ piece.2.1 = size ∧ first ≤ piece.2.2 ∧ piece.2.2 < last := by
  obtain ⟨p, n, i⟩ := piece
  simp only [segment, mem_map, mem_range'_1, Prod.mk.injEq]
  constructor
  · rintro ⟨i, bounds, rfl, rfl, rfl⟩
    exact ⟨rfl, rfl, bounds.1, by omega⟩
  · rintro ⟨rfl, rfl, low, high⟩
    exact ⟨i, ⟨low, by omega⟩, rfl, rfl, rfl⟩

theorem cons_eq_segment
    {rest : List (P × Nat × Nat)} (h : piece :: rest = segment packet size first last) :
    first < last ∧ piece = (packet, size, first) ∧ rest = segment packet size (first + 1) last := by
  have less : first < last := by
    by_contra le
    rw [segment_eq_nil_iff.mpr (by omega)] at h
    cases h
  rw [segment_cons packet less] at h
  cases h
  exact ⟨less, rfl, rfl⟩

theorem append_cons_eq_segment {before after : List (P × Nat × Nat)}
    (h : before ++ piece :: after = segment packet size first last) :
    piece = (packet, size, first + before.length) := by
  induction before generalizing first with
  | nil => exact (cons_eq_segment h).2.1
  | cons other rest ih =>
    obtain ⟨_, _, tail⟩ := cons_eq_segment h
    rw [ih tail, length_cons]
    congr 2
    omega

theorem segment_increasing (packet : P) (size first last : Nat) :
    (segment packet size first last).Pairwise fun a b => a.2.2 < b.2.2 :=
  pairwise_map.mpr (pairwise_lt_range' ..)

namespace State

variable (c : State P)

@[simps] def acquire (packet : P) (size : Nat) : State P :=
  { c with packet, size, busy := true, sent := 0, arrived := 0, taken := 0 }

@[simps] def send : State P := { c with sent := c.sent + 1, credits := c.credits - 1 }

@[simps] def arrive : State P := { c with arrived := c.arrived + 1 }

def atLast : Bool := c.taken + 1 = c.size

@[simps] def take : State P :=
  { c with
    taken := c.taken + 1
    plain := c.plain + if c.atLast then 0 else 1
    freeing := c.freeing + if c.atLast then 1 else 0 }

@[simps] def credit : State P := { c with plain := c.plain - 1, credits := c.credits + 1 }

@[simps] def free : State P :=
  { c with freeing := c.freeing - 1, credits := c.credits + 1, busy := false }

def Open : Prop := 0 < c.arrived ∧ c.taken < c.size

/-- Pieces are not taken before they arrive nor arrive before they are sent; the free signal is on
its way from when the last one is taken; and no credit is lost. -/
structure Valid (depth : Nat) (c : State P) : Prop where
  taken_le : c.taken ≤ c.arrived
  arrived_le : c.arrived ≤ c.sent
  sent_le : c.sent ≤ c.size
  idle : c.busy = false → c.taken = c.size
  freeing : c.freeing = if c.busy ∧ 0 < c.size ∧ c.taken = c.size then 1 else 0
  balance : c.credits + (c.sent - c.taken : Nat) + c.plain + c.freeing = depth

namespace Valid
variable {depth : Nat} {c : State P}

variable (valid : c.Valid depth)
include valid

theorem acquire (idle : c.busy = false) (packet : P) (size : Nat) :
    (c.acquire packet size).Valid depth where
  taken_le := Nat.le_refl 0
  arrived_le := Nat.le_refl 0
  sent_le := Nat.zero_le _
  idle := by simp [State.acquire]
  freeing := by
    have none := valid.freeing
    simp only [idle, Bool.false_eq_true, false_and, ↓reduceIte] at none
    have : ¬ (0 < size ∧ 0 = size) := by omega
    simp [State.acquire, none, this]
  balance := by
    have balance := valid.balance
    have := valid.idle idle
    have := valid.sent_le
    have all : c.sent - c.taken = 0 := by omega
    simpa [State.acquire, all] using balance

theorem send (less : c.sent < c.size) : c.send.Valid depth where
  taken_le := valid.taken_le
  arrived_le := Nat.le_succ_of_le valid.arrived_le
  sent_le := less
  idle := valid.idle
  freeing := valid.freeing
  balance := by
    have := valid.balance
    have := valid.taken_le
    have := valid.arrived_le
    simp only [State.send]
    omega

theorem arrive (less : c.arrived < c.sent) : c.arrive.Valid depth where
  taken_le := Nat.le_succ_of_le valid.taken_le
  arrived_le := less
  sent_le := valid.sent_le
  idle := valid.idle
  freeing := valid.freeing
  balance := valid.balance

theorem busy_of_taken_lt (less : c.taken < c.size) : c.busy = true := by
  by_contra idle
  have := valid.idle (by simpa using idle)
  omega

theorem take (less : c.taken < c.arrived) : c.take.Valid depth := by
  have arrived := valid.arrived_le
  have sent := valid.sent_le
  have busy := valid.busy_of_taken_lt (by omega)
  have freeing := valid.freeing
  have notYet : ¬ (0 < c.size ∧ c.taken = c.size) := by omega
  simp only [busy, true_and, notYet, ↓reduceIte] at freeing
  have balance := valid.balance
  refine ⟨less, arrived, sent, ?_, ?_, ?_⟩
  · simp [State.take, busy]
  · by_cases last : c.taken + 1 = c.size
    · have positive : 0 < c.size := by omega
      simp [State.take, State.atLast, busy, freeing, last, positive]
    · simp [State.take, State.atLast, freeing, last]
  · simp only [State.take, State.atLast]
    by_cases last : c.taken + 1 = c.size
    · simp only [last, decide_true, ↓reduceIte]
      omega
    · simp only [last, decide_false, Bool.false_eq_true, ↓reduceIte]
      omega

theorem credit (some : 0 < c.plain) : c.credit.Valid depth where
  taken_le := valid.taken_le
  arrived_le := valid.arrived_le
  sent_le := valid.sent_le
  idle := valid.idle
  freeing := valid.freeing
  balance := by
    have := valid.balance
    simp only [State.credit]
    omega

theorem of_freeing (some : 0 < c.freeing) :
    c.busy = true ∧ c.freeing = 1 ∧ c.taken = c.size ∧ c.sent = c.size := by
  have freeing := valid.freeing
  have := valid.taken_le
  have := valid.arrived_le
  have := valid.sent_le
  split at freeing
  · rename_i last
    exact ⟨last.1, freeing, last.2.2, by omega⟩
  · omega

theorem free (some : 0 < c.freeing) : c.free.Valid depth := by
  obtain ⟨_, one, last, _⟩ := valid.of_freeing some
  refine ⟨valid.taken_le, valid.arrived_le, valid.sent_le, fun _ => last, ?_, ?_⟩
  · simp [State.free, one]
  · have := valid.balance
    simp only [State.free]
    omega

theorem taken_eq_arrived (closed : ¬ c.Open) : c.taken = c.arrived := by
  have := valid.taken_le
  have := valid.arrived_le
  have := valid.sent_le
  unfold State.Open at closed
  omega

end Valid
end State
end Channel
