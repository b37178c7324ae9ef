import Mathlib.Init

namespace RoundRobin
variable {α : Type*} (advance : α → α) (test : α → Bool)

def search : Nat → α → Option α
  | 0, _ => none
  | n + 1, a => if test (advance a) then some (advance a) else search n (advance a)

variable {advance test}

theorem search_test {n : Nat} {a b : α} (h : search advance test n a = some b) : test b = true := by
  induction n generalizing a with
  | zero => cases h
  | succ n ih =>
    unfold search at h
    split at h
    · rename_i passed
      cases h
      exact passed
    · exact ih h

end RoundRobin
