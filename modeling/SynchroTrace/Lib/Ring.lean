import Mathlib.Data.Nat.ModEq
import Mathlib.Logic.Function.Basic

namespace Ring

variable {α : Type*} {data : Nat → α} {n start count : Nat}

/-- The contents of `count` slots of a ring of `n` slots, from `start` on. -/
def window (data : Nat → α) (n start count : Nat) : List α :=
  (List.range count).map fun k => data ((start + k) % n)

@[simp] theorem length_window : (window data n start count).length = count := by
  simp [window]

variable {k i : Nat}

theorem getElem?_window (inside : k < count) :
    (window data n start count)[k]? = some (data ((start + k) % n)) := by
  simp [window, inside]

theorem window_concat :
    window data n start (count + 1) = window data n start count ++ [data ((start + count) % n)] := by
  simp [window, List.range_succ]

theorem window_mod : window data n (start % n) count = window data n start count := by
  simp [window]

theorem window_cons :
    window data n start (count + 1) = data (start % n) :: window data n (start + 1) count := by
  simp [window, List.range_succ_eq_map, Nat.add_assoc, Nat.add_comm 1]

theorem window_congr {data' : Nat → α} (pos : 0 < n) (same : ∀ i < n, data' i = data i) :
    window data' n start count = window data n start count :=
  List.map_congr_left fun _ _ => same _ (Nat.mod_lt _ pos)

theorem slot_ne {j : Nat} (lt : i < j) (near : j < i + n) : i % n ≠ j % n := by
  intro same
  have divides := (Nat.modEq_iff_dvd' lt.le).mp same
  have := Nat.le_of_dvd (by omega) divides
  omega

theorem window_update (x : α) (behind : start + count ≤ i) (near : i < start + n) :
    window (Function.update data (i % n) x) n start count = window data n start count := by
  refine List.map_congr_left fun k inside => ?_
  have inside := List.mem_range.mp inside
  exact Function.update_of_ne (slot_ne (by omega) (by omega)) ..

theorem window_push_last (x : α) (room : count < n) :
    window (Function.update data ((start + count) % n) x) n start (count + 1) =
      window data n start count ++ [x] := by
  rw [window_concat, Function.update_self, window_update x le_rfl (by omega)]

theorem window_push_first (x : α) (room : count < n) :
    window (Function.update data (start % n) x) n start (count + 1) =
      x :: window data n (start + 1) count := by
  rw [window_cons, Function.update_self]
  congr 1
  rw [← Nat.add_mod_right start n]
  exact window_update x (by omega) (by omega)

theorem window_set (x : α) (inside : k < count) (fits : count ≤ n) :
    window (Function.update data ((start + k) % n) x) n start count =
      (window data n start count).set k x := by
  refine List.ext_getElem? fun j => ?_
  by_cases range : j < count
  · rw [getElem?_window range, List.getElem?_set, getElem?_window range]
    by_cases here : k = j
    · simp [here, range]
    · have apart : (start + j) % n ≠ (start + k) % n := by
        obtain lt | lt := Nat.lt_or_gt_of_ne here
        · exact (slot_ne (by omega) (by omega)).symm
        · exact slot_ne (by omega) (by omega)
      rw [if_neg here, Function.update_of_ne apart]
  · rw [List.getElem?_eq_none (by simpa using range), List.getElem?_eq_none (by simpa using range)]

theorem window_append (data : Nat → α) (n start i j : Nat) :
    window data n start (i + j) = window data n start i ++ window data n (start + i) j := by
  simp [window, List.range_add, Nat.add_assoc]

def copy (data : Nat → α) (i : Nat) : List α → Nat → α
  | [] => data
  | x :: xs => copy (Function.update data i x) (i + 1) xs

theorem window_copy {xs : List α} (inside : i + xs.length ≤ n)
    (behind : i % n = (start + count) % n) (room : count + xs.length ≤ n) :
    window (copy data i xs) n start (count + xs.length) = window data n start count ++ xs := by
  induction xs generalizing data i count with
  | nil => simp [copy]
  | cons x xs ih =>
    rw [List.length_cons] at inside room
    have here : i = (start + count) % n := by rw [← behind, Nat.mod_eq_of_lt (by omega)]
    have next : (i + 1) % n = (start + (count + 1)) % n := by
      rw [Nat.add_mod, behind, ← Nat.add_mod, Nat.add_assoc]
    rw [copy, List.length_cons, Nat.add_comm xs.length, ← Nat.add_assoc,
      ih (by omega) next (by omega), here, window_push_last x (by omega), List.append_assoc]
    rfl

end Ring
