import Mathlib.Algebra.BigOperators.Group.Finset.Piecewise
import Mathlib.Algebra.Group.Nat.Defs
import Mathlib.Tactic.Ring
import SynchroTrace.Ruby.Address

/-!
Histograms that double the size of their bins. The sums for the average and the deviation are left
out, and the counts are natural numbers.
-/

namespace SynchroTrace.Ruby
open Function (update)
open Outcome

inductive HistogramFault where
  | memory (fault : MemoryFault)
  | overflow
  | unfinished
  deriving DecidableEq

/-- A histogram of logarithms, whose `m_binsize` is -1, has no size of its bins. -/
structure Histogram where
  data : Nat → Nat
  max : Nat
  count : Nat
  binsize : Option Nat
  bins : Nat
  largestBin : Nat

namespace Histogram

def clear (binsize : Option Nat) (bins : Nat) : Histogram := ⟨fun _ => 0, 0, 0, binsize, bins, 0⟩

/-- The two loops over the bins, which read and write in one array. -/
def fold (bins : Nat) (data : Nat → Nat) : Nat → Nat :=
  let data := (List.range (bins / 2)).foldl
    (fun data i => update data i (data (i * 2) + data (i * 2 + 1))) data
  (List.range' (bins / 2) (bins - bins / 2)).foldl (fun data i => update data i 0) data

def grow (max bins : Nat) : Nat → (Nat → Nat) → Nat → Except HistogramFault ((Nat → Nat) × Nat)
  | 0, _, _ => .error .unfinished
  | rounds + 1, data, binsize => do
    require (binsize < 2 ^ 31 ∧ bins * binsize < 2 ^ 31) .overflow
    if bins * binsize ≤ max then grow max bins rounds (fold bins data) (binsize * 2)
    else return (data, binsize)

def logIndex (bins : Nat) (value : Nat) : Except HistogramFault Int := do
  if value = 0 then return 0
  else
    let index := (← (floorLog2 value).mapError .memory) + 1
    return if bins ≤ index then bins - 1 else index

variable (h : Histogram)

/-- The bin of a sample, for which the bins may grow. A positive size can be doubled 31 times. -/
def indexOf (value : Nat) : Except HistogramFault (Histogram × Int) :=
  match h.binsize with
  | none => do return (h, ← logIndex h.bins value)
  | some binsize => do
    let (data, binsize) ← grow h.max h.bins 32 h.data binsize
    return ({ h with data, binsize := some binsize }, value / binsize)

def add (value : Int) : Except HistogramFault Histogram := do
  require (0 ≤ value) (.memory .assertion)
  let (h, index) ← indexOf
    { h with max := Nat.max h.max value.toNat, count := h.count + 1 } value.toNat
  require (0 ≤ index) (.memory .assertion)
  require (index < h.bins) (.memory .outOfBounds)
  return { h with
    data := update h.data index.toNat (h.data index.toNat + 1)
    largestBin := Nat.max h.largestBin index.toNat }

def printedBins : List Nat := List.range (min h.bins (h.largestBin + 1))

theorem fold_halves (data : Nat → Nat) (m i : Nat) :
    (List.range m).foldl (fun data i => update data i (data (i * 2) + data (i * 2 + 1))) data i =
      if i < m then data (i * 2) + data (i * 2 + 1) else data i := by
  induction m generalizing i with
  | zero => rfl
  | succ m ih =>
    rw [List.range_succ, List.foldl_append, List.foldl_cons, List.foldl_nil]
    -- what the loop reads at `m` lies at or behind `m`, where it has not written yet
    by_cases here : i = m
    · subst here
      rw [Function.update_self, ih, ih, if_neg (by omega), if_neg (by omega), if_pos (by omega)]
    · rw [Function.update_of_ne here, ih]
      congr 1
      simp only [eq_iff_iff]
      omega

theorem fold_zeros (data : Nat → Nat) (start m i : Nat) :
    (List.range' start m).foldl (fun data i => update data i 0) data i =
      if start ≤ i ∧ i < start + m then 0 else data i := by
  induction m with
  | zero => rw [List.range'_zero, List.foldl_nil, if_neg (by omega)]
  | succ m ih =>
    rw [List.range'_concat, List.foldl_append, List.foldl_cons, List.foldl_nil, Nat.one_mul]
    by_cases here : i = start + m
    · rw [here, Function.update_self, if_pos (by omega)]
    · rw [Function.update_of_ne here, ih]
      congr 1
      simp only [eq_iff_iff]
      omega

theorem fold_eq {bins i : Nat} (data : Nat → Nat) (inside : i < bins) :
    fold bins data i = if i < bins / 2 then data (i * 2) + data (i * 2 + 1) else 0 := by
  rw [fold, fold_zeros, fold_halves]
  by_cases low : i < bins / 2
  · rw [if_neg (by omega), if_pos low, if_pos low]
  · rw [if_pos (by omega), if_neg low]

/-- Bin `i` holds the number of the samples from `i * size` up to `(i + 1) * size`. -/
def Counts (seen : List Nat) (bins size : Nat) (data : Nat → Nat) : Prop :=
  ∀ i < bins, data i = seen.countP (· / size = i)

variable {seen : List Nat} {bins size : Nat} {data : Nat → Nat}

theorem countP_double (seen : List Nat) (i size : Nat) : seen.countP (· / (size * 2) = i) =
    seen.countP (· / size = i * 2) + seen.countP (· / size = i * 2 + 1) := by
  induction seen with
  | nil => rfl
  | cons v rest ih =>
    rw [List.countP_cons, List.countP_cons, List.countP_cons, ih]
    simp only [decide_eq_true_eq, ← Nat.div_div_eq_div_mul]
    split_ifs <;> omega

theorem Counts.fold (counts : Counts seen bins size data) (even : 2 ∣ bins) (positive : 0 < size)
    (below : ∀ v ∈ seen, v < bins * size) : Counts seen bins (size * 2) (fold bins data) := by
  intro i inside
  rw [fold_eq data inside]
  split_ifs with low
  · rw [counts _ (by omega), counts _ (by omega), countP_double]
  · symm
    apply List.countP_eq_zero.mpr
    intro v member
    have := (Nat.div_lt_iff_lt_mul positive).mpr (below v member)
    rw [decide_eq_true_eq, ← Nat.div_div_eq_div_mul]
    omega

theorem Counts.insert (counts : Counts seen bins size data) (v : Nat) :
    Counts (seen ++ [v]) bins size (update data (v / size) (data (v / size) + 1)) := by
  intro i inside
  rw [List.countP_append, ← counts i inside, List.countP_singleton]
  by_cases here : v / size = i
  · subst here
    simp
  · simp [here, Ne.symm here]

theorem Counts.sum (counts : Counts seen bins size data) (inside : ∀ v ∈ seen, v / size < bins) :
    ∑ i ∈ Finset.range bins, data i = seen.length := by
  rw [Finset.sum_congr rfl fun i member => counts i (Finset.mem_range.mp member)]
  clear counts
  induction seen with
  | nil => simp
  | cons v rest ih =>
    obtain ⟨first, others⟩ := List.forall_mem_cons.mp inside
    simp only [List.countP_cons, Finset.sum_add_distrib, ih others, decide_eq_true_eq,
      Finset.sum_ite_eq, Finset.mem_range, first, if_true, List.length_cons]

/-- The loop stops at the first size for which the largest sample has a bin. -/
theorem grow_exact {max last : Nat} (even : 2 ∣ bins) (positive : 0 < size)
    (counts : Counts seen bins size data) (below : ∀ v ∈ seen, v < bins * size)
    (room : max < bins * (size * 2 ^ last)) (small : bins * (size * 2 ^ last) < 2 ^ 31) (rounds : Nat)
    (enough : last < rounds) :
    ∃ data' n, grow max bins rounds data size = .ok (data', size * 2 ^ n) ∧
      Counts seen bins (size * 2 ^ n) data' ∧ max < bins * (size * 2 ^ n) ∧
      ∀ m < n, bins * (size * 2 ^ m) ≤ max := by
  induction rounds generalizing size data last with
  | zero => omega
  | succ rounds ih =>
    have grows : size ≤ size * 2 ^ last := Nat.le_mul_of_pos_right size (Nat.two_pow_pos last)
    have products := Nat.mul_le_mul_left bins grows
    have whole : size * 2 ^ last ≤ bins * (size * 2 ^ last) := by
      apply Nat.le_mul_of_pos_left
      apply Nat.pos_of_mul_pos_right (b := size * 2 ^ last)
      omega
    rw [grow, require_of (by omega), ok_bind]
    split_ifs with above
    · have next (m : Nat) : size * 2 * 2 ^ m = size * 2 ^ (m + 1) := by ring
      cases last with
      | zero =>
        rw [Nat.pow_zero, Nat.mul_one] at room
        omega
      | succ last =>
        rw [← next] at room small
        have wider : bins * size ≤ bins * (size * 2) := Nat.mul_le_mul_left bins (by omega)
        obtain ⟨data', n, ran, counts, fits, first⟩ := ih (by omega)
          (counts.fold even positive below) (fun v member => (below v member).trans_le wider) room
          small (by omega)
        simp only [next] at ran counts fits first
        refine ⟨data', n + 1, ran, counts, fits, fun m before => ?_⟩
        cases m with
        | zero => simpa using above
        | succ m => exact first m (by omega)
    · rw [← Nat.mul_one size] at counts above
      exact ⟨data, 0, by rw [Nat.pow_zero, Nat.mul_one]; rfl, counts, Nat.not_le.mp above, nofun⟩

/-- The exponent is the least for which every sample has a bin. -/
structure Least (samples : List Nat) (bins b k : Nat) : Prop where
  below : ∀ v ∈ samples, v < bins * (b * 2 ^ k)
  least : ∀ j < k, ∃ v ∈ samples, bins * (b * 2 ^ j) ≤ v

structure Exact (seen : List Nat) (bins b k : Nat) (h : Histogram) : Prop where
  binsize : h.binsize = some (b * 2 ^ k)
  sameBins : h.bins = bins
  count : h.count = seen.length
  counts : Counts seen bins (b * 2 ^ k) h.data
  bound : ∀ v ∈ seen, v ≤ h.max
  fits : h.max < bins * (b * 2 ^ k)
  first : ∀ j < k, bins * (b * 2 ^ j) ≤ h.max
  largest : ∀ v ∈ seen, v / (b * 2 ^ k) ≤ h.largestBin

section Samples

variable {b last : Nat} (even : 2 ∣ bins) (positive : 0 < b) (small : bins * (b * 2 ^ last) < 2 ^ 31)
include even positive small

theorem Exact.add {k v : Nat} {h : Histogram} (exact' : Exact seen bins b k h)
    (room : Nat.max h.max v < bins * (b * 2 ^ last)) :
    ∃ h' k', h.add v = .ok h' ∧ h'.max = Nat.max h.max v ∧ Exact (seen ++ [v]) bins b k' h' := by
  obtain ⟨binsize, rfl, count, counts, bound, fits, first, largest⟩ := exact'
  have width (k : Nat) : 0 < b * 2 ^ k := Nat.mul_pos positive (Nat.two_pow_pos k)
  have shift (m : Nat) : b * 2 ^ k * 2 ^ m = b * 2 ^ (k + m) := by ring
  have older : h.max ≤ Nat.max h.max v := Nat.le_max_left ..
  have newer : v ≤ Nat.max h.max v := Nat.le_max_right ..
  have reached : k ≤ last := by
    by_contra later
    have := first last (by omega)
    omega
  obtain ⟨ahead, rfl⟩ := Nat.exists_eq_add_of_le reached
  have few : 2 ^ (k + ahead) < 2 ^ 31 := by
    apply lt_of_le_of_lt _ small
    rw [← Nat.mul_assoc]
    apply Nat.le_mul_of_pos_left
    apply Nat.mul_pos _ positive
    apply Nat.pos_of_mul_pos_right (b := b * 2 ^ (k + ahead))
    omega
  have few := (Nat.pow_lt_pow_iff_right (by decide)).mp few
  rw [← shift] at room small
  obtain ⟨data, n, ran, counts, fits, doubled⟩ := grow_exact even (width k) counts
    (fun v member => (bound v member).trans_lt fits) room small 32 (by omega)
  simp only [shift] at ran counts fits doubled
  have inside : v / (b * 2 ^ (k + n)) < h.bins :=
    (Nat.div_lt_iff_lt_mul (width _)).mpr (newer.trans_lt fits)
  refine ⟨{ h with
    data := update data (v / (b * 2 ^ (k + n))) (data (v / (b * 2 ^ (k + n))) + 1)
    max := Nat.max h.max v
    count := h.count + 1
    binsize := some (b * 2 ^ (k + n))
    largestBin := Nat.max h.largestBin (v / (b * 2 ^ (k + n))) }, k + n, ?_, rfl, ?_⟩
  · simp only [Histogram.add, indexOf, binsize, Int.toNat_natCast, ran, ok_bind, pure_bind,
      ← Int.natCast_ediv]
    rw [require_of (Int.natCast_nonneg v), ok_bind, require_of (Int.natCast_nonneg _), ok_bind,
      require_of (Int.ofNat_lt.mpr inside)]
    rfl
  · constructor
    · rfl
    · rfl
    · simp [count]
    · exact counts.insert v
    · simp only [List.forall_mem_append, List.forall_mem_singleton]
      exact ⟨fun v member => (bound v member).trans older, newer⟩
    · exact fits
    · intro j before
      rcases Nat.lt_or_ge j k with early | late
      · exact (first j early).trans older
      · obtain ⟨m, rfl⟩ := Nat.exists_eq_add_of_le late
        exact doubled m (by omega)
    · simp only [List.forall_mem_append, List.forall_mem_singleton]
      refine ⟨fun v member => ?_, Nat.le_max_right ..⟩
      rw [← shift, ← Nat.div_div_eq_div_mul]
      exact ((Nat.div_le_self ..).trans (largest v member)).trans (Nat.le_max_left ..)

theorem exists_exact (some' : 0 < bins) (samples : List Nat)
    (below : ∀ v ∈ samples, v < bins * (b * 2 ^ last)) :
    ∃ h k, samples.foldlM (fun h v => h.add (v : Nat)) (clear (some b) bins) = .ok h ∧
      h.max < bins * (b * 2 ^ last) ∧ Exact samples bins b k h := by
  induction samples using List.reverseRecOn with
  | nil =>
    have width : 0 < bins * b := Nat.mul_pos some' positive
    refine ⟨_, 0, rfl, Nat.mul_pos some' (Nat.mul_pos positive (Nat.two_pow_pos last)), ?_⟩
    constructor <;> simp [clear, Counts, width]
  | append_singleton samples v ih =>
    simp only [List.forall_mem_append, List.forall_mem_singleton] at below
    obtain ⟨h, k, ran, room, exact'⟩ := ih below.1
    have room' : Nat.max h.max v < bins * (b * 2 ^ last) := Nat.max_lt.mpr ⟨room, below.2⟩
    obtain ⟨h', k', added, max, exact'⟩ := exact'.add even positive small room'
    refine ⟨h', k', ?_, max ▸ room', exact'⟩
    rw [List.foldlM_append, ran, ok_bind, List.foldlM_cons, added]
    rfl

end Samples

theorem linear_exact (bins b : Nat) (even : 2 ∣ bins) (positive : 0 < b) (samples : List Nat) (k : Nat)
    (least : Least samples bins b k) (small : bins * (b * 2 ^ k) < 2 ^ 31) :
    ∃ h, samples.foldlM (fun h v => h.add (v : Nat)) (clear (some b) bins) = .ok h ∧
      h.binsize = some (b * 2 ^ k) ∧ Counts samples bins (b * 2 ^ k) h.data ∧
      h.count = samples.length ∧ ∑ i ∈ Finset.range bins, h.data i = h.count ∧
      ∀ i < bins, h.data i ≠ 0 → i ≤ h.largestBin ∧ i ∈ h.printedBins := by
  obtain ⟨below, least⟩ := least
  rcases Nat.eq_zero_or_pos bins with rfl | some'
  · -- without bins there are no samples
    have none : samples = [] := List.eq_nil_iff_forall_not_mem.mpr fun v member => by
      simpa using below v member
    subst none
    have none : k = 0 := by
      by_contra positive
      obtain ⟨v, member, -⟩ := least 0 (by omega)
      exact List.not_mem_nil member
    subst none
    exact ⟨_, rfl, by simp [clear], nofun, rfl, rfl, nofun⟩
  obtain ⟨h, k', ran, room, exact'⟩ := exists_exact even positive small some' samples below
  have same : k' = k := by
    rcases Nat.lt_trichotomy k' k with early | same | late
    · obtain ⟨v, member, high⟩ := least k' early
      have := exact'.bound v member
      have := exact'.fits
      omega
    · exact same
    · have := exact'.first k late
      omega
  subst same
  have inside : ∀ v ∈ samples, v / (b * 2 ^ k') < bins := fun v member =>
    (Nat.div_lt_iff_lt_mul (Nat.mul_pos positive (Nat.two_pow_pos k'))).mpr (below v member)
  refine ⟨h, ran, exact'.binsize, exact'.counts, exact'.count, ?_, fun i inside used => ?_⟩
  · rw [exact'.count]
    exact exact'.counts.sum inside
  · rw [exact'.counts i inside] at used
    obtain ⟨v, member, own⟩ := List.countP_pos_iff.mp (Nat.pos_of_ne_zero used)
    have least := exact'.largest v member
    rw [of_decide_eq_true own] at least
    refine ⟨least, List.mem_range.mpr ?_⟩
    rw [exact'.sameBins]
    omega

/-- 9 doubles the bins of size 1 twice. -/
theorem linear_exact_doubled : ∃ h,
    [1, 9, 3].foldlM (fun h v => h.add (v : Nat)) (clear (some 1) 4) = .ok h ∧
      h.binsize = some 4 ∧ Counts [1, 9, 3] 4 4 h.data ∧ h.count = 3 ∧
      ∑ i ∈ Finset.range 4, h.data i = h.count ∧
      ∀ i < 4, h.data i ≠ 0 → i ≤ h.largestBin ∧ i ∈ h.printedBins :=
  linear_exact 4 1 (by decide) (by decide) [1, 9, 3] 2 ⟨by decide, by decide⟩ (by decide)

end Histogram
end SynchroTrace.Ruby
