import SynchroTrace.Lib.PriorityQueue
import SynchroTrace.Lib.Transition
import SynchroTrace.Ruby.Address

namespace SynchroTrace.Cpu
open Function (update update_of_ne update_self)
open Outcome Transition List
open Ruby (isPowerOf2)

inductive StoreSetFault where
  | fatal
  | assertion
  | unfinished
  deriving DecidableEq

/-- The order of `ltseqnum`: sequence numbers fall. -/
def Later (a b : Nat × Nat) : Prop := b.1 ≤ a.1

instance : DecidableRel Later := fun a b => inferInstanceAs (Decidable (b.1 ≤ a.1))

instance : IsTrans (Nat × Nat) Later := ⟨fun _ _ _ first second => Nat.le_trans second first⟩

instance : Std.Total Later := ⟨fun a b => Nat.le_total b.1 a.1⟩

structure StoreSet where
  clearPeriod : Nat
  ssitSize : Nat
  lfstSize : Nat
  ssit : Nat → Nat
  validSSIT : Nat → Bool
  lfst : Nat → Nat
  validLFST : Nat → Bool
  storeList : PriorityQueue Later
  memOpsPred : Nat

namespace StoreSet

def construct (clearPeriod : Nat) (ssitSize lfstSize : BitVec 32) :
    Except StoreSetFault StoreSet := do
  require (isPowerOf2 ssitSize) .fatal
  require (isPowerOf2 lfstSize) .fatal
  return ⟨clearPeriod, ssitSize.toNat, lfstSize.toNat, fun _ => 0, fun _ => false, fun _ => 0,
    fun _ => false, .empty, 0⟩

section
variable (s : StoreSet)

def calcIndex (pc : Nat) : Nat := (pc >>> 2) &&& (s.ssitSize - 1)

def calcSSID (pc : Nat) : Nat := (pc ^^^ (pc >>> 10)) % s.lfstSize

def assign (index ssid : Nat) : StoreSet :=
  { s with ssit := update s.ssit index ssid, validSSIT := update s.validSSIT index true }

def violation (storePC loadPC : Nat) : Except StoreSetFault StoreSet := do
  let loadIndex := s.calcIndex loadPC
  let storeIndex := s.calcIndex storePC
  require (loadIndex < s.ssitSize ∧ storeIndex < s.ssitSize) .assertion
  let loadSSID := s.ssit loadIndex
  let storeSSID := s.ssit storeIndex
  if s.validSSIT loadIndex then
    require (loadSSID < s.lfstSize) .assertion
    if s.validSSIT storeIndex then
      require (storeSSID < s.lfstSize) .assertion
      -- the set with the lower number wins
      if loadSSID < storeSSID then return s.assign storeIndex loadSSID
      else return s.assign loadIndex storeSSID
    else return s.assign storeIndex loadSSID
  else if s.validSSIT storeIndex then return s.assign loadIndex storeSSID
  else
    let newSet := s.calcSSID loadPC
    require (newSet < s.lfstSize) .assertion
    return (s.assign loadIndex newSet).assign storeIndex newSet

def clear : StoreSet :=
  { s with validSSIT := fun _ => false, validLFST := fun _ => false, storeList := .empty }

def checkClear : StoreSet :=
  if s.clearPeriod < s.memOpsPred + 1 then clear { s with memOpsPred := 0 }
  else { s with memOpsPred := s.memOpsPred + 1 }

/-- `storeList` without a sequence number. -/
def without (seqNum : Nat) : PriorityQueue Later :=
  ⟨s.storeList.items.filter (·.1 ≠ seqNum), s.storeList.ordered.filter _⟩

def insertStore (pc seqNum : Nat) : Except StoreSetFault StoreSet := do
  let s := s.checkClear
  let index := s.calcIndex pc
  require (index < s.ssitSize) .assertion
  if s.validSSIT index then
    require (s.ssit index < s.lfstSize) .assertion
    return { s with
      lfst := update s.lfst (s.ssit index) seqNum
      validLFST := update s.validLFST (s.ssit index) true
      storeList := (s.without seqNum).insert (seqNum, s.ssit index) }
  else return s

def issued (pc seqNum : Nat) (isStore : Bool) : Except StoreSetFault StoreSet := do
  if isStore then
    let index := s.calcIndex pc
    require (index < s.ssitSize) .assertion
    let s := { s with storeList := s.without seqNum }
    if s.validSSIT index then
      require (s.ssit index < s.lfstSize) .assertion
      if s.validLFST (s.ssit index) ∧ s.lfst (s.ssit index) = seqNum then
        return { s with validLFST := update s.validLFST (s.ssit index) false }
      else return s
    else return s
  else return s

def checkInst (pc : Nat) : Except StoreSetFault Nat := do
  let index := s.calcIndex pc
  require (index < s.ssitSize) .assertion
  if s.validSSIT index then
    require (s.ssit index < s.lfstSize) .assertion
    if s.validLFST (s.ssit index) then return s.lfst (s.ssit index) else return 0
  else return 0

/-- The loop looks at the first store of the list in every round. -/
def squash (s : StoreSet) (squashedNum : Nat) : Nat → Except StoreSetFault StoreSet
  | 0 => .error .unfinished
  | rounds + 1 =>
    match s.storeList.items with
    | [] => .ok s
    | (seqNum, idx) :: _ =>
      if seqNum ≤ squashedNum then .ok s
      else if squashedNum < s.lfst idx then
        if s.validLFST idx then
          squash { s with
            validLFST := update s.validLFST idx false
            storeList := s.storeList.pop } squashedNum rounds
        else squash { s with storeList := s.storeList.pop } squashedNum rounds
      else squash s squashedNum rounds

end

inductive Call where
  | violation (storePC loadPC : Nat)
  | insertLoad
  | insertStore (pc seqNum : Nat)
  | issued (pc seqNum : Nat) (isStore : Bool)
  | clear
  | squash (squashedNum : Nat)

def perform (s : StoreSet) : Call → Except StoreSetFault StoreSet
  | .violation storePC loadPC => s.violation storePC loadPC
  | .insertLoad => .ok s.checkClear
  | .insertStore pc seqNum => s.insertStore pc seqNum
  | .issued pc seqNum isStore => s.issued pc seqNum isStore
  | .clear => .ok s.clear
  | .squash squashedNum => s.squash squashedNum (s.storeList.items.length + 1)

def Initial (s : StoreSet) : Prop := ∃ clearPeriod ssitSize lfstSize,
  construct clearPeriod ssitSize lfstSize = .ok s

def storeSet : System StoreSet Call := ofFunction Initial perform

/-- A new store of a set is younger than those listed for it, and a store that is the last of a set
issues while it is still in it. -/
def Orderly (s : StoreSet) : Call → Prop
  | .insertStore pc seqNum => s.checkClear.validSSIT (s.calcIndex pc) →
      ∀ x ∈ s.checkClear.storeList.items,
        x.1 ≠ seqNum ∧ (x.2 = s.ssit (s.calcIndex pc) → x.1 ≤ seqNum)
  | .issued pc seqNum isStore => isStore → ∀ x ∈ s.storeList.items, x.1 = seqNum →
      s.validLFST x.2 → s.lfst x.2 = seqNum →
        s.validSSIT (s.calcIndex pc) ∧ s.ssit (s.calcIndex pc) = x.2
  | _ => True

instance (s : StoreSet) (call : Call) : Decidable (Orderly s call) := by
  cases call <;> unfold Orderly <;> infer_instance

structure Tracked (s : StoreSet) : Prop where
  latest : ∀ x ∈ s.storeList.items, x.1 ≤ s.lfst x.2
  listed : ∀ i, s.validLFST i → (s.lfst i, i) ∈ s.storeList.items

namespace Tracked

variable {s next : StoreSet}

theorem congr (tracked : Tracked s) (lfst : next.lfst = s.lfst)
    (valid : next.validLFST = s.validLFST) (storeList : next.storeList = s.storeList) :
    Tracked next := by
  constructor
  · rw [storeList, lfst]
    exact tracked.latest
  · rw [storeList, lfst, valid]
    exact tracked.listed

theorem cleared (s : StoreSet) : Tracked s.clear := ⟨nofun, nofun⟩

theorem violation {storePC loadPC : Nat} (tracked : Tracked s)
    (h : s.violation storePC loadPC = .ok next) : Tracked next := by
  have assigned {index ssid : Nat} (tracked : Tracked s) : Tracked (s.assign index ssid) :=
    tracked.congr rfl rfl rfl
  obtain ⟨_, _, h⟩ := bind_ok h
  split at h
  · obtain ⟨_, _, h⟩ := bind_ok h
    split at h
    · obtain ⟨_, _, h⟩ := bind_ok h
      split at h
      · exact pure_ok h ▸ assigned tracked
      · exact pure_ok h ▸ assigned tracked
    · exact pure_ok h ▸ assigned tracked
  · split at h
    · exact pure_ok h ▸ assigned tracked
    · obtain ⟨_, _, h⟩ := bind_ok h
      exact pure_ok h ▸ tracked.congr rfl rfl rfl

theorem checkClear (tracked : Tracked s) : Tracked s.checkClear := by
  rw [StoreSet.checkClear]
  split
  · exact cleared _
  · exact tracked.congr rfl rfl rfl

theorem insertStore {pc seqNum : Nat} (tracked : Tracked s)
    (orderly : Orderly s (.insertStore pc seqNum)) (h : s.insertStore pc seqNum = .ok next) :
    Tracked next := by
  have index : s.checkClear.calcIndex pc = s.calcIndex pc := by
    rw [StoreSet.checkClear]
    split <;> rfl
  have ssit : s.checkClear.ssit = s.ssit := by
    rw [StoreSet.checkClear]
    split <;> rfl
  have tracked := tracked.checkClear
  rw [Orderly, ← ssit, ← index] at orderly
  rw [StoreSet.insertStore] at h
  generalize s.checkClear = s at h tracked orderly
  obtain ⟨_, _, h⟩ := bind_ok h
  split at h
  · rename_i isValid
    have orderly := orderly isValid
    obtain ⟨_, _, h⟩ := bind_ok h
    obtain rfl := pure_ok h
    generalize s.ssit (s.calcIndex pc) = ssid at orderly
    constructor
    · intro x member
      dsimp only at member ⊢
      rcases PriorityQueue.mem_insert.mp member with rfl | member
      · rw [update_self]
      · have member := (mem_filter.mp member).1
        by_cases same : x.2 = ssid
        · rw [same, update_self]
          exact (orderly x member).2 same
        · rw [update_of_ne same]
          exact tracked.latest x member
    · intro i valid
      dsimp only at valid ⊢
      apply PriorityQueue.mem_insert.mpr
      by_cases same : i = ssid
      · rw [same, update_self]
        exact .inl rfl
      · rw [update_of_ne same] at valid ⊢
        have member := tracked.listed i valid
        exact .inr (mem_filter.mpr ⟨member, decide_eq_true (orderly _ member).1⟩)
  · exact pure_ok h ▸ tracked

theorem shrink {valid : Nat → Bool} {list : PriorityQueue Later} (tracked : Tracked s)
    (fewer : ∀ x ∈ list.items, x ∈ s.storeList.items) (kept : ∀ i, valid i → s.validLFST i ∧
      ((s.lfst i, i) ∈ s.storeList.items → (s.lfst i, i) ∈ list.items)) :
    Tracked { s with validLFST := valid, storeList := list } :=
  ⟨fun x member => tracked.latest x (fewer x member),
    fun i held => (kept i held).2 (tracked.listed i (kept i held).1)⟩

theorem issued {pc seqNum : Nat} {isStore : Bool} (tracked : Tracked s)
    (orderly : Orderly s (.issued pc seqNum isStore)) (h : s.issued pc seqNum isStore = .ok next) :
    Tracked next := by
  have removed (valid : Nat → Bool) (kept : ∀ i, valid i → s.validLFST i ∧ s.lfst i ≠ seqNum) :
      Tracked { s with validLFST := valid, storeList := s.without seqNum } := by
    apply tracked.shrink
    · intro x member
      exact (mem_filter.mp member).1
    · intro i held
      obtain ⟨valid, other⟩ := kept i held
      exact ⟨valid, fun member => mem_filter.mpr ⟨member, decide_eq_true other⟩⟩
  cases isStore with
  | false => exact pure_ok h ▸ tracked
  | true =>
    have home i (valid : s.validLFST i) (last : s.lfst i = seqNum) :=
      orderly rfl (s.lfst i, i) (tracked.listed i valid) last valid last
    obtain ⟨_, _, h⟩ := bind_ok h
    dsimp only at h
    split at h
    · obtain ⟨_, _, h⟩ := bind_ok h
      split at h
      · obtain rfl := pure_ok h
        apply removed
        intro i valid
        by_cases same : i = s.ssit (s.calcIndex pc)
        · rw [same, update_self] at valid
          cases valid
        · rw [update_of_ne same] at valid
          exact ⟨valid, fun last => same (home i valid last).2.symm⟩
      · rename_i mine
        obtain rfl := pure_ok h
        apply removed
        intro i valid
        refine ⟨valid, fun last => mine ?_⟩
        rw [(home i valid last).2]
        exact ⟨valid, last⟩
    · rename_i unset
      obtain rfl := pure_ok h
      exact removed _ fun i valid => ⟨valid, fun last => unset (home i valid last).1⟩

theorem squash (n : Nat) {rounds : Nat} (tracked : Tracked s)
    (enough : s.storeList.items.length < rounds) :
    ∃ next, s.squash n rounds = .ok next ∧ Tracked next ∧
      (∀ x ∈ next.storeList.items, x.1 ≤ n) ∧ ∀ i, next.validLFST i → next.lfst i ≤ n := by
  induction rounds generalizing s with
  | zero => omega
  | succ rounds ih =>
    have done (old : ∀ x ∈ s.storeList.items, x.1 ≤ n) : Tracked s ∧
        (∀ x ∈ s.storeList.items, x.1 ≤ n) ∧ ∀ i, s.validLFST i → s.lfst i ≤ n :=
      ⟨tracked, old, fun i valid => old _ (tracked.listed i valid)⟩
    rw [StoreSet.squash]
    split
    · rename_i items
      exact ⟨s, rfl, done (by rw [items]; nofun)⟩
    · rename_i seqNum idx rest items
      have ordered := s.storeList.ordered
      have latest := tracked.latest (seqNum, idx) (items ▸ mem_cons_self)
      rw [items] at ordered enough
      split
      · rename_i old
        refine ⟨s, rfl, done ?_⟩
        rw [items]
        rintro x (_ | ⟨_, later⟩)
        · exact old
        · exact Nat.le_trans (rel_of_pairwise_cons ordered later) old
      · rename_i young
        have popped : s.storeList.pop.items = rest := by
          rw [PriorityQueue.pop_items, items, tail_cons]
        have next (valid : Nat → Bool) (kept : ∀ i, valid i → s.validLFST i ∧ i ≠ idx) :
            Tracked { s with validLFST := valid, storeList := s.storeList.pop } := by
          apply tracked.shrink
          · intro x member
            rw [items, ← popped]
            exact mem_cons_of_mem _ member
          · intro i held
            obtain ⟨valid, other⟩ := kept i held
            refine ⟨valid, fun member => ?_⟩
            rw [items] at member
            rw [popped]
            exact (mem_cons.mp member).resolve_left fun same => other (congrArg Prod.snd same)
        have fewer : s.storeList.pop.items.length < rounds := by
          rw [popped]
          exact Nat.lt_of_succ_lt_succ enough
        rw [if_pos (by dsimp only at latest; omega)]
        split
        · apply ih (next _ _) fewer
          intro i valid
          by_cases same : i = idx
          · rw [same, update_self] at valid
            cases valid
          · rw [update_of_ne same] at valid
            exact ⟨valid, same⟩
        · rename_i invalid
          exact ih (next _ fun i valid => ⟨valid, fun same => invalid (same ▸ valid)⟩) fewer

end Tracked

variable {s : StoreSet}

theorem reachable_tracked (reach : ReachableVia storeSet Orderly s) : Tracked s := by
  refine reach.invariant Tracked ?_ ?_
  · rintro s ⟨_, _, _, built⟩
    obtain ⟨_, _, built⟩ := bind_ok built
    obtain ⟨_, _, built⟩ := bind_ok built
    obtain rfl := pure_ok built
    exact ⟨nofun, nofun⟩
  · intro s call next _ orderly tracked taken
    have taken : perform s call = .ok next := taken
    cases call with
    | violation storePC loadPC => exact tracked.violation taken
    | insertLoad =>
      cases taken
      exact tracked.checkClear
    | insertStore pc seqNum => exact tracked.insertStore orderly taken
    | issued pc seqNum isStore => exact tracked.issued orderly taken
    | clear =>
      cases taken
      exact .cleared s
    | squash n =>
      obtain ⟨_, ran, tracked, -⟩ := tracked.squash n (Nat.lt_succ_self _)
      cases ran.symm.trans taken
      exact tracked

/-- After orderly calls a squash ends, and no younger store is listed or the last of a set. -/
theorem squash_complete (reach : ReachableVia storeSet Orderly s) (squashedNum : Nat) :
    ∃ rounds next, s.squash squashedNum rounds = .ok next ∧
      (∀ x ∈ next.storeList.items, x.1 ≤ squashedNum) ∧
      ∀ i, next.validLFST i → next.lfst i ≤ squashedNum := by
  obtain ⟨next, ran, -, complete⟩ :=
    (reachable_tracked reach).squash squashedNum (Nat.lt_succ_self _)
  exact ⟨_, next, ran, complete⟩

/-- The tables as they are constructed. -/
def fourSets : StoreSet :=
  ⟨100, 4, 4, fun _ => 0, fun _ => false, fun _ => 0, fun _ => false, .empty, 0⟩

theorem threeStores : ∃ s, ReachableVia storeSet Orderly s ∧
    s.storeList.items = [(10, 0), (8, 0)] ∧ s.checkInst 4 = .ok 10 := by
  have ran : ([.violation 0 4, .insertStore 0 5, .insertStore 0 8, .insertStore 0 10,
      .issued 0 5 true].foldlM (fun s call => if Orderly s call then perform s call
        else .error .unfinished) fourSets).toOption.any
      (fun s => s.storeList.items = [(10, 0), (8, 0)] ∧ s.checkInst 4 = .ok 10) = true := by
    decide +kernel
  obtain ⟨s, reach, checked⟩ := foldlM_check_allowed Initial ⟨100, 4, 4, rfl⟩ ran
  exact ⟨s, reach, of_decide_eq_true checked⟩

theorem squash_complete_seven : ∃ s, ReachableVia storeSet Orderly s ∧
    s.storeList.items = [(10, 0), (8, 0)] ∧ ∃ rounds next, s.squash 7 rounds = .ok next ∧
      (∀ x ∈ next.storeList.items, x.1 ≤ 7) ∧ ∀ i, next.validLFST i → next.lfst i ≤ 7 := by
  obtain ⟨s, reach, items, -⟩ := threeStores
  exact ⟨s, reach, items, squash_complete reach 7⟩

theorem squash_stuck {n seqNum idx : Nat} {rest : List (Nat × Nat)}
    (items : s.storeList.items = (seqNum, idx) :: rest) (young : n < seqNum) (old : s.lfst idx ≤ n)
    (rounds : Nat) : s.squash n rounds = .error .unfinished := by
  induction rounds with
  | zero => rfl
  | succ rounds ih =>
    rw [squash, items]
    simp only
    rw [if_neg (by omega), if_neg (by omega), ih]

/-- Store 5 is put into the set of store 10 after it, and a squash to 7 does not end. -/
theorem squash_unfinished : ∃ s, Reachable storeSet s ∧
    ∀ rounds, s.squash 7 rounds = .error .unfinished := by
  have ran : ([.violation 0 4, .insertStore 0 10, .insertStore 0 5].foldlM perform
      fourSets).toOption.any (fun s => s.storeList.items = [(10, 0), (5, 0)] ∧ s.lfst 0 = 5) =
        true := by decide +kernel
  obtain ⟨s, reach, checked⟩ := foldlM_check Initial (fun _ _ _ => trivial) ⟨100, 4, 4, rfl⟩ ran
  obtain ⟨items, last⟩ := of_decide_eq_true checked
  exact ⟨s, reach, squash_stuck items (by decide) (by omega)⟩

/-- After orderly calls, the store that an instruction is made to wait for is in flight, and no
store of the set is younger. -/
theorem checkInst_latest (reach : ReachableVia storeSet Orderly s) {pc seqNum : Nat}
    (h : s.checkInst pc = .ok seqNum) :
    seqNum = 0 ∨ (seqNum, s.ssit (s.calcIndex pc)) ∈ s.storeList.items ∧
      ∀ x ∈ s.storeList.items, x.2 = s.ssit (s.calcIndex pc) → x.1 ≤ seqNum := by
  have tracked := reachable_tracked reach
  obtain ⟨_, _, h⟩ := bind_ok h
  split at h
  · obtain ⟨_, _, h⟩ := bind_ok h
    split at h
    · rename_i valid
      rw [pure_ok h]
      refine .inr ⟨tracked.listed _ valid, fun x member same => ?_⟩
      rw [← same]
      exact tracked.latest x member
    · exact .inl (pure_ok h)
  · exact .inl (pure_ok h)

theorem checkInst_latest_ten : ∃ s, ReachableVia storeSet Orderly s ∧
    s.checkInst 4 = .ok 10 ∧ (10, s.ssit (s.calcIndex 4)) ∈ s.storeList.items := by
  obtain ⟨s, reach, -, checked⟩ := threeStores
  obtain none | ⟨listed, -⟩ := checkInst_latest reach checked
  · cases none
  · exact ⟨s, reach, checked, listed⟩

end StoreSet
end SynchroTrace.Cpu
