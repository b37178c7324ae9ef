import Mathlib.Algebra.Group.Nat.Defs
import Mathlib.Order.Fin.Basic
import SynchroTrace.Base.RangeMap

/-!
The address ranges of the ports of a bus. A port that announces its ranges replaces those it had; a
range that meets one of another port is fatal.
-/

namespace SynchroTrace.Mem
open Outcome Transition Base List

abbrev Addr := Fin (2 ^ 64)

def rangeSize (start size : Addr) : Range Addr := ⟨start, start + size - 1⟩

namespace BaseBus

inductive Fault where
  | assertion
  | sameRange (port : Nat) (conflict : Option Nat)
  | noDestination
  deriving DecidableEq

end BaseBus

open BaseBus (Fault)

/-- `InvalidPortID` is `none`. The cache has no entries that are not valid. -/
structure BaseBus where
  numMasterPorts : Nat
  defaultPortID : Option Nat
  useDefaultRange : Bool
  portMap : RangeMap Addr Nat
  defaultRange : List (Range Addr)
  portCache : List (Nat × Range Addr)

namespace BaseBus

variable (bus : BaseBus)

/-- The end of a cached range is taken to be exclusive. -/
def checkPortCache (addr : Addr) : Option Nat :=
  (bus.portCache.find? fun c => c.2.start ≤ addr ∧ addr < c.2.stop).map Prod.fst

/-- The oldest of three entries is dropped. -/
def updatePortCache (id : Nat) (range : Range Addr) : BaseBus :=
  { bus with portCache := ((id, range) :: bus.portCache).take 3 }

def findPort (addr : Addr) : Except Fault (Option Nat × BaseBus) :=
  match bus.checkPortCache addr with
  | some id => .ok (some id, bus)
  | none =>
    match bus.portMap.find (rangeSize addr 1) with
    | some (range, id) => .ok (some id, bus.updatePortCache id range)
    | none =>
      if bus.useDefaultRange then
        if ∃ range ∈ bus.defaultRange, range.Contains addr then .ok (bus.defaultPortID, bus)
        else .error .noDestination
      else if bus.defaultPortID ≠ none then .ok (bus.defaultPortID, bus)
      else .error .noDestination

def insertRange (port : Nat) (m : RangeMap Addr Nat) (r : Range Addr) :
    Except Fault (RangeMap Addr Nat) :=
  match m.insert r port with
  | some m => .ok m
  | none => .error (.sameRange port ((m.find r).map Prod.snd))

/-- The ranges are those that the peer of the port returns. -/
def recvRangeChange (bus : BaseBus) (port : Nat) (ranges : List (Range Addr)) :
    Except Fault BaseBus :=
  let bus := { bus with portCache := [] }
  if bus.defaultPortID = some port then
    .ok { bus with defaultRange := if bus.useDefaultRange then ranges else [] }
  else do
    require (port < bus.numMasterPorts) .assertion
    -- the ranges that the port had are cleaned out
    let portMap := bus.portMap.keep (·.2 ≠ port)
    return { bus with portMap := ← ranges.foldlM (insertRange port) portMap }

inductive Call where
  | recvRangeChange (port : Nat) (ranges : List (Range Addr))
  | findPort (addr : Addr)

def perform : Call → Except Fault BaseBus
  | .recvRangeChange port ranges => bus.recvRangeChange port ranges
  | .findPort addr => do return (← bus.findPort addr).2

def runs : System BaseBus Call :=
  ofFunction (fun bus => bus.portMap.tree = [] ∧ bus.portCache = []) perform

/-- The neighbour shows for each range in turn whether it meets a stored one. -/
def Shown (port : Nat) : RangeMap Addr Nat → List (Range Addr) → Prop
  | _, [] => True
  | m, r :: ranges =>
    r.start ≤ r.stop ∧ m.Visible r ∧ ∀ m', m.insert r port = some m' → Shown port m' ranges

def Careful : Call → Prop
  | .recvRangeChange port ranges => Shown port (bus.portMap.keep (·.2 ≠ port)) ranges
  | .findPort _ => True

structure Sound (bus : BaseBus) : Prop where
  disjoint : bus.portMap.Disjoint
  cached : ∀ c ∈ bus.portCache, (c.2, c.1) ∈ bus.portMap.tree

section Insertions
variable {port : Nat} {m m' : RangeMap Addr Nat} {ranges : List (Range Addr)}

theorem insertRanges_disjoint (disjoint : m.Disjoint) (shown : Shown port m ranges)
    (inserted : ranges.foldlM (insertRange port) m = .ok m') : m'.Disjoint := by
  induction ranges generalizing m with
  | nil => rwa [pure_ok inserted]
  | cons r ranges ih =>
    obtain ⟨next, first, inserted⟩ := bind_ok inserted
    unfold insertRange at first
    cases accepted : m.insert r port with
    | none => rw [accepted] at first; cases first
    | some next' =>
      rw [accepted] at first
      cases first
      obtain ⟨proper, visible, later⟩ := shown
      exact ih (disjoint.insert proper visible accepted) (later next accepted) inserted

theorem insertRanges_iff (disjoint : m.Disjoint) (shown : Shown port m ranges) :
    (∃ m', ranges.foldlM (insertRange port) m = .ok m') ↔
      (∀ r ∈ ranges, ∀ e ∈ m.tree, ¬ e.1.Intersects r) ∧
        ranges.Pairwise fun r r' => ¬ r.Intersects r' := by
  induction ranges generalizing m with
  | nil => exact iff_of_true ⟨m, rfl⟩ ⟨nofun, .nil⟩
  | cons r ranges ih =>
    obtain ⟨proper, visible, later⟩ := shown
    have free := disjoint.insert_iff (d := port) proper visible
    rw [foldlM_cons, insertRange]
    cases accepted : m.insert r port with
    | none =>
      rw [accepted] at free
      refine iff_of_false (fun ⟨_, done⟩ => nomatch done) fun apart => ?_
      exact absurd (free.mpr (apart.1 r mem_cons_self)) nofun
    | some next =>
      rw [accepted] at free
      have rest := ih (disjoint.insert proper visible accepted) (later next accepted)
      have mem := disjoint.mem_insert proper accepted
      rw [ok_bind, rest, pairwise_cons]
      constructor
      · rintro ⟨apart, pairwise⟩
        refine ⟨fun r' member e stored => ?_, fun r' member => ?_, pairwise⟩
        · obtain rfl | member := mem_cons.mp member
          · exact free.mp rfl e stored
          · exact apart r' member e ((mem e).mpr (.inr stored))
        · exact apart r' member (r, port) ((mem _).mpr (.inl rfl))
      · rintro ⟨apart, first, pairwise⟩
        refine ⟨fun r' member e stored => ?_, pairwise⟩
        obtain rfl | stored := (mem e).mp stored
        · exact first r' member
        · exact apart r' (mem_cons_of_mem _ member) e stored

end Insertions

section Sound
variable {bus bus' : BaseBus}

theorem keep_disjoint (sound : bus.Sound) (port : Nat) : (bus.portMap.keep (·.2 ≠ port)).Disjoint :=
  sound.disjoint.of_subset fun _ member => (mem_filter.mp member).1

/-- A change is accepted when no two ranges overlap: of the new ones, and of these and those of the
other ports. -/
theorem Sound.recvRangeChange_iff (sound : bus.Sound) {port : Nat} {ranges : List (Range Addr)}
    (careful : bus.Careful (.recvRangeChange port ranges)) (served : bus.defaultPortID ≠ some port)
    (inside : port < bus.numMasterPorts) :
    (∃ bus', bus.recvRangeChange port ranges = .ok bus') ↔
      (∀ r ∈ ranges, ∀ e ∈ bus.portMap.tree, e.2 ≠ port → ¬ e.1.Intersects r) ∧
        ranges.Pairwise fun r r' => ¬ r.Intersects r' := by
  have inserted := insertRanges_iff (keep_disjoint sound port) careful
  have changed : (∃ bus', bus.recvRangeChange port ranges = .ok bus') ↔
      ∃ m', ranges.foldlM (insertRange port) (bus.portMap.keep (·.2 ≠ port)) = .ok m' := by
    unfold recvRangeChange
    dsimp only
    rw [if_neg served, require_of inside, ok_bind]
    constructor
    · rintro ⟨bus', done⟩
      obtain ⟨m', inserted, -⟩ := bind_ok done
      exact ⟨m', inserted⟩
    · rintro ⟨m', inserted⟩
      exact ⟨_, by rw [inserted]; rfl⟩
  rw [changed, inserted]
  refine and_congr_left fun _ => forall₂_congr fun r _ => ?_
  simp only [RangeMap.keep, mem_filter, decide_eq_true_eq, and_imp]

theorem Sound.findPort (sound : bus.Sound) {addr : Addr} {e : Range Addr × Nat}
    (member : e ∈ bus.portMap.tree) (inside : e.1.Contains addr) :
    ∃ bus', bus.findPort addr = .ok (some e.2, bus') := by
  have one : rangeSize addr 1 = ⟨addr, addr⟩ := by
    have last : addr + 1 - 1 = addr := by
      apply Fin.ext
      rw [Fin.val_sub, Fin.val_add]
      omega
    rw [rangeSize, last]
  unfold BaseBus.findPort
  cases hit : bus.checkPortCache addr with
  | some id =>
    obtain ⟨c, found, rfl⟩ := Option.map_eq_some_iff.mp hit
    have here : c.2.start ≤ addr ∧ addr < c.2.stop := by simpa using List.find?_some found
    have stored := sound.cached c (List.mem_of_find?_eq_some found)
    have same : (c.2, c.1) = e := sound.disjoint.apart _ stored _ member
      ⟨here.1.trans inside.2, inside.1.trans here.2.le⟩
    exact ⟨bus, by rw [← same]⟩
  | none =>
    have found := sound.disjoint.find_of_contains (r := ⟨addr, addr⟩) member le_rfl inside
    rw [one, found]
    exact ⟨_, rfl⟩

theorem Sound.perform (sound : bus.Sound) {call : Call} (careful : bus.Careful call)
    (taken : bus.perform call = .ok bus') : bus'.Sound := by
  cases call with
  | recvRangeChange port ranges =>
    rw [BaseBus.perform, recvRangeChange] at taken
    dsimp only at taken
    split at taken
    · cases taken
      exact ⟨sound.disjoint, nofun⟩
    · obtain ⟨_, _, taken⟩ := bind_ok taken
      obtain ⟨m', inserted, taken⟩ := bind_ok taken
      rw [pure_ok taken]
      exact ⟨insertRanges_disjoint (keep_disjoint sound port) careful inserted, nofun⟩
  | findPort addr =>
    obtain ⟨⟨id, next⟩, found, taken⟩ := bind_ok taken
    rw [pure_ok taken]
    unfold BaseBus.findPort at found
    split at found
    · cases found
      exact sound
    · split at found
      · rename_i range id hit
        cases found
        refine ⟨sound.disjoint, fun c member => ?_⟩
        obtain rfl | old := mem_cons.mp (mem_of_mem_take member)
        · exact (RangeMap.find_some hit).1
        · exact sound.cached c old
      · split_ifs at found <;> cases found <;> exact sound

theorem reachable_sound (reach : ReachableVia runs Careful bus) : bus.Sound := by
  refine reach.invariant Sound (fun bus empty => ?_) fun bus call bus' _ careful sound taken => ?_
  · obtain ⟨tree, cache⟩ := empty
    exact ⟨⟨by simp [tree], by simp [tree]⟩, by simp [cache]⟩
  · exact sound.perform careful taken

end Sound

/-- As long as the neighbour shows for every range that is inserted whether it meets a stored one,
the stored ranges of a map and of a bus never intersect. Without the condition, the search itself is
wrong. -/
theorem ranges_never_overlap {T V : Type} [LinearOrder T] {m : RangeMap T V}
    (built : ReachableVia (RangeMap.runs T V) RangeMap.Careful m) {bus : BaseBus}
    (reach : ReachableVia runs Careful bus) :
    (m.Disjoint ∧ ∀ (r : Range T) (d : V), r.start ≤ r.stop →
      (∀ e, m.find r = some e → e ∈ m.tree ∧ e.1.Intersects r) ∧
      ((m.find r = none → ∀ e ∈ m.tree, ¬ e.1.Intersects r) ↔ m.Visible r) ∧
      (m.Visible r → ((m.insert r d).isSome ↔ ∀ e ∈ m.tree, ¬ e.1.Intersects r))) ∧
    bus.portMap.Disjoint ∧
    (∀ port ranges, bus.Careful (.recvRangeChange port ranges) → bus.defaultPortID ≠ some port →
      port < bus.numMasterPorts → ((∃ bus', bus.recvRangeChange port ranges = .ok bus') ↔
        (∀ r ∈ ranges, ∀ e ∈ bus.portMap.tree, e.2 ≠ port → ¬ e.1.Intersects r) ∧
          ranges.Pairwise fun r r' => ¬ r.Intersects r')) ∧
    ∀ addr, ∀ e ∈ bus.portMap.tree, e.1.Contains addr →
      (∀ e' ∈ bus.portMap.tree, e'.1.Contains addr → e' = e) ∧
        ∃ bus', bus.findPort addr = .ok (some e.2, bus') := by
  have disjoint := RangeMap.reachable_disjoint built
  have sound := reachable_sound reach
  refine ⟨⟨disjoint, fun r d proper => ⟨fun e => RangeMap.find_some,
    disjoint.find_right_iff proper, disjoint.insert_iff proper⟩⟩, sound.disjoint,
    fun port ranges => sound.recvRangeChange_iff, fun addr e member inside => ⟨?_, ?_⟩⟩
  · exact fun e' member' inside' => sound.disjoint.apart e' member' e member
      ⟨inside'.1.trans inside.2, inside.1.trans inside'.2⟩
  · exact sound.findPort member inside

def silent : BaseBus := ⟨2, none, false, ⟨[], .nil⟩, [], []⟩

def announced (tree : List (Range Addr × Nat)) (sorted : tree.Pairwise fun e e' =>
    e.1.start < e'.1.start) : BaseBus := { silent with portMap := ⟨tree, sorted⟩ }

/-- Ports 0 and 1 have announced three ranges. The port of each is found, and a range of port 1 that
meets one of port 0 is reported. -/
theorem ranges_never_overlap_ports :
    ∃ (m : RangeMap Nat Nat) (bus : BaseBus), ReachableVia (RangeMap.runs Nat Nat) RangeMap.Careful m ∧
      m.tree = [(⟨0, 9⟩, 7), (⟨20, 29⟩, 8)] ∧ ¬ (m.insert ⟨25, 35⟩ 9).isSome ∧
      ReachableVia runs Careful bus ∧
      bus.portMap.tree = [(⟨0, 9⟩, 0), (⟨10, 19⟩, 1), (⟨20, 29⟩, 0)] ∧
      (∃ bus', bus.findPort 12 = .ok (some 1, bus')) ∧
      ¬ ∃ bus', bus.recvRangeChange 1 [⟨5, 8⟩] = .ok bus' := by
  have empty : ReachableVia (RangeMap.runs Nat Nat) RangeMap.Careful ⟨[], .nil⟩ := .initial rfl
  have alone : ReachableVia (RangeMap.runs Nat Nat) RangeMap.Careful
      ⟨[(⟨20, 29⟩, 8)], pairwise_singleton ..⟩ :=
    .step (a := .insert ⟨20, 29⟩ 8) empty ⟨by decide, by decide⟩ rfl
  have built : ReachableVia (RangeMap.runs Nat Nat) RangeMap.Careful
      ⟨[(⟨0, 9⟩, 7), (⟨20, 29⟩, 8)], by decide⟩ :=
    .step (a := .insert ⟨0, 9⟩ 7) alone ⟨by decide, by decide⟩ rfl
  have start : ReachableVia runs Careful silent := .initial ⟨rfl, rfl⟩
  have first : ReachableVia runs Careful (announced [(⟨0, 9⟩, 0), (⟨20, 29⟩, 0)] (by decide)) := by
    refine .step (a := .recvRangeChange 0 [⟨0, 9⟩, ⟨20, 29⟩]) start ?_ rfl
    refine ⟨by decide, by decide, fun m' inserted => ⟨by decide, ?_, fun _ _ => trivial⟩⟩
    rw [← Option.some.inj inserted]
    decide
  have reach : ReachableVia runs Careful
      (announced [(⟨0, 9⟩, 0), (⟨10, 19⟩, 1), (⟨20, 29⟩, 0)] (by decide)) := by
    refine .step (a := .recvRangeChange 1 [⟨10, 19⟩]) first ?_ rfl
    exact ⟨by decide, by decide, fun _ _ => trivial⟩
  obtain ⟨⟨-, right⟩, -, changes, ports⟩ := ranges_never_overlap built reach
  refine ⟨_, _, built, rfl, fun taken => ?_, reach, rfl, (ports 12 (⟨10, 19⟩, 1) ?_ ?_).2,
    fun done => ?_⟩
  · have apart := ((right ⟨25, 35⟩ 9 (by decide)).2.2 (by decide)).mp taken
    exact apart (⟨20, 29⟩, 8) (by decide) (by decide)
  · decide
  · decide
  · have apart := ((changes 1 [⟨5, 8⟩] ⟨by decide, by decide, fun _ _ => trivial⟩ (by decide)
      (by decide)).mp done).1
    exact apart ⟨5, 8⟩ (by decide) (⟨0, 9⟩, 0) (by decide) (by decide) (by decide)

/-- The range of the second port meets one of the first port, but not the neighbour. -/
theorem overlap_accepted :
    ∃ bus bus', Reachable runs bus ∧ bus.recvRangeChange 1 [⟨15, 25⟩] = .ok bus' ∧
      (⟨20, 29⟩, 0) ∈ bus'.portMap.tree ∧ (⟨15, 25⟩, 1) ∈ bus'.portMap.tree ∧
      bus.portMap.find ⟨15, 25⟩ = none := by
  have start : Reachable runs silent := .initial ⟨rfl, rfl⟩
  have reach : Reachable runs
      (announced [(⟨0, 9⟩, 0), (⟨20, 29⟩, 0)] (by decide)) :=
    .step (a := .recvRangeChange 0 [⟨0, 9⟩, ⟨20, 29⟩]) start trivial rfl
  exact ⟨_, announced [(⟨0, 9⟩, 0), (⟨15, 25⟩, 1), (⟨20, 29⟩, 0)] (by decide), reach, rfl,
    by decide, by decide, by decide⟩

/-- The port cache does not show: without it the bus finds the same port. -/
theorem findPort_uncached {bus : BaseBus} (reach : ReachableVia runs Careful bus) (addr : Addr) :
    (bus.findPort addr).map Prod.fst =
      ({ bus with portCache := [] }.findPort addr).map Prod.fst := by
  have sound := reachable_sound reach
  cases hit : bus.checkPortCache addr with
  | none =>
    unfold findPort
    rw [hit]
    dsimp only [checkPortCache, List.find?_nil, Option.map_none]
    cases bus.portMap.find (rangeSize addr 1) with
    | none =>
      dsimp only
      split_ifs <;> rfl
    | some e => rfl
  | some id =>
    obtain ⟨c, found, rfl⟩ := Option.map_eq_some_iff.mp hit
    have here : c.2.start ≤ addr ∧ addr < c.2.stop := by simpa using List.find?_some found
    have stored := sound.cached c (List.mem_of_find?_eq_some found)
    have plain : Sound { bus with portCache := [] } := ⟨sound.disjoint, nofun⟩
    obtain ⟨_, first⟩ := sound.findPort stored ⟨here.1, here.2.le⟩
    obtain ⟨_, second⟩ := plain.findPort stored ⟨here.1, here.2.le⟩
    rw [first, second]
    rfl

theorem findPort_uncached_hit : ∃ bus, ReachableVia runs Careful bus ∧
    bus.portCache = [(0, ⟨0, 9⟩)] ∧ (bus.findPort 5).map Prod.fst =
      ({ bus with portCache := [] }.findPort 5).map Prod.fst := by
  have start : ReachableVia runs Careful silent := .initial ⟨rfl, rfl⟩
  have shown : silent.Careful (.recvRangeChange 0 [⟨0, 9⟩]) :=
    ⟨by decide, .inr (.inl nofun), fun _ _ => trivial⟩
  have reach : ReachableVia runs Careful (announced [(⟨0, 9⟩, 0)] (pairwise_singleton ..)) :=
    .step start shown rfl
  have cached : ReachableVia runs Careful
      { announced [(⟨0, 9⟩, 0)] (pairwise_singleton ..) with portCache := [(0, ⟨0, 9⟩)] } :=
    .step (a := .findPort 5) reach trivial rfl
  exact ⟨_, cached, rfl, findPort_uncached cached 5⟩

end BaseBus

end SynchroTrace.Mem
