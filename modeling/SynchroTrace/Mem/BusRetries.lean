import Mathlib.Tactic.SplitIfs
import SynchroTrace.Mem.Bus

namespace SynchroTrace.Mem.Bus
open Transition List Outcome

variable {p : Params} {b b' : Bus} {port : Port}

/-- The ticks that the calls of the bus will occupy it until are ahead. -/
def Frame.Ahead (now : Nat) : Frame → Prop
  | .sendTimingReq _ _ headerTime finishTime => now < headerTime ∧ now < finishTime
  | .sendTimingResp _ finishTime => now < finishTime
  | .sendRetry => True

/-- A retry is for the head of the list, and only packets of that port are being sent. -/
structure Retrying (b : Bus) (front : Port) (rest : List Port) : Prop where
  list : b.retryList = front :: rest
  idle : b.tickNextIdle ≤ b.curTick
  told : b.refused front = false
  alone : ∀ frame ∈ b.stack, ∀ src, frame.src? = some src → src = front
  inside : Frame.sendRetry ∈ b.stack

structure Waiting (b : Bus) : Prop where
  retrying : b.inRetry = true → ∃ front rest, Retrying b front rest
  /-- While a call of the bus has not returned, packets of other ports are refused. -/
  calling : b.stack ≠ [] → b.inRetry = false → b.retryList ≠ [] → b.curTick < b.tickNextIdle
  ahead : ∀ frame ∈ b.stack, frame.Ahead b.curTick
  waiting : ∀ port, b.refused port = true → port ∈ b.retryList

theorem lt_calcPacketTiming (b : Bus) (pkt : Packet) :
    b.curTick < (b.calcPacketTiming p pkt).1 ∧ b.curTick < (b.calcPacketTiming p pkt).2 := by
  have edge : b.curTick ≤ nextEdge p b.curTick := by
    unfold nextEdge
    split
    · have := Nat.div_add_mod b.curTick p.clock
      have := Nat.mod_lt b.curTick p.clock_pos
      rw [Nat.add_mul, Nat.one_mul, Nat.mul_comm]
      omega
    · exact Nat.le_refl _
  have header : 0 < p.headerCycles * p.clock := Nat.mul_pos p.headerCycles_pos p.clock_pos
  unfold calcPacketTiming
  dsimp only
  omega

theorem le_bringUp (clock now : Nat) (positive : 0 < clock) (n tick : Nat) (enough : now ≤ tick + n) :
    now ≤ bringUp clock now n tick := by
  induction n generalizing tick with
  | zero => exact enough
  | succ n ih =>
    unfold bringUp
    split
    · exact ih _ (by omega)
    · omega

theorem isOccupied_iff : b.isOccupied port = true ↔ b.curTick < b.tickNextIdle ∨
    b.retryList ≠ [] ∧ ¬ (b.inRetry = true ∧ b.retryList.head? = some port) := by
  simp only [isOccupied, decide_eq_true_eq]

theorem update_refused_of_ne {port other : Port} {value : Bool} (ne : other ≠ port) :
    Function.update b.refused port value other = b.refused other := Function.update_of_ne ne ..

theorem refuse_occupied (waits : Waiting b) (occupied : b.isOccupied port = true) :
    b.refuse port = { b with
      retryList := b.retryList ++ [port], refused := Function.update b.refused port true } ∧
    (b.inRetry = true → b.retryList.head? ≠ some port) := by
  unfold refuse addToRetryList
  by_cases retry : b.inRetry = true
  · obtain ⟨front, rest, retrying⟩ := waits.retrying retry
    have other : b.retryList.head? ≠ some port := by
      intro own
      obtain busy | ⟨-, others⟩ := isOccupied_iff.mp occupied
      · exact Nat.not_lt.mpr retrying.idle busy
      · exact others ⟨retry, own⟩
    rw [if_neg (not_not.mpr retry), if_neg other]
    exact ⟨rfl, fun _ => other⟩
  · rw [if_pos retry]
    exact ⟨rfl, fun h => absurd h retry⟩

theorem Waiting.refuse (waits : Waiting b) (occupied : b.isOccupied port = true) :
    Waiting (b.refuse port) := by
  obtain ⟨same, other⟩ := refuse_occupied waits occupied
  rw [same]
  refine ⟨fun retry => ?_, fun calling retry _ => ?_, waits.ahead, fun q refused => ?_⟩
  · obtain ⟨front, rest, retrying⟩ := waits.retrying retry
    have ne : front ≠ port := by
      rintro rfl
      exact other retry (by rw [retrying.list]; rfl)
    refine ⟨front, rest ++ [port], ?_, retrying.idle, ?_, retrying.alone, retrying.inside⟩
    · simp [retrying.list]
    · exact (update_refused_of_ne ne).trans retrying.told
  · obtain busy | ⟨nonempty, -⟩ := isOccupied_iff.mp occupied
    · exact busy
    · exact waits.calling calling retry nonempty
  · by_cases here : q = port
    · simp [here]
    · exact mem_append_left _ (waits.waiting q ((update_refused_of_ne here).symm.trans refused))

theorem Waiting.send (waits : Waiting b) (free : b.isOccupied port = false) {frame : Frame}
    (src : frame.src? = some port) (ahead : frame.Ahead b.curTick) :
    Waiting { b with stack := frame :: b.stack } := by
  have notOccupied : ¬ b.isOccupied port = true := Bool.eq_false_iff.mp free
  obtain ⟨-, others⟩ := not_or.mp (mt isOccupied_iff.mpr notOccupied)
  refine ⟨fun retry => ?_, fun _ retry nonempty => ?_, fun other member => ?_, waits.waiting⟩
  · obtain ⟨front, rest, retrying⟩ := waits.retrying retry
    refine ⟨front, rest, retrying.list, retrying.idle, retrying.told, fun other member q isSrc => ?_,
      mem_cons_of_mem _ retrying.inside⟩
    obtain rfl | member := mem_cons.mp member
    · have own : b.retryList.head? = some port := by
        refine Classical.byContradiction fun other => others ⟨?_, fun both => other both.2⟩
        simp [retrying.list]
      rw [retrying.list] at own
      have same := Option.some.inj (src.symm.trans isSrc)
      exact same.symm.trans (Option.some.inj own).symm
    · exact retrying.alone other member q isSrc
  · exact absurd ⟨nonempty, fun both => Bool.false_ne_true (retry.symm.trans both.1)⟩ others
  · obtain rfl | member := mem_cons.mp member
    · exact ahead
    · exact waits.ahead other member

variable {stack : List Frame} {tick : Nat} {frame : Frame}

theorem Waiting.occupied (waits : Waiting b) (stacked : b.stack = frame :: stack)
    {retryList : List Port} {refused : Port → Bool} (later : b.curTick < tick)
    (kept : ∀ port, refused port = true → port ∈ retryList) :
    Waiting { b with
      stack, retryList, refused, inRetry := false, tickNextIdle := tick
      busIdleEvent := some tick } where
  retrying := nofun
  calling _ _ _ := later
  ahead other member := waits.ahead other (stacked ▸ mem_cons_of_mem _ member)
  waiting := kept

theorem occupyBus_eq (later : b.curTick < tick) :
    b.occupyBus tick = { b with tickNextIdle := tick, busIdleEvent := some tick } := by
  rw [occupyBus, if_neg (by omega)]

theorem Waiting.tail (waits : Waiting b) (retry : b.inRetry = true) (q : Port)
    (refused : b.refused q = true) : q ∈ b.retryList.tail := by
  obtain ⟨front, rest, retrying⟩ := waits.retrying retry
  have member := waits.waiting q refused
  rw [retrying.list] at member ⊢
  obtain rfl | member := mem_cons.mp member
  · exact absurd (retrying.told.symm.trans refused) (by simp)
  · exact member

theorem succeededTiming_eq (later : b.curTick < tick) :
    b.succeededTiming tick = { b with
      tickNextIdle := tick
      busIdleEvent := some tick
      inRetry := false
      retryList := if b.inRetry then b.retryList.tail else b.retryList } := by
  obtain ⟨curTick, tickNextIdle, event, inRetry, retryList, stack, startupIdle, refused⟩ := b
  rw [succeededTiming, occupyBus_eq later]
  cases inRetry <;> rfl

theorem finishRetry_eq (retry : b.inRetry = true) : ∃ tick, b.curTick < tick ∧
    b.finishRetry p = { b with
      tickNextIdle := tick
      busIdleEvent := some tick
      inRetry := false
      retryList := b.retryList.tail } := by
  refine ⟨_, ?_, if_pos retry⟩
  have present := le_bringUp p.clock b.curTick p.clock_pos b.curTick b.tickNextIdle (by omega)
  have clock := p.clock_pos
  omega

theorem refuse_eq (waits : Waiting b)
    (stacked : b.stack = frame :: stack) (src : frame.src? = some port) :
    ∃ retryList, { b with stack }.refuse port = { b with
        stack, retryList, inRetry := false, refused := Function.update b.refused port true } ∧
      port ∈ retryList ∧ ∀ q ∈ b.retryList, q ∈ retryList := by
  by_cases retry : b.inRetry = true
  · obtain ⟨front, rest, retrying⟩ := waits.retrying retry
    have own : port = front := retrying.alone frame (stacked ▸ mem_cons_self) port src
    refine ⟨b.retryList, ?_, ?_, fun _ => id⟩
    · unfold refuse addToRetryList
      dsimp only
      rw [if_neg (not_not.mpr retry), if_pos]
      rw [retrying.list, own]
      rfl
    · rw [retrying.list, own]
      exact mem_cons_self
  · refine ⟨b.retryList ++ [port], ?_, by simp, fun q member => mem_append_left _ member⟩
    unfold refuse addToRetryList
    dsimp only
    rw [if_pos retry, Bool.eq_false_iff.mpr retry]

/-- The bus is occupied again when a peer returns, or a retry that is already answered returns. -/
inductive Returned (b : Bus) : Bus → Prop where
  | occupied {frame : Frame} {stack : List Frame} {tick : Nat} {retryList : List Port}
      {refused : Port → Bool} (stacked : b.stack = frame :: stack) (later : b.curTick < tick)
      (kept : ∀ port, refused port = true → port ∈ retryList) :
      Returned b { b with
        stack, retryList, refused, inRetry := false, tickNextIdle := tick
        busIdleEvent := some tick }
  | answered {stack : List Frame} (stacked : b.stack = .sendRetry :: stack)
      (quiet : b.inRetry = false) : Returned b { b with stack }

theorem Waiting.succeeded (waits : Waiting b)
    (stacked : b.stack = frame :: stack) (later : b.curTick < tick) :
    Returned b ({ b with stack }.succeededTiming tick) := by
  rw [succeededTiming_eq (b := { b with stack }) later]
  refine .occupied stacked later fun q refused => ?_
  dsimp only
  split
  · rename_i retry
    exact waits.tail retry q refused
  · exact waits.waiting q refused

theorem Waiting.returned (waits : Waiting b) {success : Bool} (h : b.peerReturns p success = .ok b') :
    Returned b b' := by
  unfold peerReturns at h
  split at h
  · cases h
  · rename_i src pkt headerTime finishTime stack stacked
    obtain ⟨header, finish⟩ := waits.ahead _ (stacked ▸ mem_cons_self)
    unfold finishReq at h
    split at h
    · cases h
      exact waits.succeeded stacked finish
    · obtain ⟨_, _, h⟩ := bind_ok h
      obtain rfl := pure_ok h
      obtain ⟨retryList, same, own, others⟩ := refuse_eq waits stacked rfl
      rw [same, occupyBus, if_neg (by omega)]
      refine .occupied stacked header fun q refused => ?_
      by_cases here : q = src
      · rw [here]
        exact own
      · exact others q (waits.waiting q ((update_refused_of_ne here).symm.trans refused))
  · rename_i src finishTime stack stacked
    have finish := waits.ahead _ (stacked ▸ mem_cons_self)
    obtain ⟨_, _, h⟩ := bind_ok h
    obtain rfl := pure_ok h
    exact waits.succeeded stacked finish
  · rename_i stack stacked
    cases h
    by_cases retry : b.inRetry = true
    · obtain ⟨tick, later, same⟩ := finishRetry_eq (p := p) (b := { b with stack }) retry
      rw [same]
      exact .occupied stacked later (waits.tail retry)
    · rw [finishRetry, if_neg retry]
      exact .answered stacked (Bool.eq_false_iff.mpr retry)

theorem Waiting.returns (waits : Waiting b) (h : Returned b b') : Waiting b' := by
  cases h with
  | occupied stacked later kept => exact waits.occupied stacked later kept
  | answered stacked quiet =>
    refine ⟨fun retry => absurd (quiet.symm.trans retry) (by simp), fun calling _ nonempty => ?_,
      fun frame member => ?_, waits.waiting⟩
    · exact waits.calling (by simp [stacked]) quiet nonempty
    · exact waits.ahead frame (stacked ▸ mem_cons_of_mem _ member)

theorem Waiting.retry (waits : Waiting b) (idle : b.tickNextIdle ≤ b.curTick)
    (h : b.retryWaiting = .ok b') : Waiting b' := by
  unfold retryWaiting at h
  split at h
  · cases h
  · rename_i front rest list
    cases h
    refine ⟨fun _ => ⟨front, rest, list, idle, Function.update_self .., ?_, mem_cons_self⟩,
      nofun, fun frame member => ?_, fun q refused => ?_⟩
    · intro frame member src isSrc
      obtain rfl | member := mem_cons.mp member
      · cases isSrc
      by_cases retry : b.inRetry = true
      · obtain ⟨front', rest', retrying⟩ := waits.retrying retry
        obtain ⟨rfl, -⟩ := List.cons.inj (list.symm.trans retrying.list)
        exact retrying.alone frame member src isSrc
      · -- a call that is not for a retry would have made the bus busy by now
        have busy := waits.calling (ne_nil_of_mem member) (Bool.eq_false_iff.mpr retry)
          (by simp [list])
        omega
    · obtain rfl | member := mem_cons.mp member
      · trivial
      · exact waits.ahead frame member
    · by_cases here : q = front
      · rw [here] at refused
        exact absurd (refused.symm.trans (Function.update_self ..)) (by simp)
      · exact waits.waiting q ((update_refused_of_ne here).symm.trans refused)

variable {action : Action}

theorem Waiting.perform (waits : Waiting b) (h : b.perform p action = .ok b') :
    Waiting b' := by
  cases action with
  | advance tick =>
    unfold Bus.perform advance at h
    dsimp only at h
    split at h
    · rename_i ready
      cases h
      refine ⟨fun retry => ?_, fun calling => absurd ready.1 calling, fun frame member => ?_,
        waits.waiting⟩
      · obtain ⟨front, rest, retrying⟩ := waits.retrying retry
        exact absurd (ready.1 ▸ retrying.inside) (by simp)
      · exact absurd (ready.1 ▸ member) (by simp)
    · cases h
  | recvTimingReq pkt port =>
    obtain ⟨_, _, h⟩ := bind_ok h
    split at h
    · rename_i occupied
      obtain rfl := pure_ok h
      exact waits.refuse occupied
    · rename_i free
      obtain rfl := pure_ok h
      exact waits.send (Bool.eq_false_iff.mpr free) rfl (lt_calcPacketTiming b pkt)
  | recvTimingResp pkt port =>
    cases h
    unfold Bus.recvTimingResp
    split
    · rename_i occupied
      exact waits.refuse occupied
    · rename_i free
      exact waits.send (Bool.eq_false_iff.mpr free) rfl (lt_calcPacketTiming b pkt).2
  | busIdle =>
    unfold Bus.perform releaseBus at h
    dsimp only at h
    split at h
    · obtain ⟨_, idle, h⟩ := bind_ok h
      have idle := require_ok idle
      have before : Waiting { b with busIdleEvent := none } :=
        ⟨fun retry => by
          obtain ⟨front, rest, retrying⟩ := waits.retrying retry
          exact ⟨front, rest, retrying.list, retrying.idle, retrying.told, retrying.alone,
            retrying.inside⟩, waits.calling, waits.ahead, waits.waiting⟩
      split at h
      · exact before.retry idle h
      · cases h
        exact before
    · cases h
  | recvRetry =>
    unfold Bus.perform recvRetry at h
    dsimp only at h
    split at h
    · rename_i ready
      exact waits.retry ready.2 h
    · cases h
      exact waits
  | peerReturns success => exact waits.returns (waits.returned h)

theorem reachable_waiting (reach : Reachable (noncoherentBus p) b) : Waiting b := by
  refine reach.invariant Waiting ?_ fun b action next _ _ waits step => waits.perform step
  rintro b ⟨curTick, rfl⟩
  exact ⟨nofun, fun calling => absurd rfl calling, nofun, nofun⟩

/-- No packet is presented to the bus before the tick that `startup` has made it busy until. -/
def AfterStartup (b : Bus) : Action → Prop
  | .recvTimingReq .. | .recvTimingResp .. => b.startupIdle ≤ b.curTick
  | _ => True

instance (b : Bus) (action : Action) : Decidable (AfterStartup b action) :=
  match action with
  | .recvTimingReq .. | .recvTimingResp .. => inferInstanceAs (Decidable (_ ≤ _))
  | .advance _ | .busIdle | .recvRetry | .peerReturns _ => .isTrue trivial

/-- Nothing has happened yet in the cycle that the bus was started in. -/
structure Starting (b : Bus) : Prop where
  early : b.curTick < b.startupIdle
  busy : b.tickNextIdle = b.startupIdle
  unscheduled : b.busIdleEvent = none
  list : b.retryList = []
  stack : b.stack = []

structure Scheduled (b : Bus) : Prop where
  busy : b.curTick < b.tickNextIdle → b.busIdleEvent ≠ none
  waiting : b.retryList ≠ [] → b.inRetry = false → b.busIdleEvent ≠ none

theorem Scheduled.refuse (scheduled : Scheduled b) (waits : Waiting b)
    (occupied : b.isOccupied port = true) : Scheduled (b.refuse port) := by
  rw [(refuse_occupied waits occupied).1]
  refine ⟨scheduled.busy, fun _ retry => ?_⟩
  obtain busy | ⟨nonempty, -⟩ := isOccupied_iff.mp occupied
  · exact scheduled.busy busy
  · exact scheduled.waiting nonempty retry

theorem Scheduled.returns (scheduled : Scheduled b) (h : Returned b b') : Scheduled b' := by
  cases h with
  | occupied stacked later kept =>
    exact ⟨fun _ => Option.some_ne_none _, fun _ _ => Option.some_ne_none _⟩
  | answered stacked quiet => exact ⟨scheduled.busy, scheduled.waiting⟩

theorem Scheduled.retry (event : Option Nat) (idle : b.tickNextIdle ≤ b.curTick)
    (h : { b with busIdleEvent := event }.retryWaiting = .ok b') : Scheduled b' := by
  unfold retryWaiting at h
  split at h
  · cases h
  · cases h
    exact ⟨fun busy => absurd busy (Nat.not_lt.mpr idle), nofun⟩

theorem Scheduled.perform (scheduled : Scheduled b) (waits : Waiting b)
    (h : b.perform p action = .ok b') : Scheduled b' := by
  cases action with
  | advance tick =>
    unfold Bus.perform advance at h
    dsimp only at h
    split at h
    · rename_i ready
      cases h
      exact ⟨fun busy => scheduled.busy (Nat.lt_of_le_of_lt ready.2.1 busy), scheduled.waiting⟩
    · cases h
  | recvTimingReq pkt port =>
    obtain ⟨_, _, h⟩ := bind_ok h
    split at h
    · obtain rfl := pure_ok h
      exact scheduled.refuse waits ‹_›
    · obtain rfl := pure_ok h
      exact ⟨scheduled.busy, scheduled.waiting⟩
  | recvTimingResp pkt port =>
    cases h
    unfold Bus.recvTimingResp
    split
    · exact scheduled.refuse waits ‹_›
    · exact ⟨scheduled.busy, scheduled.waiting⟩
  | busIdle =>
    unfold Bus.perform releaseBus at h
    dsimp only at h
    split at h
    · obtain ⟨_, idle, h⟩ := bind_ok h
      have idle := require_ok idle
      split at h
      · exact Scheduled.retry none idle h
      · rename_i empty
        cases h
        exact ⟨fun busy => absurd busy (Nat.not_lt.mpr idle), fun nonempty => absurd nonempty empty⟩
    · cases h
  | recvRetry =>
    unfold Bus.perform recvRetry at h
    dsimp only at h
    split at h
    · rename_i ready
      exact Scheduled.retry b.busIdleEvent ready.2 h
    · cases h
      exact scheduled
  | peerReturns success => exact scheduled.returns (waits.returned h)

theorem Starting.perform (starting : Starting b) (after : AfterStartup b action)
    (h : b.perform p action = .ok b') : Starting b' ∨ Scheduled b' := by
  obtain ⟨early, busy, unscheduled, list, stack⟩ := starting
  cases action with
  | advance tick =>
    unfold Bus.perform advance at h
    dsimp only at h
    split at h
    · cases h
      by_cases still : tick < b.startupIdle
      · exact .inl ⟨still, busy, unscheduled, list, stack⟩
      · refine .inr ⟨fun later => ?_, fun nonempty => absurd list nonempty⟩
        dsimp only at later
        omega
    · cases h
  | recvTimingReq pkt port => exact absurd after (Nat.not_le.mpr early)
  | recvTimingResp pkt port => exact absurd after (Nat.not_le.mpr early)
  | busIdle =>
    unfold Bus.perform releaseBus at h
    simp [unscheduled] at h
  | recvRetry =>
    unfold Bus.perform recvRetry at h
    rw [list] at h
    cases h
    exact .inl ⟨early, busy, unscheduled, list, stack⟩
  | peerReturns success =>
    unfold Bus.perform peerReturns at h
    rw [stack] at h
    cases h

theorem reachable_scheduled (reach : ReachableVia (noncoherentBus p) AfterStartup b) :
    Starting b ∨ Scheduled b := by
  refine reach.invariant (fun b => Starting b ∨ Scheduled b) ?_ ?_
  · rintro b ⟨curTick, rfl⟩
    by_cases late : 0 < curTick
    · refine .inl ⟨?_, rfl, rfl, rfl, rfl⟩
      have := Nat.div_add_mod curTick p.clock
      have := Nat.mod_lt curTick p.clock_pos
      simp only [startup, if_pos late]
      rw [Nat.mul_comm]
      omega
    · refine .inr ⟨fun busy => ?_, fun nonempty => absurd rfl nonempty⟩
      simp [startup, late] at busy
  · intro b action next before after state step
    have waits := reachable_waiting before.reachable
    obtain starting | scheduled := state
    · exact starting.perform after step
    · exact .inr (scheduled.perform waits step)

/-- A refused port stays on the list until it is sent a retry. If no packet is presented in the
cycle that the bus is started in, the event that lets the list go on is scheduled whenever it is
needed. -/
theorem refused_ports_wait (p : Params) (b : Bus) :
    (Reachable (noncoherentBus p) b → ∀ port, b.refused port = true → port ∈ b.retryList) ∧
    (ReachableVia (noncoherentBus p) AfterStartup b → b.retryList ≠ [] → b.inRetry = false →
      b.busIdleEvent ≠ none) := by
  refine ⟨fun reach => (reachable_waiting reach).waiting, fun reach nonempty quiet => ?_⟩
  obtain starting | scheduled := reachable_scheduled reach
  · exact absurd starting.list nonempty
  · exact scheduled.waiting nonempty quiet

def tenTicks : Params := ⟨10, 1, 8, by decide, by decide, by decide⟩

def word : Packet := ⟨true, 8, false, false⟩

def crowded : List Action :=
  [.advance 10, .recvTimingReq word 0, .peerReturns true, .recvTimingReq word 1]

theorem refused_ports_wait_crowded :
    ∃ b, ReachableVia (noncoherentBus tenTicks) AfterStartup b ∧ b.retryList = [.slave 1] ∧
      b.refused (.slave 1) = true ∧ Port.slave 1 ∈ b.retryList ∧ b.busIdleEvent ≠ none := by
  have ran : (crowded.foldlM (fun b action => if AfterStartup b action then
        b.perform tenTicks action else .error .impossible) (startup tenTicks 5)).toOption.any
      (fun b => b.retryList = [.slave 1] ∧ b.refused (.slave 1) = true ∧ b.inRetry = false) =
        true := by decide +kernel
  obtain ⟨b, reach, holds⟩ := foldlM_check_allowed (fun b => ∃ curTick, b = startup tenTicks curTick)
    ⟨5, rfl⟩ ran
  obtain ⟨list, refused, quiet⟩ := of_decide_eq_true holds
  obtain ⟨waits, scheduled⟩ := refused_ports_wait tenTicks b
  exact ⟨b, reach, list, refused, waits reach.reachable _ refused,
    scheduled reach (by simp [list]) quiet⟩

/-- A bus that is started at tick 5 is busy until tick 10, but nothing is scheduled for it. A port
that is refused before that waits for nothing. -/
theorem refused_port_stranded :
    ∃ b, Reachable (noncoherentBus tenTicks) b ∧ b.retryList = [.slave 0] ∧
      b.refused (.slave 0) = true ∧ b.inRetry = false ∧ b.stack = [] ∧ b.busIdleEvent = none := by
  have ran : ([Action.recvTimingReq word 0].foldlM (perform tenTicks)
      (startup tenTicks 5)).toOption.any (fun b => b.retryList = [.slave 0] ∧
        b.refused (.slave 0) = true ∧ b.inRetry = false ∧ b.stack = [] ∧ b.busIdleEvent = none) =
          true := by decide +kernel
  obtain ⟨b, reach, holds⟩ := foldlM_check (fun b => ∃ curTick, b = startup tenTicks curTick)
    (fun _ _ _ => trivial) ⟨5, rfl⟩ ran
  exact ⟨b, reach, of_decide_eq_true holds⟩

end SynchroTrace.Mem.Bus
