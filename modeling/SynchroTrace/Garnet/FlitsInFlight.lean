import SynchroTrace.Garnet.Exclusive
import SynchroTrace.Garnet.Monitor

/-!
The number of flits in flight and its sum over the cycles: the number is exact, and the sum is
brought up to date whenever a flit enters or leaves the network, but not for a report.
-/

namespace SynchroTrace.Garnet
open Transition Function NetworkInterface

variable {cfg : Config} {s s' : NetState cfg}

theorem inFlight_of_change {n : Nat} {entered left : Int} (bound : n < cfg.machines.nodes)
    (handed : s'.handed = Function.update s.handed n (s.handed n + entered))
    (consumed : s'.consumed = Function.update s.consumed n (s.consumed n + left)) :
    s'.inFlight = s.inFlight + entered - left := by
  have change : s'.inFlight = s.inFlight + (entered - left) := by
    refine sum_of_change bound ?_ fun k other => ?_
    · rw [handed, consumed, update_self, update_self]
      omega
    · rw [handed, consumed, update_of_ne other, update_of_ne other]
  omega

theorem elsewhere_setNi (s : NetState cfg) (n : Nat) (ni : NetworkInterface cfg.machines) :
    (s.setNi n ni).handed = s.handed ∧ (s.setNi n ni).consumed = s.consumed := ⟨rfl, rfl⟩

theorem niSend_flow (n : Nat) (s : NetState cfg) :
    (niSend n s).handed = Function.update s.handed n (s.handed n +
      if ((s.ni n).scheduleOutputLink cfg s.time).1.isSome then 1 else 0) ∧
    (niSend n s).consumed = s.consumed := by
  unfold niSend
  dsimp only
  split
  · rename_i none
    simp only [none, Option.isSome_none, Bool.false_eq_true, if_false, Int.add_zero, update_eq_self]
    exact elsewhere_setNi s n _
  · rename_i f some
    simp only [some, Option.isSome_some, if_true]
    constructor
    · funext k
      by_cases here : k = n
      · subst here
        simp [NetState.handed, Link.enqueue, PriorityQueue.length_insert]
        omega
      · simp [NetState.handed, here]
    · funext k
      by_cases here : cfg.upstream (.ni k) = .ni n <;> simp [NetState.consumed, Link.enqueue, here]

theorem niReceive_flow (n : Nat) (s : NetState cfg) : (niReceive n s).handed = s.handed ∧
    (niReceive n s).consumed = Function.update s.consumed n (s.consumed n +
      if ((s.link (cfg.upstream (.ni n))).linkBuffer.ready? s.time).isSome then 1 else 0) := by
  unfold niReceive
  dsimp only
  split
  · rename_i none
    simp [none]
  · rename_i f ready
    simp only [ready, Option.isSome_some, if_true]
    have nonempty := FlitBuffer.length_pos ready
    have credit := elsewhere_returnCredit ((s.setLink (cfg.upstream (.ni n))
      { s.link (cfg.upstream (.ni n)) with
        linkBuffer := (s.link (cfg.upstream (.ni n))).linkBuffer.pop }).setNi n
          ((s.ni n).receive f)) (.ni n) f.vc f.isTail
    refine ⟨credit.handed.trans ?_, credit.consumed.trans ?_⟩
    · funext k
      by_cases here : Endpoint.ni k = cfg.upstream (.ni n) <;> simp [NetState.handed, here]
    · funext k
      by_cases here : k = n
      · subst here
        simp [NetState.consumed]
        omega
      · have other : cfg.upstream (.ni k) ≠ cfg.upstream (.ni n) := fun same =>
          here (Endpoint.ni.inj (cfg.upstream_injective same))
        simp [NetState.consumed, here, other]

theorem niCredit_flow (n : Nat) (s : NetState cfg) :
    (niCredit n s).handed = s.handed ∧ (niCredit n s).consumed = s.consumed := by
  unfold niCredit
  dsimp only
  split
  · exact ⟨rfl, rfl⟩
  · rename_i c ready
    have popped : Elsewhere s (s.setLink (.ni n) { s.link (.ni n) with
        creditBuffer := (s.link (.ni n)).creditBuffer.pop }) := .setLink ⟨rfl, rfl⟩
    exact ⟨popped.handed, popped.consumed⟩

theorem niSend_time (n : Nat) (s : NetState cfg) : (niSend n s).time = s.time := by
  unfold niSend
  dsimp only
  split <;> rfl

theorem niWakeup_time (n : Nat) (s : NetState cfg) : (niWakeup n s).time = s.time := by
  have receive : ∀ s : NetState cfg, (niReceive n s).time = s.time := by
    intro s
    unfold niReceive
    dsimp only
    split <;> rfl
  have credit : ∀ s : NetState cfg, (niCredit n s).time = s.time := by
    intro s
    unfold niCredit
    dsimp only
    split <;> rfl
  exact (credit _).trans ((receive _).trans (niSend_time n _))

theorem niWakeup_inFlight {n : Nat} (bound : n < cfg.machines.nodes) (s : NetState cfg) :
    (niWakeup n s).inFlight = s.inFlight + (if (sentBy n s).isSome then 1 else 0) -
      if (receivedBy n s).isSome then 1 else 0 := by
  obtain ⟨sent, kept⟩ := niSend_flow n (niInject n s)
  obtain ⟨kept', received⟩ := niReceive_flow n (niSend n (niInject n s))
  obtain ⟨same, same'⟩ := niCredit_flow n (niReceive n (niSend n (niInject n s)))
  have time : (niSend n (niInject n s)).time = s.time := niSend_time n _
  refine inFlight_of_change bound ?_ ?_
  · exact same.trans (kept'.trans sent)
  · rw [time, kept] at received
    exact same'.trans received

namespace Statistics

def due (st : Statistics) (now : Nat) : Int :=
  st.flitsInFlightAccum + st.flitsInFlight * (now - st.flitsInFlightPrevCycle : Int)

structure SameFlight (st st' : Statistics) : Prop where
  inFlight : st'.flitsInFlight = st.flitsInFlight
  accum : st'.flitsInFlightAccum = st.flitsInFlightAccum
  prevCycle : st'.flitsInFlightPrevCycle = st.flitsInFlightPrevCycle

theorem SameFlight.due {st st' : Statistics} (same : SameFlight st st') (now : Nat) :
    st'.due now = st.due now := by
  unfold Statistics.due
  rw [same.inFlight, same.accum, same.prevCycle]

theorem sameFlight_flitisize (self : Nat) (calls : List (NetworkMessage cfg.machines))
    (st : Statistics) : SameFlight st (calls.foldl (flitisize cfg self) st) :=
  List.foldlRecOn calls _ ⟨rfl, rfl, rfl⟩ fun _ same _ _ =>
    ⟨same.inFlight, same.accum, same.prevCycle⟩

theorem send_flight (st : Statistics) (now : Nat) (sent : Bool) :
    (st.send now sent).flitsInFlight = st.flitsInFlight + (if sent then 1 else 0) ∧
      (st.send now sent).due now = st.due now := by
  cases sent with
  | false => simp [send]
  | true => simp [send, accumulate, due]

theorem receive_flight {m : Machines} (st : Statistics) (self now : Nat)
    (received : Option (Flit m)) :
    (st.receive self now received).flitsInFlight =
        st.flitsInFlight - (if received.isSome then 1 else 0) ∧
      (st.receive self now received).due now = st.due now := by
  cases received with
  | none => simp [receive]
  | some f => cases tail : f.isTail <;> simp [receive, accumulate, due, printMessage, tail]

end Statistics

namespace Monitor
variable {M M' : Monitor cfg}

theorem wakeupStatistics_flight (n : Nat) (s : NetState cfg) (st : Statistics) :
    (wakeupStatistics n s st).flitsInFlight = st.flitsInFlight +
        (if (sentBy n s).isSome then 1 else 0) - (if (receivedBy n s).isSome then 1 else 0) ∧
      (wakeupStatistics n s st).due s.time = st.due s.time := by
  have injected := Statistics.sameFlight_flitisize n (injectCalls cfg n s.time
    (List.range cfg.virtualNetworks) (s.ni n)) st
  have sent := Statistics.send_flight (List.foldl (Statistics.flitisize cfg n) st
    (injectCalls cfg n s.time (List.range cfg.virtualNetworks) (s.ni n)))
    s.time (sentBy n s).isSome
  have received := Statistics.receive_flight (Statistics.send s.time (sentBy n s).isSome
    (List.foldl (Statistics.flitisize cfg n) st (injectCalls cfg n s.time
      (List.range cfg.virtualNetworks) (s.ni n)))) n s.time (receivedBy n s)
  refine ⟨?_, received.2.trans (sent.2.trans (injected.due _))⟩
  have total := received.1
  rw [sent.1, injected.inFlight] at total
  exact total

/-- The reports are made when no flit is in flight or in a cycle in which one entered or left the
network before. -/
def UpToDate (M : Monitor cfg) : MonitorAction cfg.machines → Prop
  | .niEventWakeup _ => M.stats.niWakeupCounter + 1 = cfg.machines.nodes →
      M.stats.flitsInFlight = 0 ∨ M.stats.flitsInFlightPrevCycle = M.net.time
  | _ => True

instance (M : Monitor cfg) (action : MonitorAction cfg.machines) : Decidable (UpToDate M action) :=
  match action with
  | .niEventWakeup _ => inferInstanceAs (Decidable (_ → _ ∨ _))
  | .network _ | .barrier => .isTrue trivial

theorem reachable_flitsInFlight (reach : Reachable (monitored cfg) M) :
    M.stats.flitsInFlight = M.net.inFlight := by
  refine reach.invariant (fun M => M.stats.flitsInFlight = M.net.inFlight) ?_ ?_
  · intro M initial
    have empty : ∀ p, (M.net.link p).Empty := initial.net.link
    have none : M.net.inFlight = 0 := Finset.sum_eq_zero fun n _ => by
      obtain ⟨src, -, -, -, carried⟩ := empty (.ni n)
      obtain ⟨-, buffer, -, -, carried'⟩ := empty (cfg.upstream (.ni n))
      simp [NetState.handed, NetState.consumed, src, carried, buffer, carried']
    rw [none, initial.stats]
    rfl
  · intro M action M' _ _ exact' step
    cases perform_step step with
    | tick => exact exact'
    | message n vnet msg => exact exact'
    | wakeup n bound =>
      have change := (wakeupStatistics_flight n M.net M.stats).1
      change (wakeupStatistics n M.net M.stats).flitsInFlight = (niWakeup n M.net).inFlight
      rw [change, exact', niWakeup_inFlight bound]
    | elsewhere action net same => exact exact'.trans same.inFlight.symm
    | event n bound =>
      unfold niEventWakeup Statistics.outputNetMsgStats
      dsimp only
      split <;> exact exact'
    | barrier => exact exact'

/-- What a report would leave out is zero in every report, and so no report is wrong. -/
structure Exact (M : Monitor cfg) : Prop where
  due : M.stats.due M.net.time = M.integral
  reports : ∀ report ∈ M.reports, report.1 = report.2

theorem Exact.event (before : Exact M) (n : Nat) (upToDate : UpToDate M (.niEventWakeup n)) :
    Exact (M.niEventWakeup n) := by
  by_cases last : M.stats.niWakeupCounter + 1 = cfg.machines.nodes
  · -- nothing is missing from the sum at a report
    have complete : M.stats.flitsInFlight *
        (M.net.time - M.stats.flitsInFlightPrevCycle : Int) = 0 := by
      obtain none | now := upToDate last
      · rw [none, Int.zero_mul]
      · rw [now, Int.sub_self, Int.mul_zero]
    have sum : M.stats.flitsInFlightAccum = M.integral := by
      have := before.due
      unfold Statistics.due at this
      omega
    constructor
    · simp only [niEventWakeup, Statistics.outputNetMsgStats, last, if_true, Statistics.due]
      simpa using complete
    · simp only [niEventWakeup, last, if_true, List.mem_append, List.mem_singleton]
      rintro report (earlier | rfl)
      · exact before.reports report earlier
      · exact sum
  · constructor
    · simp only [niEventWakeup, Statistics.outputNetMsgStats, last, if_false]
      exact before.due
    · simp only [niEventWakeup, last, if_false]
      exact before.reports

theorem reachable_exact (reach : ReachableVia (monitored cfg) UpToDate M) : Exact M := by
  refine reach.invariant Exact ?_ ?_
  · intro M initial
    refine ⟨?_, by simp [initial.reports]⟩
    rw [initial.stats, initial.integral]
    simp [Statistics.due, Statistics.start]
  · intro M action M' reach upToDate before step
    have inFlight := reachable_flitsInFlight reach.reachable
    cases perform_step step with
    | tick =>
      refine ⟨?_, before.reports⟩
      have due := before.due
      unfold Statistics.due at due ⊢
      dsimp only
      have later : ((M.net.time + 1 : Nat) - M.stats.flitsInFlightPrevCycle : Int) =
          (M.net.time - M.stats.flitsInFlightPrevCycle) + 1 := by omega
      rw [later, Int.mul_add, Int.mul_one, ← due, ← inFlight]
      omega
    | message n vnet msg => exact ⟨before.due, before.reports⟩
    | wakeup n bound =>
      have time : (niWakeup n M.net).time = M.net.time := niWakeup_time n M.net
      refine ⟨?_, before.reports⟩
      change (wakeupStatistics n M.net M.stats).due (niWakeup n M.net).time = M.integral
      rw [time, (wakeupStatistics_flight n M.net M.stats).2, before.due]
    | elsewhere action net same =>
      refine ⟨?_, before.reports⟩
      change M.stats.due net.time = M.integral
      rw [same.time, before.due]
    | event n bound => exact before.event n upToDate
    | barrier => exact ⟨before.due, before.reports⟩

/-- The counter is the number of flits that were handed to links and not yet consumed. A report
gives the sum over the cycles since the one before exactly if none is in flight or the sum has been
brought up to date in this cycle, when the reports before were made so. -/
theorem flits_in_flight_integral (cfg : Config) (M : Monitor cfg) :
    (Reachable (monitored cfg) M → M.stats.flitsInFlight = M.net.inFlight) ∧
    (ReachableVia (monitored cfg) UpToDate M → (∀ report ∈ M.reports, report.1 = report.2) ∧
      ∀ n, M.stats.niWakeupCounter + 1 = cfg.machines.nodes →
        (M.stats.flitsInFlightAccum = M.integral ↔ UpToDate M (.niEventWakeup n))) := by
  refine ⟨reachable_flitsInFlight, fun reach => ?_⟩
  have exact' := reachable_exact reach
  refine ⟨exact'.reports, fun n last => ?_⟩
  have due := exact'.due
  unfold Statistics.due at due
  have complete : M.stats.flitsInFlightAccum = M.integral ↔ M.stats.flitsInFlight *
      (M.net.time - M.stats.flitsInFlightPrevCycle : Int) = 0 := by omega
  rw [complete, Int.mul_eq_zero]
  simp only [UpToDate, last, true_imp_iff]
  omega

theorem reachable_ticks {allowed : Monitor cfg → MonitorAction cfg.machines → Prop}
    (free : ∀ M, allowed M (.network .tick)) (reach : ReachableVia (monitored cfg) allowed M)
    (k : Nat) : ReachableVia (monitored cfg) allowed { M with
      net := { M.net with time := M.net.time + k }
      integral := M.integral + k * M.net.inFlight } := by
  induction k with
  | zero => simpa using reach
  | succ k ih =>
    refine .step ih (free _) ?_
    have sum : M.integral + k * M.net.inFlight + M.net.inFlight =
        M.integral + (k + 1 : Nat) * M.net.inFlight := by
      rw [Int.natCast_add, Int.add_mul, Int.natCast_one, Int.one_mul, Int.add_assoc]
    rw [← sum]
    rfl

def idleMonitor : Monitor fork := ofNet idleFork

theorem idleMonitor_initial : idleMonitor.Initial :=
  ofNet_initial idleFork_initial rfl fun _ => ⟨rfl, rfl, rfl, rfl, rfl, rfl, rfl⟩

def idleUntil (k : Nat) : Monitor fork :=
  { idleMonitor with
    net := { idleMonitor.net with time := idleMonitor.net.time + k }
    integral := idleMonitor.integral + k * idleMonitor.net.inFlight }

def reporting : List (MonitorAction fork.machines) :=
  [.niEventWakeup 0, .niEventWakeup 1, .niEventWakeup 2]

def arriving : List (MonitorAction fork.machines) :=
  (onePacket.take 16).map .network ++ reporting

theorem flits_in_flight_integral_arriving :
    ∃ M, ReachableVia (monitored fork) UpToDate M ∧ M.net.time = 10000 ∧ M.reports = [(7, 7)] ∧
      M.stats.flitsInFlight = M.net.inFlight ∧ ∀ report ∈ M.reports, report.1 = report.2 := by
  have ran : (arriving.foldlM (fun M action => if UpToDate M action then perform M action
      else .error .noInterface) (idleUntil 9993)).toOption.any
        (fun M => M.net.time = 10000 ∧ M.reports = [(7, 7)]) = true := by decide +kernel
  obtain ⟨M, ran, holds⟩ := Outcome.any_toOption ran
  have start : ReachableVia (monitored fork) UpToDate (idleUntil 9993) :=
    reachable_ticks (fun _ => trivial) (.initial idleMonitor_initial) 9993
  have reach := start.foldlM_allowed ran
  obtain ⟨time, reports⟩ := of_decide_eq_true holds
  obtain ⟨inFlight, sums⟩ := flits_in_flight_integral fork M
  exact ⟨M, reach, time, reports, inFlight reach.reachable, (sums reach).1⟩

def leaving : List (MonitorAction fork.machines) :=
  [.network (.message 0 0 toFirst), .network (.niWakeup 0), .network .tick] ++ reporting

/-- The report in cycle 10000 says that no flit was in flight since the start, but one was in the
cycle before. -/
theorem flits_in_flight_unreported :
    ∃ M, Reachable (monitored fork) M ∧ M.net.time = 10000 ∧ M.reports = [(0, 1)] := by
  have ran : (leaving.foldlM perform (idleUntil 9999)).toOption.any
      (fun M => M.net.time = 10000 ∧ M.reports = [(0, 1)]) = true := by decide +kernel
  obtain ⟨M, ran, holds⟩ := Outcome.any_toOption ran
  have start : Reachable (monitored fork) (idleUntil 9999) :=
    reachable_ticks (fun _ => trivial) (.initial idleMonitor_initial) 9999
  exact ⟨M, start.foldlM (fun _ _ _ => trivial) ran, of_decide_eq_true holds⟩

end Monitor

end SynchroTrace.Garnet
