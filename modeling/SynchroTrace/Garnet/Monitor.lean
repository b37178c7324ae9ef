import Mathlib.Algebra.BigOperators.Group.Finset.Piecewise
import Mathlib.Algebra.GroupWithZero.Nat
import SynchroTrace.Garnet.Allocators

/-!
A network with the statistics that its interfaces keep: the flits and messages that they inject and
the flits in flight. Beside the statistics stands what they are meant to count.
-/

namespace SynchroTrace.Garnet
open Transition Finset

namespace NetworkInterface
variable (cfg : Config)

/-- The messages for which `flitisizeMessage` is called, as they are then. -/
def drainCalls (self now vnet : Nat) : List (Pending cfg.machines) → NetworkInterface cfg.machines →
    List (NetworkMessage cfg.machines)
  | [], _ => []
  | pending :: rest, ni =>
    pending.message ::
      if (flitisizeMessage cfg self now vnet pending ni).1 then
        drainCalls self now vnet rest (flitisizeMessage cfg self now vnet pending ni).2.2
      else []

def injectCalls (self now : Nat) : List Nat → NetworkInterface cfg.machines →
    List (NetworkMessage cfg.machines)
  | [], _ => []
  | vnet :: rest, ni =>
    drainCalls cfg self now vnet (ni.inNode vnet) ni ++
      injectCalls self now rest (drainQueue cfg self now ni vnet)

end NetworkInterface

structure Statistics where
  numFlitsPerBarrier : Int
  msgTypeCounts : Nat → MessageSizeType → Int
  flitsInFlight : Int
  flitsInFlightAccum : Int
  flitsInFlightPrevCycle : Nat
  niWakeupCounter : Nat

namespace Statistics

def start : Statistics := ⟨0, fun _ _ => 0, 0, 0, 0, 0⟩

def printMessage (self : Nat) (size : MessageSizeType) (st : Statistics) : Statistics :=
  { st with
    msgTypeCounts := Function.update st.msgTypeCounts self
      (Function.update (st.msgTypeCounts self) size (st.msgTypeCounts self size + 1)) }

/-- What `wakeup` and `flitisizeMessage` count for a message, before it is known whether it fits. -/
def flitisize (cfg : Config) (self : Nat) (st : Statistics) (msg : NetworkMessage cfg.machines) :
    Statistics :=
  let st := st.printMessage self msg.messageSize
  { st with numFlitsPerBarrier := st.numFlitsPerBarrier + NetworkInterface.numFlits cfg msg }

def accumulate (now : Nat) (st : Statistics) : Statistics :=
  { st with
    flitsInFlightAccum := st.flitsInFlightAccum +
      st.flitsInFlight * (now - st.flitsInFlightPrevCycle : Int)
    flitsInFlightPrevCycle := now }

def send (now : Nat) (sent : Bool) (st : Statistics) : Statistics :=
  if sent then
    let st := st.accumulate now
    { st with flitsInFlight := st.flitsInFlight + 1 }
  else st

def receive {m : Machines} (self now : Nat) (received : Option (Flit m)) (st : Statistics) :
    Statistics :=
  match received with
  | none => st
  | some f =>
    let st := if f.isTail then st.printMessage self f.msg.message.messageSize else st
    let st := st.accumulate now
    { st with flitsInFlight := st.flitsInFlight - 1 }

/-- `outputNetMsgStats`: the last interface to wake up reports the flits in flight. -/
def outputNetMsgStats (self numNodes : Nat) (st : Statistics) : Statistics :=
  let st := { st with msgTypeCounts := Function.update st.msgTypeCounts self fun _ => 0 }
  if st.niWakeupCounter = numNodes then { st with flitsInFlightAccum := 0, niWakeupCounter := 0 }
  else st

end Statistics

namespace NetState
variable {cfg : Config} (s : NetState cfg)

def handed (n : Nat) : Int :=
  (s.link (.ni n)).carried.length + (s.link (.ni n)).srcQueue.items.length

def consumed (n : Nat) : Int :=
  (s.link (cfg.upstream (.ni n))).carried.length -
    (s.link (cfg.upstream (.ni n))).linkBuffer.items.length

def inFlight : Int :=
  ∑ n ∈ Finset.range cfg.machines.nodes, (s.handed n - s.consumed n)

end NetState

structure Monitor (cfg : Config) where
  net : NetState cfg
  stats : Statistics
  sent : Nat → List (Flit cfg.machines)
  /-- The flits in flight, summed over the cycles since the last report. -/
  integral : Int
  /-- For each report the reported sum and the true one. -/
  reports : List (Int × Int)

inductive MonitorAction (m : Machines) where
  | network (action : Action m)
  | niEventWakeup (n : Nat)
  | barrier

def sentBy {cfg : Config} (n : Nat) (s : NetState cfg) : Option (Flit cfg.machines) :=
  (((niInject n s).ni n).scheduleOutputLink cfg s.time).1

def receivedBy {cfg : Config} (n : Nat) (s : NetState cfg) : Option (Flit cfg.machines) :=
  ((niSend n (niInject n s)).link (cfg.upstream (.ni n))).linkBuffer.ready? s.time

namespace Monitor
variable {cfg : Config}

inductive Fault where
  | network (fault : Garnet.Fault)
  | noInterface
  deriving DecidableEq, Repr

def wakeupStatistics (n : Nat) (s : NetState cfg) (st : Statistics) : Statistics :=
  let calls := NetworkInterface.injectCalls cfg n s.time (List.range cfg.virtualNetworks) (s.ni n)
  let st := calls.foldl (Statistics.flitisize cfg n) st
  let st := st.send s.time (sentBy n s).isSome
  st.receive n s.time (receivedBy n s)

def observe (M : Monitor cfg) (net : NetState cfg) : Action cfg.machines → Monitor cfg
  | .tick => { M with net, integral := M.integral + M.net.inFlight }
  | .niWakeup n => { M with
      net
      stats := wakeupStatistics n M.net M.stats
      sent := Function.update M.sent n (M.sent n ++ (sentBy n M.net).toList) }
  | _ => { M with net }

def niEventWakeup (M : Monitor cfg) (n : Nat) : Monitor cfg :=
  let st := { M.stats with niWakeupCounter := M.stats.niWakeupCounter + 1 }
  let M := { M with stats := st.outputNetMsgStats n cfg.machines.nodes }
  if st.niWakeupCounter = cfg.machines.nodes then
    { M with integral := 0, reports := M.reports ++ [(st.flitsInFlightAccum, M.integral)] }
  else M

def perform (M : Monitor cfg) : MonitorAction cfg.machines → Except Fault (Monitor cfg)
  | .network action =>
    match M.net.perform action with
    | .error fault => .error (.network fault)
    | .ok net =>
      match action with
      | .niWakeup n =>
        if n < cfg.machines.nodes then .ok (M.observe net action) else .error .noInterface
      | _ => .ok (M.observe net action)
  | .niEventWakeup n =>
    if n < cfg.machines.nodes then .ok (M.niEventWakeup n) else .error .noInterface
  | .barrier => .ok { M with stats := { M.stats with numFlitsPerBarrier := 0 } }

structure Constructed (ni : NetworkInterface cfg.machines) : Prop where
  vcAllocator : ni.vcAllocator = fun _ => 0
  vcRoundRobin : ni.vcRoundRobin = 0
  enqueueTime : ni.enqueueTime = fun _ => infinite
  outNode : ni.outNode = fun _ => []
  clones : ni.clones = 0
  accepted : ni.accepted = []
  injected : ni.injected = []

structure Initial (M : Monitor cfg) : Prop where
  net : M.net.Initial
  time : M.net.time = 0
  interfaces : ∀ n, Constructed (M.net.ni n)
  stats : M.stats = .start
  sent : M.sent = fun _ => []
  integral : M.integral = 0
  reports : M.reports = []

def ofNet (net : NetState cfg) : Monitor cfg where
  net := net
  stats := .start
  sent _ := []
  integral := 0
  reports := []

theorem ofNet_initial {net : NetState cfg} (initial : net.Initial) (time : net.time = 0)
    (interfaces : ∀ n, Constructed (net.ni n)) : (ofNet net).Initial :=
  ⟨initial, time, interfaces, rfl, rfl, rfl, rfl⟩

end Monitor

def monitored (cfg : Config) : System (Monitor cfg) (MonitorAction cfg.machines) :=
  ofFunction Monitor.Initial Monitor.perform

theorem sum_of_change {f g : Nat → Int} {bound n : Nat} {change : Int} (inside : n < bound)
    (here : g n = f n + change) (others : ∀ k, k ≠ n → g k = f k) :
    ∑ k ∈ Finset.range bound, g k = ∑ k ∈ Finset.range bound, f k + change := by
  have member := mem_range.mpr inside
  rw [sum_eq_add_sum_sdiff_singleton_of_mem member,
    sum_eq_add_sum_sdiff_singleton_of_mem member f, here,
    sum_congr rfl fun k inside => others k (by simpa using (mem_sdiff.mp inside).2)]
  exact Int.add_right_comm ..

structure Elsewhere {cfg : Config} (s s' : NetState cfg) : Prop where
  time : s'.time = s.time
  ni : s'.ni = s.ni
  handed : s'.handed = s.handed
  consumed : s'.consumed = s.consumed

section Elsewhere
variable {cfg : Config} {s s' : NetState cfg}

theorem Elsewhere.refl (s : NetState cfg) : Elsewhere s s := ⟨rfl, rfl, rfl, rfl⟩

theorem Elsewhere.trans {s'' : NetState cfg} (h : Elsewhere s s') (h' : Elsewhere s' s'') :
    Elsewhere s s'' :=
  ⟨h'.time.trans h.time, h'.ni.trans h.ni, h'.handed.trans h.handed, h'.consumed.trans h.consumed⟩

theorem Elsewhere.inFlight (h : Elsewhere s s') : s'.inFlight = s.inFlight := by
  unfold NetState.inFlight
  rw [h.handed, h.consumed]

structure Link.SameCounts {m : Machines} (l l' : Link m) : Prop where
  entered : (l'.carried.length + l'.srcQueue.items.length : Int) =
    l.carried.length + l.srcQueue.items.length
  left : (l'.carried.length - l'.linkBuffer.items.length : Int) =
    l.carried.length - l.linkBuffer.items.length

theorem Elsewhere.of_links (time : s'.time = s.time) (ni : s'.ni = s.ni)
    (links : ∀ p, (s.link p).SameCounts (s'.link p)) : Elsewhere s s' :=
  ⟨time, ni, funext fun _ => (links _).entered, funext fun _ => (links _).left⟩

theorem Elsewhere.setLink {p : Endpoint} {l : Link cfg.machines}
    (same : (s.link p).SameCounts l) : Elsewhere s (s.setLink p l) := by
  refine .of_links rfl rfl fun q => ?_
  by_cases here : q = p
  · subst here
    simpa using same
  · simpa [here] using ⟨rfl, rfl⟩

theorem FlitBuffer.length_pos {m : Machines} {b : FlitBuffer m} {now : Nat} {f : Flit m}
    (h : b.ready? now = some f) : 0 < b.items.length := by
  rw [(FlitBuffer.ready?_some h).1]
  exact Nat.succ_pos _

theorem elsewhere_linkWakeup (p : Endpoint) (s : NetState cfg) : Elsewhere s (linkWakeup p s) := by
  unfold linkWakeup
  dsimp only
  split
  · exact .refl s
  · rename_i f ready
    have nonempty := FlitBuffer.length_pos ready
    refine .setLink ⟨?_, ?_⟩
    · simp [Link.advance]
      omega
    · simp [Link.advance, PriorityQueue.length_insert]

theorem elsewhere_creditLinkWakeup (p : Endpoint) (s : NetState cfg) :
    Elsewhere s (creditLinkWakeup p s) := by
  unfold creditLinkWakeup
  dsimp only
  split
  · exact .refl s
  · exact .setLink ⟨rfl, rfl⟩

theorem elsewhere_outputUnitWakeup (p : PortId) (s : NetState cfg) :
    Elsewhere s (outputUnitWakeup p s) := by
  unfold outputUnitWakeup
  dsimp only
  split
  · exact .refl s
  · rename_i c ready
    have popped : Elsewhere s (s.setLink p.endpoint { s.link p.endpoint with
        creditBuffer := (s.link p.endpoint).creditBuffer.pop }) := .setLink ⟨rfl, rfl⟩
    exact ⟨rfl, rfl, popped.handed, popped.consumed⟩

theorem elsewhere_inputUnitWakeup {p : PortId} (h : inputUnitWakeup p s = .ok s') :
    Elsewhere s s' := by
  unfold inputUnitWakeup at h
  dsimp only at h
  split at h
  · cases h
    exact .refl s
  · rename_i f ready
    have popped : Elsewhere s (s.setLink (cfg.upstream p.endpoint) { s.link (cfg.upstream p.endpoint)
        with linkBuffer := (s.link (cfg.upstream p.endpoint)).linkBuffer.pop }) := by
      refine ⟨rfl, rfl, ?_, ?_⟩
      · funext n
        by_cases here : Endpoint.ni n = cfg.upstream p.endpoint <;> simp [NetState.handed, here]
      · funext n
        -- the link to an interface is not the one to the input port
        have other : cfg.upstream (.ni n) ≠ cfg.upstream p.endpoint := fun same =>
          nomatch cfg.upstream_injective same
        simp [NetState.consumed, other]
    split at h
    · split at h
      · cases h
      · split at h
        · cases h
        · cases h
          exact ⟨rfl, rfl, popped.handed, popped.consumed⟩
    · cases h
      exact ⟨rfl, rfl, popped.handed, popped.consumed⟩

theorem elsewhere_crossSwitch (s : NetState cfg) (p : PortId) : Elsewhere s (crossSwitch s p) := by
  unfold crossSwitch
  dsimp only
  split
  · exact .refl s
  · rename_i f ready
    refine ⟨rfl, rfl, ?_, ?_⟩
    · funext n
      simp [NetState.handed]
    · funext n
      by_cases here : cfg.upstream (.ni n) = .router p.router f.outport <;>
        simp [NetState.consumed, here]

theorem elsewhere_switchWakeup (r : Nat) (s : NetState cfg) : Elsewhere s (switchWakeup r s) := by
  unfold switchWakeup
  exact List.foldlRecOn _ _ (.refl s) fun _ before _ _ => before.trans (elsewhere_crossSwitch _ _)

theorem elsewhere_pointers (s : NetState cfg) (pointers : Pointers) :
    Elsewhere s { s with pointers } := ⟨rfl, rfl, rfl, rfl⟩

theorem elsewhere_vcAllocatorWakeup {r : Nat} (h : vcAllocatorWakeup r s = .ok s') :
    Elsewhere s s' := by
  refine Outcome.foldlM_invariant (Elsewhere s) (fun y _ before after same step => ?_)
    (elsewhere_pointers s _) h
  refine same.trans ?_
  unfold grantOutvc at step
  dsimp only at step
  split at step
  · split at step
    · cases step
      exact elsewhere_pointers _ _
    · obtain ⟨time, -, link, ni⟩ := (grantVc_granted step).rest
      exact .of_links time ni fun p => by
        rw [link]
        exact ⟨rfl, rfl⟩
  · cases step
    exact .refl _

theorem elsewhere_returnCredit (s : NetState cfg) (sink : Endpoint) (vc : Nat) (free : Bool) :
    Elsewhere s (s.returnCredit sink vc free) := .setLink ⟨rfl, rfl⟩

theorem elsewhere_sendFlit {x : VcId} {outport : Nat} (h : sendFlit x outport s = .ok s') :
    Elsewhere s s' := by
  unfold sendFlit at h
  dsimp only at h
  split at h
  · cases h
  · rename_i f rest items
    -- up to the credit only VCs and the switch buffer change
    have credit : ∀ t : NetState cfg, t.time = s.time → t.ni = s.ni → t.link = s.link →
        Elsewhere s (t.returnCredit x.toPortId.endpoint x.vc f.isTail) := by
      intro t time ni link
      refine Elsewhere.trans (.of_links time ni fun p => ?_) (elsewhere_returnCredit t ..)
      rw [link]
      exact ⟨rfl, rfl⟩
    split at h
    · split at h
      · cases h
      · cases h
        have same := credit _ rfl rfl rfl
        exact ⟨rfl, rfl, same.handed, same.consumed⟩
    · cases h
      exact credit _ rfl rfl rfl

theorem elsewhere_swAllocatorWakeup {r : Nat} (h : swAllocatorWakeup r s = .ok s') :
    Elsewhere s s' := by
  refine Outcome.foldlM_invariant (Elsewhere s) (fun outport _ before after same step => ?_)
    (elsewhere_pointers s _) h
  refine same.trans ?_
  unfold grantOutport at step
  dsimp only at step
  split at step
  · cases step
    exact elsewhere_pointers _ _
  · exact (elsewhere_pointers _ _).trans (elsewhere_sendFlit step)

end Elsewhere

namespace Monitor
variable {cfg : Config} {M M' : Monitor cfg}

inductive Step (M : Monitor cfg) : MonitorAction cfg.machines → Monitor cfg → Prop
  | tick : Step M (.network .tick) { M with
      net := { M.net with time := M.net.time + 1 }, integral := M.integral + M.net.inFlight }
  | message (n vnet : Nat) (msg : NetworkMessage cfg.machines) :
      Step M (.network (.message n vnet msg))
        { M with net := M.net.setNi n ((M.net.ni n).enqueue vnet msg) }
  | wakeup (n : Nat) (bound : n < cfg.machines.nodes) : Step M (.network (.niWakeup n))
      (M.observe (Garnet.niWakeup n M.net) (.niWakeup n))
  | elsewhere (action : Action cfg.machines) (net : NetState cfg) (same : Elsewhere M.net net) :
      Step M (.network action) { M with net }
  | event (n : Nat) (bound : n < cfg.machines.nodes) : Step M (.niEventWakeup n) (M.niEventWakeup n)
  | barrier : Step M .barrier { M with
      stats := { M.stats with numFlitsPerBarrier := 0 } }

theorem perform_step {action : MonitorAction cfg.machines} (h : M.perform action = .ok M') :
    Step M action M' := by
  cases action with
  | network action =>
    unfold perform at h
    dsimp only at h
    split at h
    · cases h
    · rename_i net performed
      cases action with
      | tick =>
        cases performed
        cases h
        exact .tick
      | message n vnet msg =>
        cases performed
        cases h
        exact .message n vnet msg
      | niWakeup n =>
        cases performed
        dsimp only at h
        split at h
        · cases h
          exact .wakeup n ‹_›
        · cases h
      | linkWakeup p =>
        cases performed
        cases h
        exact .elsewhere _ _ (elsewhere_linkWakeup p _)
      | creditLinkWakeup p =>
        cases performed
        cases h
        exact .elsewhere _ _ (elsewhere_creditLinkWakeup p _)
      | inputUnitWakeup p =>
        cases h
        exact .elsewhere _ _ (elsewhere_inputUnitWakeup performed)
      | outputUnitWakeup p =>
        cases performed
        cases h
        exact .elsewhere _ _ (elsewhere_outputUnitWakeup p _)
      | vcAllocatorWakeup r =>
        cases h
        exact .elsewhere _ _ (elsewhere_vcAllocatorWakeup performed)
      | swAllocatorWakeup r =>
        cases h
        exact .elsewhere _ _ (elsewhere_swAllocatorWakeup performed)
      | switchWakeup r =>
        cases performed
        cases h
        exact .elsewhere _ _ (elsewhere_switchWakeup r _)
  | niEventWakeup n =>
    unfold perform at h
    dsimp only at h
    split at h
    · cases h
      exact .event n ‹_›
    · cases h
  | barrier =>
    cases h
    exact .barrier

theorem reachable_net (reach : Reachable (monitored cfg) M) : Reachable (network cfg) M.net := by
  refine reach.invariant (fun M => Reachable (network cfg) M.net) ?_ ?_
  · exact fun M initial => .initial initial.net
  · intro M action M' _ _ before step
    cases action with
    | network action =>
      change M.perform (.network action) = .ok M' at step
      unfold perform at step
      dsimp only at step
      split at step
      · cases step
      · rename_i net performed
        have after : Reachable (network cfg) net := before.step trivial performed
        have observed : (M.observe net action).net = net := by cases action <;> rfl
        split at step
        · split at step
          · cases step
            exact after
          · cases step
        · cases step
          rwa [observed]
    | niEventWakeup n =>
      cases perform_step step
      unfold niEventWakeup
      dsimp only
      split <;> exact before
    | barrier =>
      cases step
      exact before

end Monitor

end SynchroTrace.Garnet
