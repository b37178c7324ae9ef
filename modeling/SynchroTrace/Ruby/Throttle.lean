import Mathlib.Algebra.BigOperators.Group.Finset.Basic
import Mathlib.Algebra.BigOperators.Intervals
import Mathlib.Algebra.Ring.Int.Defs
import Mathlib.Data.Fintype.Basic
import Mathlib.Data.Fintype.Sigma
import SynchroTrace.Garnet.Message
import SynchroTrace.Lib.Transition
import SynchroTrace.Ruby.MessageBuffer

/-!
The throttles of the simple network. A message is moved before it is paid for; what is owed is
carried over to the next wakeups.
-/

namespace SynchroTrace.Ruby
open Function (update update_of_ne update_self)

open Outcome Transition Garnet List PriorityQueue MessageBuffer

def messageSizeMultiplier : Int := 1000

def broadcastScaling : Int := 1

/-- The products are those of an `int`. -/
def networkMessageToSize {m : Machines} (msg : NetworkMessage m) : Int :=
  let size := (msg.size * messageSizeMultiplier).bmod (2 ^ 32)
  -- broadcasts can be made artificially larger
  if broadcastScaling > 1 ∧ msg.destination = Finset.univ then
    (size * broadcastScaling).bmod (2 ^ 32)
  else size

inductive ThrottleFault where
  | buffer (fault : MessageBuffer.Fault)
  | assertion
  | rounds
deriving DecidableEq

structure Throttle (m : Machines) where
  vnets : Nat
  linkBandwidthMultiplier : Int
  endpointBandwidth : Int
  linkLatency : Nat
  inBuffers : Nat → MessageBuffer (NetworkMessage m)
  outBuffers : Nat → MessageBuffer (NetworkMessage m)
  unitsRemaining : Nat → Int
  wakeupsWoSwitch : Nat
  messageCounters : MessageSizeType → Nat → Nat
  /-- The times for which the throttle has scheduled itself. -/
  scheduled : Finset Nat
  /-- The nodes that were moved on each virtual network, the oldest first. Nothing reads it. -/
  moved : Nat → List (MessageBufferNode (NetworkMessage m))
  /-- The bandwidth that all wakeups have spent. Nothing reads it. -/
  spent : Int

namespace Throttle

variable {m : Machines} (t : Throttle m)

def getLinkBandwidth : Int := (t.endpointBandwidth * t.linkBandwidthMultiplier).bmod (2 ^ 32)

/-- There is a message to move or one to pay for. -/
def HasWork (g : Globals) (t : Throttle m) (vnet : Nat) : Prop :=
  (t.inBuffers vnet).isReady g = true ∨ 0 < t.unitsRemaining vnet

instance (g : Globals) (t : Throttle m) (vnet : Nat) : Decidable (t.HasWork g vnet) :=
  inferInstanceAs (Decidable (_ ∨ _))

variable (g : Globals) (vnet : Nat)

/-- `bw_remaining > 0 && (isReady() || m_units_remaining > 0)`, and the output's answer to
`areNSlotsAvailable(1)` when this holds. -/
def askOutput (bw : Int) (t : Throttle m) : Option Bool × Throttle m :=
  if 0 < bw ∧ t.HasWork g vnet then
    let (available, b) := (t.outBuffers vnet).areNSlotsAvailable g 1
    (some available, { t with outBuffers := update t.outBuffers vnet b })
  else (none, t)

def move (draws : Nat × Nat × Nat) (t : Throttle m) : Except ThrottleFault (Throttle m) :=
  match (t.inBuffers vnet).prioHeap.items with
  | [] => .error .assertion
  | node :: _ => do
    let payload := node.message.payload
    let out ← ((t.outBuffers vnet).enqueue g node.message t.linkLatency draws).mapError .buffer
    let (_, input) ← ((t.inBuffers vnet).pop g).mapError .buffer
    return { t with
      unitsRemaining := update t.unitsRemaining vnet
        (t.unitsRemaining vnet + networkMessageToSize payload)
      outBuffers := update t.outBuffers vnet out
      inBuffers := update t.inBuffers vnet input
      messageCounters := update t.messageCounters payload.messageSize
        (update (t.messageCounters payload.messageSize) vnet
          (t.messageCounters payload.messageSize vnet + 1))
      moved := update t.moved vnet (t.moved vnet ++ [node]) }

/-- Moves the next message when the previous one has been paid for. -/
def moveNext (draws : Nat × Nat × Nat) (t : Throttle m) : Except ThrottleFault (Throttle m) :=
  if t.unitsRemaining vnet = 0 ∧ (t.inBuffers vnet).isReady g = true then t.move g vnet draws
  else .ok t

/-- The loop over the messages of a virtual network. Returns the bandwidth that is left. The draws
are those of the output's next message. -/
def transfer (g : Globals) (vnet : Nat) (draws : Nat → Nat × Nat × Nat) :
    Nat → Int → Throttle m → Except ThrottleFault (Int × Throttle m)
  | 0, bw, t =>
    match t.askOutput g vnet bw with
    | (some true, _) => .error .rounds
    | (_, t) => .ok (bw, t)
  | rounds + 1, bw, t =>
    match t.askOutput g vnet bw with
    | (some true, t) => do
      let t ← t.moveNext g vnet (draws (t.outBuffers vnet).msgCounter)
      let diff := t.unitsRemaining vnet - bw
      transfer g vnet draws rounds (max 0 (-diff))
        { t with unitsRemaining := update t.unitsRemaining vnet (max 0 diff) }
    | (_, t) => .ok (bw, t)

/-- One round of the loop over the virtual networks, with the bandwidth that is left and whether
some output was full. -/
def serveVnet (rounds : Nat) (draws : Nat → Nat → Nat × Nat × Nat)
    (acc : Int × Bool × Throttle m) (vnet : Nat) :
    Except ThrottleFault (Int × Bool × Throttle m) := do
  let (bw, scheduleWakeup, t) := acc
  require (0 ≤ t.unitsRemaining vnet) .assertion
  let (bw, t) ← t.transfer g vnet (draws vnet) rounds bw
  let (answer, t) := t.askOutput g vnet bw
  return (bw, scheduleWakeup || answer == some false, t)

def prioritySwitchLimit : Nat := 128

/-- The virtual networks in the order of their priorities, which is inverted now and then. -/
def priorities : List Nat :=
  if t.wakeupsWoSwitch + 1 > prioritySwitchLimit then List.range t.vnets
  else (List.range t.vnets).reverse

def countWakeup : Throttle m :=
  { t with wakeupsWoSwitch :=
      if t.wakeupsWoSwitch + 1 > prioritySwitchLimit then 0 else t.wakeupsWoSwitch + 1 }

def wakeup (rounds : Nat) (draws : Nat → Nat → Nat × Nat × Nat) (t : Throttle m) :
    Except ThrottleFault (Throttle m) := do
  require (0 < t.getLinkBandwidth) .assertion
  let (bw, scheduleWakeup, t') ← t.priorities.foldlM (serveVnet g rounds draws)
    (t.getLinkBandwidth, false, t.countWakeup)
  let t' := { t' with spent := t'.spent + (t.getLinkBandwidth - bw) }
  if 0 < bw ∧ scheduleWakeup = false then return t'
  else return { t' with scheduled := insert (g.time + 1) t'.scheduled }

def movedSize : Int :=
  ((t.moved vnet).map fun node => networkMessageToSize node.message.payload).sum

def paid (t : Throttle m) (vnet : Nat) : Int := t.movedSize vnet - t.unitsRemaining vnet

structure OutputFit (g : Globals) (linkLatency : Nat) (b : MessageBuffer (NetworkMessage m)) :
    Prop where
  ordering : b.orderingSet = true
  consumer : b.hasConsumer = true
  inOrder : b.strictFifo = true → ¬ (g.randomization = true ∧ b.randomization = true) →
    b.lastArrivalTime ≤ g.time + linkLatency

def payloads (b : MessageBuffer (NetworkMessage m)) : List (NetworkMessage m) :=
  b.prioHeap.items.map (·.message.payload)

/-- Messages that were due have been popped from the input and enqueued in the output. -/
def Passes (g : Globals) (t t' : Throttle m) (v : Nat) : Prop :=
  ∃ popped, (∀ node ∈ popped, node.time ≤ g.time) ∧
    (t.inBuffers v).prioHeap.items = popped ++ (t'.inBuffers v).prioHeap.items ∧
    t'.moved v = t.moved v ++ popped ∧ (payloads (t'.outBuffers v)).Perm
      (payloads (t.outBuffers v) ++ popped.map (·.message.payload))

structure Serves (g : Globals) (served : List Nat) (cost : Int) (t t' : Throttle m) : Prop where
  settings : t' = { t with
    inBuffers := t'.inBuffers, outBuffers := t'.outBuffers, unitsRemaining := t'.unitsRemaining
    messageCounters := t'.messageCounters, moved := t'.moved }
  others : ∀ v ∉ served, t'.inBuffers v = t.inBuffers v ∧ t'.unitsRemaining v = t.unitsRemaining v
  taken : ∀ v, Passes g t t' v
  units : ∀ v, 0 ≤ t.unitsRemaining v → 0 ≤ t'.unitsRemaining v
  outputs : ∀ v, OutputFit g t.linkLatency (t.outBuffers v) →
    OutputFit g t.linkLatency (t'.outBuffers v)
  paid : (∀ v ∈ served, v < t.vnets) →
    ∑ v ∈ Finset.range t.vnets, t'.paid v = ∑ v ∈ Finset.range t.vnets, t.paid v + cost

section Serves
variable {g : Globals} {vnet : Nat} {t t' t'' : Throttle m} {bw : Int} {cost : Int}

variable {first second : List Nat}

theorem Passes.of_same {v : Nat} (input : t'.inBuffers v = t.inBuffers v)
    (moved : t'.moved v = t.moved v)
    (output : payloads (t'.outBuffers v) = payloads (t.outBuffers v)) : Passes g t t' v :=
  ⟨[], nofun, by rw [input]; rfl, by rw [moved, append_nil], by simp [output]⟩

theorem Passes.trans {v : Nat} (before : Passes g t t' v) (after : Passes g t' t'' v) :
    Passes g t t'' v := by
  obtain ⟨popped, due, items, moved, enqueued⟩ := before
  obtain ⟨popped', due', items', moved', enqueued'⟩ := after
  refine ⟨popped ++ popped', forall_mem_append.mpr ⟨due, due'⟩, ?_, ?_, ?_⟩
  · rw [items, items', append_assoc]
  · rw [moved', moved, append_assoc]
  · rw [map_append, ← append_assoc]
    exact enqueued'.trans (enqueued.append_right _)

theorem Serves.trans {cost' : Int}
    (before : Serves g first cost t t') (after : Serves g second cost' t' t'') :
    Serves g (first ++ second) (cost + cost') t t'' := by
  have latency : t'.linkLatency = t.linkLatency := by rw [before.settings]
  have vnets : t'.vnets = t.vnets := by rw [before.settings]
  refine ⟨?_, fun v outside => ?_, fun v => (before.taken v).trans (after.taken v),
    fun v h => after.units v (before.units v h), fun v fit => ?_, fun inside => ?_⟩
  · rw [after.settings, before.settings]
  · rw [mem_append, not_or] at outside
    exact ⟨(after.others v outside.2).1.trans (before.others v outside.1).1,
      (after.others v outside.2).2.trans (before.others v outside.1).2⟩
  · have := after.outputs v (latency.symm ▸ before.outputs v fit)
    rwa [latency] at this
  · have first := before.paid fun v member => inside v (mem_append_left _ member)
    have second := after.paid fun v member => vnets.symm ▸ inside v (mem_append_right _ member)
    rw [vnets] at second
    rw [second, first, Int.add_assoc]

theorem Serves.of_mem_iff (serves : Serves g first cost t t') (same : ∀ v, v ∈ first ↔ v ∈ second) :
    Serves g second cost t t' :=
  ⟨serves.settings, fun v outside => serves.others v fun member => outside ((same v).mp member),
    serves.taken, serves.units, serves.outputs,
    fun inside => serves.paid fun v member => inside v ((same v).mp member)⟩

theorem Serves.refl (g : Globals) (t : Throttle m) : Serves g [] 0 t t :=
  ⟨rfl, fun _ _ => ⟨rfl, rfl⟩, fun _ => .of_same rfl rfl rfl, fun _ h => h, fun _ h => h,
    fun _ => (Int.add_zero _).symm⟩

theorem Serves.of_one
    (settings : t' = { t with
      inBuffers := t'.inBuffers, outBuffers := t'.outBuffers, unitsRemaining := t'.unitsRemaining
      messageCounters := t'.messageCounters, moved := t'.moved })
    (others : ∀ v ≠ vnet, t'.inBuffers v = t.inBuffers v ∧ t'.outBuffers v = t.outBuffers v ∧
      t'.unitsRemaining v = t.unitsRemaining v ∧ t'.moved v = t.moved v)
    (taken : Passes g t t' vnet) (units : 0 ≤ t.unitsRemaining vnet → 0 ≤ t'.unitsRemaining vnet)
    (output : OutputFit g t.linkLatency (t.outBuffers vnet) →
      OutputFit g t.linkLatency (t'.outBuffers vnet))
    (paid : t'.paid vnet = t.paid vnet + cost) : Serves g [vnet] cost t t' := by
  refine ⟨settings, fun v outside => ?_, fun v => ?_, fun v h => ?_, fun v h => ?_, fun inside => ?_⟩
  · have := others v (by simpa using outside)
    exact ⟨this.1, this.2.2.1⟩
  · by_cases here : v = vnet
    · exact here ▸ taken
    · obtain ⟨input, output, -, moved⟩ := others v here
      exact .of_same input moved (by rw [output])
  · by_cases here : v = vnet
    · subst here
      exact units h
    · rw [(others v here).2.2.1]
      exact h
  · by_cases here : v = vnet
    · subst here
      exact output h
    · rw [(others v here).2.1]
      exact h
  · have member : vnet ∈ Finset.range t.vnets :=
      Finset.mem_range.mpr (inside vnet mem_cons_self)
    have rest : ∀ v ∈ (Finset.range t.vnets).erase vnet, t'.paid v = t.paid v := by
      intro v other
      obtain ⟨-, -, same, moved⟩ := others v (Finset.ne_of_mem_erase other)
      rw [Throttle.paid, Throttle.paid, movedSize, movedSize, same, moved]
    rw [← Finset.add_sum_erase _ _ member, ← Finset.add_sum_erase _ t.paid member,
      Finset.sum_congr rfl rest, paid]
    exact Int.add_right_comm _ _ _

theorem Serves.untouched (g : Globals) (vnet : Nat) (t : Throttle m) : Serves g [vnet] 0 t t :=
  .of_one rfl (fun _ _ => ⟨rfl, rfl, rfl, rfl⟩) (.of_same rfl rfl rfl) id id (Int.add_zero _).symm

theorem askOutput_of_work (work : 0 < bw ∧ t.HasWork g vnet) :
    ∃ notAvailCount, t.askOutput g vnet bw = (some (decide ((t.outBuffers vnet).maxSize = -1 ∨
          (t.outBuffers vnet).currentSize g + 1 ≤ (t.outBuffers vnet).maxSize)),
        { t with outBuffers :=
            update t.outBuffers vnet { t.outBuffers vnet with notAvailCount } }) := by
  obtain ⟨count, eq⟩ := areNSlotsAvailable_eq g (t.outBuffers vnet) 1
  exact ⟨count, by rw [askOutput, if_pos work, eq]⟩

theorem askOutput_of_idle (idle : ¬ (0 < bw ∧ t.HasWork g vnet)) :
    t.askOutput g vnet bw = (none, t) := if_neg idle

theorem askOutput_serves (g : Globals) (vnet : Nat) (bw : Int) (t : Throttle m) :
    Serves g [vnet] 0 t (t.askOutput g vnet bw).2 := by
  by_cases work : 0 < bw ∧ t.HasWork g vnet
  · obtain ⟨count, eq⟩ := askOutput_of_work work
    rw [eq]
    refine .of_one rfl (fun v other => ⟨rfl, update_of_ne other _ _, rfl, rfl⟩)
      (.of_same rfl rfl ?_) id (fun fit => ?_) (Int.add_zero _).symm <;> dsimp only
    · rw [update_self]
      rfl
    · rw [update_self]
      exact ⟨fit.1, fit.2, fit.3⟩
  · rw [askOutput_of_idle work]
    exact .untouched g vnet t

theorem askOutput_again (g : Globals) (vnet : Nat) (bw : Int) (t : Throttle m) :
    ((t.askOutput g vnet bw).2.askOutput g vnet bw).1 = (t.askOutput g vnet bw).1 := by
  by_cases work : 0 < bw ∧ t.HasWork g vnet
  · obtain ⟨count, eq⟩ := askOutput_of_work work
    rw [eq]
    have still : 0 < bw ∧ HasWork g { t with
        outBuffers := update t.outBuffers vnet
          { t.outBuffers vnet with notAvailCount := count } } vnet := work
    obtain ⟨count', again⟩ := askOutput_of_work still
    rw [again]
    simp only [update_self]
    rfl
  · rw [askOutput_of_idle work, askOutput_of_idle work]

theorem OutputFit.takes {linkLatency : Nat} {b : MessageBuffer (NetworkMessage m)}
    {message : Message (NetworkMessage m)} (fit : OutputFit g linkLatency b)
    (delayed : 0 < linkLatency) (dequeued : message.lastEnqueueTime ≤ g.time) :
    b.Takes g message linkLatency :=
  ⟨fit.ordering, fit.consumer, delayed, fit.inOrder, dequeued⟩

theorem OutputFit.enqueue {linkLatency : Nat} {b b' : MessageBuffer (NetworkMessage m)}
    {message : Message (NetworkMessage m)} {draws : Nat × Nat × Nat}
    (fit : OutputFit g linkLatency b)
    (done : b.enqueue g message linkLatency draws = .ok b') : OutputFit g linkLatency b' := by
  obtain ⟨-, -, rfl⟩ := enqueue_ok done
  refine ⟨fit.ordering, fit.consumer, fun strict fixed => ?_⟩
  have fixed : ¬ (g.randomization = true ∧ b.randomization = true) := fixed
  change (if g.warmupEnabled = true then b.lastArrival g else b.arrivalTime g linkLatency draws) ≤ _
  have last : b.lastArrival g = b.lastArrivalTime := if_neg fun h => fixed ⟨h.1, h.2.1⟩
  split
  · rw [last]
    exact fit.inOrder strict fixed
  · rw [arrivalTime, if_pos (not_and_or.mp fixed)]

theorem enqueue_payloads {delta : Nat} {b b' : MessageBuffer (NetworkMessage m)}
    {message : Message (NetworkMessage m)} {draws : Nat × Nat × Nat}
    (done : b.enqueue g message delta draws = .ok b') :
    (payloads b').Perm (payloads b ++ [message.payload]) := by
  obtain ⟨-, -, rfl⟩ := enqueue_ok done
  exact ((place_perm _ _).map _).trans (perm_append_singleton _ _).symm

theorem paid_of_moved {node : MessageBufferNode (NetworkMessage m)}
    (moved : t'.moved vnet = t.moved vnet ++ [node])
    (owed : t'.unitsRemaining vnet =
      t.unitsRemaining vnet + networkMessageToSize node.message.payload) :
    t'.paid vnet = t.paid vnet + 0 := by
  rw [paid, paid, movedSize, movedSize, moved, owed, map_append, sum_append, map_singleton,
    sum_singleton]
  omega

theorem move_serves {draws : Nat × Nat × Nat} {node : MessageBufferNode (NetworkMessage m)}
    {rest : List (MessageBufferNode (NetworkMessage m))}
    (head : (t.inBuffers vnet).prioHeap.items = node :: rest) (due : node.time ≤ g.time)
    (positive : 0 < networkMessageToSize node.message.payload)
    (dequeued : node.message.lastEnqueueTime ≤ node.time) (delayed : 0 < t.linkLatency)
    (fit : OutputFit g t.linkLatency (t.outBuffers vnet)) :
    ∃ t', t.move g vnet draws = .ok t' ∧ Serves g [vnet] 0 t t' ∧
      t'.unitsRemaining vnet = t.unitsRemaining vnet + networkMessageToSize node.message.payload := by
  obtain ⟨out, done⟩ : ∃ out, (t.outBuffers vnet).enqueue g node.message t.linkLatency draws =
      .ok out := exists_enqueue_iff.mpr (fit.takes delayed (dequeued.trans due))
  have popped := pop_of_due head due
  unfold move
  split
  · simp_all
  · rename_i items
    cases head.symm.trans items
    rw [done, popped]
    refine ⟨_, rfl, .of_one rfl (fun v other => ?_) ⟨[node], ?_, ?_, ?_, ?_⟩ (fun h => ?_)
      (fun fit => ?_) ?_, ?_⟩
    · exact ⟨update_of_ne other _ _, update_of_ne other _ _,
        update_of_ne other _ _, update_of_ne other _ _⟩
    · exact forall_mem_singleton.mpr due
    · simp only [update_self, MessageBuffer.countPop, pop_items, head]
      rfl
    · simp only [update_self]
    · simp only [update_self]
      exact enqueue_payloads done
    · simp only [update_self]
      omega
    · simp only [update_self]
      exact fit.enqueue done
    · exact paid_of_moved (update_self ..) (update_self ..)
    · simp only [update_self]

theorem pay_serves (g : Globals) (vnet : Nat) (bw : Int) (t : Throttle m) :
    Serves g [vnet] (bw - max 0 (-(t.unitsRemaining vnet - bw))) t
      { t with unitsRemaining :=
          update t.unitsRemaining vnet (max 0 (t.unitsRemaining vnet - bw)) } := by
  refine .of_one rfl (fun v other => ⟨rfl, rfl, update_of_ne other _ _, rfl⟩)
    (.of_same rfl rfl rfl) (fun _ => ?_) id ?_
  · dsimp only
    rw [update_self]
    omega
  · simp only [Throttle.paid, movedSize, update_self]
    omega

structure Served (g : Globals) (t : Throttle m) (vnet : Nat) : Prop where
  units : 0 ≤ t.unitsRemaining vnet
  latency : 0 < t.linkLatency
  output : OutputFit g t.linkLatency (t.outBuffers vnet)
  inputs : ∀ node ∈ (t.inBuffers vnet).prioHeap.items,
    0 < networkMessageToSize node.message.payload ∧ node.message.lastEnqueueTime ≤ node.time

theorem Served.serves {served : List Nat} {v : Nat} (fit : t.Served g v)
    (serves : Serves g served cost t t') : t'.Served g v := by
  have latency : t'.linkLatency = t.linkLatency := by rw [serves.settings]
  obtain ⟨popped, -, items, -⟩ := serves.taken v
  refine ⟨serves.units v fit.units, latency ▸ fit.latency, latency ▸ serves.outputs v fit.output, ?_⟩
  intro node member
  exact fit.inputs node (items ▸ mem_append_right popped member)

theorem moveNext_spec (fit : t.Served g vnet) (work : t.HasWork g vnet) (draws : Nat × Nat × Nat) :
    ∃ t', t.moveNext g vnet draws = .ok t' ∧
      Serves g [vnet] 0 t t' ∧ 0 < t'.unitsRemaining vnet := by
  have units := fit.units
  unfold moveNext
  by_cases settled : t.unitsRemaining vnet = 0
  · have ready : (t.inBuffers vnet).isReady g = true := work.resolve_right (by omega)
    rw [if_pos ⟨settled, ready⟩]
    cases head : (t.inBuffers vnet).prioHeap.items with
    | nil => simp [MessageBuffer.isReady, head] at ready
    | cons node rest =>
      have due : node.time ≤ g.time := by simpa [MessageBuffer.isReady, head] using ready
      obtain ⟨positive, dequeued⟩ := fit.inputs node (head ▸ mem_cons_self)
      obtain ⟨t', done, serves, owed⟩ := move_serves head due positive dequeued fit.latency fit.output
      exact ⟨t', done, serves, by omega⟩
  · rw [if_neg fun h => settled h.1]
    exact ⟨t, rfl, .untouched g vnet t, by omega⟩

/-- Each round spends some of the bandwidth, so there are at most as many rounds as it has units. -/
theorem transfer_spec (draws : Nat → Nat × Nat × Nat) (fit : t.Served g vnet) (enough : 0 ≤ bw) :
    ∃ bw' t', (∀ rounds, bw.toNat ≤ rounds → t.transfer g vnet draws rounds bw = .ok (bw', t')) ∧
      0 ≤ bw' ∧ bw' ≤ bw ∧ Serves g [vnet] (bw - bw') t t' ∧
      (t'.askOutput g vnet bw').1 ≠ some true := by
  generalize units : bw.toNat = n
  induction n using Nat.strong_induction_on generalizing bw t with
  | _ n ih =>
    have asked := askOutput_serves g vnet bw t
    have again := askOutput_again g vnet bw t
    match answer : t.askOutput g vnet bw with
    | (some true, asker) =>
      have work : 0 < bw ∧ t.HasWork g vnet := by
        by_contra idle
        cases (askOutput_of_idle idle).symm.trans answer
      have still : asker.HasWork g vnet := by
        obtain ⟨count, eq⟩ := askOutput_of_work work
        cases congrArg Prod.snd (eq.symm.trans answer)
        exact work.2
      rw [answer] at asked
      have fit₁ := fit.serves asked
      obtain ⟨owing, owed, moves, positive⟩ :=
        moveNext_spec fit₁ still (draws (asker.outBuffers vnet).msgCounter)
      have pays := pay_serves g vnet bw owing
      have fit₂ := (fit₁.serves moves).serves pays
      obtain ⟨bw', t', ran, left, less, serves, stops⟩ :=
        ih (max 0 (-(owing.unitsRemaining vnet - bw))).toNat (by omega) fit₂ (by omega) rfl
      refine ⟨bw', t', fun rounds few => ?_, left, by omega, ?_, stops⟩
      · obtain ⟨rounds, rfl⟩ : ∃ r, rounds = r + 1 := ⟨rounds - 1, by omega⟩
        rw [transfer, answer]
        dsimp only
        rw [owed]
        exact ran rounds (by omega)
      · have all := ((asked.trans moves).trans pays).trans serves
        rw [show bw - bw' = 0 + 0 + (bw - max 0 (-(owing.unitsRemaining vnet - bw))) +
          (max 0 (-(owing.unitsRemaining vnet - bw)) - bw') by omega]
        exact all.of_mem_iff fun v => by simp
    | (some false, asker) | (none, asker) =>
      rw [answer] at asked again
      refine ⟨bw, asker, fun rounds _ => ?_, enough, Int.le_refl _, ?_, ?_⟩
      · cases rounds <;> rw [transfer, answer]
      · rwa [Int.sub_self]
      · rw [again]
        nofun

theorem askOutput_hasWork (v : Nat) : (t.askOutput g vnet bw).2.HasWork g v ↔ t.HasWork g v := by
  by_cases work : 0 < bw ∧ t.HasWork g vnet
  · obtain ⟨count, eq⟩ := askOutput_of_work work
    rw [eq]
    rfl
  · rw [askOutput_of_idle work]

variable (draws : Nat → Nat → Nat × Nat × Nat)

/-- If bandwidth is left in the end, then a network that still has work has met a full output. -/
theorem serveVnets_spec {vnets : List Nat} (distinct : vnets.Nodup) (scheduleWakeup : Bool)
    (fit : ∀ v ∈ vnets, t.Served g v) (enough : 0 ≤ bw) :
    ∃ bw' scheduleWakeup' t', (∀ rounds, bw.toNat ≤ rounds →
        vnets.foldlM (serveVnet g rounds draws) (bw, scheduleWakeup, t) =
          .ok (bw', scheduleWakeup', t')) ∧
      0 ≤ bw' ∧ bw' ≤ bw ∧ Serves g vnets (bw - bw') t t' ∧
      (scheduleWakeup = true → scheduleWakeup' = true) ∧
      (0 < bw' → ∀ v ∈ vnets, t'.HasWork g v → scheduleWakeup' = true) := by
  induction vnets generalizing bw scheduleWakeup t with
  | nil =>
    refine ⟨bw, scheduleWakeup, t, fun _ _ => rfl, enough, Int.le_refl _, ?_, id, fun _ => nofun⟩
    rw [Int.sub_self]
    exact .refl g t
  | cons v vnets ih =>
    obtain ⟨fresh, distinct⟩ := nodup_cons.mp distinct
    obtain ⟨here, later⟩ := forall_mem_cons.mp fit
    obtain ⟨bw₁, t₁, ran, left, less, serves, stops⟩ := transfer_spec (draws v) here enough
    have all := serves.trans (askOutput_serves g v bw₁ t₁)
    obtain ⟨bw', scheduled', t', rest, left', less', serves', kept, met⟩ :=
      ih distinct (scheduleWakeup || (t₁.askOutput g v bw₁).1 == some false)
        (fun u member => (later u member).serves all) left
    refine ⟨bw', scheduled', t', fun rounds few => ?_, left', by omega, ?_, fun h => ?_,
      fun spare u member work => ?_⟩
    · have first : serveVnet g rounds draws (bw, scheduleWakeup, t) v =
          .ok (bw₁, scheduleWakeup || (t₁.askOutput g v bw₁).1 == some false,
            (t₁.askOutput g v bw₁).2) := by
        unfold serveVnet
        dsimp only
        rw [require_of here.units, ok_bind, ran rounds few, ok_bind]
        rfl
      rw [foldlM_cons, first]
      exact rest rounds (by omega)
    · rw [show bw - bw' = bw - bw₁ + 0 + (bw₁ - bw') by omega]
      exact (all.trans serves').of_mem_iff fun u => by simp
    · exact kept (by simp [h])
    · obtain rfl | member := mem_cons.mp member
      · obtain ⟨inputs, units⟩ := serves'.others u fresh
        have work : t₁.HasWork g u := by
          rw [HasWork, inputs, units] at work
          exact (askOutput_hasWork u).mp work
        have full : (t₁.askOutput g u bw₁).1 = some false := by
          obtain ⟨count, eq⟩ := askOutput_of_work ⟨show 0 < bw₁ by omega, work⟩
          rw [eq] at stops ⊢
          simpa using stops
        exact kept (by simp [full])
      · exact met spare u member work

structure Woken (g : Globals) (t t' : Throttle m) : Prop where
  settings : t' = { t with
    inBuffers := t'.inBuffers, outBuffers := t'.outBuffers, unitsRemaining := t'.unitsRemaining
    messageCounters := t'.messageCounters, moved := t'.moved
    wakeupsWoSwitch := t'.wakeupsWoSwitch, scheduled := t'.scheduled, spent := t'.spent }
  taken : ∀ v, Passes g t t' v
  units : ∀ v, 0 ≤ t.unitsRemaining v → 0 ≤ t'.unitsRemaining v
  outputs : ∀ v, OutputFit g t.linkLatency (t.outBuffers v) →
    OutputFit g t.linkLatency (t'.outBuffers v)
  bounded : t.spent ≤ t'.spent ∧ t'.spent ≤ t.spent + t.getLinkBandwidth
  paid : ∑ v ∈ Finset.range t.vnets, t'.paid v =
    ∑ v ∈ Finset.range t.vnets, t.paid v + (t'.spent - t.spent)
  rescheduled : ∀ v < t.vnets, t'.HasWork g v → g.time + 1 ∈ t'.scheduled

theorem mem_priorities {v : Nat} : v ∈ t.priorities ↔ v < t.vnets := by
  unfold priorities
  split <;> simp

theorem nodup_priorities : t.priorities.Nodup := by
  unfold priorities
  split
  · exact nodup_range
  · exact nodup_reverse.mpr nodup_range

theorem wakeup_spec (positive : 0 < t.getLinkBandwidth) (fit : ∀ v < t.vnets, t.Served g v) :
    ∃ t', (∀ rounds, t.getLinkBandwidth.toNat ≤ rounds → t.wakeup g rounds draws = .ok t') ∧
      Woken g t t' := by
  have fit : ∀ v ∈ t.priorities, t.countWakeup.Served g v := by
    intro v member
    obtain ⟨units, latency, output, inputs⟩ := fit v (mem_priorities.mp member)
    exact ⟨units, latency, output, inputs⟩
  obtain ⟨bw, scheduled, t', ran, left, less, serves, -, met⟩ :=
    serveVnets_spec draws nodup_priorities false fit positive.le
  have paid := serves.paid fun v member => (mem_priorities (t := t)).mp member
  have settings := serves.settings
  refine ⟨{ t' with
    spent := t'.spent + (t.getLinkBandwidth - bw)
    scheduled := if 0 < bw ∧ scheduled = false then t'.scheduled
      else insert (g.time + 1) t'.scheduled }, fun rounds few => ?_, ?_⟩
  · unfold wakeup
    rw [require_of positive, ok_bind, ran rounds few, ok_bind]
    dsimp only
    split <;> rfl
  · have spent : t'.spent = t.spent := by rw [settings]; rfl
    refine ⟨?_, serves.taken, serves.units, serves.outputs, ?_, ?_, fun v inside work => ?_⟩
    · rw [settings]
      rfl
    · dsimp only
      omega
    · dsimp only
      rw [spent, show t.spent + (t.getLinkBandwidth - bw) - t.spent = t.getLinkBandwidth - bw by omega]
      exact paid
    · dsimp only
      rw [if_neg]
      · exact Finset.mem_insert_self _ _
      · rintro ⟨spare, quiet⟩
        rw [met spare v (mem_priorities.mpr inside) work] at quiet
        cases quiet

end Serves

structure Run (m : Machines) where
  globals : Globals
  throttle : Throttle m
  arrived : Nat → List (MessageBufferNode (NetworkMessage m))
  /-- What has been popped from the outputs. -/
  left : Nat → List (NetworkMessage m)

inductive Call (m : Machines) where
  | advance (time : Nat) (warmupEnabled : Bool)
  | arrive (vnet : Nat) (message : Message (NetworkMessage m)) (delta : Nat)
      (draws : Nat × Nat × Nat)
  | take (vnet : Nat)
  | wakeup (draws : Nat → Nat → Nat × Nat × Nat)

def nodeOf (g : Globals) (b : MessageBuffer (NetworkMessage m))
    (message : Message (NetworkMessage m)) (delta : Nat) (draws : Nat × Nat × Nat) :
    MessageBufferNode (NetworkMessage m) :=
  ⟨b.arrivalTime g delta draws, MessageBufferNode.counterOf (b.countEnqueue g).msgCounter,
    message.enqueue g.time (b.arrivalTime g delta draws)⟩

def perform (s : Run m) : Call m → Except ThrottleFault (Run m)
  | .advance time warmupEnabled => do
    require (s.globals.time ≤ time) .assertion
    return { s with globals := { s.globals with time, warmupEnabled } }
  | .arrive vnet message delta draws => do
    let t := s.throttle
    let b ← ((t.inBuffers vnet).enqueue s.globals message delta draws).mapError .buffer
    return { s with
      throttle := { t with inBuffers := update t.inBuffers vnet b }
      arrived := update s.arrived vnet
        (s.arrived vnet ++ [nodeOf s.globals (t.inBuffers vnet) message delta draws]) }
  | .take vnet => do
    let t := s.throttle
    let (message, b) ← ((t.outBuffers vnet).pop s.globals).mapError .buffer
    return { s with
      throttle := { t with outBuffers := update t.outBuffers vnet b }
      left := update s.left vnet (s.left vnet ++ [message.payload]) }
  | .wakeup draws => do
    let throttle ← s.throttle.wakeup s.globals s.throttle.getLinkBandwidth.toNat draws
    return { s with throttle }

structure Initial (s : Run m) : Prop where
  bandwidth : 0 < s.throttle.getLinkBandwidth
  latency : 0 < s.throttle.linkLatency
  inputs : ∀ v, (s.throttle.inBuffers v).prioHeap.items = []
  outputs : ∀ v, OutputFit s.globals s.throttle.linkLatency (s.throttle.outBuffers v)
  empty : ∀ v, payloads (s.throttle.outBuffers v) = []
  units : ∀ v, s.throttle.unitsRemaining v = 0
  moved : ∀ v, s.throttle.moved v = []
  spent : s.throttle.spent = 0
  arrived : ∀ v, s.arrived v = []
  left : ∀ v, s.left v = []

def runs (m : Machines) : System (Run m) (Call m) := ofFunction Initial perform

def Sized (_ : Run m) : Call m → Prop
  | .arrive _ message _ _ => 0 < networkMessageToSize message.payload
  | _ => True

structure Sound (s : Run m) : Prop where
  bandwidth : 0 < s.throttle.getLinkBandwidth
  latency : 0 < s.throttle.linkLatency
  inputs : ∀ v, ∀ node ∈ (s.throttle.inBuffers v).prioHeap.items,
    0 < networkMessageToSize node.message.payload ∧ node.message.lastEnqueueTime ≤ node.time
  outputs : ∀ v, OutputFit s.globals s.throttle.linkLatency (s.throttle.outBuffers v)
  units : ∀ v, 0 ≤ s.throttle.unitsRemaining v
  past : ∀ v, ∀ node ∈ s.throttle.moved v, node.time ≤ s.globals.time
  ordered : ∀ v, (s.throttle.moved v ++ (s.throttle.inBuffers v).prioHeap.items).Pairwise
    MessageBufferNode.NotAfter
  complete : ∀ v, (s.throttle.moved v ++ (s.throttle.inBuffers v).prioHeap.items).Perm (s.arrived v)
  delivered : ∀ v, (s.left v ++ payloads (s.throttle.outBuffers v)).Perm
    ((s.throttle.moved v).map (·.message.payload))
  account : ∑ v ∈ Finset.range s.throttle.vnets, s.throttle.paid v = s.throttle.spent

section Runs
variable {s s' : Run m}

theorem Initial.sound (initial : Initial s) : Sound s where
  bandwidth := initial.bandwidth
  latency := initial.latency
  inputs v := by rw [initial.inputs v]; exact fun _ => nofun
  outputs := initial.outputs
  units v := (initial.units v).ge
  past v := by rw [initial.moved v]; exact fun _ => nofun
  ordered v := by rw [initial.moved v, initial.inputs v]; exact .nil
  complete v := by rw [initial.moved v, initial.inputs v, initial.arrived v]; rfl
  delivered v := by rw [initial.left v, initial.empty v, initial.moved v]; rfl
  account := by
    rw [initial.spent]
    refine Finset.sum_eq_zero fun v _ => ?_
    rw [paid, movedSize, initial.moved v, initial.units v]
    rfl

variable {b : MessageBuffer (NetworkMessage m)}

theorem OutputFit.later {g g' : Globals} {linkLatency : Nat} (fit : OutputFit g linkLatency b)
    (later : g.time ≤ g'.time) (same : g'.randomization = g.randomization) :
    OutputFit g' linkLatency b := by
  refine ⟨fit.ordering, fit.consumer, fun strict fixed => ?_⟩
  have := fit.inOrder strict (same ▸ fixed)
  omega

theorem Sound.advance {time : Nat} {warmupEnabled : Bool} (sound : Sound s)
    (later : s.globals.time ≤ time) :
    Sound { s with globals := { s.globals with time, warmupEnabled } } :=
  { sound with
    outputs := fun v => (sound.outputs v).later later rfl
    past := fun v node member => (sound.past v node member).trans later }

theorem Sound.take {vnet : Nat} {node : MessageBufferNode (NetworkMessage m)}
    {rest : List (MessageBufferNode (NetworkMessage m))} (sound : Sound s)
    (head : (s.throttle.outBuffers vnet).prioHeap.items = node :: rest) :
    Sound { s with
      throttle := { s.throttle with
        outBuffers := update s.throttle.outBuffers vnet
          ((s.throttle.outBuffers vnet).countPop s.globals) }
      left := update s.left vnet (s.left vnet ++ [node.message.payload]) } := by
  refine { sound with outputs := fun v => ?_, delivered := fun v => ?_ }
  · by_cases here : v = vnet
    · subst here
      have fit := sound.outputs v
      simp only [update_self]
      exact ⟨fit.1, fit.2, fit.3⟩
    · simp only [update_of_ne here]
      exact sound.outputs v
  · by_cases here : v = vnet
    · subst here
      have delivered := sound.delivered v
      rw [payloads, head] at delivered
      simpa [payloads, MessageBuffer.countPop, pop_items, head] using delivered
    · simpa only [update_of_ne here] using sound.delivered v

theorem Sound.arrive {vnet delta : Nat} {message : Message (NetworkMessage m)}
    {draws : Nat × Nat × Nat} (sound : Sound s)
    (sized : 0 < networkMessageToSize message.payload)
    (done : (s.throttle.inBuffers vnet).enqueue s.globals message delta draws = .ok b) :
    Sound { s with
      throttle := { s.throttle with inBuffers := update s.throttle.inBuffers vnet b }
      arrived := update s.arrived vnet (s.arrived vnet ++
        [nodeOf s.globals (s.throttle.inBuffers vnet) message delta draws]) } := by
  obtain ⟨delayed, -, enqueued⟩ := enqueue_ok done
  let node := nodeOf s.globals (s.throttle.inBuffers vnet) message delta draws
  have heap : b.prioHeap = (s.throttle.inBuffers vnet).prioHeap.insert node := by
    rw [enqueued]
    rfl
  have later : s.globals.time < node.time := time_lt_arrivalTime delayed
  refine { sound with inputs := fun v => ?_, ordered := fun v => ?_, complete := fun v => ?_ }
  · by_cases here : v = vnet
    · subst here
      simp only [update_self, heap, mem_insert]
      rintro other (rfl | member)
      · exact ⟨sized, Nat.le_refl _⟩
      · exact sound.inputs v other member
    · simp only [update_of_ne here]
      exact sound.inputs v
  · by_cases here : v = vnet
    · subst here
      simp only [update_self, heap]
      obtain ⟨moved, -, before⟩ := pairwise_append.mp (sound.ordered v)
      refine pairwise_append.mpr ⟨moved, PriorityQueue.ordered _, fun x member y present => ?_⟩
      -- what was moved before had arrived by now
      obtain rfl | present := mem_insert.mp present
      · exact .inl ((sound.past v x member).trans_lt later)
      · exact before x member y present
    · simp only [update_of_ne here]
      exact sound.ordered v
  · by_cases here : v = vnet
    · subst here
      simp only [update_self, heap]
      have inserted := (place_perm (r := MessageBufferNode.NotAfter) node
        (s.throttle.inBuffers v).prioHeap.items).append_left (s.throttle.moved v)
      have counted := ((sound.complete v).cons node).trans (perm_append_singleton _ _).symm
      exact inserted.trans (perm_middle.trans counted)
    · simp only [update_of_ne here]
      exact sound.complete v

theorem Sound.wakeup {t' : Throttle m} (sound : Sound s) (woken : Woken s.globals s.throttle t') :
    Sound { s with throttle := t' } := by
  have settings := woken.settings
  have latency : t'.linkLatency = s.throttle.linkLatency := by rw [settings]
  have bandwidth : t'.getLinkBandwidth = s.throttle.getLinkBandwidth := by rw [settings]; rfl
  have vnets : t'.vnets = s.throttle.vnets := by rw [settings]
  have whole : ∀ v, t'.moved v ++ (t'.inBuffers v).prioHeap.items =
      s.throttle.moved v ++ (s.throttle.inBuffers v).prioHeap.items := by
    intro v
    obtain ⟨popped, -, items, moved, -⟩ := woken.taken v
    rw [items, moved, append_assoc]
  constructor
  · exact bandwidth ▸ sound.bandwidth
  · exact latency ▸ sound.latency
  · intro v node member
    obtain ⟨popped, -, items, -⟩ := woken.taken v
    exact sound.inputs v node (items ▸ mem_append_right popped member)
  · exact fun v => latency ▸ woken.outputs v (sound.outputs v)
  · exact fun v => woken.units v (sound.units v)
  · intro v node member
    obtain ⟨popped, due, -, moved, -⟩ := woken.taken v
    rw [moved] at member
    exact (mem_append.mp member).elim (sound.past v node) (due node)
  · exact fun v => whole v ▸ sound.ordered v
  · exact fun v => whole v ▸ sound.complete v
  · intro v
    obtain ⟨popped, -, -, moved, enqueued⟩ := woken.taken v
    dsimp only
    rw [moved, map_append]
    refine (enqueued.append_left (s.left v)).trans ?_
    rw [← append_assoc]
    exact (sound.delivered v).append_right _
  · dsimp only
    rw [vnets, woken.paid, sound.account]
    omega

theorem mapError_ok {ε ε' α : Type} {f : ε → ε'} {x : Except ε α} {a : α}
    (h : x.mapError f = .ok a) : x = .ok a := by
  cases x with
  | error => cases h
  | ok => exact congrArg Except.ok (Except.ok.inj h)

theorem Sound.served (sound : Sound s) (v : Nat) : s.throttle.Served s.globals v :=
  ⟨sound.units v, sound.latency, sound.outputs v, sound.inputs v⟩

theorem Sound.step {call : Call m} (sound : Sound s) (sized : Sized s call)
    (taken : perform s call = .ok s') : Sound s' := by
  cases call with
  | advance time warmupEnabled =>
    obtain ⟨_, later, taken⟩ := bind_ok taken
    obtain rfl := pure_ok taken
    exact sound.advance (require_ok later)
  | arrive vnet message delta draws =>
    obtain ⟨b, done, taken⟩ := bind_ok taken
    obtain rfl := pure_ok taken
    exact sound.arrive sized (mapError_ok done)
  | take vnet =>
    obtain ⟨⟨message, b⟩, done, taken⟩ := bind_ok taken
    obtain rfl := pure_ok taken
    obtain ⟨node, rest, head, -, rfl, rfl⟩ := pop_ok (mapError_ok done)
    exact sound.take head
  | wakeup draws =>
    obtain ⟨t', done, taken⟩ := bind_ok taken
    obtain rfl := pure_ok taken
    obtain ⟨t'', ran, woken⟩ :=
      wakeup_spec draws sound.bandwidth fun v _ => sound.served v
    cases (ran _ (Nat.le_refl _)).symm.trans done
    exact sound.wakeup woken

theorem sound_of_reachable (reach : ReachableVia (runs m) Sized s) : Sound s :=
  reach.invariant Sound (fun _ initial => Initial.sound initial)
    fun _ _ _ _ sized sound taken => sound.step sized taken

def twoVnets : Run ⟨1, fun _ => 1⟩ where
  globals := ⟨0, false, false, 6⟩
  throttle := {
    vnets := 2
    linkBandwidthMultiplier := 16
    endpointBandwidth := 1000
    linkLatency := 1
    inBuffers := fun _ => .empty
    outBuffers := fun _ => .empty
    unitsRemaining := fun _ => 0
    wakeupsWoSwitch := 0
    messageCounters := fun _ _ => 0
    scheduled := ∅
    moved := fun _ => []
    spent := 0 }
  arrived := fun _ => []
  left := fun _ => []

end Runs

end Throttle

end SynchroTrace.Ruby
