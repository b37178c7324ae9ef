import Mathlib.Data.Finset.Card
import Mathlib.Data.Finset.Union
import Mathlib.Data.Fintype.Basic
import Mathlib.Data.Fintype.Sigma
import Mathlib.Data.List.Sort
import SynchroTrace.Garnet.Message
import SynchroTrace.Ruby.MessageBuffer

/-!
The switch of the simple network splits a message over links, and forwards it to all of them or to
none.
-/

namespace SynchroTrace.Ruby
open Function (update)

open Outcome Garnet MessageBuffer Finset

structure LinkOrder where
  link : Nat
  value : BitVec 32
deriving DecidableEq

/-- What the switch reads of its network. `std::sort` may put links of equal value in any order. -/
structure SwitchSettings where
  adaptiveRouting : Bool
  isVNetOrdered : Nat → Bool
  sort : List LinkOrder → List LinkOrder
  sort_perm : ∀ order, (sort order).Perm order
  sort_sorted : ∀ order, (sort order).Pairwise fun l₁ l₂ => l₁.value.toInt ≤ l₂.value.toInt

structure SwitchDraws where
  link : Nat → Nat
  delay : Nat → Nat × Nat × Nat

structure PerfectSwitch (m : Machines) where
  virtualNetworks : Nat
  inPorts : Nat
  outPorts : Nat
  inBuffers : Nat → Nat → MessageBuffer (NetworkMessage m)
  outBuffers : Nat → Nat → MessageBuffer (NetworkMessage m)
  /-- When `getSize` last looked at an output buffer, and the size that it saw. -/
  sizeChecked : Nat → Nat → Nat × Int
  routingTable : List (NetDest m)
  linkOrder : List LinkOrder
  pendingMessageCount : Nat → Int
  roundRobinStart : Nat
  wakeupsWoSwitch : Nat
  scheduled : Bool

namespace PerfectSwitch

variable {m : Machines}

def setOut (s : PerfectSwitch m) (link vnet : Nat) (b : MessageBuffer (NetworkMessage m)) :
    PerfectSwitch m :=
  { s with
    outBuffers := update s.outBuffers link
      (update (s.outBuffers link) vnet b) }

def setIn (s : PerfectSwitch m) (port vnet : Nat) (b : MessageBuffer (NetworkMessage m)) :
    PerfectSwitch m :=
  { s with
    inBuffers := update s.inBuffers port
      (update (s.inBuffers port) vnet b) }

/-- `MessageBuffer::getSize` of an output buffer: the size when it was first asked for in the
cycle. -/
def getSize (g : Globals) (s : PerfectSwitch m) (link vnet : Nat) : Int × PerfectSwitch m :=
  if (s.sizeChecked link vnet).1 = g.time then ((s.sizeChecked link vnet).2, s)
  else
    let size := (s.outBuffers link vnet).size
    (size, { s with
      sizeChecked := update s.sizeChecked link
        (update (s.sizeChecked link) vnet (g.time, size)) })

def outQueueLength (g : Globals) (s : PerfectSwitch m) (link : Nat) : Int × PerfectSwitch m :=
  (List.range s.virtualNetworks).foldl (fun acc v =>
    let (size, s) := acc.2.getSize g link v
    (acc.1 + size, s)) (0, s)

def measureLinks (g : Globals) (draws : SwitchDraws) (s : PerfectSwitch m) :
    List LinkOrder × PerfectSwitch m :=
  (List.range s.outPorts).foldl (fun acc out =>
    let (length, s) := acc.2.outQueueLength g out
    let value := (BitVec.ofInt 32 length <<< 8) ||| (BitVec.ofNat 32 (draws.link out) &&& 0xff#32)
    (acc.1 ++ [⟨out, value⟩], s)) ([], s)

variable (settings : SwitchSettings)

def orderLinks (g : Globals) (vnet : Nat) (draws : SwitchDraws)
    (s : PerfectSwitch m) : PerfectSwitch m :=
  if settings.adaptiveRouting then
    if settings.isVNetOrdered vnet then
      { s with linkOrder := (List.range s.outPorts).map fun out => ⟨out, 0⟩ }
    else
      let (order, s) := s.measureLinks g draws
      { s with linkOrder := settings.sort order }
  else s

def routingEntry (s : PerfectSwitch m) (link : Nat) : NetDest m := s.routingTable.getD link ∅

/-- Each link takes the destinations that its entry has of those that are left. Returns the chosen
links with their destinations, and what is left in the end. -/
def route (entry : Nat → NetDest m) : List Nat → NetDest m → List (Nat × NetDest m) × NetDest m
  | [], dsts => ([], dsts)
  | link :: links, dsts =>
    if dsts ∩ entry link = ∅ then route entry links dsts
    else
      let (chosen, left) := route entry links (dsts \ entry link)
      ((link, dsts ∩ entry link) :: chosen, left)

def checkResources (g : Globals) (vnet : Nat) (chosen : List (Nat × NetDest m))
    (s : PerfectSwitch m) : Bool × PerfectSwitch m :=
  chosen.foldl (fun acc c =>
    let (available, b) := (acc.2.outBuffers c.1 vnet).areNSlotsAvailable g 1
    (acc.1 && available, acc.2.setOut c.1 vnet b)) (true, s)

def copyFor (message : Message (NetworkMessage m)) (dest : NetDest m) :
    Message (NetworkMessage m) :=
  { message with payload := { message.payload with internalDest := some dest } }

/-- The first link gets the message itself, which its buffer then writes to; the others get copies
of a clone that was made before. -/
def sendCopies (g : Globals) (vnet : Nat) (draws : SwitchDraws)
    (message : Message (NetworkMessage m)) (chosen : List (Nat × NetDest m))
    (s : PerfectSwitch m) : Except MessageBuffer.Fault (PerfectSwitch m) :=
  let unmodified := message
  chosen.zipIdx.foldlM (fun s c => do
    let copy := if 0 < c.2 then unmodified else message
    let b ← (s.outBuffers c.1.1 vnet).enqueue g (copyFor copy c.1.2) 1 (draws.delay c.2)
    return s.setOut c.1.1 vnet b) s

/-- The body of the loop over a port's ready messages. Returns whether the loop goes on. -/
def forward (g : Globals) (incoming vnet : Nat) (draws : SwitchDraws)
    (s : PerfectSwitch m) : Except MessageBuffer.Fault (Bool × PerfectSwitch m) :=
  match (s.inBuffers incoming vnet).prioHeap.items with
  | [] => .error .assertion
  | node :: _ => do
    require ((s.inBuffers incoming vnet).isReady g) .assertion
    require (s.linkOrder.length = s.routingTable.length) .assertion
    require (s.linkOrder.length = s.outPorts) .assertion
    let s := s.orderLinks settings g vnet draws
    let (chosen, left) := route s.routingEntry (s.linkOrder.map LinkOrder.link)
      node.message.payload.getInternalDestination
    require (left.card = 0) .assertion
    let (enough, s) := s.checkResources g vnet chosen
    if ¬ enough then return (false, { s with scheduled := true })
    let s ← s.sendCopies g vnet draws node.message chosen
    let (_, b) ← (s.inBuffers incoming vnet).pop g
    return (true, { s.setIn incoming vnet b with
      pendingMessageCount :=
        update s.pendingMessageCount vnet (s.pendingMessageCount vnet - 1) })

def drain (settings : SwitchSettings) (g : Globals) (incoming vnet : Nat)
    (draws : Nat → SwitchDraws) : Nat → PerfectSwitch m → Except MessageBuffer.Fault (PerfectSwitch m)
  | 0, s => .ok s
  | rounds + 1, s =>
    if (s.inBuffers incoming vnet).isReady g then do
      let (more, s) ← s.forward settings g incoming vnet (draws rounds)
      if more then drain settings g incoming vnet draws rounds s else return s
    else .ok s

def scanPorts (g : Globals) (vnet : Nat)
    (draws : Nat → Nat → SwitchDraws) (incoming : Nat) (s : PerfectSwitch m) :
    Except MessageBuffer.Fault (PerfectSwitch m) := do
  let (_, s) ← (List.range s.inPorts).foldlM (fun acc _ => do
    let incoming := if acc.1 + 1 ≥ acc.2.inPorts then 0 else acc.1 + 1
    let s ← drain settings g incoming vnet (draws incoming)
      (acc.2.inBuffers incoming vnet).prioHeap.items.length acc.2
    return (incoming, s)) (incoming, s)
  return s

def serveVnet (g : Globals) (draws : Nat → Nat → Nat → SwitchDraws)
    (s : PerfectSwitch m) (vnet : Nat) : Except MessageBuffer.Fault (PerfectSwitch m) :=
  let incoming := s.roundRobinStart
  let s := { s with roundRobinStart :=
    if s.roundRobinStart + 1 ≥ s.inPorts then 0 else s.roundRobinStart + 1 }
  if s.pendingMessageCount vnet > 0 then scanPorts settings g vnet (draws vnet) incoming s
  else .ok s

def prioritySwitchLimit : Nat := 128

def wakeup (g : Globals) (draws : Nat → Nat → Nat → SwitchDraws)
    (s : PerfectSwitch m) : Except MessageBuffer.Fault (PerfectSwitch m) :=
  if s.wakeupsWoSwitch + 1 > prioritySwitchLimit then
    (List.range s.virtualNetworks).foldlM (serveVnet settings g draws)
      { s with wakeupsWoSwitch := 0 }
  else
    (List.range s.virtualNetworks).reverse.foldlM (serveVnet settings g draws)
      { s with wakeupsWoSwitch := s.wakeupsWoSwitch + 1 }

section Ordering
variable {g : Globals} {s : PerfectSwitch m}

theorem getSize_snd (link vnet : Nat) :
    ∃ sizeChecked, (s.getSize g link vnet).2 = { s with sizeChecked } := by
  unfold getSize
  split
  · exact ⟨s.sizeChecked, rfl⟩
  · exact ⟨_, rfl⟩

theorem outQueueLength_snd (link : Nat) :
    ∃ sizeChecked, (s.outQueueLength g link).2 = { s with sizeChecked } := by
  have loop : ∀ (vnets : List Nat) (acc : Int × PerfectSwitch m),
      ∃ sizeChecked, (vnets.foldl (fun acc v =>
        ((acc.1 + (acc.2.getSize g link v).1, (acc.2.getSize g link v).2) : Int × PerfectSwitch m))
        acc).2 = { acc.2 with sizeChecked } := by
    intro vnets
    induction vnets with
    | nil => exact fun acc => ⟨acc.2.sizeChecked, rfl⟩
    | cons v vnets ih =>
      intro acc
      obtain ⟨first, eq⟩ := getSize_snd (g := g) (s := acc.2) link v
      obtain ⟨last, rest⟩ := ih (acc.1 + (acc.2.getSize g link v).1, (acc.2.getSize g link v).2)
      exact ⟨last, by rw [List.foldl_cons, rest, eq]⟩
  exact loop (List.range s.virtualNetworks) (0, s)

theorem measureLinks_eq (draws : SwitchDraws) :
    (s.measureLinks g draws).1.map LinkOrder.link = List.range s.outPorts ∧
      ∃ sizeChecked, (s.measureLinks g draws).2 = { s with sizeChecked } := by
  have loop : ∀ (outs : List Nat) (acc : List LinkOrder × PerfectSwitch m),
      let final := outs.foldl (fun acc out =>
        ((acc.1 ++ [⟨out, (BitVec.ofInt 32 (acc.2.outQueueLength g out).1 <<< 8) |||
            (BitVec.ofNat 32 (draws.link out) &&& 0xff#32)⟩],
          (acc.2.outQueueLength g out).2) : List LinkOrder × PerfectSwitch m)) acc
      final.1.map LinkOrder.link = acc.1.map LinkOrder.link ++ outs ∧
        ∃ sizeChecked, final.2 = { acc.2 with sizeChecked } := by
    intro outs
    induction outs with
    | nil => exact fun acc => ⟨by simp, acc.2.sizeChecked, rfl⟩
    | cons out outs ih =>
      intro acc
      obtain ⟨first, eq⟩ := outQueueLength_snd (g := g) (s := acc.2) out
      obtain ⟨links, last, rest⟩ := ih (acc.1 ++ [⟨out,
        (BitVec.ofInt 32 (acc.2.outQueueLength g out).1 <<< 8) |||
            (BitVec.ofNat 32 (draws.link out) &&& 0xff#32)⟩], (acc.2.outQueueLength g out).2)
      refine ⟨?_, last, ?_⟩
      · rw [List.foldl_cons, links]
        simp
      · rw [List.foldl_cons, rest, eq]
  exact loop (List.range s.outPorts) ([], s)

/-- The link order has every link once, and there is a routing table entry for each. -/
structure Wired (s : PerfectSwitch m) : Prop where
  links : (s.linkOrder.map LinkOrder.link).Perm (List.range s.outPorts)
  entries : s.routingTable.length = s.outPorts

theorem Wired.linkOrder_length (wired : s.Wired) : s.linkOrder.length = s.outPorts := by
  simpa using wired.links.length_eq

theorem orderLinks_eq (settings : SwitchSettings) (vnet : Nat) (draws : SwitchDraws)
    (wired : s.Wired) :
    ∃ linkOrder sizeChecked, s.orderLinks settings g vnet draws =
        { s with linkOrder, sizeChecked } ∧
      (linkOrder.map LinkOrder.link).Perm (List.range s.outPorts) := by
  unfold orderLinks
  split
  · split
    · refine ⟨_, s.sizeChecked, rfl, ?_⟩
      rw [List.map_map]
      exact .of_eq (List.map_id _)
    · obtain ⟨links, sizeChecked, eq⟩ := measureLinks_eq (g := g) (s := s) draws
      refine ⟨settings.sort (s.measureLinks g draws).1, sizeChecked, ?_, ?_⟩
      · simp only [eq]
      · exact links ▸ (settings.sort_perm _).map LinkOrder.link
  · exact ⟨s.linkOrder, s.sizeChecked, rfl, wired.links⟩

end Ordering

/-- A set of destinations is split over links, each with some that its entry has. -/
structure Splits (entry : Nat → NetDest m) (dsts : NetDest m) (chosen : List (Nat × NetDest m)) :
    Prop where
  links : (chosen.map Prod.fst).Nodup
  nonempty : ∀ c ∈ chosen, c.2.Nonempty
  inside : ∀ c ∈ chosen, c.2 ⊆ entry c.1
  disjoint : chosen.Pairwise fun c c' => Disjoint c.2 c'.2
  union : chosen.toFinset.biUnion Prod.snd = dsts

theorem Splits.subset {entry : Nat → NetDest m} {dsts : NetDest m}
    {chosen : List (Nat × NetDest m)} (splits : Splits entry dsts chosen) {c : Nat × NetDest m}
    (member : c ∈ chosen) : c.2 ⊆ dsts := by
  rw [← splits.union]
  exact subset_biUnion_of_mem Prod.snd (List.mem_toFinset.mpr member)

theorem route_spec (entry : Nat → NetDest m) {links : List Nat} (distinct : links.Nodup)
    (dsts : NetDest m) :
    Splits entry (dsts \ (route entry links dsts).2) (route entry links dsts).1 ∧
      (route entry links dsts).2 = dsts \ links.toFinset.biUnion entry ∧
      ((route entry links dsts).1.map Prod.fst).Sublist links := by
  induction links generalizing dsts with
  | nil => exact ⟨⟨List.nodup_nil, nofun, nofun, .nil, by simp [route]⟩, by simp [route], .slnil⟩
  | cons link links ih =>
    obtain ⟨fresh, distinct⟩ := List.nodup_cons.mp distinct
    have step : ∀ rest : NetDest m, dsts \ (entry link ∪ rest) = (dsts \ entry link) \ rest :=
      fun rest => sdiff_sdiff_left.symm
    rw [route, List.toFinset_cons, biUnion_insert, step]
    split
    case isTrue apart =>
      obtain ⟨splits, left, sub⟩ := ih distinct dsts
      refine ⟨splits, ?_, sub.cons link⟩
      rw [left, sdiff_eq_self_of_disjoint (disjoint_iff_inter_eq_empty.mpr apart)]
    case isFalse meets =>
      obtain ⟨splits, left, sub⟩ := ih distinct (dsts \ entry link)
      refine ⟨⟨?_, ?_, ?_, ?_, ?_⟩, left, sub.cons_cons link⟩
      · exact List.nodup_cons.mpr ⟨fun member => fresh (sub.subset member), splits.links⟩
      · exact List.forall_mem_cons.mpr
          ⟨nonempty_iff_ne_empty.mpr meets, splits.nonempty⟩
      · exact List.forall_mem_cons.mpr ⟨inter_subset_right, splits.inside⟩
      · refine List.pairwise_cons.mpr ⟨fun c member => ?_, splits.disjoint⟩
        have outside := (splits.subset member).trans sdiff_subset
        rw [disjoint_left]
        intro id here there
        exact (mem_sdiff.mp (outside there)).2 (mem_inter.mp here).2
      · rw [List.toFinset_cons, biUnion_insert, splits.union]
        have rest : (route entry links (dsts \ entry link)).2 ⊆ dsts \ entry link := by
          rw [left]
          exact sdiff_subset
        ext id
        have := @rest id
        simp only [mem_union, mem_inter, mem_sdiff] at this ⊢
        tauto

section Buffers
variable {g : Globals} {s : PerfectSwitch m} {vnet : Nat} {chosen : List (Nat × NetDest m)}

/-- There is a slot in the buffer of a link. -/
abbrev HasSlot (g : Globals) (s : PerfectSwitch m) (vnet link : Nat) : Prop :=
  ((s.outBuffers link vnet).areNSlotsAvailable g 1).1 = true

/-- No buffer has changed, but for the count of the refusals. -/
structure Unchanged (s s' : PerfectSwitch m) : Prop where
  inputs : s'.inBuffers = s.inBuffers
  outputs : ∀ link vnet, ∃ notAvailCount,
    s'.outBuffers link vnet = { s.outBuffers link vnet with notAvailCount }

@[simp] theorem setOut_same (s : PerfectSwitch m) (link vnet : Nat) :
    s.setOut link vnet (s.outBuffers link vnet) = s := by
  simp [setOut]

theorem update_update_apply {β : Type} (table : Nat → Nat → β) (i j i' j' : Nat) (b : β) :
    update table i (update (table i) j b) i' j' =
      if i' = i ∧ j' = j then b else table i' j' := by
  by_cases sameRow : i' = i
  · subst sameRow
    by_cases sameColumn : j' = j
    · subst sameColumn
      simp
    · simp [sameColumn]
  · simp [sameRow]

theorem setOut_apply (s : PerfectSwitch m) (link vnet link' vnet' : Nat)
    (b : MessageBuffer (NetworkMessage m)) :
    (s.setOut link vnet b).outBuffers link' vnet' =
      if link' = link ∧ vnet' = vnet then b else s.outBuffers link' vnet' :=
  update_update_apply s.outBuffers link vnet link' vnet' b

variable {b : MessageBuffer (NetworkMessage m)}

theorem areNSlotsAvailable_true {n : Int}
    (available : (b.areNSlotsAvailable g n).1 = true) : (b.areNSlotsAvailable g n).2 = b := by
  unfold areNSlotsAvailable at *
  split_ifs at * with unbounded fits
  · rfl
  · rfl

theorem Unchanged.hasSlot_iff {s' : PerfectSwitch m} (same : Unchanged s s') (link : Nat) :
    HasSlot g s' vnet link ↔ HasSlot g s vnet link := by
  obtain ⟨count, eq⟩ := same.outputs link vnet
  obtain ⟨_, after⟩ := areNSlotsAvailable_eq g (s'.outBuffers link vnet) 1
  obtain ⟨_, before⟩ := areNSlotsAvailable_eq g (s.outBuffers link vnet) 1
  rw [HasSlot, HasSlot, after, before, eq]
  rfl

theorem Unchanged.refl (s : PerfectSwitch m) : Unchanged s s :=
  ⟨rfl, fun link vnet => ⟨(s.outBuffers link vnet).notAvailCount, rfl⟩⟩

theorem Unchanged.trans {s' s'' : PerfectSwitch m} (first : Unchanged s s')
    (second : Unchanged s' s'') : Unchanged s s'' := by
  refine ⟨second.inputs.trans first.inputs, fun link vnet => ?_⟩
  obtain ⟨_, eq⟩ := first.outputs link vnet
  obtain ⟨count, eq'⟩ := second.outputs link vnet
  exact ⟨count, by rw [eq', eq]⟩

theorem unchanged_ask (g : Globals) (s : PerfectSwitch m) (link vnet : Nat) (n : Int) :
    Unchanged s (s.setOut link vnet ((s.outBuffers link vnet).areNSlotsAvailable g n).2) := by
  refine ⟨rfl, fun link' vnet' => ?_⟩
  rw [setOut_apply]
  split
  case isTrue here =>
    obtain ⟨rfl, rfl⟩ := here
    obtain ⟨count, eq⟩ := areNSlotsAvailable_eq g (s.outBuffers link' vnet') n
    exact ⟨count, by rw [eq]⟩
  case isFalse => exact (Unchanged.refl s).outputs link' vnet'

theorem checkResources_spec (g : Globals) (vnet : Nat) (chosen : List (Nat × NetDest m))
    (s : PerfectSwitch m) :
    (s.checkResources g vnet chosen).1 = decide (∀ c ∈ chosen, HasSlot g s vnet c.1) ∧
    ((s.checkResources g vnet chosen).1 = true → (s.checkResources g vnet chosen).2 = s) ∧
    Unchanged s (s.checkResources g vnet chosen).2 := by
  have loop : ∀ (chosen : List (Nat × NetDest m)) (acc : Bool × PerfectSwitch m),
      let final := chosen.foldl (fun acc c =>
        ((acc.1 && ((acc.2.outBuffers c.1 vnet).areNSlotsAvailable g 1).1,
          acc.2.setOut c.1 vnet ((acc.2.outBuffers c.1 vnet).areNSlotsAvailable g 1).2) :
          Bool × PerfectSwitch m)) acc
      final.1 = (acc.1 && decide (∀ c ∈ chosen, HasSlot g acc.2 vnet c.1)) ∧
        (final.1 = true → final.2 = acc.2) ∧ Unchanged acc.2 final.2 := by
    intro chosen
    induction chosen with
    | nil => exact fun acc => ⟨by simp, fun _ => rfl, .refl _⟩
    | cons c chosen ih =>
      intro acc
      have asked := unchanged_ask g acc.2 c.1 vnet 1
      obtain ⟨enough, kept, same⟩ := ih
        (acc.1 && ((acc.2.outBuffers c.1 vnet).areNSlotsAvailable g 1).1,
          acc.2.setOut c.1 vnet ((acc.2.outBuffers c.1 vnet).areNSlotsAvailable g 1).2)
      refine ⟨?_, fun all => ?_, asked.trans same⟩
      · rw [List.foldl_cons, enough]
        simp only [asked.hasSlot_iff, List.forall_mem_cons, Bool.decide_and, Bool.and_assoc,
          Bool.decide_eq_true]
      · rw [List.foldl_cons] at all ⊢
        rw [kept all]
        rw [enough, Bool.and_eq_true, Bool.and_eq_true] at all
        simp only [areNSlotsAvailable_true all.1.2, setOut_same]
  obtain ⟨enough, kept, same⟩ := loop chosen (true, s)
  exact ⟨enough.trans (Bool.true_and _), kept, same⟩

/-- Only the message's internal destination differs in a copy, and `enqueue` does not look at it. -/
theorem takes_copyFor {message : Message (NetworkMessage m)} {dest : NetDest m} {delta : Nat} :
    b.Takes g (copyFor message dest) delta ↔ b.Takes g message delta :=
  ⟨fun h => ⟨h.1, h.2, h.3, h.4, h.5⟩, fun h => ⟨h.1, h.2, h.3, h.4, h.5⟩⟩

structure Sent (g : Globals) (vnet : Nat) (message : Message (NetworkMessage m))
    (chosen : List (Nat × NetDest m)) (s s' : PerfectSwitch m) : Prop where
  copies : ∀ c ∈ chosen, ∃ draws,
    (s.outBuffers c.1 vnet).enqueue g (copyFor message c.2) 1 draws = .ok (s'.outBuffers c.1 vnet)
  others : ∀ link vnet', vnet' ≠ vnet ∨ link ∉ chosen.map Prod.fst →
    s'.outBuffers link vnet' = s.outBuffers link vnet'

theorem sendCopies_spec (s : PerfectSwitch m) (draws : SwitchDraws)
    (message : Message (NetworkMessage m)) (distinct : (chosen.map Prod.fst).Nodup) :
    (∀ c ∈ chosen, (s.outBuffers c.1 vnet).Takes g message 1) ∧
        (∃ s', s.sendCopies g vnet draws message chosen = .ok s' ∧
          Sent g vnet message chosen s s' ∧ s' = { s with outBuffers := s'.outBuffers }) ∨
      (∃ c ∈ chosen, ¬ (s.outBuffers c.1 vnet).Takes g message 1) ∧
        ∃ fault, s.sendCopies g vnet draws message chosen = .error fault := by
  unfold sendCopies
  simp only [ite_self]
  generalize 0 = start
  induction chosen generalizing s start with
  | nil => exact .inl ⟨nofun, s, rfl, ⟨nofun, fun _ _ _ => rfl⟩, rfl⟩
  | cons c chosen ih =>
    obtain ⟨fresh, distinct⟩ := List.nodup_cons.mp distinct
    rw [List.zipIdx_cons, List.foldlM_cons]
    by_cases takes : (s.outBuffers c.1 vnet).Takes g message 1
    · obtain ⟨b, done⟩ : ∃ b, (s.outBuffers c.1 vnet).enqueue g (copyFor message c.2) 1
          (draws.delay start) = .ok b := exists_enqueue_iff.mpr (takes_copyFor.mpr takes)
      have away : ∀ c' ∈ chosen,
          (s.setOut c.1 vnet b).outBuffers c'.1 vnet = s.outBuffers c'.1 vnet := by
        intro c' member
        rw [setOut_apply, if_neg]
        rintro ⟨same, -⟩
        exact fresh (same ▸ List.mem_map_of_mem member)
      rw [done]
      obtain ⟨others, s', ran, sent, kept⟩ | ⟨⟨c', member, refuses⟩, fault, ran⟩ :=
        ih (s.setOut c.1 vnet b) distinct (start + 1)
      · refine .inl ⟨List.forall_mem_cons.mpr ⟨takes, fun c' member => ?_⟩, s', ran,
          ⟨List.forall_mem_cons.mpr ⟨⟨draws.delay start, ?_⟩, fun c' member => ?_⟩,
            fun link vnet' outside => ?_⟩, kept⟩
        · rw [← away c' member]
          exact others c' member
        · rw [sent.others c.1 vnet (.inr fresh), setOut_apply, if_pos ⟨rfl, rfl⟩]
          exact done
        · rw [← away c' member]
          exact sent.copies c' member
        · rw [List.map_cons, List.mem_cons, not_or] at outside
          rw [sent.others link vnet' (outside.imp_right And.right), setOut_apply, if_neg]
          rintro ⟨rfl, rfl⟩
          obtain other | other := outside
          · exact other rfl
          · exact other.1 rfl
      · refine .inr ⟨⟨c', List.mem_cons_of_mem _ member, ?_⟩, fault, ran⟩
        rwa [away c' member] at refuses
    · refine .inr ⟨⟨c, List.mem_cons_self, takes⟩, ?_⟩
      match ran : (s.outBuffers c.1 vnet).enqueue g (copyFor message c.2) 1 (draws.delay start) with
      | .ok b => exact absurd (takes_copyFor.mp (exists_enqueue_iff.mp ⟨b, ran⟩)) takes
      | .error fault => exact ⟨fault, rfl⟩

end Buffers

structure Forwarded (g : Globals) (incoming vnet : Nat)
    (node : MessageBufferNode (NetworkMessage m)) (chosen : List (Nat × NetDest m))
    (s s' : PerfectSwitch m) : Prop extends Sent g vnet node.message chosen s s' where
  taken : (s.inBuffers incoming vnet).prioHeap.items =
    node :: (s'.inBuffers incoming vnet).prioHeap.items
  inputs : ∀ port vnet', port ≠ incoming ∨ vnet' ≠ vnet →
    s'.inBuffers port vnet' = s.inBuffers port vnet'

section Forward
variable {settings : SwitchSettings} {g : Globals} {incoming vnet : Nat} {draws : SwitchDraws}
  {s : PerfectSwitch m} {node : MessageBufferNode (NetworkMessage m)}
  {rest : List (MessageBufferNode (NetworkMessage m))}

theorem setIn_apply (s : PerfectSwitch m) (port vnet port' vnet' : Nat)
    (b : MessageBuffer (NetworkMessage m)) :
    (s.setIn port vnet b).inBuffers port' vnet' =
      if port' = port ∧ vnet' = vnet then b else s.inBuffers port' vnet' :=
  update_update_apply s.inBuffers port vnet port' vnet' b

theorem forward_eq (settings : SwitchSettings) (draws : SwitchDraws) (wired : s.Wired)
    (head : (s.inBuffers incoming vnet).prioHeap.items = node :: rest) (due : node.time ≤ g.time)
    (covered : node.message.payload.getInternalDestination ⊆ (Finset.range s.outPorts).biUnion
      s.routingEntry) :
    ∃ linkOrder sizeChecked chosen, (linkOrder.map LinkOrder.link).Perm (List.range s.outPorts) ∧
      Splits s.routingEntry node.message.payload.getInternalDestination chosen ∧
      (∀ c ∈ chosen, c.1 < s.outPorts) ∧
      s.forward settings g incoming vnet draws =
        (let (enough, s) := checkResources g vnet chosen { s with linkOrder, sizeChecked }
        if ¬ enough then .ok (false, { s with scheduled := true })
        else do
          let s ← s.sendCopies g vnet draws node.message chosen
          let (_, b) ← (s.inBuffers incoming vnet).pop g
          return (true, { s.setIn incoming vnet b with
            pendingMessageCount :=
              update s.pendingMessageCount vnet (s.pendingMessageCount vnet - 1) })) := by
  obtain ⟨linkOrder, sizeChecked, ordered, links⟩ :=
    orderLinks_eq (g := g) settings vnet draws wired
  have ready : (s.inBuffers incoming vnet).isReady g = true := by
    simpa [isReady, head] using due
  obtain ⟨splits, left, sub⟩ := route_spec s.routingEntry
    (links.nodup_iff.mpr List.nodup_range) node.message.payload.getInternalDestination
  have every : (linkOrder.map LinkOrder.link).toFinset = Finset.range s.outPorts := by
    ext link
    rw [List.mem_toFinset, links.mem_iff, List.mem_range, mem_range]
  have none : (route s.routingEntry (linkOrder.map LinkOrder.link)
      node.message.payload.getInternalDestination).2 = ∅ := by
    rw [left, every, sdiff_eq_empty_iff_subset]
    exact covered
  rw [none, sdiff_empty] at splits
  refine ⟨linkOrder, sizeChecked, _, links, splits, fun c member => ?_, ?_⟩
  · exact List.mem_range.mp (links.subset (sub.subset (List.mem_map_of_mem member)))
  · have table : s.linkOrder.length = s.routingTable.length :=
      wired.linkOrder_length.trans wired.entries.symm
    have entry : routingEntry { s with linkOrder, sizeChecked } = s.routingEntry := rfl
    have card : (route s.routingEntry (linkOrder.map LinkOrder.link)
        node.message.payload.getInternalDestination).2.card = 0 := by
      rw [none, card_empty]
    unfold forward
    simp only [head, require_of ready, require_of table, require_of wired.linkOrder_length, ordered,
      entry, require_of card, ok_bind]
    rfl

/-- A ready message is forwarded to all of the links that its destinations are split over, or no
buffer changes. Only an output that panics on the message stops the simulator in between. -/
theorem forward_once (settings : SwitchSettings) (draws : SwitchDraws) (wired : s.Wired)
    (head : (s.inBuffers incoming vnet).prioHeap.items = node :: rest) (due : node.time ≤ g.time)
    (covered : node.message.payload.getInternalDestination ⊆ (Finset.range s.outPorts).biUnion
      s.routingEntry) :
    ∃ chosen, Splits s.routingEntry node.message.payload.getInternalDestination chosen ∧
      (∀ c ∈ chosen, c.1 < s.outPorts) ∧
      ((∃ c ∈ chosen, ¬ HasSlot g s vnet c.1) ∧
          (∃ s', s.forward settings g incoming vnet draws = .ok (false, s') ∧ Unchanged s s' ∧
            s'.scheduled = true) ∨
        (∀ c ∈ chosen, HasSlot g s vnet c.1 ∧ (s.outBuffers c.1 vnet).Takes g node.message 1) ∧
          (∃ s', s.forward settings g incoming vnet draws = .ok (true, s') ∧
            Forwarded g incoming vnet node chosen s s') ∨
        (∀ c ∈ chosen, HasSlot g s vnet c.1) ∧
          (∃ c ∈ chosen, ¬ (s.outBuffers c.1 vnet).Takes g node.message 1) ∧
          ∃ fault, s.forward settings g incoming vnet draws = .error fault) := by
  obtain ⟨linkOrder, sizeChecked, chosen, -, splits, inside, eq⟩ :=
    forward_eq settings draws wired head due covered
  refine ⟨chosen, splits, inside, ?_⟩
  obtain ⟨enough, kept, same⟩ :=
    checkResources_spec g vnet chosen { s with linkOrder, sizeChecked }
  have slots : ∀ link, HasSlot g { s with linkOrder, sizeChecked } vnet link ↔
      HasSlot g s vnet link := fun _ => Iff.rfl
  simp only [slots] at enough
  rw [eq]
  by_cases all : ∀ c ∈ chosen, HasSlot g s vnet c.1
  · rw [decide_eq_true all] at enough
    simp only [enough, kept enough, not_true_eq_false, if_false]
    obtain ⟨takes, s', sent, ⟨copies, others⟩, same⟩ | ⟨refuses, fault, stopped⟩ :=
      sendCopies_spec (g := g) { s with linkOrder, sizeChecked } draws node.message splits.links
    · refine .inr (.inl ⟨fun c member => ⟨all c member, takes c member⟩, ?_⟩)
      have popped : (s'.inBuffers incoming vnet).pop g =
          .ok (node.message, (s.inBuffers incoming vnet).countPop g) := by
        rw [same]
        exact pop_of_due head due
      rw [sent, ok_bind, popped]
      refine ⟨_, rfl, ⟨copies, others⟩, ?_, fun port vnet' other => ?_⟩
      · change _ = node :: ((s'.setIn incoming vnet _).inBuffers incoming vnet).prioHeap.items
        rw [setIn_apply, if_pos ⟨rfl, rfl⟩, countPop, PriorityQueue.pop_items, head]
        rfl
      · change (s'.setIn incoming vnet _).inBuffers port vnet' = _
        rw [setIn_apply, if_neg (by omega), same]
    · exact .inr (.inr ⟨all, refuses, fault, by rw [stopped]; rfl⟩)
  · rw [decide_eq_false all] at enough
    simp only [enough, Bool.false_eq_true, not_false_eq_true, if_true]
    refine .inl ⟨by simpa using all, _, rfl, ⟨same.inputs, same.outputs⟩, rfl⟩

def LinkOrder.Le (l₁ l₂ : LinkOrder) : Prop := l₁.value.toInt ≤ l₂.value.toInt

instance : DecidableRel LinkOrder.Le := fun _ _ => inferInstanceAs (Decidable (_ ≤ _))

instance : Std.Total LinkOrder.Le := ⟨fun _ _ => Int.le_total _ _⟩

instance : IsTrans LinkOrder LinkOrder.Le := ⟨fun _ _ _ => Int.le_trans⟩

def sorting (adaptiveRouting : Bool) : SwitchSettings where
  adaptiveRouting := adaptiveRouting
  isVNetOrdered _ := false
  sort := List.insertionSort LinkOrder.Le
  sort_perm := List.perm_insertionSort LinkOrder.Le
  sort_sorted := List.pairwise_insertionSort LinkOrder.Le

def twoMachines : Machines := ⟨1, fun _ => 2⟩

def toBoth : MessageBufferNode (NetworkMessage twoMachines) :=
  ⟨1, 1, ⟨⟨Finset.univ, none, 8, .control⟩, 1, 0⟩⟩

def twoLinks : PerfectSwitch twoMachines where
  virtualNetworks := 1
  inPorts := 1
  outPorts := 2
  inBuffers _ _ := { empty with prioHeap := ⟨[toBoth], List.pairwise_singleton _ _⟩, size := 1 }
  outBuffers _ _ := { empty with maxSize := 1 }
  sizeChecked _ _ := (0, 0)
  routingTable := [{⟨⟨0, by decide⟩, ⟨0, by decide⟩⟩}, Finset.univ]
  linkOrder := [⟨0, 0⟩, ⟨1, 0⟩]
  pendingMessageCount _ := 1
  roundRobinStart := 0
  wakeupsWoSwitch := 0
  scheduled := false

theorem forward_once_twoLinks : ∃ chosen s', Splits twoLinks.routingEntry Finset.univ chosen ∧
      twoLinks.forward (sorting false) ⟨5, false, false, 6⟩ 0 0 ⟨fun _ => 0, fun _ => (0, 0, 0)⟩ =
        .ok (true, s') ∧
      Forwarded ⟨5, false, false, 6⟩ 0 0 toBoth chosen twoLinks s' := by
  have takes : ∀ link, (twoLinks.outBuffers link 0).Takes ⟨5, false, false, 6⟩ toBoth.message 1 :=
    fun _ => ⟨rfl, rfl, by decide, fun _ _ => Nat.zero_le _, by decide⟩
  have slot : ∀ link, HasSlot ⟨5, false, false, 6⟩ twoLinks 0 link := fun _ => rfl
  obtain ⟨chosen, splits, -, blocked | ⟨-, s', done, sent⟩ | ⟨-, ⟨c, -, refuses⟩, -⟩⟩ :=
    forward_once (s := twoLinks) (g := ⟨5, false, false, 6⟩) (sorting false)
      ⟨fun _ => 0, fun _ => (0, 0, 0)⟩ ⟨.of_eq rfl, rfl⟩ (rfl : _ = [toBoth]) (by decide)
      (by decide)
  · obtain ⟨⟨c, -, full⟩, -⟩ := blocked
    exact absurd (slot c.1) full
  · exact ⟨chosen, s', splits, done, sent⟩
  · exact absurd (takes c.1) refuses

end Forward

section Wakeup
variable {settings : SwitchSettings} {g : Globals} {s s' : PerfectSwitch m}

variable (wired : s.Wired)
include wired

variable {vnet incoming : Nat} {draws : SwitchDraws}

theorem Wired.orderLinks :
    (s.orderLinks settings g vnet draws).Wired := by
  obtain ⟨linkOrder, sizeChecked, eq, links⟩ := orderLinks_eq (g := g) settings vnet draws wired
  rw [eq]
  exact ⟨links, wired.entries⟩

variable {chosen : List (Nat × NetDest m)}

theorem Wired.checkResources :
    (s.checkResources g vnet chosen).2.Wired := by
  unfold PerfectSwitch.checkResources
  refine List.foldlRecOn (motive := fun acc : Bool × PerfectSwitch m => acc.2.Wired) chosen _
    wired ?_
  intro acc before c _
  exact ⟨before.links, before.entries⟩

theorem Wired.sendCopies {message : Message (NetworkMessage m)}
    (done : s.sendCopies g vnet draws message chosen = .ok s') :
    s'.Wired := by
  refine foldlM_invariant Wired ?_ wired done
  intro c _ s s' before sent
  obtain ⟨b, -, sent⟩ := bind_ok sent
  obtain rfl := pure_ok sent
  exact ⟨before.links, before.entries⟩

theorem Wired.forward {more : Bool}
    (done : s.forward settings g incoming vnet draws = .ok (more, s')) : s'.Wired := by
  unfold PerfectSwitch.forward at done
  split at done
  · cases done
  · obtain ⟨_, -, done⟩ := bind_ok done
    obtain ⟨_, -, done⟩ := bind_ok done
    obtain ⟨_, -, done⟩ := bind_ok done
    obtain ⟨_, -, done⟩ := bind_ok done
    dsimp only at done
    split at done
    · cases pure_ok done
      exact ⟨wired.orderLinks.checkResources.links, wired.orderLinks.checkResources.entries⟩
    · obtain ⟨sent, copies, done⟩ := bind_ok done
      obtain ⟨_, -, done⟩ := bind_ok done
      cases pure_ok done
      have after := wired.orderLinks.checkResources.sendCopies copies
      exact ⟨after.links, after.entries⟩

theorem Wired.drain {draws : Nat → SwitchDraws} {rounds : Nat}
    (done : s.drain settings g incoming vnet draws rounds = .ok s') :
    s'.Wired := by
  induction rounds generalizing s with
  | zero =>
    cases done
    exact wired
  | succ rounds ih =>
    rw [PerfectSwitch.drain] at done
    split at done
    · obtain ⟨⟨more, next⟩, attempt, done⟩ := bind_ok done
      have after := wired.forward attempt
      cases more with
      | true => exact ih after done
      | false =>
        cases pure_ok done
        exact after
    · cases done
      exact wired

variable {draws : Nat → Nat → Nat → SwitchDraws}

theorem Wired.serveVnet (done : s.serveVnet settings g draws vnet = .ok s') : s'.Wired := by
  unfold PerfectSwitch.serveVnet at done
  dsimp only at done
  split at done
  · unfold scanPorts at done
    obtain ⟨⟨_, next⟩, scanned, done⟩ := bind_ok done
    cases pure_ok done
    refine foldlM_invariant (fun acc : Nat × PerfectSwitch m => acc.2.Wired) ?_
      ⟨wired.links, wired.entries⟩ scanned
    intro _ _ acc acc' before step
    obtain ⟨drained, ran, step⟩ := bind_ok step
    cases pure_ok step
    exact before.drain ran
  · cases done
    exact ⟨wired.links, wired.entries⟩

theorem Wired.wakeup (done : s.wakeup settings g draws = .ok s') : s'.Wired := by
  unfold PerfectSwitch.wakeup at done
  split at done
  all_goals
    refine foldlM_invariant Wired ?_ ?_ done
    · exact fun _ _ _ _ before step => before.serveVnet step
    · exact ⟨wired.links, wired.entries⟩

end Wakeup

def addOutPort (s : PerfectSwitch m) (out : Nat → MessageBuffer (NetworkMessage m))
    (entry : NetDest m) : PerfectSwitch m :=
  { s with
    linkOrder := s.linkOrder ++ [⟨s.outPorts, 0⟩]
    outBuffers := update s.outBuffers s.outPorts out
    routingTable := s.routingTable ++ [entry]
    outPorts := s.outPorts + 1 }

/-- The switch gets a link or wakes up, or its neighbours change its buffers. -/
inductive Moves (settings : SwitchSettings) (s : PerfectSwitch m) : PerfectSwitch m → Prop where
  | addOutPort (out entry) : Moves settings s (s.addOutPort out entry)
  | wakeup {g draws s'} (done : s.wakeup settings g draws = .ok s') : Moves settings s s'
  | buffers (inBuffers outBuffers pendingMessageCount) :
      Moves settings s { s with inBuffers, outBuffers, pendingMessageCount }

/-- Whatever adaptive routing draws, every link stays in the order once. -/
theorem wired_forever {settings : SwitchSettings} {s s' : PerfectSwitch m} (wired : s.Wired)
    (run : Relation.ReflTransGen (Moves settings) s s') : s'.Wired := by
  induction run with
  | refl => exact wired
  | tail _ taken ih =>
    cases taken with
    | addOutPort out entry =>
      refine ⟨?_, by simp [addOutPort, ih.entries]⟩
      simpa [addOutPort, List.range_succ] using ih.links.append_right _
    | wakeup done => exact ih.wakeup done
    | buffers => exact ⟨ih.links, ih.entries⟩

/-- The switch gets a third link, a message to both machines goes out, and the next wakeup has put
the links in another order. -/
theorem wired_forever_twoLinks : ∃ s', Relation.ReflTransGen (Moves (sorting true)) twoLinks s' ∧
    s'.linkOrder.map (·.link) = [2, 1, 0] ∧ s'.Wired := by
  have ran : ((twoLinks.addOutPort (fun _ => empty) ∅).wakeup (sorting true) ⟨5, false, false, 6⟩
      fun _ _ _ => ⟨fun link => 9 - link, fun _ => (0, 0, 0)⟩).toOption.any
        (·.linkOrder.map (·.link) = [2, 1, 0]) = true := by
    decide +kernel
  obtain ⟨s', done, turned⟩ := any_toOption ran
  have run : Relation.ReflTransGen (Moves (sorting true)) twoLinks s' :=
    .head (.addOutPort _ _) (.single (.wakeup done))
  exact ⟨s', run, of_decide_eq_true turned, wired_forever ⟨.of_eq rfl, rfl⟩ run⟩

end PerfectSwitch

end SynchroTrace.Ruby
