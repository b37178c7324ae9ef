import Mathlib.Algebra.Order.Floor.Semiring
import Mathlib.Algebra.Order.Archimedean.Basic
import SynchroTrace.Garnet.Interface
import SynchroTrace.Lib.Transition

namespace SynchroTrace.Garnet
open Transition List Function NetDest

/-- A message from the protocol, a wakeup that injects messages, or anything that the rest of the
interface and the network do to its buffers, its output VCs and its pointers. -/
inductive InterfaceAction (m : Machines) where
  | enqueue (vnet : Nat) (msg : NetworkMessage m)
  | injectMessages (now : Nat)
  | environment (other : NetworkInterface m)

namespace NetworkInterface

/-- The parts that only the injection of messages changes stay. -/
def disturb {m : Machines} (other ni : NetworkInterface m) : NetworkInterface m :=
  { other with
    inNode := ni.inNode, clones := ni.clones, accepted := ni.accepted, injected := ni.injected }

def perform (cfg : Config) (self : Nat) (ni : NetworkInterface cfg.machines) :
    InterfaceAction cfg.machines → Except Empty (NetworkInterface cfg.machines)
  | .enqueue vnet msg => .ok (ni.enqueue vnet msg)
  | .injectMessages now => .ok (injectMessages cfg self now ni)
  | .environment other => .ok (disturb other ni)

def Fresh {m : Machines} (ni : NetworkInterface m) : Prop :=
  (∀ vnet, ni.inNode vnet = []) ∧ ni.accepted = [] ∧ ni.injected = []

end NetworkInterface

open NetworkInterface

def interface (cfg : Config) (self : Nat) :
    System (NetworkInterface cfg.machines) (InterfaceAction cfg.machines) :=
  ofFunction NetworkInterface.Fresh (NetworkInterface.perform cfg self)

section Ledger
variable {m : Machines}

def Pending.dests (p : Pending m) : List (MachineID m) := p.message.getInternalDestination.members

def Injection.dest (r : Injection m) : NetDest m := r.clone.getInternalDestination

def servedIn (injected : List (Injection m)) (k : Nat) : List (Injection m) :=
  injected.filter (·.origin = k)

def leftIn (queue : List (Pending m)) (k : Nat) : List (MachineID m) :=
  (queue.filter (·.origin = k)).flatMap Pending.dests

@[simp] theorem servedIn_append (before after : List (Injection m)) (k : Nat) :
    servedIn (before ++ after) k = servedIn before k ++ servedIn after k :=
  filter_append ..

@[simp] theorem leftIn_append (before after : List (Pending m)) (k : Nat) :
    leftIn (before ++ after) k = leftIn before k ++ leftIn after k := by
  simp [leftIn]

theorem leftIn_cons (p : Pending m) (rest : List (Pending m)) (k : Nat) :
    leftIn (p :: rest) k = (if p.origin = k then p.dests else []) ++ leftIn rest k := by
  unfold leftIn
  by_cases same : p.origin = k <;> simp [same]

variable {injected : List (Injection m)}

theorem servedIn_eq_nil {k : Nat}
    (other : ∀ r ∈ injected, r.origin ≠ k) : servedIn injected k = [] := by
  simpa [servedIn] using other

theorem leftIn_eq_nil {queue : List (Pending m)} {k : Nat}
    (other : ∀ p ∈ queue, p.origin ≠ k) : leftIn queue k = [] := by
  have empty : queue.filter (·.origin = k) = [] := by simpa using other
  simp [leftIn, empty]

theorem servedIn_of_origin {origin : Nat} (all : ∀ r ∈ injected, r.origin = origin) (k : Nat) :
    servedIn injected k = if origin = k then injected else [] := by
  split
  · rename_i same
    rw [servedIn, filter_eq_self]
    intro r member
    simp [all r member, same]
  · rename_i different
    refine servedIn_eq_nil fun r member same => different ?_
    rw [← all r member, same]

/-- The packet has a single destination, and its flits are numbered through. -/
structure Injection.Whole (numFlits : Nat) (r : Injection m) : Prop where
  single : ∃ id, r.dest = {id}
  numbered : r.flits.map Flit.id = List.range numFlits
  carried : ∀ f ∈ r.flits, f.vc = r.vc ∧ f.size = numFlits ∧ f.msg.message = r.clone

end Ledger

section Attempt
variable {cfg : Config}

/-- What an attempt at a message does: it adds the packets `news`, and they with what is left of
the message make up what there was to serve. -/
structure Serves (numFlits : Nat) (pending : Pending cfg.machines)
    (ni : NetworkInterface cfg.machines) (news : List (Injection cfg.machines)) (done : Bool)
    (pending' : Pending cfg.machines) (ni' : NetworkInterface cfg.machines) : Prop where
  injected : ni'.injected = ni.injected ++ news
  origin : ∀ r ∈ news, r.origin = pending.origin
  whole : ∀ r ∈ news, r.Whole numFlits
  balance : news.flatMap (·.dest.members) ++ (if done then [] else pending'.dests) = pending.dests
  kept : pending'.origin = pending.origin ∧ pending'.message.size = pending.message.size
  frame : ni'.inNode = ni.inNode ∧ ni'.accepted = ni.accepted

variable {now vnet : Nat} {ni ni' : NetworkInterface cfg.machines}
  {pending pending' : Pending cfg.machines}

theorem calculateVC_frame {n : Nat} {vc : Option Nat}
    (h : calculateVC cfg now vnet n ni = (vc, ni')) :
    ni'.injected = ni.injected ∧ ni'.inNode = ni.inNode ∧ ni'.accepted = ni.accepted := by
  induction n generalizing ni with
  | zero =>
    cases h
    exact ⟨rfl, rfl, rfl⟩
  | succ n ih =>
    unfold calculateVC at h
    dsimp only at h
    split at h
    · cases h
      exact ⟨rfl, rfl, rfl⟩
    · have later := ih h
      exact later

theorem packet_whole {m : Machines} {self vc numFlits origin serial : Nat}
    {clone : NetworkMessage m} {id : MachineID m} (single : clone.getInternalDestination = {id}) :
    (packet self now vnet vc numFlits origin serial clone).Whole numFlits where
  single := ⟨id, single⟩
  numbered := by
    simp only [packet, makeFlits, map_map]
    exact map_id _
  carried := by
    intro f member
    obtain ⟨i, _, rfl⟩ := mem_map.mp member
    exact ⟨rfl, rfl, rfl⟩

section
variable {free : NetworkInterface cfg.machines}
  (found : free.injected = ni.injected ∧ free.inNode = ni.inNode ∧ free.accepted = ni.accepted)
include found

theorem Serves.cons {self vc n : Nat} {left clone : NetworkMessage cfg.machines}
    {news : List (Injection cfg.machines)} {done : Bool} {id : MachineID cfg.machines}
    (single : clone.getInternalDestination = {id}) (size : left.size = pending.message.size)
    (taken : pending.dests = id :: Pending.dests { pending with message := left })
    (rest : Serves n { pending with message := left }
      (free.inject self now vnet vc n pending.origin clone) news done pending' ni') :
    ∃ news, Serves n pending ni news done pending' ni' := by
  refine ⟨packet self now vnet vc n pending.origin free.clones clone :: news, ?_, ?_, ?_, ?_, ?_, ?_⟩
  · rw [rest.injected, append_cons, ← found.1]
    rfl
  · intro r member
    obtain rfl | member := mem_cons.mp member
    · rfl
    · exact rest.origin r member
  · intro r member
    obtain rfl | member := mem_cons.mp member
    · exact packet_whole single
    · exact rest.whole r member
  · have first : (packet self now vnet vc n pending.origin free.clones clone).dest = {id} := single
    rw [flatMap_cons, first, members_singleton, taken, append_assoc, rest.balance]
    rfl
  · exact ⟨rest.kept.1, rest.kept.2.trans size⟩
  · exact ⟨rest.frame.1.trans found.2.1, rest.frame.2.trans found.2.2⟩

theorem Serves.failed {n : Nat} : ∃ news, Serves n pending ni news false pending free :=
  ⟨[], by simpa using found.1, by simp, by simp, by simp, ⟨rfl, rfl⟩, found.2⟩

end

variable {n self : Nat}

theorem Serves.done (empty : pending.dests = []) :
    ∃ news, Serves n pending ni news true pending ni :=
  ⟨[], by simp, by simp, by simp, by simp [empty], ⟨rfl, rfl⟩, rfl, rfl⟩

variable {done : Bool}

theorem serve_several {dests : List Nat} (listed : pending.dests.map MachineID.nodeID = dests)
    (h : serve cfg self now vnet n true dests pending ni = (done, pending', ni')) :
    ∃ news, Serves n pending ni news done pending' ni' := by
  induction dests generalizing pending ni with
  | nil =>
    cases h
    exact Serves.done (map_eq_nil_iff.mp listed)
  | cons destID rest ih =>
    obtain ⟨id, others, split, rfl, tail⟩ := map_eq_cons_iff.mp listed
    unfold serve at h
    split at h
    · rename_i free search
      cases h
      exact Serves.failed (calculateVC_frame search)
    · rename_i vc free search
      simp only [takeDestination, Machines.machineOf_nodeID, ↓reduceIte] at h
      have left : Pending.dests { pending with message := { pending.message with
          internalDest := some (pending.message.getInternalDestination \ {id}) } } = others :=
        members_sdiff split
      obtain ⟨news, served⟩ := ih (by rw [left, tail]) h
      have single : NetworkMessage.getInternalDestination
          { pending.message with internalDest := some {id} } = {id} := rfl
      refine Serves.cons (calculateVC_frame search) single ?_ ?_ served
      · rfl
      · rw [left]
        exact split

theorem serve_single {id : MachineID cfg.machines} (listed : pending.dests = [id])
    (h : serve cfg self now vnet n false [id.nodeID] pending ni = (done, pending', ni')) :
    ∃ news, Serves n pending ni news done pending' ni' := by
  unfold serve at h
  split at h
  · rename_i free search
    cases h
    exact Serves.failed (calculateVC_frame search)
  · rename_i vc free search
    cases h
    have found := calculateVC_frame search
    have single := eq_singleton listed
    refine ⟨[packet self now vnet vc n pending.origin free.clones pending.message],
      ?_, ?_, ?_, ?_, ⟨rfl, rfl⟩, found.2⟩
    · simp [inject, found.1]
    · simp [packet]
    · simpa using packet_whole single
    · simp [Injection.dest, packet, Pending.dests]

theorem flitisizeMessage_serves
    (h : flitisizeMessage cfg self now vnet pending ni = (done, pending', ni')) :
    ∃ news, Serves (numFlits cfg pending.message) pending.prepare ni news done pending' ni' := by
  unfold flitisizeMessage at h
  have nodes : pending.message.getInternalDestination.getAllDest =
      pending.prepare.dests.map MachineID.nodeID := rfl
  match listed : pending.prepare.dests with
  | [] =>
    simp only [nodes, listed, map_nil] at h
    cases h
    exact Serves.done listed
  | [id] =>
    simp only [nodes, listed, map_cons, map_nil, length_singleton, lt_self_iff_false,
      decide_false] at h
    exact serve_single listed h
  | first :: second :: rest =>
    have several : 1 < (pending.prepare.dests.map MachineID.nodeID).length := by simp [listed]
    simp only [nodes, several, decide_true] at h
    exact serve_several rfl h

end Attempt

section Queues
variable {cfg : Config}

/-- A queue of messages accepted on a virtual network, some of them partly served. -/
def Known (accepted : List (Nat × NetworkMessage cfg.machines)) (vnet : Nat)
    (queue : List (Pending cfg.machines)) : Prop :=
  ∀ p ∈ queue, ∃ original, accepted[p.origin]? = some (vnet, original) ∧
    p.message.size = original.size

/-- Packets as the message they are made for asks for them. -/
def Fitting (accepted : List (Nat × NetworkMessage cfg.machines))
    (injected : List (Injection cfg.machines)) : Prop :=
  ∀ r ∈ injected, ∃ vnet original, accepted[r.origin]? = some (vnet, original) ∧
    r.Whole (numFlits cfg original)

structure Drains (vnet : Nat) (queue : List (Pending cfg.machines))
    (ni : NetworkInterface cfg.machines) (news : List (Injection cfg.machines))
    (queue' : List (Pending cfg.machines)) (ni' : NetworkInterface cfg.machines) : Prop where
  injected : ni'.injected = ni.injected ++ news
  balance : ∀ k, (servedIn news k).flatMap (·.dest.members) ++ leftIn queue' k = leftIn queue k
  origin : ∀ r ∈ news, ∃ p ∈ queue, p.origin = r.origin
  known : Known ni.accepted vnet queue → Known ni.accepted vnet queue' ∧ Fitting ni.accepted news
  frame : ni'.inNode = ni.inNode ∧ ni'.accepted = ni.accepted

theorem numFlits_congr {msg msg' : NetworkMessage cfg.machines} (size : msg.size = msg'.size) :
    numFlits cfg msg = numFlits cfg msg' := by
  simp only [numFlits, size]

variable {ni ni' : NetworkInterface cfg.machines} {pending pending' : Pending cfg.machines}

variable {news : List (Injection cfg.machines)}

theorem Serves.fitting {vnet : Nat} {done : Bool}
    (served : Serves (numFlits cfg pending.message) pending.prepare ni news done pending' ni')
    {original : NetworkMessage cfg.machines}
    (known : ni.accepted[pending.origin]? = some (vnet, original))
    (size : pending.message.size = original.size) : Fitting ni.accepted news := by
  intro r member
  refine ⟨vnet, original, ?_, ?_⟩
  · rw [served.origin r member]
    exact known
  · rw [← numFlits_congr size]
    exact served.whole r member

theorem Serves.balance_of {n : Nat} {done : Bool}
    (served : Serves n pending ni news done pending' ni') (k : Nat) :
    (servedIn news k).flatMap (·.dest.members) ++
        (if done then [] else if pending'.origin = k then pending'.dests else []) =
      if pending.origin = k then pending.dests else [] := by
  rw [servedIn_of_origin served.origin, served.kept.1, ← served.balance]
  by_cases same : pending.origin = k
  · simp only [same, ↓reduceIte]
  · simp [same]

theorem drain_drains {self now vnet : Nat} {queue queue' : List (Pending cfg.machines)}
    (h : drain cfg self now vnet queue ni = (queue', ni')) :
    ∃ news, Drains vnet queue ni news queue' ni' := by
  induction queue generalizing ni with
  | nil =>
    cases h
    exact ⟨[], by simp, by simp [servedIn], by simp, fun known => ⟨known, by simp [Fitting]⟩, rfl,
      rfl⟩
  | cons pending rest ih =>
    have first : ∀ k, leftIn (pending :: rest) k =
        (if pending.origin = k then pending.prepare.dests else []) ++ leftIn rest k :=
      leftIn_cons pending rest
    unfold drain at h
    split at h
    · rename_i pending' middle attempt
      obtain ⟨news, served⟩ := flitisizeMessage_serves attempt
      obtain ⟨later, drained⟩ := ih h
      refine ⟨news ++ later, ?_, ?_, ?_, ?_, ?_⟩
      · rw [drained.injected, served.injected, append_assoc]
      · intro k
        have balance := served.balance_of k
        simp only [↓reduceIte, append_nil] at balance
        rw [servedIn_append, flatMap_append, append_assoc, drained.balance k, balance]
        exact (first k).symm
      · intro r member
        obtain member | member := mem_append.mp member
        · exact ⟨pending, mem_cons_self, (served.origin r member).symm⟩
        · obtain ⟨p, inside, same⟩ := drained.origin r member
          exact ⟨p, mem_cons_of_mem _ inside, same⟩
      · intro known
        obtain ⟨original, accepted, size⟩ := known pending mem_cons_self
        rw [← served.frame.2]
        obtain ⟨kept, fitting⟩ := drained.known (by
          rw [served.frame.2]
          exact fun p member => known p (mem_cons_of_mem _ member))
        refine ⟨kept, fun r member => ?_⟩
        obtain member | member := mem_append.mp member
        · rw [served.frame.2]
          exact served.fitting accepted size r member
        · exact fitting r member
      · exact ⟨drained.frame.1.trans served.frame.1, drained.frame.2.trans served.frame.2⟩
    · rename_i pending' middle attempt
      cases h
      obtain ⟨news, served⟩ := flitisizeMessage_serves attempt
      refine ⟨news, served.injected, ?_, ?_, ?_, served.frame⟩
      · intro k
        have balance := served.balance_of k
        simp only [Bool.false_eq_true, ↓reduceIte] at balance
        rw [leftIn_cons, ← append_assoc, balance]
        exact (first k).symm
      · intro r member
        exact ⟨pending, mem_cons_self, (served.origin r member).symm⟩
      · intro known
        obtain ⟨original, accepted, size⟩ := known pending mem_cons_self
        refine ⟨fun p member => ?_, served.fitting accepted size⟩
        obtain rfl | member := mem_cons.mp member
        · refine ⟨original, ?_, served.kept.2.trans size⟩
          rw [served.kept.1]
          exact accepted
        · exact known p (mem_cons_of_mem _ member)

end Queues

section Runs
variable {cfg : Config} {self : Nat}

def NetworkInterface.served {m : Machines} (ni : NetworkInterface m) (k : Nat) :
    List (Injection m) :=
  servedIn ni.injected k

/-- For every message from the protocol, the packets made of it and what its queue has left of it
are the destinations it came with. -/
structure Accounted (ni : NetworkInterface cfg.machines) : Prop where
  known : ∀ vnet, Known ni.accepted vnet (ni.inNode vnet)
  fitting : Fitting ni.accepted ni.injected
  balance : ∀ k vnet original, ni.accepted[k]? = some (vnet, original) →
    (ni.served k).flatMap (·.dest.members) ++ leftIn (ni.inNode vnet) k =
      original.getInternalDestination.members

variable {accepted : List (Nat × NetworkMessage cfg.machines)} {ni : NetworkInterface cfg.machines}

variable {queue : List (Pending cfg.machines)}

theorem Known.mono {vnet : Nat}
    (known : Known accepted vnet queue) (more : List (Nat × NetworkMessage cfg.machines)) :
    Known (accepted ++ more) vnet queue := by
  intro p member
  obtain ⟨original, found, size⟩ := known p member
  refine ⟨original, ?_, size⟩
  rw [List.getElem?_append_left (List.getElem?_eq_some_iff.mp found).1]
  exact found

theorem Fitting.mono {injected : List (Injection cfg.machines)}
    (fitting : Fitting accepted injected) (more : List (Nat × NetworkMessage cfg.machines)) :
    Fitting (accepted ++ more) injected := by
  intro r member
  obtain ⟨vnet, original, found, whole⟩ := fitting r member
  refine ⟨vnet, original, ?_, whole⟩
  rw [List.getElem?_append_left (List.getElem?_eq_some_iff.mp found).1]
  exact found

theorem Known.leftIn_eq_nil {vnet k : Nat}
    (known : Known accepted vnet queue) (other : ∀ original, accepted[k]? ≠ some (vnet, original)) :
    leftIn queue k = [] := by
  refine Garnet.leftIn_eq_nil fun p member same => ?_
  obtain ⟨original, found, _⟩ := known p member
  exact other original (same ▸ found)

theorem Accounted.enqueue (acc : Accounted ni) (vnet : Nat) (msg : NetworkMessage cfg.machines) :
    Accounted (ni.enqueue vnet msg) where
  known v := by
    by_cases here : v = vnet
    · subst here
      intro p member
      simp only [NetworkInterface.enqueue, update_self, mem_append, mem_singleton] at member
      obtain member | rfl := member
      · exact (acc.known v).mono _ p member
      · exact ⟨msg, List.getElem?_concat_length, rfl⟩
    · simp only [NetworkInterface.enqueue, update_of_ne here]
      exact (acc.known v).mono _
  fitting := acc.fitting.mono _
  balance := by
    intro k v original found
    simp only [NetworkInterface.enqueue] at found ⊢
    by_cases old : k < ni.accepted.length
    · rw [List.getElem?_append_left old] at found
      rw [← acc.balance k v original found]
      congr 1
      by_cases here : v = vnet
      · subst here
        have different : ¬ ni.accepted.length = k := by omega
        simp [leftIn, different]
      · rw [update_of_ne here]
    · have new : k = ni.accepted.length := by
        have := (List.getElem?_eq_some_iff.mp found).1
        simp only [length_append, length_singleton] at this
        omega
      subst new
      simp only [List.getElem?_concat_length, Option.some.injEq, Prod.mk.injEq] at found
      obtain ⟨rfl, rfl⟩ := found
      have unknown : ∀ original, ni.accepted[ni.accepted.length]? ≠ some (vnet, original) := by
        simp
      have unserved : ni.served ni.accepted.length = [] := by
        refine servedIn_eq_nil fun r member same => ?_
        obtain ⟨_, _, found, _⟩ := acc.fitting r member
        simp [same] at found
      simp only [NetworkInterface.served] at unserved
      simp only [NetworkInterface.served, unserved, update_self, leftIn_append,
        (acc.known vnet).leftIn_eq_nil unknown]
      simp [leftIn, Pending.dests]

theorem Accounted.drainQueue (acc : Accounted ni) (now vnet : Nat) :
    Accounted (drainQueue cfg self now ni vnet) := by
  obtain ⟨⟨queue, after⟩, result⟩ : ∃ r, drain cfg self now vnet (ni.inNode vnet) ni = r :=
    ⟨_, rfl⟩
  obtain ⟨news, drained⟩ := drain_drains result
  obtain ⟨known, fitting⟩ := drained.known (acc.known vnet)
  have eq : NetworkInterface.drainQueue cfg self now ni vnet =
      { after with inNode := Function.update ni.inNode vnet queue } := by
    simp only [NetworkInterface.drainQueue, result, drained.frame.1]
  rw [eq]
  constructor
  · intro v
    dsimp only
    rw [drained.frame.2]
    by_cases here : v = vnet
    · subst here
      rw [update_self]
      exact known
    · rw [update_of_ne here]
      exact acc.known v
  · intro r member
    rw [drained.frame.2]
    rw [drained.injected] at member
    obtain member | member := mem_append.mp member
    · exact acc.fitting r member
    · exact fitting r member
  · intro k v original found
    rw [drained.frame.2] at found
    have before := acc.balance k v original found
    simp only [NetworkInterface.served, drained.injected, servedIn_append, flatMap_append,
      append_assoc] at before ⊢
    by_cases here : v = vnet
    · subst here
      rw [update_self, drained.balance k]
      exact before
    · rw [update_of_ne here]
      have none : servedIn news k = [] := by
        refine servedIn_eq_nil fun r member same => here ?_
        obtain ⟨p, inside, origin⟩ := drained.origin r member
        obtain ⟨_, accepted, _⟩ := acc.known vnet p inside
        rw [origin, same, found] at accepted
        cases accepted
        rfl
      rw [none]
      exact before

theorem Accounted.injectMessages (acc : Accounted ni) (now : Nat) :
    Accounted (injectMessages cfg self now ni) := by
  unfold NetworkInterface.injectMessages
  induction List.range cfg.virtualNetworks generalizing ni with
  | nil => exact acc
  | cons vnet rest ih => exact ih (acc.drainQueue now vnet)

theorem reachable_accounted (reach : Reachable (interface cfg self) ni) : Accounted ni := by
  refine reach.invariant Accounted ?_ ?_
  · rintro ni ⟨queues, accepted, injected⟩
    refine ⟨fun vnet => ?_, ?_, ?_⟩
    · simp [Known, queues]
    · simp [Fitting, injected]
    · simp [accepted]
  · intro ni a next _ _ acc taken
    cases a with
    | enqueue vnet msg =>
      cases taken
      exact acc.enqueue vnet msg
    | injectMessages now =>
      cases taken
      exact acc.injectMessages now
    | environment other =>
      cases taken
      exact ⟨acc.known, acc.fitting, acc.balance⟩

theorem numFlits_eq_ceil (msg : NetworkMessage cfg.machines) :
    numFlits cfg msg = ⌈(msg.size : ℚ) / cfg.niFlitSize⌉₊ := by
  have positive := cfg.flitSize_pos
  refine eq_of_forall_ge_iff fun n => ?_
  have bound : (msg.size : ℚ) / cfg.niFlitSize ≤ n ↔ msg.size ≤ n * cfg.niFlitSize := by
    rw [div_le_iff₀ (by exact_mod_cast positive)]
    exact_mod_cast Iff.rfl
  rw [Nat.ceil_le, bound, numFlits, ← Nat.lt_succ_iff, Nat.div_lt_iff_lt_mul positive, Nat.succ_mul]
  omega

theorem map_dest_eq {numFlits : Nat} {packets : List (Injection cfg.machines)}
    {dests : List (MachineID cfg.machines)} (whole : ∀ r ∈ packets, r.Whole numFlits)
    (all : packets.flatMap (·.dest.members) = dests) : packets.map (·.dest) = dests.map ({·}) := by
  subst all
  induction packets with
  | nil => rfl
  | cons r rest ih =>
    obtain ⟨id, single⟩ := (whole r mem_cons_self).single
    have tail := ih fun r member => whole r (mem_cons_of_mem _ member)
    simp [single, tail]

/-- The packets `news` were made, and their flits put into the buffers of their VCs. -/
structure Places {m : Machines} (ni : NetworkInterface m) (news : List (Injection m))
    (ni' : NetworkInterface m) : Prop where
  injected : ni'.injected = ni.injected ++ news
  buffers : ∀ vc, (ni'.buffers vc).items.Perm
    ((ni.buffers vc).items ++ (news.filter (·.vc = vc)).flatMap (·.flits))

theorem injectMessages_places (ni : NetworkInterface cfg.machines) (now : Nat) :
    ∃ news, Places ni news (injectMessages cfg self now ni) := by
  apply injectMessages_induction (P := fun after => ∃ news, Places ni news after)
  · rintro after vnet ⟨news, places⟩
    exact ⟨news, places.injected, places.buffers⟩
  · rintro after queues ⟨news, places⟩
    exact ⟨news, places.injected, places.buffers⟩
  · rintro after vnet vc n origin clone ⟨news, places⟩ - -
    refine ⟨news ++ [packet self now vnet vc n origin after.clones clone], ?_, fun vc' => ?_⟩
    · rw [inject, places.injected, append_assoc]
    · rw [filter_append, flatMap_append, ← append_assoc]
      by_cases here : vc' = vc
      · subst here
        simpa [inject, packet] using (PriorityQueue.foldl_insert_perm _ _).trans
          ((places.buffers vc').append_right _)
      · simpa [inject, packet, here, Ne.symm here] using places.buffers vc'
  · exact ⟨[], by simp, by simp⟩

/-- A message that has left its queue has become exactly one packet for each of its destinations,
cut into flits that are numbered through; and a wakeup puts the flits of the packets that it makes
into the buffers of their VCs. -/
theorem multicast_exactly_once {ni : NetworkInterface cfg.machines}
    (reach : Reachable (interface cfg self) ni) {k vnet : Nat}
    {original : NetworkMessage cfg.machines} (accepted : ni.accepted[k]? = some (vnet, original))
    (gone : ∀ p ∈ ni.inNode vnet, p.origin ≠ k) :
    ((∀ id, ((ni.served k).map (·.dest)).count {id} =
        if id ∈ original.getInternalDestination then 1 else 0) ∧
      ∀ r ∈ ni.served k, (∃ id ∈ original.getInternalDestination, r.dest = {id}) ∧
        r.flits.map Flit.id = List.range ⌈(original.size : ℚ) / cfg.niFlitSize⌉₊ ∧
        ∀ f ∈ r.flits, f.vc = r.vc ∧ f.msg.message = r.clone) ∧
    ∀ now, ∃ news, Places ni news (injectMessages cfg self now ni) := by
  refine ⟨?_, injectMessages_places ni⟩
  have acc := reachable_accounted reach
  have balance := acc.balance k vnet original accepted
  rw [leftIn_eq_nil gone, append_nil] at balance
  have whole : ∀ r ∈ ni.served k, r.Whole (numFlits cfg original) := by
    intro r member
    obtain ⟨inside, origin⟩ := mem_filter.mp member
    obtain ⟨vnet', original', found, whole⟩ := acc.fitting r inside
    rw [of_decide_eq_true origin, accepted] at found
    cases found
    exact whole
  have dests := map_dest_eq whole balance
  refine ⟨fun id => ?_, fun r member => ⟨?_, ?_, ?_⟩⟩
  · rw [dests, count_map_of_injective _ _ Finset.singleton_injective]
    split
    · rename_i inside
      exact count_eq_one_of_mem (nodup_members _) (NetDest.mem_members.mpr inside)
    · rename_i outside
      exact count_eq_zero_of_not_mem fun inside => outside (NetDest.mem_members.mp inside)
  · have inside := mem_map_of_mem (f := fun r => r.dest) member
    rw [dests] at inside
    obtain ⟨id, target, same⟩ := mem_map.mp inside
    exact ⟨id, NetDest.mem_members.mp target, same.symm⟩
  · rw [← numFlits_eq_ceil]
    exact (whole r member).numbered
  · intro f inside
    obtain ⟨vc, _, message⟩ := (whole r member).carried f inside
    exact ⟨vc, message⟩

end Runs

def twoNodes : Machines where
  numTypes := 1
  count _ := 2

def oneVc : Config where
  machines := twoNodes
  virtualNetworks := 1
  vcPerVnet := 1
  inUse _ := true
  ordered _ := false
  dataVnet _ := false
  buffersPerDataVC := 1
  buffersPerCtrlVC := 1
  niFlitSize := 4
  numInports _ := 1
  numOutports _ := 1
  routingTable _ := []
  linkLatency _ := 1
  creditLatency _ := 1
  upstream := id
  upstream_injective := injective_id
  vcPerVnet_pos := Nat.one_pos
  flitSize_pos := by decide
  buffers_pos := ⟨Nat.one_pos, Nat.one_pos⟩

def idleInterface (m : Machines) : NetworkInterface m where
  vcAllocator _ := 0
  vcRoundRobin := 0
  buffers _ := .empty
  enqueueTime _ := infinite
  outVc _ := { state := .idle, time := 0, inPort := 0, inVc := 0, creditCount := 1 }
  inNode _ := []
  outNode _ := []
  clones := 0
  accepted := []
  injected := []

def bothNodes : NetworkMessage oneVc.machines where
  destination := {⟨⟨0, by decide⟩, ⟨0, by decide⟩⟩, ⟨⟨0, by decide⟩, ⟨1, by decide⟩⟩}
  internalDest := none
  size := 5

def toBoth : List (InterfaceAction oneVc.machines) :=
  [.enqueue 0 bothNodes, .injectMessages 0, .environment (idleInterface _), .injectMessages 9]

theorem multicast_exactly_once_toBoth :
    ∃ ni, Reachable (interface oneVc 0) ni ∧ ∀ id, ((ni.served 0).map (·.dest)).count {id} =
      if id ∈ bothNodes.getInternalDestination then 1 else 0 := by
  have check : (toBoth.foldlM (NetworkInterface.perform oneVc 0)
      (idleInterface _)).toOption.any (fun ni => (ni.inNode 0).isEmpty &&
        decide (ni.accepted = [(0, bothNodes)])) = true := by decide +kernel
  obtain ⟨ni, reach, checked⟩ := foldlM_check NetworkInterface.Fresh (fun _ _ _ => trivial)
    ⟨fun _ => rfl, rfl, rfl⟩ check
  obtain ⟨empty, accepted⟩ := Bool.and_eq_true_iff.mp checked
  have first : ni.accepted[0]? = some (0, bothNodes) := by rw [of_decide_eq_true accepted]; rfl
  refine ⟨ni, reach, (multicast_exactly_once reach first ?_).1.1⟩
  simp [List.isEmpty_iff.mp empty]

end SynchroTrace.Garnet
