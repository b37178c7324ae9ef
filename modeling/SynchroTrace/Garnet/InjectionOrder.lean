import SynchroTrace.Garnet.FlitsInFlight
import SynchroTrace.Garnet.Multicast

/-!
The order in which an interface sends the packets of an ordered virtual network. A packet waits for
those that were put into buffers in earlier cycles, but not for those of its own cycle.
-/

namespace SynchroTrace.Garnet
open Function (update update_of_ne update_self)
open Transition NetworkInterface List PriorityQueue Nat

variable {cfg : Config} {ni : NetworkInterface cfg.machines}

theorem niWakeup_others {n k : Nat} (other : k ≠ n) (s : NetState cfg) :
    (niWakeup n s).ni k = s.ni k := by
  have send : ∀ s : NetState cfg, (niSend n s).ni k = s.ni k := by
    intro s
    unfold niSend
    dsimp only
    split <;> simp [other]
  have receive : ∀ s : NetState cfg, (niReceive n s).ni k = s.ni k := by
    intro s
    unfold niReceive
    dsimp only
    split
    · rfl
    · simp [NetState.returnCredit, other]
  have credit : ∀ s : NetState cfg, (niCredit n s).ni k = s.ni k := by
    intro s
    unfold niCredit
    dsimp only
    split
    · rfl
    · simp [other]
  unfold niWakeup
  rw [credit, receive, send]
  simp [niInject, other]

/-- On an ordered virtual network no VC with flits has waited longer than the one that is picked. -/
theorem isCandidateVc_le {now vc other : Nat}
    (candidate : isCandidateVc cfg now vc ni = true) (ordered : cfg.ordered (cfg.vnetOf vc) = true)
    (same : cfg.vnetOf other = cfg.vnetOf vc) (ready : ((ni.buffers other).ready? now).isSome) :
    ni.enqueueTime vc ≤ ni.enqueueTime other := by
  have offset : cfg.vnetOf vc * cfg.vcPerVnet + other % cfg.vcPerVnet = other := by
    rw [← same]
    exact div_add_mod' other cfg.vcPerVnet
  simp only [isCandidateVc, ordered, Bool.not_true, Bool.false_or, all_eq_true,
    mem_range] at candidate
  have test := candidate (other % cfg.vcPerVnet) (mod_lt _ cfg.vcPerVnet_pos)
  rw [offset] at test
  simpa [ready] using test

/-- What `scheduleOutputLink` does, if it sends a flit. -/
structure Scheduled (now w : Nat) (f : Flit cfg.machines) (ni ni' : NetworkInterface cfg.machines) :
    Prop where
  items : (ni.buffers w).items = f :: (ni.buffers w).items.tail
  candidate : isCandidateVc cfg now w ni = true
  buffers : ni'.buffers = update ni.buffers w (ni.buffers w).pop
  enqueueTime : ni'.enqueueTime = if f.isTail then update ni.enqueueTime w infinite
    else ni.enqueueTime
  rest : ni'.vcAllocator = ni.vcAllocator ∧ ni'.clones = ni.clones ∧ ni'.injected = ni.injected

theorem scheduleOutputLink_some {now : Nat}
    {g : Flit cfg.machines} (h : (ni.scheduleOutputLink cfg now).1 = some g) :
    ∃ w f, g = { f with time := now + 1 } ∧
      Scheduled now w f ni (ni.scheduleOutputLink cfg now).2 := by
  unfold scheduleOutputLink at h ⊢
  dsimp only at h ⊢
  split at h
  · cases h
  · rename_i w picked
    have test := RoundRobin.search_test picked
    simp only [Bool.and_eq_true, Option.isSome_iff_exists] at test
    obtain ⟨⟨⟨f, ready⟩, -⟩, candidate⟩ := test
    obtain ⟨items, -⟩ := FlitBuffer.ready?_some ready
    have front : (ni.buffers w).items.head? = some f := by rw [items]; rfl
    simp only [NetworkInterface.sendFlit, front, Option.some.injEq] at h ⊢
    exact ⟨w, f, h.symm, items, candidate, rfl, rfl, rfl, rfl, rfl⟩

theorem scheduleOutputLink_none {now : Nat} (h : (ni.scheduleOutputLink cfg now).1 = none) :
    (ni.scheduleOutputLink cfg now).2 = { ni with vcRoundRobin := nextVc cfg ni.vcRoundRobin } := by
  unfold scheduleOutputLink at h ⊢
  dsimp only at h ⊢
  split at h
  · rfl
  · rename_i w picked
    have test := RoundRobin.search_test picked
    simp only [Bool.and_eq_true, Option.isSome_iff_exists] at test
    obtain ⟨⟨⟨f, ready⟩, -⟩, -⟩ := test
    have front : (ni.buffers w).items.head? = some f := by
      rw [(FlitBuffer.ready?_some ready).1]
      rfl
    simp [NetworkInterface.sendFlit, front] at h

/-- The flits that an interface has made wait in the buffers of their VCs, with the time of their
VC, until they are sent. -/
structure Lined (now : Nat) (ni : NetworkInterface cfg.machines) (sent : List (Flit cfg.machines)) :
    Prop where
  allocator : ∀ vnet, ni.vcAllocator vnet < cfg.vcPerVnet
  serials : ∀ r ∈ ni.injected, ∀ f ∈ r.flits, f.msg.serial < ni.clones
  sentSerials : ∀ f ∈ sent, f.msg.serial < ni.clones
  made : ∀ r ∈ ni.injected, ∀ f ∈ r.flits, f.vc = r.vc ∧ cfg.vnetOf f.vc = f.vnet ∧ f.time ≤ now
  unique : ∀ r ∈ ni.injected, ∀ r' ∈ ni.injected, ∀ f ∈ r.flits, ∀ f' ∈ r'.flits,
    f.piece = f'.piece → f = f'
  buffered : ∀ vc, ∀ f ∈ (ni.buffers vc).items,
    (∃ r ∈ ni.injected, f ∈ r.flits) ∧ f.vc = vc ∧ f.time = ni.enqueueTime vc
  unsent : ∀ r ∈ ni.injected, ∀ f ∈ r.flits,
    f.piece ∈ sent.map Flit.piece ∨ f ∈ (ni.buffers f.vc).items

section Lined
variable {now : Nat} {ni ni' : NetworkInterface cfg.machines} {sent : List (Flit cfg.machines)}

theorem Lined.later (h : Lined now ni sent) {later : Nat} (le : now ≤ later) :
    Lined later ni sent :=
  { h with made := fun r member f inside =>
      let ⟨vc, vnet, time⟩ := h.made r member f inside
      ⟨vc, vnet, time.trans le⟩ }

structure SameQueues {m : Machines} (ni ni' : NetworkInterface m) : Prop where
  vcAllocator : ni'.vcAllocator = ni.vcAllocator
  clones : ni'.clones = ni.clones
  injected : ni'.injected = ni.injected
  buffers : ni'.buffers = ni.buffers
  enqueueTime : ni'.enqueueTime = ni.enqueueTime

theorem SameQueues.trans {m : Machines} {ni ni' ni'' : NetworkInterface m} (h : SameQueues ni ni')
    (h' : SameQueues ni' ni'') : SameQueues ni ni'' :=
  ⟨h'.vcAllocator.trans h.vcAllocator, h'.clones.trans h.clones, h'.injected.trans h.injected,
    h'.buffers.trans h.buffers, h'.enqueueTime.trans h.enqueueTime⟩

theorem Lined.congr (h : Lined now ni sent) (same : SameQueues ni ni') : Lined now ni' sent := by
  obtain ⟨h₁, h₂, h₃, h₄, h₅, h₆, h₇⟩ := h
  refine ⟨?_, ?_, ?_, ?_, ?_, ?_, ?_⟩
  · rwa [same.vcAllocator]
  · rwa [same.injected, same.clones]
  · rwa [same.clones]
  · rwa [same.injected]
  · rwa [same.injected]
  · rwa [same.buffers, same.injected, same.enqueueTime]
  · rwa [same.injected, same.buffers]

theorem mem_makeFlits {m : Machines} {now vnet vc numFlits : Nat} {msg : MsgPtr m} {f : Flit m}
    (h : f ∈ makeFlits now vnet vc numFlits msg) :
    ∃ i < numFlits, f = ⟨i, vc, vnet, numFlits, msg, now, 0, .i, now⟩ := by
  obtain ⟨i, member, rfl⟩ := mem_map.mp h
  exact ⟨i, mem_range.mp member, rfl⟩

theorem Lined.inject (h : Lined now ni sent) {self vnet vc numFlits origin : Nat}
    {clone : NetworkMessage cfg.machines} (empty : (ni.buffers vc).items = [])
    (vnet_eq : cfg.vnetOf vc = vnet) :
    Lined now (ni.inject self now vnet vc numFlits origin clone) sent := by
  generalize msg_eq : MsgPtr.mk self ni.clones clone = msg
  have serial : msg.serial = ni.clones := by rw [← msg_eq]
  have flits : (packet self now vnet vc numFlits origin ni.clones clone).flits =
      makeFlits now vnet vc numFlits msg := by rw [← msg_eq]; rfl
  have placed := foldl_insert_items (ni.buffers vc)
    (makeFlits_ordered now vnet vc numFlits msg) (by simp [empty])
  rw [empty, nil_append] at placed
  have injected : (ni.inject self now vnet vc numFlits origin clone).injected =
      ni.injected ++ [packet self now vnet vc numFlits origin ni.clones clone] := rfl
  have buffers : ∀ other, ((ni.inject self now vnet vc numFlits origin clone).buffers other).items =
      if other = vc then makeFlits now vnet vc numFlits msg else (ni.buffers other).items := by
    intro other
    by_cases here : other = vc
    · subst here
      simp only [NetworkInterface.inject, update_self, flits, if_true]
      exact placed
    · simp [NetworkInterface.inject, here]
  have enqueueTime : ∀ other, (ni.inject self now vnet vc numFlits origin clone).enqueueTime other =
      if other = vc then now else ni.enqueueTime other := by
    intro other
    by_cases here : other = vc <;> simp [NetworkInterface.inject, here]
  -- a flit is new, with the serial number of its own, or was made before
  have cases' : ∀ r ∈ (ni.inject self now vnet vc numFlits origin clone).injected, ∀ f ∈ r.flits,
      r ∈ ni.injected ∨ r.vc = vc ∧ f ∈ makeFlits now vnet vc numFlits msg := by
    intro r member f inside
    rw [injected, mem_append, mem_singleton] at member
    obtain old | rfl := member
    · exact .inl old
    · exact .inr ⟨rfl, flits ▸ inside⟩
  refine ⟨h.allocator, ?_, fun f member => lt_succ_of_lt (h.sentSerials f member), ?_, ?_, ?_, ?_⟩
  · intro r member f inside
    obtain old | ⟨-, new⟩ := cases' r member f inside
    · exact lt_succ_of_lt (h.serials r old f inside)
    · obtain ⟨i, -, rfl⟩ := mem_makeFlits new
      exact serial ▸ lt_succ_self _
  · intro r member f inside
    obtain old | ⟨own, new⟩ := cases' r member f inside
    · exact h.made r old f inside
    · obtain ⟨i, -, rfl⟩ := mem_makeFlits new
      exact ⟨own.symm, vnet_eq, le_rfl⟩
  · intro r member r' member' f inside f' inside' same
    obtain old | ⟨-, new⟩ := cases' r member f inside <;>
      obtain old' | ⟨-, new'⟩ := cases' r' member' f' inside'
    · exact h.unique r old r' old' f inside f' inside' same
    · obtain ⟨i, -, rfl⟩ := mem_makeFlits new'
      have less := h.serials r old f inside
      have : f.msg.serial = msg.serial := congrArg (·.1.2) same
      omega
    · obtain ⟨i, -, rfl⟩ := mem_makeFlits new
      have less := h.serials r' old' f' inside'
      have : msg.serial = f'.msg.serial := congrArg (·.1.2) same
      omega
    · obtain ⟨i, -, rfl⟩ := mem_makeFlits new
      obtain ⟨i', -, rfl⟩ := mem_makeFlits new'
      obtain rfl : i = i' := congrArg (·.2.2) same
      rfl
  · intro other f member
    rw [buffers] at member
    rw [enqueueTime]
    split_ifs at member ⊢ with here
    · refine ⟨⟨_, injected ▸ mem_append_right _ mem_cons_self, flits ▸ member⟩, ?_⟩
      obtain ⟨i, -, rfl⟩ := mem_makeFlits member
      exact ⟨here.symm, rfl⟩
    · obtain ⟨⟨r, old, inside⟩, rest⟩ := h.buffered other f member
      exact ⟨⟨r, injected ▸ mem_append_left _ old, inside⟩, rest⟩
  · intro r member f inside
    rw [buffers]
    obtain old | ⟨-, new⟩ := cases' r member f inside
    · obtain sent | waiting := h.unsent r old f inside
      · exact .inl sent
      · refine .inr ?_
        rw [if_neg]
        · exact waiting
        · intro here
          rw [here, empty] at waiting
          cases waiting
    · refine .inr ?_
      have own : f.vc = vc := by
        obtain ⟨i, -, rfl⟩ := mem_makeFlits new
        rfl
      rwa [if_pos own]

theorem Lined.send (h : Lined now ni sent) {w : Nat} {f : Flit cfg.machines}
    (scheduled : Scheduled now w f ni ni') (last : f.isTail = true → (ni.buffers w).items.tail =
      []) :
    Lined now ni' (sent ++ [{ f with time := now + 1 }]) := by
  obtain ⟨allocator, clones, injected⟩ := scheduled.rest
  have member : f ∈ (ni.buffers w).items := by
    rw [scheduled.items]
    exact mem_cons_self
  obtain ⟨⟨own, made, inside⟩, vc, -⟩ := h.buffered w f member
  refine ⟨?_, ?_, ?_, ?_, ?_, ?_, ?_⟩
  · rw [allocator]
    exact h.allocator
  · rw [injected, clones]
    exact h.serials
  · rw [clones]
    intro g member
    obtain member | rfl := by simpa using member
    · exact h.sentSerials g member
    · exact h.serials own made f inside
  · rw [injected]
    exact h.made
  · rw [injected]
    exact h.unique
  · rw [injected, scheduled.buffers, scheduled.enqueueTime]
    intro other g member
    by_cases here : other = w
    · subst here
      simp only [update_self, pop_items] at member
      -- the time of the VC stays until the tail has left
      have body : ¬ f.isTail = true := fun tail => by
        rw [last tail] at member
        cases member
      rw [if_neg body]
      exact h.buffered other g (mem_of_mem_tail member)
    · simp only [update_of_ne here] at member
      have same : (if f.isTail = true then update ni.enqueueTime w infinite
          else ni.enqueueTime) other = ni.enqueueTime other := by
        split_ifs
        · exact update_of_ne here ..
        · rfl
      rw [same]
      exact h.buffered other g member
  · rw [injected, scheduled.buffers]
    intro r member g inside
    rw [map_append, mem_append]
    obtain sent | waiting := h.unsent r member g inside
    · exact .inl (.inl sent)
    · by_cases here : g.vc = w
      · rw [here, scheduled.items, mem_cons] at waiting
        obtain rfl | waiting := waiting
        · exact .inl (.inr (by simp [Flit.piece]))
        · refine .inr ?_
          rw [here, update_self, pop_items]
          exact waiting
      · exact .inr (by rwa [update_of_ne here])

/-- Packets of different messages on one ordered virtual network are from different cycles. -/
def Apart (cfg : Config) (injected : List (Injection cfg.machines)) : Prop :=
  injected.Pairwise fun r r' => r.origin ≠ r'.origin → ∀ f ∈ r.flits, ∀ f' ∈ r'.flits,
    f.vnet = f'.vnet → cfg.ordered f.vnet = true → f.time < f'.time

/-- Wherever the head of a later message of an ordered virtual network has been sent, so has that of
an earlier one. -/
def InOrder (cfg : Config) (injected : List (Injection cfg.machines))
    (sent : List (Flit cfg.machines)) : Prop :=
  injected.Pairwise fun r r' => r.origin ≠ r'.origin → ∀ h ∈ r.flits.head?, ∀ h' ∈ r'.flits.head?,
    h.vnet = h'.vnet → cfg.ordered h.vnet = true →
    ∀ flits, flits <+: sent → h'.piece ∈ flits.map Flit.piece → h.piece ∈ flits.map Flit.piece

theorem Lined.no_earlier (h : Lined now ni sent) {w : Nat} {f g : Flit cfg.machines}
    (scheduled : Scheduled now w f ni ni') {r : Injection cfg.machines} (member : r ∈ ni.injected)
    (inside : g ∈ r.flits) (vnet : g.vnet = f.vnet) (ordered : cfg.ordered f.vnet = true)
    (earlier : g.time < f.time) : g.piece ∈ sent.map Flit.piece := by
  obtain sent | waiting := h.unsent r member g inside
  · exact sent
  · exfalso
    have front : f ∈ (ni.buffers w).items := by
      rw [scheduled.items]
      exact mem_cons_self
    obtain ⟨⟨own, made, inside'⟩, vc, time⟩ := h.buffered w f front
    obtain ⟨-, ofVnet, -⟩ := h.made own made f inside'
    obtain ⟨-, ofVnet', due⟩ := h.made r member g inside
    have ready : ((ni.buffers g.vc).ready? now).isSome := by
      obtain ⟨top, rest, items⟩ := exists_cons_of_ne_nil (ne_nil_of_mem waiting)
      have first := (h.buffered g.vc top (by rw [items]; exact mem_cons_self)).2.2
      have same := (h.buffered g.vc g waiting).2.2
      have le : top.time ≤ now := by omega
      simp [FlitBuffer.ready?, items, Option.filter, le]
    have waited := isCandidateVc_le scheduled.candidate (by rw [← vc, ofVnet]; exact ordered)
      (show cfg.vnetOf g.vc = cfg.vnetOf w by rw [ofVnet', vnet, ← ofVnet, vc]) ready
    have := (h.buffered g.vc g waiting).2.2
    omega

theorem InOrder.send (order : InOrder cfg ni.injected sent) (h : Lined now ni sent)
    (apart : Apart cfg ni.injected) {w : Nat} {f : Flit cfg.machines}
    (scheduled : Scheduled now w f ni ni') :
    InOrder cfg ni.injected (sent ++ [{ f with time := now + 1 }]) := by
  have front : f ∈ (ni.buffers w).items := by
    rw [scheduled.items]
    exact mem_cons_self
  obtain ⟨⟨own, made, inside⟩, -⟩ := h.buffered w f front
  refine (order.and apart).imp_of_mem ?_
  intro r r' member member' both different first head first' head' vnet ordered flits upTo later
  obtain ⟨order, apart⟩ := both
  have earlier := order different first head first' head' vnet ordered
  rw [prefix_concat_iff] at upTo
  obtain rfl | upTo := upTo
  · rw [map_append, mem_append] at later ⊢
    refine .inl ?_
    obtain later | now := later
    · exact earlier sent (prefix_refl _) later
    · have inside' := List.mem_of_head? (Option.mem_def.mp head')
      have same : first' = f := h.unique r' member' own made first' inside' f inside
        (by simpa [Flit.piece] using now)
      subst same
      have before := List.mem_of_head? (Option.mem_def.mp head)
      exact h.no_earlier scheduled member before vnet (vnet ▸ ordered)
        (apart different first before first' inside' vnet ordered)
  · exact earlier flits upTo later

structure Adds (now : Nat) (ni : NetworkInterface cfg.machines) (sent : List (Flit cfg.machines))
    (ni' : NetworkInterface cfg.machines) : Prop where
  lined : Lined now ni' sent
  empty : ∀ vc, (ni'.outVc vc).state = .idle → (ni'.buffers vc).items = []
  clones : ni.clones ≤ ni'.clones
  news : ∃ news, ni'.injected = ni.injected ++ news ∧ ∀ r ∈ news, ∀ f ∈ r.flits,
    f.time = now ∧ ni.clones ≤ f.msg.serial

theorem adds_injectMessages (h : Lined now ni sent)
    (empty : ∀ vc, (ni.outVc vc).state = .idle → (ni.buffers vc).items = []) (self : Nat) :
    Adds now ni sent (injectMessages cfg self now ni) := by
  refine injectMessages_induction cfg (P := Adds now ni sent) ?_ ?_ ?_
    ⟨h, empty, le_rfl, [], by simp, by simp⟩
  · intro ni' vnet adds
    refine ⟨⟨fun other => ?_, adds.lined.serials, adds.lined.sentSerials, adds.lined.made,
      adds.lined.unique, adds.lined.buffered, adds.lined.unsent⟩, adds.empty, adds.clones, adds.news⟩
    have bound := adds.lined.allocator
    by_cases here : other = vnet
    · subst here
      simp only [nextAllocator, update_self]
      have := bound other
      split_ifs
      · exact cfg.vcPerVnet_pos
      · omega
    · simpa [nextAllocator, here] using bound other
  · exact fun ni' queues adds =>
      ⟨adds.lined.congr ⟨rfl, rfl, rfl, rfl, rfl⟩, adds.empty, adds.clones, adds.news⟩
  · rintro ni' vnet vc numFlits origin clone adds idle ⟨earlier, before, rfl⟩
    have vnet_eq : cfg.vnetOf (vnet * cfg.vcPerVnet + earlier.vcAllocator vnet) = vnet := by
      unfold Config.vnetOf
      rw [Nat.add_comm, add_mul_div_right _ _ cfg.vcPerVnet_pos,
        div_eq_of_lt (before.lined.allocator vnet), Nat.zero_add]
    generalize vnet * cfg.vcPerVnet + earlier.vcAllocator vnet = vc at idle vnet_eq
    refine ⟨adds.lined.inject (adds.empty vc idle) vnet_eq, ?_, le_succ_of_le adds.clones, ?_⟩
    · intro other idle'
      by_cases here : other = vc
      · subst here
        simp [NetworkInterface.inject] at idle'
      · simp only [NetworkInterface.inject, update_of_ne here] at idle' ⊢
        exact adds.empty other idle'
    · obtain ⟨news, injected, fresh⟩ := adds.news
      refine ⟨news ++ [packet self now vnet vc numFlits origin ni'.clones clone], ?_, ?_⟩
      · simp [NetworkInterface.inject, injected]
      · intro r member f inside
        obtain member | rfl := by simpa using member
        · exact fresh r member f inside
        · obtain ⟨i, -, rfl⟩ := mem_makeFlits inside
          exact ⟨rfl, adds.clones⟩

theorem Apart.adds (apart : Apart cfg ni.injected) (adds : Adds now ni sent ni')
    (single : ∀ r ∈ ni'.injected, ∀ r' ∈ ni'.injected, ∀ f ∈ r.flits, ∀ f' ∈ r'.flits, f.time =
      now → f'.time = now → f.vnet = f'.vnet → cfg.ordered f.vnet = true → r.origin = r'.origin) :
    Apart cfg ni'.injected := by
  obtain ⟨news, injected, fresh⟩ := adds.news
  have late : ∀ r ∈ ni'.injected, ∀ r' ∈ news, r.origin ≠ r'.origin → ∀ f ∈ r.flits,
      ∀ f' ∈ r'.flits, f.vnet = f'.vnet → cfg.ordered f.vnet = true → f.time < f'.time := by
    intro r member r' member' different f inside f' inside' vnet ordered
    have time := (fresh r' member' f' inside').1
    have due := (adds.lined.made r member f inside).2.2
    have new : r' ∈ ni'.injected := injected ▸ mem_append_right _ member'
    have other : f.time ≠ now := fun same =>
      different (single r member r' new f inside f' inside' same time vnet ordered)
    omega
  unfold Apart
  rw [injected] at late ⊢
  refine pairwise_append.mpr ⟨apart, ?_, ?_⟩
  · exact pairwise_of_forall_mem_list fun r member r' member' =>
      late r (mem_append_right _ member) r' member'
  · exact fun r member r' member' => late r (mem_append_left _ member) r' member'

theorem InOrder.adds (order : InOrder cfg ni.injected sent) (adds : Adds now ni sent ni')
    (before : Lined now ni sent) : InOrder cfg ni'.injected sent := by
  obtain ⟨news, injected, fresh⟩ := adds.news
  have unsent : ∀ r' ∈ news, ∀ h' ∈ r'.flits.head?, ∀ flits, flits <+: sent →
      h'.piece ∉ flits.map Flit.piece := by
    intro r' member' h' head' flits upTo later
    obtain ⟨f, inside, same⟩ := mem_map.mp later
    have old := before.sentSerials f (upTo.subset inside)
    have new := (fresh r' member' h' (List.mem_of_head? (Option.mem_def.mp head'))).2
    have : f.msg.serial = h'.msg.serial := congrArg (·.1.2) same
    omega
  unfold InOrder
  rw [injected]
  refine pairwise_append.mpr ⟨order, ?_, ?_⟩
  · exact pairwise_of_forall_mem_list fun r _ r' member' _ h _ h' head' _ _ flits upTo later =>
      absurd later (unsent r' member' h' head' flits upTo)
  · exact fun r _ r' member' _ h _ h' head' _ _ flits upTo later =>
      absurd later (unsent r' member' h' head' flits upTo)

end Lined

section Sound
variable {s : NetState cfg} {G : Channels}

theorem Sound.idle_empty (sound : Sound s G) (n vc : Nat)
    (idle : ((s.ni n).outVc vc).state = .idle) : ((s.ni n).buffers vc).items = [] := by
  have valid := sound.valid (.ni n) vc
  have unsent := sound.interfaces.unsent n vc
  have := valid.idle (busy_eq_false (sound.carries (.ni n) vc) idle)
  have := valid.taken_le
  have := valid.arrived_le
  have := valid.sent_le
  rwa [Channel.segment_eq_nil_iff.mpr (by omega), map_eq_nil_iff] at unsent

theorem Sound.tail_last (sound : Sound s G) {n vc : Nat} {f : Flit cfg.machines}
    {rest : List (Flit cfg.machines)} (items : ((s.ni n).buffers vc).items = f :: rest)
    (tail : f.isTail = true) : rest = [] := by
  have unsent := sound.interfaces.unsent n vc
  rw [items, map_cons] at unsent
  obtain ⟨less, piece, others⟩ := Channel.cons_eq_segment unsent
  have size : f.size = (G (.ni n, vc)).size := congrArg (·.2.1) piece
  have id : f.id = (G (.ni n, vc)).sent := congrArg (·.2.2) piece
  rw [Flit.isTail_iff (by omega)] at tail
  rwa [Channel.segment_eq_nil_iff.mpr (by omega), map_eq_nil_iff] at others

end Sound

namespace Monitor
variable {M M' : Monitor cfg}

/-- An interface puts no two messages of an ordered virtual network into its buffers in one cycle.
-/
def OneAtATime (M : Monitor cfg) : MonitorAction cfg.machines → Prop
  | .network (.niWakeup n) =>
    ∀ r ∈ ((niInject n M.net).ni n).injected, ∀ r' ∈ ((niInject n M.net).ni n).injected,
      ∀ f ∈ r.flits, ∀ f' ∈ r'.flits, f.time = M.net.time → f'.time = M.net.time →
        f.vnet = f'.vnet → cfg.ordered f.vnet = true → r.origin = r'.origin
  | _ => True

structure Ordered (now : Nat) (ni : NetworkInterface cfg.machines)
    (sent : List (Flit cfg.machines)) : Prop where
  lined : Lined now ni sent
  apart : Apart cfg ni.injected
  inOrder : InOrder cfg ni.injected sent

variable {sent : List (Flit cfg.machines)}

theorem Ordered.congr {now later : Nat} {ni ni' : NetworkInterface cfg.machines}
    (h : Ordered now ni sent) (le : now ≤ later)
    (same : SameQueues ni ni') : Ordered later ni' sent where
  lined := (h.lined.later le).congr same
  apart := same.injected ▸ h.apart
  inOrder := same.injected ▸ h.inOrder

theorem niWakeup_queues (n : Nat) (s : NetState cfg) :
    SameQueues (((niInject n s).ni n).scheduleOutputLink cfg s.time).2 ((niWakeup n s).ni n) := by
  have send : (niSend n (niInject n s)).ni n =
      (((niInject n s).ni n).scheduleOutputLink cfg s.time).2 := by
    unfold niSend
    dsimp only
    split
    · exact setNi_self ..
    · simp [niInject]
  have receive : ∀ s : NetState cfg, SameQueues (s.ni n) ((niReceive n s).ni n) := by
    intro s
    unfold niReceive
    dsimp only
    split
    · exact ⟨rfl, rfl, rfl, rfl, rfl⟩
    · rename_i f _
      have same : SameQueues (s.ni n) ((s.ni n).receive f) := by
        unfold NetworkInterface.receive
        split <;> exact ⟨rfl, rfl, rfl, rfl, rfl⟩
      simpa [NetState.returnCredit] using same
  have credit : ∀ s : NetState cfg, SameQueues (s.ni n) ((niCredit n s).ni n) := by
    intro s
    unfold niCredit
    dsimp only
    split
    · exact ⟨rfl, rfl, rfl, rfl, rfl⟩
    · rename_i c _
      have same : SameQueues (s.ni n) ((s.ni n).receiveCredit s.time c) :=
        ⟨rfl, rfl, rfl, rfl, rfl⟩
      simpa using same
  rw [← send]
  exact (receive _).trans (credit _)

theorem Ordered.wakeup {s : NetState cfg} {G : Channels} {n : Nat} (sound : Sound s G)
    (before : Ordered s.time (s.ni n) sent)
    (single : ∀ r ∈ ((niInject n s).ni n).injected, ∀ r' ∈ ((niInject n s).ni n).injected,
      ∀ f ∈ r.flits, ∀ f' ∈ r'.flits, f.time = s.time → f'.time = s.time → f.vnet = f'.vnet →
      cfg.ordered f.vnet = true → r.origin = r'.origin) :
    Ordered s.time ((niWakeup n s).ni n) (sent ++ (sentBy n s).toList) := by
  have inject : (niInject n s).ni n = injectMessages cfg n s.time (s.ni n) := setNi_self ..
  have adds := adds_injectMessages before.lined (sound.idle_empty n) n
  rw [← inject] at adds
  have apart := before.apart.adds adds single
  have inOrder := before.inOrder.adds adds before.lined
  refine Ordered.congr ?_ le_rfl (niWakeup_queues n s)
  obtain ⟨_, injected⟩ := sound.niInject n
  match picked : sentBy n s with
  | none =>
    rw [scheduleOutputLink_none picked, Option.toList_none, append_nil]
    exact Ordered.congr ⟨adds.lined, apart, inOrder⟩ le_rfl ⟨rfl, rfl, rfl, rfl, rfl⟩
  | some g =>
    obtain ⟨w, f, rfl, scheduled⟩ := scheduleOutputLink_some picked
    have last := injected.tail_last scheduled.items
    have same := scheduled.rest.2.2
    refine ⟨adds.lined.send scheduled last, ?_, ?_⟩
    · rw [same]
      exact apart
    · rw [same]
      exact inOrder.send adds.lined apart scheduled

theorem reachable_ordered (reach : ReachableVia (monitored cfg) OneAtATime M) (k : Nat) :
    Ordered M.net.time (M.net.ni k) (M.sent k) := by
  refine reach.invariant (fun M => ∀ k, Ordered M.net.time (M.net.ni k) (M.sent k)) ?_ ?_ k
  · intro M initial k
    have built := initial.interfaces k
    have empty : ∀ vc, ((M.net.ni k).buffers vc).items = [] :=
      fun vc => ((initial.net.ni k).1 vc).2.2
    rw [initial.sent]
    refine ⟨⟨?_, ?_, by simp, ?_, ?_, ?_, ?_⟩, ?_, ?_⟩
    · intro vnet
      rw [built.vcAllocator]
      exact cfg.vcPerVnet_pos
    · simp [built.injected]
    · simp [built.injected]
    · simp [built.injected]
    · simp [empty]
    · simp [built.injected]
    · simp [Apart, built.injected]
    · simp [InOrder, built.injected]
  · intro M action M' reach single before step k
    obtain ⟨G, sound⟩ := reachable_sound (reachable_net reach.reachable)
    cases perform_step step with
    | tick => exact (before k).congr (le_succ _) ⟨rfl, rfl, rfl, rfl, rfl⟩
    | message n vnet msg =>
      refine (before k).congr le_rfl ?_
      by_cases here : k = n
      · subst here
        simpa using (⟨rfl, rfl, rfl, rfl, rfl⟩ :
          SameQueues (M.net.ni k) ((M.net.ni k).enqueue vnet msg))
      · simpa [here] using (⟨rfl, rfl, rfl, rfl, rfl⟩ : SameQueues (M.net.ni k) (M.net.ni k))
    | wakeup n bound =>
      change Ordered (niWakeup n M.net).time ((niWakeup n M.net).ni k)
        (update M.sent n (M.sent n ++ (sentBy n M.net).toList) k)
      rw [niWakeup_time]
      by_cases here : k = n
      · subst here
        rw [update_self]
        exact (before k).wakeup sound single
      · rw [update_of_ne here, niWakeup_others here]
        exact before k
    | elsewhere action net same =>
      change Ordered net.time (net.ni k) (M.sent k)
      rw [same.time, same.ni]
      exact before k
    | event n bound =>
      unfold niEventWakeup
      dsimp only
      split <;> exact before k
    | barrier => exact before k

/-- If no interface puts two messages of an ordered virtual network into its buffers in one cycle,
the heads of the packets of each ordered virtual network are sent in the order of their messages. -/
theorem ordered_injection (cfg : Config) (M : Monitor cfg)
    (reach : ReachableVia (monitored cfg) OneAtATime M) (n : Nat) :
    InOrder cfg (M.net.ni n).injected (M.sent n) :=
  (reachable_ordered reach n).inOrder

def idleOrdered : Monitor orderedFork := ofNet idleOrderedFork

theorem idleOrdered_initial : idleOrdered.Initial :=
  ofNet_initial idleOrderedFork_initial rfl fun _ => ⟨rfl, rfl, rfl, rfl, rfl, rfl, rfl⟩

instance (M : Monitor cfg) (action : MonitorAction cfg.machines) : Decidable (OneAtATime M action) :=
  match action with
  | .network (.niWakeup _) =>
    inferInstanceAs (Decidable (∀ _ ∈ _, ∀ _ ∈ _, ∀ _ ∈ _, ∀ _ ∈ _, _ → _ → _ → _ → _))
  | .network .tick | .network (.message ..) | .network (.linkWakeup _)
  | .network (.creditLinkWakeup _) | .network (.inputUnitWakeup _) | .network (.outputUnitWakeup _)
  | .network (.vcAllocatorWakeup _) | .network (.swAllocatorWakeup _) | .network (.switchWakeup _)
  | .niEventWakeup _ | .barrier => .isTrue trivial

def inTurn : List (MonitorAction orderedFork.machines) :=
  [.network (.message 0 0 toFirst), .network (.niWakeup 0), .network .tick,
    .network (.message 0 0 toSecond), .network (.niWakeup 0)]

theorem ordered_injection_inTurn : ∃ M, ReachableVia (monitored orderedFork) OneAtATime M ∧
      (M.net.ni 0).injected.map (·.origin) = [0, 1] ∧ (M.sent 0).map (·.msg.serial) = [0, 1] ∧
      InOrder orderedFork (M.net.ni 0).injected (M.sent 0) := by
  have ran : (inTurn.foldlM (fun M action => if OneAtATime M action then perform M action
      else .error .noInterface) idleOrdered).toOption.any (fun M =>
        (M.net.ni 0).injected.map (·.origin) = [0, 1] ∧
          (M.sent 0).map (·.msg.serial) = [0, 1]) = true := by decide +kernel
  obtain ⟨M, reach, holds⟩ := foldlM_check_allowed Monitor.Initial idleOrdered_initial ran
  obtain ⟨origins, serials⟩ := of_decide_eq_true holds
  exact ⟨M, reach, origins, serials, ordered_injection orderedFork M reach 0⟩

def atOnce : List (MonitorAction orderedFork.machines) :=
  [.network (.message 0 0 toFirst), .network (.message 0 0 toSecond),
    .network (.niWakeup 0)]

/-- The first message is on VC 0 and the second on VC 1, at which the search for a VC starts; their
times are equal, so the second is sent first. -/
theorem ordered_injection_overtaken : ∃ M, Reachable (monitored orderedFork) M ∧
      ¬ InOrder orderedFork (M.net.ni 0).injected (M.sent 0) := by
  have ran : (atOnce.foldlM perform idleOrdered).toOption.any (fun M =>
      match (M.net.ni 0).injected with
      | [r, r'] => r.origin ≠ r'.origin ∧ (r.flits.head?.any fun h => r'.flits.head?.any fun h' =>
          h.vnet = h'.vnet ∧ h'.piece ∈ (M.sent 0).map Flit.piece ∧
            h.piece ∉ (M.sent 0).map Flit.piece) = true
      | _ => false) = true := by decide +kernel
  obtain ⟨M, reach, holds⟩ := foldlM_check Monitor.Initial (fun _ _ _ => trivial)
    idleOrdered_initial ran
  refine ⟨M, reach, fun order => ?_⟩
  split at holds
  · rename_i r r' injected
    obtain ⟨different, heads⟩ := of_decide_eq_true holds
    obtain ⟨h, head, heads⟩ := (Option.any_eq_true _ _).mp heads
    obtain ⟨h', head', heads⟩ := (Option.any_eq_true _ _).mp heads
    obtain ⟨vnet, sent, unsent⟩ := of_decide_eq_true heads
    rw [injected] at order
    have first := (pairwise_cons.mp order).1 r' mem_cons_self
    exact unsent (first different h head h' head' vnet rfl _ (prefix_refl _) sent)
  · cases holds

end Monitor

end SynchroTrace.Garnet
