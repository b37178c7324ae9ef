import SynchroTrace.Garnet.Exclusive

namespace SynchroTrace.Garnet
open Function (update update_of_ne update_self)
open Transition NetState NetworkInterface

variable {cfg : Config} {s s' : NetState cfg} {G : Channels}

/-- The buffers of a channel are free, or taken by flits and credits on the way or by what its
downstream end still holds. -/
def Conserves (s : NetState cfg) (p : Endpoint) (w held : Nat) : Prop :=
  (s.out p w).creditCount + (s.flight p w).length + held + (s.credits p).countP (·.vc = w) =
    cfg.depth w

theorem credits_split (s : NetState cfg) (p : Endpoint) (w : Nat) :
    (s.credits p).countP (·.vc = w) = s.plainCredits p w + s.freeSignals p w := by
  unfold plainCredits freeSignals
  induction s.credits p with
  | nil => rfl
  | cons c rest ih =>
    rw [List.countP_cons, List.countP_cons, List.countP_cons, ih]
    cases c.isFreeSignal <;> simp <;> omega

theorem Sound.conserves (sound : Sound s G) (p : Endpoint) (w : Nat) :
    Conserves s p w ((G (p, w)).arrived - (G (p, w)).taken) := by
  have carries := sound.carries p w
  have valid := sound.valid p w
  have flight := congrArg List.length carries.flight
  rw [List.length_map, Channel.segment_length] at flight
  have balance := valid.balance
  have := valid.taken_le
  have := valid.arrived_le
  rw [Conserves, carries.credits, flight, credits_split, carries.plain, carries.freeing]
  omega

theorem Sound.conserves_router (sound : Sound s G) (x : VcId) :
    Conserves s (cfg.upstream x.toPortId.endpoint) x.vc (s.inVc x).buffer.items.length := by
  have buffered := congrArg List.length (sound.delivers x).buffered
  rw [List.length_map, Channel.segment_length] at buffered
  rw [buffered]
  exact sound.conserves _ _

theorem Sound.conserves_ni (sound : Sound s G) (n w : Nat) :
    Conserves s (cfg.upstream (.ni n)) w 0 := by
  have conserves := sound.conserves (cfg.upstream (.ni n)) w
  rwa [sound.interfaces.taken, Nat.sub_self] at conserves

/-- The credits that an active input VC reads are those of its output VC, and none is overdrawn. -/
structure Honest (s : NetState cfg) : Prop where
  copies : ∀ x, (s.inVc x).state = .active →
    (s.inVc x).creditCount = (s.outVc (s.boundTo x)).creditCount
  nonneg : ∀ p w, 0 ≤ (s.out p w).creditCount

/-- A credit that an output unit takes finds the input VC that its output VC remembers bound to
that output VC, or to none. -/
def CreditInTime (s : NetState cfg) : Action cfg.machines → Prop
  | .outputUnitWakeup p => ∀ c, (s.link p.endpoint).creditBuffer.ready? s.time = some c →
      (s.inVc (s.holder { p with vc := c.vc })).state = .active →
        s.boundTo (s.holder { p with vc := c.vc }) = { p with vc := c.vc }
  | _ => True

def Funded (s : NetState cfg) : Prop := ∀ n w, 0 ≤ ((s.ni n).outVc w).creditCount

theorem Honest.of_same (honest : Honest s) (vcs : SameVcs s s') (funded : Funded s') :
    Honest s' where
  copies x active := by
    obtain ⟨inVc, outVc⟩ := vcs
    rw [inVc] at active
    simp only [boundTo, inVc, outVc]
    exact honest.copies x active
  nonneg p w := by
    cases p with
    | router r o => simpa only [NetState.out, vcs.2] using honest.nonneg (.router r o) w
    | ni n => exact funded n w

theorem Honest.of_untouched (honest : Honest s) (vcs : SameVcs s s') (ni : s'.ni = s.ni) :
    Honest s' :=
  honest.of_same vcs fun n w => ni ▸ honest.nonneg (.ni n) w

theorem Honest.funded (honest : Honest s) : Funded s := fun n => honest.nonneg (.ni n)

theorem Funded.setNi (funded : Funded s) {n : Nat} {ni : NetworkInterface cfg.machines}
    (outVc : ∀ w, 0 ≤ (ni.outVc w).creditCount) : Funded (s.setNi n ni) := by
  intro k w
  by_cases here : k = n
  · subst here
    rw [setNi_self]
    exact outVc w
  · rw [setNi_ne _ _ here]
    exact funded k w

section
variable (funded : Funded s) (n : Nat)
include funded n

theorem Funded.niInject : Funded (niInject n s) := by
  refine funded.setNi (injectMessages_induction cfg
    (P := fun ni => ∀ w, 0 ≤ (ni.outVc w).creditCount) ?_ ?_ ?_ (funded n))
  · exact fun _ _ kept => kept
  · exact fun _ _ kept => kept
  · intro ni vnet vc numFlits origin clone kept _ _ w
    by_cases here : w = vc
    · subst here
      simpa [NetworkInterface.inject] using kept w
    · simpa [NetworkInterface.inject, here] using kept w

theorem Funded.niSend : Funded (niSend n s) := by
  have cases := scheduleOutputLink_cases (s.ni n) s.time
  unfold Garnet.niSend
  generalize (s.ni n).scheduleOutputLink cfg s.time = result at cases
  obtain ⟨sent, ni⟩ := result
  have kept : ∀ w, 0 ≤ (ni.outVc w).creditCount := by
    intro w
    obtain ⟨_, outVc, _⟩ | ⟨v, _, _, credit, _, outVc, _⟩ := cases
    · rw [outVc]
      exact funded n w
    · rw [outVc]
      by_cases here : w = v
      · subst here
        rw [update_self, OutVcState.decrementCredit_creditCount]
        omega
      · rw [update_of_ne here]
        exact funded n w
  dsimp only
  split
  · exact funded.setNi kept
  · exact funded.setNi kept

theorem Funded.niReceive : Funded (niReceive n s) := by
  unfold Garnet.niReceive
  dsimp only
  split
  · exact funded
  · refine Funded.setNi (s := s.setLink _ _) funded fun w => ?_
    unfold NetworkInterface.receive
    split <;> exact funded n w

theorem Funded.niCredit : Funded (niCredit n s) := by
  unfold Garnet.niCredit
  dsimp only
  split
  · exact funded
  · rename_i c _
    refine Funded.setNi (s := s.setLink _ _) funded fun w => ?_
    have old := funded n w
    by_cases here : w = c.vc
    · subst here
      simp only [receiveCredit, update_self]
      split
      · simp
        omega
      · simp
        omega
    · simpa [receiveCredit, here] using old

theorem Funded.niWakeup : Funded (niWakeup n s) :=
  (((funded.niInject n).niSend n).niReceive n).niCredit n

end

section Routers
variable {x y : VcId}

theorem Honest.granted (honest : Honest s) (sound : Sound s G) (requests : Requests s x y)
    (granted : Granted x y s s') : Honest s' := by
  obtain ⟨⟨b, _, vc⟩, inVc, outVc, _, _, _, ni⟩ := granted
  have bound : s'.boundTo x = y := by
    simp only [boundTo, vc, ← requests.port, ← requests.router]
  refine ⟨fun x' active => ?_, fun p w => ?_⟩
  · by_cases here : x' = x
    · subst here
      rw [bound, outVc, update_self, vc]
      rfl
    · have same : s'.boundTo x' = s.boundTo x' := by simp only [boundTo, inVc x' here]
      rw [inVc x' here] at active
      -- an output VC that is granted was idle, so no other input VC is bound to it
      have other : s.boundTo x' ≠ y := by
        intro eq
        have held := (sound.exclusive.held x' y ⟨active, eq⟩).1
        rw [requests.idle] at held
        cases held
      rw [same, inVc x' here, outVc, update_of_ne other]
      exact honest.copies x' active
  · have old := honest.nonneg p w
    cases p with
    | ni n => simpa only [NetState.out, ni] using old
    | router r o =>
      by_cases here : (⟨⟨r, o⟩, w⟩ : VcId) = y
      · subst here
        simpa [NetState.out, outVc, OutVcState.granted] using old
      · simpa [NetState.out, outVc, here] using old

theorem Honest.has_credit (honest : Honest s) (sends : Sends s x) :
    0 < (s.outVc (s.boundTo x)).creditCount := by
  rw [← honest.copies x sends.active]
  exact sends.credits

theorem Honest.sent {f : Flit cfg.machines} (honest : Honest s) (sound : Sound s G)
    (sends : Sends s x) (sent : Sent x f s s') : Honest s' := by
  have credit := honest.has_credit sends
  refine ⟨fun x' active => ?_, fun p w => ?_⟩
  · by_cases here : x' = x
    · subst here
      have bound : s'.boundTo x' = s.boundTo x' := by
        simp only [boundTo, sent.route, sent.outputVc]
      rw [bound, sent.outVc, update_self, sent.credits]
      rfl
    · have same : s'.boundTo x' = s.boundTo x' := by
        simp only [boundTo, sent.inVc x' here]
      rw [sent.inVc x' here] at active
      have other : s.boundTo x' ≠ s.boundTo x := fun eq => here
        (sound.exclusive.single x' x _ ⟨active, eq⟩ ⟨sends.active, rfl⟩)
      rw [same, sent.inVc x' here, sent.outVc_ne other]
      exact honest.copies x' active
  · have old := honest.nonneg p w
    cases p with
    | ni n => simpa only [NetState.out, sent.rest.2] using old
    | router r o =>
      by_cases here : (⟨⟨r, o⟩, w⟩ : VcId) = s.boundTo x
      · simp only [NetState.out, here, sent.outVc, update_self,
          OutVcState.decrementCredit_creditCount]
        omega
      · simpa only [NetState.out, sent.outVc_ne here] using old

theorem Honest.inputUnitWakeup {p : PortId} (honest : Honest s)
    (done : inputUnitWakeup p s = .ok s') : Honest s' := by
  obtain ⟨outVc, ni, bound⟩ := inputUnitWakeup_vcs done
  refine ⟨fun x active => ?_, fun q w => ?_⟩
  · obtain ⟨was, route, outputVc, credits⟩ := bound x active
    simp only [boundTo, credits, route, outputVc, outVc]
    exact honest.copies x was
  · have old := honest.nonneg q w
    cases q with
    | ni n => simpa only [NetState.out, ni] using old
    | router r o => simpa only [NetState.out, outVc] using old

theorem Honest.outputUnitWakeup {p : PortId} (honest : Honest s) (sound : Sound s G)
    (inTime : CreditInTime s (.outputUnitWakeup p)) : Honest (outputUnitWakeup p s) := by
  unfold Garnet.outputUnitWakeup
  dsimp only
  split
  · exact honest
  rename_i c ready
  have bound := inTime c ready
  generalize ({ p with vc := c.vc } : VcId) = y at bound
  generalize out_eq : (if c.isFreeSignal = true then _ else _) = out
  have more : out.creditCount = (s.outVc y).creditCount + 1 := by
    subst out_eq
    split <;> rfl
  clear out_eq
  generalize next_eq : setOutVc _ _ out = next
  have inVc : next.inVc = update s.inVc (s.holder y)
      { s.inVc (s.holder y) with creditCount := (s.outVc y).creditCount + 1 } := by
    subst next_eq
    rfl
  have same : next.outVc = update s.outVc y out ∧ next.ni = s.ni := by
    subst next_eq
    exact ⟨rfl, rfl⟩
  obtain ⟨outVc, ni⟩ := same
  refine ⟨fun x active => ?_, fun q w => ?_⟩
  · by_cases here : x = s.holder y
    · subst here
      rw [inVc, update_self] at active
      have unbound : next.boundTo (s.holder y) = y := by
        simpa only [boundTo, inVc, update_self] using bound active
      rw [unbound, inVc, update_self, outVc, update_self, more]
    · rw [inVc, update_of_ne here] at active
      have unbound : next.boundTo x = s.boundTo x := by
        simp only [boundTo, inVc, update_of_ne here]
      have other : s.boundTo x ≠ y := by
        rintro rfl
        exact here (sound.exclusive.held x _ ⟨active, rfl⟩).2.1.symm
      rw [unbound, inVc, update_of_ne here, outVc, update_of_ne other]
      exact honest.copies x active
  · have old := honest.nonneg q w
    cases q with
    | ni n => simpa only [NetState.out, ni] using old
    | router r o =>
      by_cases here : (⟨⟨r, o⟩, w⟩ : VcId) = y
      · subst here
        simp only [NetState.out] at old
        simp only [NetState.out, outVc, update_self, more]
        omega
      · simpa only [NetState.out, outVc, update_of_ne here] using old

end Routers

/-- While the switch allocator of a router wakes up, it grants an input VC a passage. The second
state is the one in which it does. -/
def Grants (r : Nat) (s s' : NetState cfg) (x : VcId) : Prop :=
  ∃ outport < cfg.numOutports r,
    (List.range outport).foldlM (grantOutport r (arbitrateInports r s).1 fun x => (s.inVc x).route)
      (arbitrateInports r s).2 = .ok s' ∧
    s'.grantee r (arbitrateInports r s).1 (fun x => (s.inVc x).route) outport = some x

def Safe (s : NetState cfg) : Prop := ∃ G, Sound s G ∧ Honest s

theorem Safe.pointers (s : NetState cfg) (next : Pointers) (safe : Safe s) :
    Safe { s with pointers := next } := by
  obtain ⟨G, sound, honest⟩ := safe
  exact ⟨G, sound.pointers next, honest.of_same ⟨rfl, rfl⟩ honest.funded⟩

theorem Safe.grantVc (s : NetState cfg) (x y : VcId) (safe : Safe s) (requests : Requests s x y) :
    ∃ s', grantVc x y s = .ok s' ∧ Safe s' := by
  obtain ⟨G, sound, honest⟩ := safe
  obtain ⟨s', G', granted, effect, sound'⟩ := sound.grantVc requests
  exact ⟨s', granted, G', sound', honest.granted sound requests effect⟩

theorem Safe.sendFlit (s : NetState cfg) (x : VcId) (safe : Safe s) (sends : Sends s x) :
    ∃ s', sendFlit x (s.inVc x).route s = .ok s' ∧ Safe s' ∧
      ∀ x', x' ≠ x → s'.inVc x' = s.inVc x' := by
  obtain ⟨G, sound, honest⟩ := safe
  obtain ⟨s', f, G', sent, effect, sound'⟩ := sound.sendFlit sends
  exact ⟨s', sent, ⟨G', sound', honest.sent sound sends effect⟩, effect.inVc⟩

theorem Safe.grants (safe : Safe s) {r : Nat} {x : VcId} (grants : Grants r s s' x) :
    0 < (s'.outVc (s'.boundTo x)).creditCount := by
  obtain ⟨outport, _, ran, granted⟩ := grants
  obtain ⟨s₁, served, ⟨_, _, honest⟩, kept⟩ := grantOutports_induction Safe.pointers Safe.sendFlit
    safe r outport
  cases served.symm.trans ran
  obtain ⟨member, route⟩ := grantee_winner arbitrateInports_single granted
  have sends := (vcWinner_sends (mem_arbitrateInports member)).1
  have same := kept x member route.ge
  exact honest.has_credit ⟨same ▸ sends.active, same ▸ sends.items, same ▸ sends.credits⟩

theorem Safe.perform (safe : Safe s) {a : Action cfg.machines} (inTime : CreditInTime s a)
    (taken : s.perform a = .ok s') : Safe s' := by
  obtain ⟨G, sound, honest⟩ := safe
  obtain failed | ⟨final, G', ok, sound'⟩ := sound.perform a
  · cases failed.symm.trans taken
  cases ok.symm.trans taken
  cases a with
  | tick =>
    cases taken
    exact ⟨G', sound', honest.of_same ⟨rfl, rfl⟩ honest.funded⟩
  | message n vnet msg =>
    cases taken
    exact ⟨G', sound', honest.of_same ⟨rfl, rfl⟩ (honest.funded.setNi (honest.funded n))⟩
  | niWakeup n =>
    cases taken
    exact ⟨G', sound', honest.of_same (niWakeup_vcs n s) (honest.funded.niWakeup n)⟩
  | linkWakeup p =>
    cases taken
    obtain ⟨vcs, ni⟩ := linkWakeup_vcs p s
    exact ⟨G', sound', honest.of_untouched vcs ni⟩
  | creditLinkWakeup p =>
    cases taken
    obtain ⟨vcs, ni⟩ := creditLinkWakeup_vcs p s
    exact ⟨G', sound', honest.of_untouched vcs ni⟩
  | inputUnitWakeup p => exact ⟨G', sound', honest.inputUnitWakeup taken⟩
  | outputUnitWakeup p =>
    cases taken
    exact ⟨G', sound', honest.outputUnitWakeup sound inTime⟩
  | vcAllocatorWakeup r =>
    obtain ⟨next, ran, safe'⟩ := vcAllocatorWakeup_induction Safe.pointers Safe.grantVc
      ⟨G, sound, honest⟩ r
    cases ran.symm.trans taken
    exact safe'
  | swAllocatorWakeup r =>
    obtain ⟨next, ran, safe'⟩ := swAllocatorWakeup_induction Safe.pointers Safe.sendFlit
      ⟨G, sound, honest⟩ r
    cases ran.symm.trans taken
    exact safe'
  | switchWakeup r =>
    cases taken
    obtain ⟨vcs, ni⟩ := switchWakeup_vcs r s
    exact ⟨G', sound', honest.of_untouched vcs ni⟩

theorem safe_initial (initial : s.Initial) : Safe s := by
  obtain ⟨G, sound⟩ := sound_initial initial
  refine ⟨G, sound, fun x active => ?_, fun p w => ?_⟩
  · rw [(initial.inVc x).1] at active
    cases active
  · cases p with
    | router r o =>
      rw [NetState.out, (initial.outVc _).2]
      exact Int.natCast_nonneg _
    | ni n =>
      rw [NetState.out, ((initial.ni n).1 w).2.1]
      exact Int.natCast_nonneg _

theorem reachable_safe (reach : ReachableVia (network cfg) CreditInTime s) : Safe s := by
  refine reach.invariant Safe (fun s => safe_initial) ?_
  intro s a next _ inTime safe taken
  exact safe.perform inTime taken

/-- As long as every credit comes back in time, no output VC is overdrawn or granted a passage
without a credit, no input VC holds more flits than it has buffers, and flits cross the switch only
from the input VC that their output VC is bound to. -/
theorem credits_safe (reach : ReachableVia (network cfg) CreditInTime s) :
    (∀ r s' x, Grants r s s' x → 1 ≤ (s'.outVc (s'.boundTo x)).creditCount) ∧
      (∀ p w, 0 ≤ (s.out p w).creditCount) ∧
      (∀ x, Conserves s (cfg.upstream x.toPortId.endpoint) x.vc (s.inVc x).buffer.items.length ∧
        (s.inVc x).buffer.items.length ≤ cfg.depth x.vc) ∧
      (∀ n w, Conserves s (cfg.upstream (.ni n)) w 0) ∧ NoStrays s := by
  have safe := reachable_safe reach
  have grants : ∀ r s' x, Grants r s s' x → _ := fun r s' x => safe.grants
  obtain ⟨G, sound, honest⟩ := safe
  refine ⟨grants, honest.nonneg, fun x => ?_, sound.conserves_ni, sound.noStrays⟩
  have conserves := sound.conserves_router x
  refine ⟨conserves, ?_⟩
  have nonneg := honest.nonneg (cfg.upstream x.toPortId.endpoint) x.vc
  unfold Conserves at conserves
  omega

def grantsPort1 (s : NetState fork) (credits : Int) : Bool :=
  ((List.range 1).foldlM (grantOutport 0 (arbitrateInports 0 s).1 fun x => (s.inVc x).route)
    (arbitrateInports 0 s).2).toOption.any fun s' =>
      s'.grantee 0 (arbitrateInports 0 s).1 (fun x => (s.inVc x).route) 1 = some ⟨⟨0, 0⟩, 0⟩ ∧
        s'.boundTo ⟨⟨0, 0⟩, 0⟩ = ⟨⟨0, 1⟩, 0⟩ ∧ (s'.outVc ⟨⟨0, 1⟩, 0⟩).creditCount = credits

theorem grantsPort1_grants {s : NetState fork} {credits : Int} (h : grantsPort1 s credits = true) :
    ∃ s', Grants 0 s s' ⟨⟨0, 0⟩, 0⟩ ∧ s'.boundTo ⟨⟨0, 0⟩, 0⟩ = ⟨⟨0, 1⟩, 0⟩ ∧
      (s'.outVc ⟨⟨0, 1⟩, 0⟩).creditCount = credits := by
  obtain ⟨s', ran, passed⟩ := Outcome.any_toOption h
  obtain ⟨granted, bound, count⟩ := of_decide_eq_true passed
  exact ⟨s', ⟨1, by decide, ran, granted⟩, bound, count⟩

theorem credits_safe_fork :
    ∃ s s', ReachableVia (network fork) CreditInTime s ∧ Grants 0 s s' ⟨⟨0, 0⟩, 0⟩ ∧
      1 ≤ (s'.outVc (s'.boundTo ⟨⟨0, 0⟩, 0⟩)).creditCount ∧
      (s.inVc ⟨⟨0, 0⟩, 0⟩).buffer.items.length ≤ fork.depth 0 := by
  have check : ((onePacket ++ nextPacket ++ [Action.tick]).foldlM NetState.perform
      idleFork).toOption.any (fun s => grantsPort1 s 1) = true := by
    decide +kernel
  have permitted : ∀ a ∈ onePacket ++ nextPacket ++ [Action.tick], ∀ s, CreditInTime s a := by
    simp [onePacket, nextPacket, CreditInTime]
  obtain ⟨s, reach, checked⟩ := foldlM_check NetState.Initial permitted idleFork_initial check
  obtain ⟨s', grants, _⟩ := grantsPort1_grants checked
  obtain ⟨credit, _, bounded, _⟩ := credits_safe reach
  exact ⟨s, s', reach, grants, credit 0 s' _ grants, (bounded ⟨⟨0, 0⟩, 0⟩).2⟩

/-- The head of the second packet goes on, its other flit arrives, and only then the credit of the
first packet comes back. -/
def lateCredit : List (Action fork.machines) :=
  [.tick, .swAllocatorWakeup 0, .tick, .creditLinkWakeup (.ni 0), .tick, .niWakeup 0, .niWakeup 0,
    .tick, .linkWakeup (.ni 0), .tick, .inputUnitWakeup ⟨0, 0⟩, .outputUnitWakeup ⟨0, 0⟩, .tick]

/-- The credit for the output VC of one packet makes the switch allocator send a flit of the next
packet, on an output VC that has no credit. -/
theorem late_credit_overdraws :
    ∃ s s' after, Reachable (network fork) s ∧ Grants 0 s s' ⟨⟨0, 0⟩, 0⟩ ∧
      s'.boundTo ⟨⟨0, 0⟩, 0⟩ = ⟨⟨0, 1⟩, 0⟩ ∧ (s'.outVc ⟨⟨0, 1⟩, 0⟩).creditCount = 0 ∧
      s.perform (.swAllocatorWakeup 0) = .ok after ∧
      (after.outVc ⟨⟨0, 1⟩, 0⟩).creditCount = -1 := by
  have check : ((onePacket ++ nextPacket ++ lateCredit).foldlM NetState.perform
      idleFork).toOption.any (fun s => grantsPort1 s 0 &&
        (s.perform (.swAllocatorWakeup 0)).toOption.any fun after =>
          (after.outVc ⟨⟨0, 1⟩, 0⟩).creditCount = -1) = true := by
    decide +kernel
  obtain ⟨s, reach, checked⟩ := foldlM_check NetState.Initial (fun _ _ _ => trivial)
    idleFork_initial check
  obtain ⟨grants, overdrawn⟩ := Bool.and_eq_true_iff.mp checked
  obtain ⟨s', grants, bound, none⟩ := grantsPort1_grants grants
  obtain ⟨after, ran, negative⟩ := Outcome.any_toOption overdrawn
  exact ⟨s, s', after, reach, grants, bound, none, ran, of_decide_eq_true negative⟩

end SynchroTrace.Garnet
