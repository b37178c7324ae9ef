import Mathlib.Logic.Equiv.Basic
import SynchroTrace.Garnet.Allocators

namespace SynchroTrace.Garnet
open Transition Function

variable {cfg : Config} {s s' : NetState cfg} {G : Channels}

/-- The input VC sends the packet it has on the output VC. -/
def NetState.Holds (s : NetState cfg) (x y : VcId) : Prop :=
  (s.inVc x).state = .active ∧ s.boundTo x = y

structure Exclusive (s : NetState cfg) : Prop where
  single : ∀ x x' y, s.Holds x y → s.Holds x' y → x = x'
  held : ∀ x y, s.Holds x y → (s.outVc y).state = .active ∧ s.holder y = x ∧
    s.freeSignals y.toPortId.endpoint y.vc = 0
  /-- The free signal is the last that a packet leaves on a channel. -/
  freed : ∀ p w, 0 < s.freeSignals p w →
    (s.out p w).state = .active ∧ s.freeSignals p w = 1 ∧ s.flight p w = []
  idle : ∀ p w, (s.out p w).state = .idle → s.freeSignals p w = 0 ∧ s.flight p w = []

/-- The flits of packets one after the other, each from its head to its tail, and then those of one
more packet from its head on. -/
def WholePackets {m : Machines} (flits : List (Flit m)) : Prop :=
  ∃ (packets : List (PacketId × Nat)) (last : PacketId) (size sent : Nat), sent ≤ size ∧
    flits.map Flit.piece =
      packets.flatMap (fun d => Channel.segment d.1 d.2 0 d.2) ++ Channel.segment last size 0 sent

def Reserves (s s' : NetState cfg) : Prop :=
  ∀ y, (s.outVc y).state = .active → (s'.outVc y).state = .active ∧ s'.holder y = s.holder y

theorem Sound.flight_of_freeing (sound : Sound s G) {p : Endpoint} {w : Nat}
    (some : 0 < s.freeSignals p w) :
    (s.out p w).state = .active ∧ s.freeSignals p w = 1 ∧ s.flight p w = [] := by
  have carries := sound.carries p w
  have valid := sound.valid p w
  rw [carries.freeing] at some ⊢
  obtain ⟨busy, one, taken, sent⟩ := valid.of_freeing some
  have := valid.taken_le
  have flight := carries.flight
  rw [Channel.segment_eq_nil_iff.mpr (by omega), List.map_eq_nil_iff] at flight
  refine ⟨?_, one, flight⟩
  rw [carries.state, busy]
  rfl

theorem Sound.exclusive (sound : Sound s G) : Exclusive s where
  single x x' y := by
    rintro ⟨active, rfl⟩ ⟨active', same⟩
    have held := ((sound.delivers x).active active).1
    have held' := ((sound.delivers x').active active').1
    rw [same] at held'
    exact held.symm.trans held'
  held x y := by
    rintro ⟨active, rfl⟩
    obtain ⟨held, passes⟩ := (sound.delivers x).active active
    have carries := sound.carries (s.boundTo x).toPortId.endpoint (s.boundTo x).vc
    refine ⟨?_, held, ?_⟩
    · have state := carries.state
      rwa [show (G _).busy = true from passes.busy] at state
    · rw [carries.freeing]
      exact (sound.delivers x).no_freeing active (sound.valid _ _)
  freed p w := sound.flight_of_freeing
  idle p w idle := by
    have carries := sound.carries p w
    have free := busy_eq_false carries idle
    refine ⟨?_, carries.flight_eq_nil (sound.valid p w) free⟩
    rw [carries.freeing, (sound.valid p w).freeing]
    simp [free]

theorem Sound.wholePackets (sound : Sound s G) (p : Endpoint) (w : Nat) :
    WholePackets ((s.link p).carried.filter (·.vc = w)) := by
  obtain ⟨packets, whole⟩ := sound.records p w
  refine ⟨packets, _, _, _, ?_, whole⟩
  have valid := sound.valid p w
  have := valid.arrived_le
  have := valid.sent_le
  have inFlight := congrArg List.length (sound.carries p w).flight
  simp only [NetState.flight, List.length_map, List.length_append, Channel.segment_length]
    at inFlight
  omega

theorem Reserves.refl (s : NetState cfg) : Reserves s s := fun _ active => ⟨active, rfl⟩

theorem Reserves.trans {s'' : NetState cfg} (h : Reserves s s') (h' : Reserves s' s'') :
    Reserves s s'' := by
  intro y active
  obtain ⟨still, same⟩ := h y active
  obtain ⟨still', same'⟩ := h' y still
  exact ⟨still', same'.trans same⟩

theorem Reserves.of_outVc (same : s'.outVc = s.outVc) : Reserves s s' := by
  intro y active
  exact ⟨same ▸ active, by simp only [NetState.holder, same]⟩

structure SameVc.Bound {m : Machines} (vc vc' : VirtualChannel m) : Prop where
  active : vc.state = .active
  route : vc'.route = vc.route
  outputVc : vc'.outputVc = vc.outputVc
  creditCount : vc'.creditCount = vc.creditCount

def SameVcs (s s' : NetState cfg) : Prop := s'.inVc = s.inVc ∧ s'.outVc = s.outVc

theorem SameVcs.trans {s'' : NetState cfg} (h : SameVcs s s') (h' : SameVcs s' s'') :
    SameVcs s s'' :=
  ⟨h'.1.trans h.1, h'.2.trans h.2⟩

theorem niWakeup_vcs (n : Nat) (s : NetState cfg) : SameVcs s (niWakeup n s) := by
  have send : ∀ s : NetState cfg, SameVcs s (niSend n s) := by
    intro s
    unfold niSend
    dsimp only
    split <;> exact ⟨rfl, rfl⟩
  have receive : ∀ s : NetState cfg, SameVcs s (niReceive n s) := by
    intro s
    unfold niReceive
    dsimp only
    split <;> exact ⟨rfl, rfl⟩
  have credit : ∀ s : NetState cfg, SameVcs s (niCredit n s) := by
    intro s
    unfold niCredit
    dsimp only
    split <;> exact ⟨rfl, rfl⟩
  have inject : SameVcs s (niInject n s) := ⟨rfl, rfl⟩
  exact ((inject.trans (send _)).trans (receive _)).trans (credit _)

theorem linkWakeup_vcs (p : Endpoint) (s : NetState cfg) :
    SameVcs s (linkWakeup p s) ∧ (linkWakeup p s).ni = s.ni := by
  unfold linkWakeup
  dsimp only
  split <;> exact ⟨⟨rfl, rfl⟩, rfl⟩

theorem creditLinkWakeup_vcs (p : Endpoint) (s : NetState cfg) :
    SameVcs s (creditLinkWakeup p s) ∧ (creditLinkWakeup p s).ni = s.ni := by
  unfold creditLinkWakeup
  dsimp only
  split <;> exact ⟨⟨rfl, rfl⟩, rfl⟩

theorem switchWakeup_vcs (r : Nat) (s : NetState cfg) :
    SameVcs s (switchWakeup r s) ∧ (switchWakeup r s).ni = s.ni := by
  unfold switchWakeup
  generalize List.range (cfg.numInports r) = ports
  induction ports generalizing s with
  | nil => exact ⟨⟨rfl, rfl⟩, rfl⟩
  | cons port rest ih =>
    have first : SameVcs s (crossSwitch s ⟨r, port⟩) ∧ (crossSwitch s ⟨r, port⟩).ni = s.ni := by
      unfold crossSwitch
      split <;> exact ⟨⟨rfl, rfl⟩, rfl⟩
    exact ⟨first.1.trans (ih _).1, (ih _).2.trans first.2⟩

theorem inputUnitWakeup_vcs {p : PortId} (h : inputUnitWakeup p s = .ok s') :
    s'.outVc = s.outVc ∧ s'.ni = s.ni ∧
      ∀ x, (s'.inVc x).state = .active → SameVc.Bound (s.inVc x) (s'.inVc x) := by
  unfold inputUnitWakeup at h
  dsimp only at h
  split at h
  · cases h
    exact ⟨rfl, rfl, fun x active => ⟨active, rfl, rfl, rfl⟩⟩
  rename_i f _
  split at h
  · split at h
    · cases h
    · split at h
      · cases h
      · cases h
        refine ⟨rfl, rfl, fun x active => ?_⟩
        by_cases here : x = { p with vc := f.vc }
        · subst here
          simp at active
        · rw [NetState.setInVc_inVc, update_of_ne here] at active ⊢
          exact ⟨active, rfl, rfl, rfl⟩
  · cases h
    refine ⟨rfl, rfl, fun x active => ?_⟩
    by_cases here : x = { p with vc := f.vc }
    · subst here
      rw [NetState.setInVc_inVc, update_self] at active ⊢
      exact ⟨active, rfl, rfl, rfl⟩
    · rw [NetState.setInVc_inVc, update_of_ne here] at active ⊢
      exact ⟨active, rfl, rfl, rfl⟩

variable {x y : VcId}

theorem Granted.reserves (granted : Granted x y s s')
    (idle : (s.outVc y).state = .idle) : Reserves s s' := by
  intro z active
  have other : z ≠ y := by
    rintro rfl
    rw [idle] at active
    cases active
  have same : s'.outVc z = s.outVc z := by rw [granted.outVc, update_of_ne other]
  exact ⟨same ▸ active, by simp only [NetState.holder, same]⟩

theorem Sent.reserves {f : Flit cfg.machines} (sent : Sent x f s s') :
    Reserves s s' := by
  intro z active
  refine ⟨?_, sent.holder z⟩
  by_cases here : z = s.boundTo x
  · subst here
    simpa [sent.outVc] using active
  · rwa [sent.outVc_ne here]

theorem outputUnitWakeup_reserves (p : PortId) (s : NetState cfg) (y : VcId)
    (active : (s.outVc y).state = .active) :
    ((outputUnitWakeup p s).outVc y).state = .active ∧
        (outputUnitWakeup p s).holder y = s.holder y ∨
      p = y.toPortId ∧ ∃ c, (s.link y.toPortId.endpoint).creditBuffer.ready? s.time = some c ∧
        c.vc = y.vc ∧ c.isFreeSignal = true := by
  unfold outputUnitWakeup
  dsimp only
  split
  · exact .inl ⟨active, rfl⟩
  rename_i c ready
  by_cases here : y = { p with vc := c.vc }
  · subst here
    by_cases free : c.isFreeSignal = true
    · exact .inr ⟨rfl, c, ready, rfl, free⟩
    · left
      simp [free, active, NetState.holder]
  · left
    simp [here, active, NetState.holder, NetState.updateIncredit]

theorem Sound.vcAllocatorWakeup_reserves (sound : Sound s G) {r : Nat}
    (done : Garnet.vcAllocatorWakeup r s = .ok s') : Reserves s s' := by
  obtain ⟨final, ran, _, kept⟩ := vcAllocatorWakeup_induction
    (P := fun next => (∃ G, Sound next G) ∧ Reserves s next)
    (fun _ next ⟨⟨G, sound⟩, kept⟩ => ⟨⟨G, sound.pointers next⟩, kept⟩)
    (fun _ _ _ ⟨⟨_, sound⟩, kept⟩ requests =>
      let ⟨s', G, granted, effect, sound'⟩ := sound.grantVc requests
      ⟨s', granted, ⟨G, sound'⟩, kept.trans (effect.reserves requests.idle)⟩)
    ⟨⟨G, sound⟩, Reserves.refl s⟩ r
  cases ran.symm.trans done
  exact kept

theorem Sound.swAllocatorWakeup_reserves (sound : Sound s G) {r : Nat}
    (done : Garnet.swAllocatorWakeup r s = .ok s') : Reserves s s' := by
  obtain ⟨final, ran, _, kept⟩ := swAllocatorWakeup_induction
    (P := fun next => (∃ G, Sound next G) ∧ Reserves s next)
    (fun _ next ⟨⟨G, sound⟩, kept⟩ => ⟨⟨G, sound.pointers next⟩, kept⟩)
    (fun _ _ ⟨⟨_, sound⟩, kept⟩ sends =>
      let ⟨s', _, G, sent, effect, sound'⟩ := sound.sendFlit sends
      ⟨s', sent, ⟨⟨G, sound'⟩, kept.trans effect.reserves⟩, effect.inVc⟩)
    ⟨⟨G, sound⟩, Reserves.refl s⟩ r
  cases ran.symm.trans done
  exact kept

def FreedBy (s : NetState cfg) (a : Action cfg.machines) (y : VcId) : Prop :=
  a = .outputUnitWakeup y.toPortId ∧
    ∃ c, (s.link y.toPortId.endpoint).creditBuffer.ready? s.time = some c ∧ c.vc = y.vc ∧
      c.isFreeSignal = true

theorem Sound.reserves (sound : Sound s G) {a : Action cfg.machines} (taken : s.perform a = .ok s')
    (active : (s.outVc y).state = .active) :
    (s'.outVc y).state = .active ∧ s'.holder y = s.holder y ∨ FreedBy s a y := by
  cases a with
  | tick =>
    cases taken
    exact .inl ⟨active, rfl⟩
  | message n vnet msg =>
    cases taken
    exact .inl ⟨active, rfl⟩
  | niWakeup n =>
    cases taken
    exact .inl (Reserves.of_outVc (niWakeup_vcs n s).2 y active)
  | linkWakeup p =>
    cases taken
    exact .inl (Reserves.of_outVc (linkWakeup_vcs p s).1.2 y active)
  | creditLinkWakeup p =>
    cases taken
    exact .inl (Reserves.of_outVc (creditLinkWakeup_vcs p s).1.2 y active)
  | inputUnitWakeup p => exact .inl (Reserves.of_outVc (inputUnitWakeup_vcs taken).1 y active)
  | outputUnitWakeup p =>
    cases taken
    obtain kept | ⟨rfl, freed⟩ := outputUnitWakeup_reserves p s y active
    · exact .inl kept
    · exact .inr ⟨rfl, freed⟩
  | vcAllocatorWakeup r => exact .inl (sound.vcAllocatorWakeup_reserves taken y active)
  | swAllocatorWakeup r => exact .inl (sound.swAllocatorWakeup_reserves taken y active)
  | switchWakeup r =>
    cases taken
    exact .inl (Reserves.of_outVc (switchWakeup_vcs r s).1.2 y active)

/-- Each output VC is held by one input VC, from its grant until the free signal comes back; the
assertions of the input unit and of the switch allocator hold; and on each VC of each link packets
follow one another as a whole. -/
theorem vcs_exclusive (reach : Reachable (network cfg) s) :
    Exclusive s ∧ (∀ p w, WholePackets ((s.link p).carried.filter (·.vc = w))) ∧
      ∀ a, s.perform a ≠ .error .headAtBusyVc ∧ s.perform a ≠ .error .vcNotEmpty ∧
        ∀ s', s.perform a = .ok s' → ∀ y, (s.outVc y).state = .active →
          (s'.outVc y).state = .active ∧ s'.holder y = s.holder y ∨ FreedBy s a y := by
  obtain ⟨G, sound⟩ := reachable_sound reach
  refine ⟨sound.exclusive, sound.wholePackets, fun a => ?_⟩
  have fails : ∀ fault, fault ≠ .noRoute → s.perform a ≠ .error fault := by
    rintro fault other failed
    obtain noRoute | ⟨_, _, ok, _⟩ := sound.perform a
    · cases noRoute.symm.trans failed
      exact other rfl
    · cases ok.symm.trans failed
  exact ⟨fails _ (by simp), fails _ (by simp), fun s' taken y => sound.reserves taken⟩

def threeNodes : Machines where
  numTypes := 1
  count _ := 3

def node (n : Fin 3) : MachineID threeNodes := ⟨⟨0, Nat.one_pos⟩, n⟩

/-- Node 0 sends to the router; port 0 leads to node 1 and port 1 to node 2. There is one VC with
one buffer. -/
def fork : Config where
  machines := threeNodes
  virtualNetworks := 1
  vcPerVnet := 1
  inUse _ := true
  ordered _ := false
  dataVnet _ := false
  buffersPerDataVC := 2
  buffersPerCtrlVC := 1
  niFlitSize := 4
  numInports _ := 1
  numOutports _ := 2
  routingTable _ := [({node 1}, 1), ({node 2}, 1)]
  linkLatency _ := 1
  creditLatency _ := 1
  upstream := Equiv.swap (.ni 2) (.router 0 1) ∘ Equiv.swap (.router 0 0) (.ni 0) ∘
    Equiv.swap (.ni 0) (.ni 1)
  upstream_injective := (Equiv.injective _).comp ((Equiv.injective _).comp (Equiv.injective _))
  vcPerVnet_pos := Nat.one_pos
  flitSize_pos := Nat.succ_pos 3
  buffers_pos := ⟨Nat.two_pos, Nat.one_pos⟩

def idleFork : NetState fork where
  time := 0
  inVc _ :=
    { buffer := .empty, state := .idle, stateTime := 0, route := 0, enqueueTime := infinite,
      outputVc := 0, creditCount := 0 }
  outVc _ := { state := .idle, time := 0, inPort := 0, inVc := 0, creditCount := 1 }
  switchBuffer _ := .empty
  link _ := ⟨.empty, .empty, .empty, .empty, []⟩
  ni _ :=
    { vcAllocator := fun _ => 0, vcRoundRobin := 0, buffers := fun _ => .empty,
      enqueueTime := fun _ => infinite,
      outVc := fun _ => { state := .idle, time := 0, inPort := 0, inVc := 0, creditCount := 1 },
      inNode := fun _ => [], outNode := fun _ => [], clones := 0, accepted := [], injected := [] }
  pointers := ⟨fun _ => 0, fun _ => (0, 0), fun _ => 0, fun _ => 0⟩

theorem idleFork_initial : idleFork.Initial where
  inVc _ := ⟨rfl, rfl⟩
  outVc _ := ⟨rfl, rfl⟩
  switchBuffer _ := rfl
  link _ := ⟨rfl, rfl, rfl, rfl, rfl⟩
  ni _ := ⟨fun _ => ⟨rfl, rfl, rfl⟩, fun _ => rfl⟩

def orderedFork : Config :=
  { fork with
    vcPerVnet := 2
    ordered := fun _ => true
    creditLatency := fun p => if p = .router 0 0 then 20 else 1
    vcPerVnet_pos := Nat.two_pos }

def idleOrderedFork : NetState orderedFork :=
  { time := idleFork.time, inVc := idleFork.inVc, outVc := idleFork.outVc
    switchBuffer := idleFork.switchBuffer, link := idleFork.link, ni := idleFork.ni
    pointers := idleFork.pointers }

theorem idleOrderedFork_initial : idleOrderedFork.Initial where
  inVc _ := ⟨rfl, rfl⟩
  outVc _ := ⟨rfl, rfl⟩
  switchBuffer _ := rfl
  link _ := ⟨rfl, rfl, rfl, rfl, rfl⟩
  ni _ := ⟨fun _ => ⟨rfl, rfl, rfl⟩, fun _ => rfl⟩

def toNode (n : Fin 3) (size : Nat) : NetworkMessage fork.machines where
  destination := {node n}
  internalDest := none
  size := size

def toFirst : NetworkMessage fork.machines := toNode 1 4

def toSecond : NetworkMessage fork.machines := toNode 2 4

def onePacket : List (Action fork.machines) :=
  [.message 0 0 toFirst, .niWakeup 0, .tick, .linkWakeup (.ni 0), .tick,
    .inputUnitWakeup ⟨0, 0⟩, .tick, .vcAllocatorWakeup 0, .tick, .swAllocatorWakeup 0, .tick,
    .switchWakeup 0, .tick, .linkWakeup (.router 0 0), .tick, .niWakeup 1,
    .creditLinkWakeup (.ni 0), .creditLinkWakeup (.router 0 0), .tick, .niWakeup 0]

def nextPacket : List (Action fork.machines) :=
  [.message 0 0 (toNode 2 8), .niWakeup 0, .tick, .linkWakeup (.ni 0), .tick,
    .inputUnitWakeup ⟨0, 0⟩, .tick, .vcAllocatorWakeup 0]

theorem vcs_exclusive_fork : ∃ s, Reachable (network fork) s ∧ s.Holds ⟨⟨0, 0⟩, 0⟩ ⟨⟨0, 1⟩, 0⟩ ∧
      (s.outVc ⟨⟨0, 0⟩, 0⟩).state = .active ∧ Exclusive s ∧
      ∀ p w, WholePackets ((s.link p).carried.filter (·.vc = w)) := by
  have check : ((onePacket ++ nextPacket).foldlM NetState.perform idleFork).toOption.any
      (fun s => (s.inVc ⟨⟨0, 0⟩, 0⟩).state = .active ∧ s.boundTo ⟨⟨0, 0⟩, 0⟩ = ⟨⟨0, 1⟩, 0⟩ ∧
        (s.outVc ⟨⟨0, 0⟩, 0⟩).state = .active) = true := by
    decide +kernel
  obtain ⟨s, reach, checked⟩ := foldlM_check NetState.Initial (fun _ _ _ => trivial)
    idleFork_initial check
  obtain ⟨active, bound, stillActive⟩ := of_decide_eq_true checked
  obtain ⟨exclusive, whole, _⟩ := vcs_exclusive reach
  exact ⟨s, reach, ⟨active, bound⟩, stillActive, exclusive, whole⟩

/-- A step fails only where an input unit finds no route for a packet. -/
theorem steps_succeed (reach : Reachable (network cfg) s) (a : Action cfg.machines) :
    (∃ s', s.perform a = .ok s') ∨
      s.perform a = .error .noRoute ∧ ∃ p, a = .inputUnitWakeup p := by
  obtain ⟨G, sound⟩ := reachable_sound reach
  obtain none | ⟨s', _, ok, _⟩ := sound.perform a
  · refine .inr ⟨none, ?_⟩
    cases a with
    | inputUnitWakeup p => exact ⟨p, rfl⟩
    | vcAllocatorWakeup r =>
      obtain ⟨_, _, ok, _⟩ := sound.vcAllocatorWakeup r
      cases ok.symm.trans none
    | swAllocatorWakeup r =>
      obtain ⟨_, _, ok, _⟩ := sound.swAllocatorWakeup r
      cases ok.symm.trans none
    | _ => cases none
  · exact .inl ⟨s', ok⟩

/-- The packet to node 2 has its output VC and waits for the switch. -/
theorem steps_succeed_fork : ∃ s s', Reachable (network fork) s ∧
    s.wantsSwitch ⟨⟨0, 0⟩, 0⟩ = true ∧ s.perform (.swAllocatorWakeup 0) = .ok s' := by
  have check : ((onePacket ++ nextPacket ++ [Action.tick]).foldlM NetState.perform
      idleFork).toOption.any
      (fun s : NetState fork => s.wantsSwitch ⟨⟨0, 0⟩, 0⟩) = true := by
    decide +kernel
  obtain ⟨s, reach, wants⟩ := foldlM_check NetState.Initial (fun _ _ _ => trivial)
    idleFork_initial check
  obtain ⟨s', done⟩ | ⟨_, _, same⟩ := steps_succeed reach (.swAllocatorWakeup 0)
  · exact ⟨s, s', reach, wants, done⟩
  · cases same

end SynchroTrace.Garnet
