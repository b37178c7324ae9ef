import SynchroTrace.Garnet.Endpoints

namespace SynchroTrace.Garnet
open List PriorityQueue NetState Channel PortId RoundRobin
open Function (update update_of_ne update_self)

variable {cfg : Config} {s s' : NetState cfg} {G : Channels} {x y : VcId}

theorem FlitBuffer.advanceTop_cons {m : Machines} {b : FlitBuffer m} {f : Flit m}
    {rest : List (Flit m)} (items : b.items = f :: rest) (stage : FlitStage) (now : Nat) :
    ∃ b', b.advanceTop stage now = .ok b' ∧ b'.items = f.advanceStage stage now :: rest := by
  unfold advanceTop
  split
  · rename_i empty
    rw [items] at empty
    cases empty
  · rename_i g others eq
    rw [items] at eq
    cases eq
    exact ⟨_, rfl, rfl⟩

theorem FlitBuffer.advanceTop_ok {m : Machines} {b b' : FlitBuffer m} {stage : FlitStage} {now : Nat}
    (h : b.advanceTop stage now = .ok b') :
    ∃ f rest, b.items = f :: rest ∧ b'.items = f.advanceStage stage now :: rest := by
  unfold advanceTop at h
  split at h
  · cases h
  · rename_i f rest eq
    cases h
    exact ⟨f, rest, eq, rfl⟩

def OutVcState.granted (out : OutVcState) (now : Nat) (x : VcId) : OutVcState :=
  { out.setState .active (now + 1) with inPort := x.port, inVc := x.vc }

structure Granted (x y : VcId) (s s' : NetState cfg) : Prop where
  vc : ∃ b : FlitBuffer cfg.machines,
    (s.inVc x).buffer.advanceTop .sa s.time = .ok b ∧ s'.inVc x = { s.inVc x with
      buffer := b, outputVc := y.vc, state := .active, stateTime := s.time + 1
      creditCount := (s.outVc y).creditCount }
  inVc : ∀ x', x' ≠ x → s'.inVc x' = s.inVc x'
  outVc : s'.outVc = update s.outVc y ((s.outVc y).granted s.time x)
  rest : s'.time = s.time ∧ s'.switchBuffer = s.switchBuffer ∧ s'.link = s.link ∧ s'.ni = s.ni

theorem grantVc_granted (h : grantVc x y s = .ok s') : Granted x y s s' := by
  unfold grantVc at h
  obtain ⟨b, advanced, h⟩ := Outcome.bind_ok h
  cases Outcome.pure_ok h
  refine ⟨⟨b, advanced, ?_⟩, ?_, rfl, rfl, rfl, rfl, rfl⟩
  · simp [updateIncredit]
  · intro x' other
    simp [updateIncredit, other]

/-- An input VC asks for an idle output VC of its output port. -/
structure Requests (s : NetState cfg) (x y : VcId) : Prop where
  waits : (s.inVc x).state = .vcAb
  idle : (s.outVc y).state = .idle
  router : y.router = x.router
  port : y.port = (s.inVc x).route

theorem Delivers.isOpen (h : Delivers s G x) (busy : (s.inVc x).state ≠ .idle) :
    (upChannel G cfg x).Open := by
  by_contra closed
  exact busy (h.idle.mpr closed)

theorem Sound.grantVc_ok (sound : Sound s G) (waits : (s.inVc x).state = .vcAb) :
    ∃ s', grantVc x y s = .ok s' := by
  have delivers := sound.delivers x
  have isOpen := delivers.isOpen (by simp [waits])
  have taken := delivers.waiting waits
  have buffered := delivers.buffered
  rw [taken, segment_cons _ isOpen.1] at buffered
  obtain ⟨f, rest, items, _⟩ := map_eq_cons_iff.mp buffered
  obtain ⟨b, advanced, _⟩ := FlitBuffer.advanceTop_cons items .sa s.time
  unfold grantVc
  rw [advanced]
  exact ⟨_, rfl⟩

theorem Sound.switch_of_idle (sound : Sound s G) (idle : (s.outVc y).state = .idle) (port : Nat) :
    (s.switchBuffer ⟨y.router, port⟩).items.filter (NetState.towards y) = [] := by
  by_cases same : port = (s.outVc y).inPort
  · subst same
    have carries := sound.carries y.toPortId.endpoint y.vc
    have nothing := carries.flight_eq_nil (sound.valid _ _) (busy_eq_false carries idle)
    simp only [NetState.flight, append_eq_nil_iff] at nothing
    exact nothing.2.2
  · exact sound.noStrays y port same

theorem Sound.granted (sound : Sound s G) (requests : Requests s x y) (granted : Granted x y s s') :
    Sound s' (update G (y.toPortId.endpoint, y.vc) ((downChannel G y).acquire
      (upChannel G cfg x).packet (upChannel G cfg x).size)) := by
  obtain ⟨waits, idle, router, port⟩ := requests
  obtain ⟨⟨b, advanced, vc⟩, inVc, outVc, time, switchBuffer, link, ni⟩ := granted
  obtain ⟨f, rest, before, after⟩ := FlitBuffer.advanceTop_ok advanced
  have carries := sound.carries y.toPortId.endpoint y.vc
  have valid := sound.valid y.toPortId.endpoint y.vc
  have free := busy_eq_false carries idle
  have delivers := sound.delivers x
  have isOpen := delivers.isOpen (by simp [waits])
  have busy := (sound.valid (cfg.upstream x.toPortId.endpoint) x.vc).busy_of_taken_lt isOpen.2
  have other : (cfg.upstream x.toPortId.endpoint, x.vc) ≠ (y.toPortId.endpoint, y.vc) := by
    intro eq
    rw [eq, free] at busy
    cases busy
  have up : upChannel (update G (y.toPortId.endpoint, y.vc) ((downChannel G y).acquire
      (upChannel G cfg x).packet (upChannel G cfg x).size)) cfg x = upChannel G cfg x :=
    update_of_ne other _ _
  have outOther : ∀ z, z ≠ y → s'.outVc z = s.outVc z := by
    intro z ne
    rw [outVc, update_of_ne ne]
  refine sound.of_channels ?_ ?_ ?_ ?_ ?_
  · intro q w
    by_cases here : (q, w) = (y.toPortId.endpoint, y.vc)
    · right
      cases here
      rw [update_self]
      refine ⟨valid.acquire free _ _, carries.acquire valid free _ _ ?_ ?_ (by rw [link]) ?_,
        (sound.records _ _).acquire carries valid free _ _ (by rw [link])⟩
      · simp [NetState.out, endpoint, outVc, OutVcState.granted]
      · simp [NetState.out, endpoint, outVc, OutVcState.granted]
      · simp only [NetState.crossing, endpoint, switchBuffer]
        exact sound.switch_of_idle idle _
    · left
      rw [update_of_ne here]
      refine ⟨?_, rfl⟩
      cases q with
      | ni n =>
        refine unmoved_of_link ?_ rfl ?_
        · simp only [NetState.out, ni]
        · rw [link]
          exact Link.SameOn.refl w _
      | router r o =>
        have same : s'.outVc ⟨⟨r, o⟩, w⟩ = s.outVc ⟨⟨r, o⟩, w⟩ :=
          outOther _ fun eq => here (by rw [← eq]; rfl)
        refine unmoved_of_link ?_ ?_ ?_
        · simp only [NetState.out, same]
        · simp only [NetState.crossing, same, switchBuffer]
        · rw [link]
          exact Link.SameOn.refl w _
  · intro x'
    by_cases here : x' = x
    · subst here
      have bound : s'.boundTo x' = y := by
        simp only [boundTo, vc, ← port, ← router]
      refine ⟨?_, ?_, ?_, ?_⟩
      · rw [up, vc, ← delivers.buffered, before, after]
        rfl
      · rw [up, vc]
        simp [isOpen]
      · simp [vc]
      · intro _
        rw [bound, up, downChannel, update_self]
        refine ⟨?_, rfl, rfl, rfl, (delivers.waiting waits).symm⟩
        simp [NetState.holder, outVc, OutVcState.granted, router]
    · refine (sound.delivers x').acquire valid free _ _ (inVc x' here) fun z ne => ?_
      rw [NetState.holder, NetState.holder, outOther z fun eq => ne (by rw [eq])]
  · refine sound.interfaces.congr (fun _ => by rw [ni]) ?_ ?_
    · intro n w
      rw [update_of_ne (by simp [endpoint])]
      exact ⟨rfl, rfl, rfl⟩
    · intro n w
      by_cases here : (cfg.upstream (.ni n), w) = (y.toPortId.endpoint, y.vc)
      · rw [here, update_self]
        rfl
      · rw [update_of_ne here]
        exact sound.interfaces.taken n w
  · refine sound.timely.of_moves time ?_ ?_ ?_ ?_
    · rw [switchBuffer]
      exact fun _ _ => .inl
    · rw [link]
      exact fun _ _ => .inl
    · rw [link]
      exact fun _ _ => id
    · intro x' g member
      by_cases here : x' = x
      · subst here
        rw [vc, after] at member
        rw [before]
        obtain rfl | member := mem_cons.mp member
        · exact ⟨f, mem_cons_self, rfl⟩
        · exact ⟨g, mem_cons_of_mem _ member, rfl⟩
      · rw [inVc x' here] at member
        exact ⟨g, member, rfl⟩
  · intro z p ne
    rw [switchBuffer]
    by_cases here : z = y
    · subst here
      exact sound.switch_of_idle idle p
    · rw [outOther z here] at ne
      exact sound.noStrays z p ne

section Passage
variable {f : Flit cfg.machines} {rest : List (Flit cfg.machines)}

def Flit.passing {m : Machines} (f : Flit m) (y : VcId) (now : Nat) : Flit m :=
  { f.advanceStage .st now with vc := y.vc, outport := y.port, time := now + 1 }

structure Sent (x : VcId) (f : Flit cfg.machines) (s s' : NetState cfg) : Prop where
  buffer : (s'.inVc x).buffer = (s.inVc x).buffer.pop
  credits : (s'.inVc x).creditCount = (s.outVc (s.boundTo x)).creditCount - 1
  state : (s'.inVc x).state = if f.isTail then .idle else (s.inVc x).state
  route : (s'.inVc x).route = (s.inVc x).route
  outputVc : (s'.inVc x).outputVc = (s.inVc x).outputVc
  inVc : ∀ x', x' ≠ x → s'.inVc x' = s.inVc x'
  outVc : s'.outVc = update s.outVc (s.boundTo x) (s.outVc (s.boundTo x)).decrementCredit
  switchBuffer : s'.switchBuffer = update s.switchBuffer x.toPortId
    ((s.switchBuffer x.toPortId).insert (f.passing (s.boundTo x) s.time))
  link : s'.link = update s.link (cfg.upstream x.toPortId.endpoint)
    { s.link (cfg.upstream x.toPortId.endpoint) with
      creditQueue := (s.link (cfg.upstream x.toPortId.endpoint)).creditQueue.insert
        { vc := x.vc, isFreeSignal := f.isTail, time := s.time } }
  rest : s'.time = s.time ∧ s'.ni = s.ni

theorem sendFlit_sent (items : (s.inVc x).buffer.items = f :: rest)
    (holder : s.holder (s.boundTo x) = x) (whole : f.isTail = true → rest = []) :
    ∃ s', sendFlit x (s.inVc x).route s = .ok s' ∧ Sent x f s s' := by
  have empty : f.isTail = true → FlitBuffer.ready? (s.inVc x).buffer.pop s.time = none := by
    intro tail
    simp [FlitBuffer.ready?, items, whole tail]
  unfold sendFlit
  dsimp only
  rw [items]
  dsimp only
  generalize out_eq : setOutVc (updateIncredit _ _ _) _ _ = out
  have vcs : out.inVc = update s.inVc x
      { s.inVc x with
        buffer := (s.inVc x).buffer.pop
        creditCount := (s.outVc (s.boundTo x)).creditCount - 1 } := by
    subst out_eq
    change (updateIncredit _ (s.holder (s.boundTo x)) _).inVc = _
    rw [holder]
    simp [updateIncredit, setInVc, boundTo]
  have same : out.outVc = update s.outVc (s.boundTo x)
      (s.outVc (s.boundTo x)).decrementCredit ∧ out.switchBuffer = s.switchBuffer ∧
      out.link = s.link ∧ out.time = s.time ∧ out.ni = s.ni := by
    subst out_eq
    exact ⟨rfl, rfl, rfl, rfl, rfl⟩
  clear out_eq
  obtain ⟨outVc, switchBuffer, link, time, ni⟩ := same
  rw [switchBuffer, time]
  generalize back_eq : returnCredit _ _ _ _ = back
  have inVc : back.inVc = out.inVc := by
    subst back_eq
    rfl
  have links : back.link = update s.link (cfg.upstream x.toPortId.endpoint)
      { s.link (cfg.upstream x.toPortId.endpoint) with
        creditQueue := (s.link (cfg.upstream x.toPortId.endpoint)).creditQueue.insert
          { vc := x.vc, isFreeSignal := f.isTail, time := s.time } } := by
    subst back_eq
    funext q
    by_cases here : q = cfg.upstream x.toPortId.endpoint <;>
      simp [returnCredit, link, time, here]
  have same : back.outVc = out.outVc ∧ back.switchBuffer = update s.switchBuffer x.toPortId
        ((s.switchBuffer x.toPortId).insert (f.passing (s.boundTo x) s.time)) ∧
      back.time = s.time ∧ back.ni = s.ni := by
    subst back_eq
    refine ⟨rfl, ?_, time, ni⟩
    funext q
    simp [returnCredit, switchBuffer, Flit.passing, boundTo]
  clear back_eq
  obtain ⟨outVc', switchBuffer', time', ni'⟩ := same
  rw [time']
  by_cases tail : f.isTail = true
  · simp only [tail, ↓reduceIte, empty tail, Option.isSome_none, Bool.false_eq_true]
    refine ⟨_, rfl, ?_⟩
    constructor
    · simp [inVc, vcs]
    · simp [inVc, vcs]
    · simp [tail]
    · simp [inVc, vcs]
    · simp [inVc, vcs]
    · intro x' other
      simp [inVc, vcs, other]
    · exact outVc'.trans outVc
    · exact switchBuffer'
    · exact links
    · exact ⟨time', ni'⟩
  · simp only [tail, ↓reduceIte, Bool.false_eq_true]
    refine ⟨_, rfl, ?_⟩
    constructor
    · simp [inVc, vcs]
    · simp [inVc, vcs]
    · simp [inVc, vcs, tail]
    · simp [inVc, vcs]
    · simp [inVc, vcs]
    · intro x' other
      simp [inVc, vcs, other]
    · exact outVc'.trans outVc
    · exact switchBuffer'
    · exact links
    · exact ⟨time', ni'⟩

/-- What the first flit of an input VC says of the VC's channel. -/
structure Front (f : Flit cfg.machines) (rest : List (Flit cfg.machines))
    (c : Channel.State PacketId) : Prop where
  less : c.taken < c.arrived
  piece : f.piece = (c.packet, c.size, c.taken)
  others : rest.map Flit.piece = Channel.segment c.packet c.size (c.taken + 1) c.arrived
  tail : f.isTail = c.atLast
  whole : f.isTail = true → rest = []

theorem Sound.front (sound : Sound s G) (items : (s.inVc x).buffer.items = f :: rest) :
    Front f rest (upChannel G cfg x) := by
  have buffered := (sound.delivers x).buffered
  rw [items, map_cons] at buffered
  obtain ⟨less, piece, others⟩ := cons_eq_segment buffered
  have valid := sound.valid (cfg.upstream x.toPortId.endpoint) x.vc
  have arrived : (upChannel G cfg x).arrived ≤ (upChannel G cfg x).size :=
    valid.arrived_le.trans valid.sent_le
  have tail : f.isTail = (upChannel G cfg x).atLast := by
    have size : f.size = (upChannel G cfg x).size := congrArg (·.2.1) piece
    have number : f.id = (upChannel G cfg x).taken := congrArg (·.2.2) piece
    rw [Bool.eq_iff_iff, Flit.isTail_iff (by omega)]
    simp [Channel.State.atLast, size, number]
  refine ⟨less, piece, others, tail, fun isTail => ?_⟩
  rw [tail] at isTail
  simp only [Channel.State.atLast, decide_eq_true_eq] at isTail
  rwa [segment_eq_nil_iff.mpr (by omega), map_eq_nil_iff] at others

def sentChannels (s : NetState cfg) (G : Channels) (x : VcId) : Channels :=
  update (update G ((s.boundTo x).toPortId.endpoint, (s.boundTo x).vc)
    (downChannel G (s.boundTo x)).send) (cfg.upstream x.toPortId.endpoint, x.vc)
    (upChannel G cfg x).take

namespace Sent
variable (sent : Sent x f s s')
include sent

theorem outVc_ne {z : VcId} (ne : z ≠ s.boundTo x) : s'.outVc z = s.outVc z := by
  rw [sent.outVc, update_of_ne ne]

theorem holder (z : VcId) : s'.holder z = s.holder z := by
  by_cases here : z = s.boundTo x
  · subst here
    simp [NetState.holder, sent.outVc]
  · simp only [NetState.holder, sent.outVc_ne here]

theorem switch {z : VcId} (ne : z ≠ s.boundTo x) (port : Nat) :
    (s'.switchBuffer ⟨z.router, port⟩).items.filter (NetState.towards z) =
      (s.switchBuffer ⟨z.router, port⟩).items.filter (NetState.towards z) := by
  rw [sent.switchBuffer]
  by_cases here : (⟨z.router, port⟩ : PortId) = x.toPortId
  · have passing : NetState.towards (s.boundTo x) (f.passing (s.boundTo x) s.time) = true := by
      simp [NetState.towards, Flit.passing]
    rw [here, update_self]
    refine filter_insert_of_false (towards_of_ne passing ?_ ne) _
    exact congrArg (·.router) here
  · rw [update_of_ne here]

theorem upstream_end {q : Endpoint} {w : Nat}
    (ne : (q, w) ≠ ((s.boundTo x).toPortId.endpoint, (s.boundTo x).vc)) :
    s'.out q w = s.out q w ∧ s'.crossing q w = s.crossing q w := by
  cases q with
  | ni n => exact ⟨by simp only [NetState.out, sent.rest.2], rfl⟩
  | router r o =>
    have apart : (⟨⟨r, o⟩, w⟩ : VcId) ≠ s.boundTo x := fun eq => ne (by rw [← eq]; rfl)
    refine ⟨?_, ?_⟩
    · simp only [NetState.out, sent.outVc_ne apart]
    · simp only [NetState.crossing, sent.outVc_ne apart]
      exact sent.switch apart _

theorem buffers (q : Endpoint) : (s'.link q).linkBuffer = (s.link q).linkBuffer ∧
    (s'.link q).srcQueue = (s.link q).srcQueue ∧ (s'.link q).carried = (s.link q).carried := by
  rw [sent.link]
  by_cases here : q = cfg.upstream x.toPortId.endpoint
  · subst here
    simp
  · simp [here]

theorem sameOn {q : Endpoint} {w : Nat} (ne : (q, w) ≠ (cfg.upstream x.toPortId.endpoint, x.vc)) :
    (s.link q).SameOn w (s'.link q) := by
  rw [sent.link]
  by_cases here : q = cfg.upstream x.toPortId.endpoint
  · subst here
    rw [update_self]
    exact Link.creditQueue_insert_sameOn _ fun eq => ne (by rw [← eq])
  · rw [update_of_ne here]
    exact Link.SameOn.refl w _

theorem timely (before : Timely s) : Timely s' := by
  refine before.of_moves sent.rest.1 ?_ ?_ ?_ ?_
  · intro p g member
    rw [sent.switchBuffer] at member
    by_cases here : p = x.toPortId
    · subst here
      rw [update_self] at member
      obtain rfl | old := mem_insert.mp member
      · exact .inr rfl
      · exact .inl old
    · rw [update_of_ne here] at member
      exact .inl member
  · intro q g member
    rw [(sent.buffers q).2.1] at member
    exact .inl member
  · intro q g member
    rwa [(sent.buffers q).1] at member
  · intro x' g member
    by_cases here : x' = x
    · subst here
      rw [sent.buffer] at member
      exact ⟨g, mem_of_mem_tail member, rfl⟩
    · rw [sent.inVc x' here] at member
      exact ⟨g, member, rfl⟩

theorem carries_up {c : Channel.State PacketId} (front : Front f rest c)
    (h : Carries s (cfg.upstream x.toPortId.endpoint) x.vc c)
    (ne : (cfg.upstream x.toPortId.endpoint, x.vc) ≠ ((s.boundTo x).toPortId.endpoint,
      (s.boundTo x).vc)) :
    Carries s' (cfg.upstream x.toPortId.endpoint) x.vc c.take := by
  obtain ⟨out, crossing⟩ := sent.upstream_end ne
  obtain ⟨linkBuffer, srcQueue, _⟩ := sent.buffers (cfg.upstream x.toPortId.endpoint)
  obtain ⟨plain, freeing⟩ := credits_insert (s := s) (t := s')
    (p := cfg.upstream x.toPortId.endpoint)
    (c := { vc := x.vc, isFreeSignal := f.isTail, time := s.time }) (by simp [sent.link])
    (by simp [sent.link])
  refine ⟨?_, ?_, ?_, ?_, ?_⟩
  · rw [out]
    exact h.state
  · rw [out]
    exact h.credits
  · rw [NetState.flight, linkBuffer, srcQueue, crossing]
    exact h.flight
  · rw [plain, h.plain]
    simp [front.tail]
  · rw [freeing, h.freeing]
    simp [front.tail]

theorem carries_down {c d : Channel.State PacketId} {depth : Nat} (front : Front f rest c)
    (passes : Passes c d) (valid : d.Valid depth) (timely : Timely s)
    (holder : s.holder (s.boundTo x) = x)
    (h : Carries s (s.boundTo x).toPortId.endpoint (s.boundTo x).vc d)
    (ne : ((s.boundTo x).toPortId.endpoint, (s.boundTo x).vc) ≠ (cfg.upstream x.toPortId.endpoint,
      x.vc)) :
    Carries s' (s.boundTo x).toPortId.endpoint (s.boundTo x).vc d.send := by
  obtain ⟨linkBuffer, srcQueue, _⟩ := sent.buffers (s.boundTo x).toPortId.endpoint
  obtain ⟨plain, freeing⟩ := (sent.sameOn ne).counts
  have inPort : (s.outVc (s.boundTo x)).inPort = x.port := congrArg (·.port) holder
  have number : f.id = d.sent := (congrArg (·.2.2) front.piece).trans passes.sent.symm
  have order : ∀ g ∈ (s.switchBuffer x.toPortId).items, NetState.towards (s.boundTo x) g = true →
      g.Before (f.passing (s.boundTo x) s.time) := by
    intro g member towards
    have time := timely.switchBuffer _ g member
    have inFlight : g ∈ s.flight (s.boundTo x).toPortId.endpoint (s.boundTo x).vc := by
      simp only [NetState.flight, NetState.crossing, endpoint, mem_append, mem_filter]
      rw [inPort]
      exact .inr (.inr ⟨member, towards⟩)
    have bound := (h.bounds inFlight).2.1
    unfold Flit.Before Flit.passing
    dsimp only [Flit.advanceStage]
    omega
  have crossing : s'.crossing (s.boundTo x).toPortId.endpoint (s.boundTo x).vc =
      s.crossing (s.boundTo x).toPortId.endpoint (s.boundTo x).vc ++
        [f.passing (s.boundTo x) s.time] := by
    have inPort' : (s'.outVc (s.boundTo x)).inPort = x.port :=
      (congrArg (·.port) (sent.holder (s.boundTo x))).trans inPort
    simp only [NetState.crossing, endpoint]
    rw [inPort, inPort', sent.switchBuffer]
    change List.filter _ (update s.switchBuffer x.toPortId _ x.toPortId).items =
      List.filter _ (s.switchBuffer x.toPortId).items ++ _
    rw [update_self]
    exact filter_insert (by simp [NetState.towards, Flit.passing]) order
  refine ⟨?_, ?_, ?_, plain.trans h.plain, freeing.trans h.freeing⟩
  · simpa [NetState.out, endpoint, sent.outVc] using h.state
  · have credits := h.credits
    simp only [NetState.out, endpoint] at credits
    simp [NetState.out, endpoint, sent.outVc, credits]
  · have flight := h.flight
    rw [NetState.flight, linkBuffer, srcQueue, crossing, ← append_assoc, ← append_assoc,
      map_append, append_assoc]
    change List.map _ (s.flight _ _) ++ _ = _
    rw [flight, Channel.State.send_packet, Channel.State.send_size, Channel.State.send_arrived,
      Channel.State.send_sent, segment_concat _ valid.arrived_le, passes.packet, passes.size,
      passes.sent, ← front.piece]
    rfl

theorem delivers {G G' : Channels}
    (items : (s.inVc x).buffer.items = f :: rest) (front : Front f rest (upChannel G cfg x))
    (h : Delivers s G x) (isOpen : (upChannel G cfg x).Open) (active : (s.inVc x).state = .active)
    (up : upChannel G' cfg x = (upChannel G cfg x).take)
    (down : downChannel G' (s.boundTo x) = (downChannel G (s.boundTo x)).send) :
    Delivers s' G' x := by
  obtain ⟨holder, passes⟩ := h.active active
  have bound : s'.boundTo x = s.boundTo x := by
    simp only [boundTo, sent.route, sent.outputVc]
  have state := sent.state
  rw [active, front.tail] at state
  refine ⟨?_, ?_, ?_, ?_⟩
  · rw [sent.buffer, up, pop_items, items]
    exact front.others
  · have size := isOpen.2
    rw [up, state]
    by_cases last : (upChannel G cfg x).taken + 1 = (upChannel G cfg x).size
    · simp [Channel.State.atLast, Channel.State.Open, last]
    · have more : (upChannel G cfg x).taken + 1 < (upChannel G cfg x).size := by omega
      simp [Channel.State.atLast, Channel.State.Open, last, more, isOpen.1]
  · rw [state]
    split <;> simp
  · intro _
    rw [bound, up, down, sent.holder]
    exact ⟨holder, passes.busy, passes.packet, passes.size, congrArg (· + 1) passes.sent⟩

end Sent

theorem endpoint_injective {y z : VcId}
    (same : (y.toPortId.endpoint, y.vc) = (z.toPortId.endpoint, z.vc)) : y = z := by
  obtain ⟨⟨r, o⟩, w⟩ := y
  obtain ⟨⟨r', o'⟩, w'⟩ := z
  cases same
  rfl

theorem sentChannels_cases (s : NetState cfg) (G : Channels) (x : VcId) (key : Endpoint × Nat) :
    key = (cfg.upstream x.toPortId.endpoint, x.vc) ∧
        sentChannels s G x key = (upChannel G cfg x).take ∨
      key = ((s.boundTo x).toPortId.endpoint, (s.boundTo x).vc) ∧
        sentChannels s G x key = (downChannel G (s.boundTo x)).send ∨
      sentChannels s G x key = G key := by
  by_cases here : key = (cfg.upstream x.toPortId.endpoint, x.vc)
  · subst here
    exact .inl ⟨rfl, update_self ..⟩
  by_cases there : key = ((s.boundTo x).toPortId.endpoint, (s.boundTo x).vc)
  · refine .inr (.inl ⟨there, ?_⟩)
    rw [sentChannels, update_of_ne here, there, update_self]
  · refine .inr (.inr ?_)
    rw [sentChannels, update_of_ne here, update_of_ne there]

theorem Sound.sent (sound : Sound s G) (active : (s.inVc x).state = .active)
    (items : (s.inVc x).buffer.items = f :: rest) (sent : Sent x f s s') :
    Sound s' (sentChannels s G x) := by
  have front := sound.front items
  obtain ⟨holder, passes⟩ := (sound.delivers x).active active
  have isOpen := (sound.delivers x).isOpen (by simp [active])
  have validUp := sound.valid (cfg.upstream x.toPortId.endpoint) x.vc
  have validDown := sound.valid (s.boundTo x).toPortId.endpoint (s.boundTo x).vc
  have other : ((s.boundTo x).toPortId.endpoint, (s.boundTo x).vc) ≠
      (cfg.upstream x.toPortId.endpoint, x.vc) := by
    intro eq
    have same : downChannel G (s.boundTo x) = upChannel G cfg x := by
      rw [downChannel, eq, upChannel]
    have sent := same ▸ passes.sent
    have arrived : (upChannel G cfg x).arrived ≤ (upChannel G cfg x).sent := validUp.arrived_le
    have less := front.less
    omega
  have up : sentChannels s G x (cfg.upstream x.toPortId.endpoint, x.vc) =
      (upChannel G cfg x).take := update_self ..
  have down : sentChannels s G x ((s.boundTo x).toPortId.endpoint, (s.boundTo x).vc) =
      (downChannel G (s.boundTo x)).send := by
    rw [sentChannels, update_of_ne other, update_self]
  refine sound.of_channels ?_ ?_ ?_ (sent.timely sound.timely) ?_
  · intro q w
    by_cases here : (q, w) = (cfg.upstream x.toPortId.endpoint, x.vc)
    · right
      cases here
      rw [up]
      exact ⟨validUp.take front.less, sent.carries_up front (sound.carries _ _) other.symm,
        (sound.records _ _).congr (sent.buffers _).2.2 rfl rfl (by rw [(sent.buffers _).1]; rfl)⟩
    by_cases there : (q, w) = ((s.boundTo x).toPortId.endpoint, (s.boundTo x).vc)
    · right
      cases there
      rw [down]
      have less : (downChannel G (s.boundTo x)).sent < (downChannel G (s.boundTo x)).size := by
        rw [passes.sent, passes.size]
        exact isOpen.2
      exact ⟨validDown.send less, sent.carries_down front passes validDown sound.timely holder
        (sound.carries _ _) other, (sound.records _ _).congr (sent.buffers _).2.2 rfl rfl
          (by rw [(sent.buffers _).1]; rfl)⟩
    · left
      rw [sentChannels, update_of_ne here, update_of_ne there]
      obtain ⟨out, crossing⟩ := sent.upstream_end there
      exact ⟨unmoved_of_link out crossing (sent.sameOn here), rfl⟩
  · intro x'
    by_cases here : x' = x
    · subst here
      exact sent.delivers items front (sound.delivers x') isOpen active up down
    · -- no other input VC is bound to the same output VC
      refine (sound.delivers x').congr ?_ ?_ fun active' => ⟨sent.holder _, ?_⟩
      · rw [sent.inVc x' here]
        exact SameVc.refl _
      · rw [upChannel, upChannel, sentChannels,
          update_of_ne fun eq => here (upChannel_injective eq)]
        exact SameSink.update (c := Channel.State.send _) ⟨rfl, rfl, rfl, rfl⟩ _
      · have apart : s.boundTo x' ≠ s.boundTo x := by
          intro eq
          have held := ((sound.delivers x').active active').1
          rw [eq, holder] at held
          exact here held.symm
        obtain ⟨eq, took⟩ | ⟨eq, _⟩ | same :=
          sentChannels_cases s G x ((s.boundTo x').toPortId.endpoint, (s.boundTo x').vc)
        · rw [downChannel, downChannel, took, eq]
          exact ⟨rfl, rfl, rfl, rfl⟩
        · exact absurd (endpoint_injective eq) apart
        · rw [downChannel, downChannel, same]
          exact SameSource.refl _
  · refine sound.interfaces.congr (fun _ => by rw [sent.rest.2]) ?_ ?_
    · intro n w
      obtain ⟨eq, took⟩ | ⟨eq, _⟩ | same := sentChannels_cases s G x (.ni n, w)
      · rw [took, eq]
        exact ⟨rfl, rfl, rfl⟩
      · simp [endpoint] at eq
      · rw [same]
        exact ⟨rfl, rfl, rfl⟩
    · intro n w
      have taken := sound.interfaces.taken n w
      obtain ⟨eq, _⟩ | ⟨eq, sends⟩ | same := sentChannels_cases s G x (cfg.upstream (.ni n), w)
      · have ends := cfg.upstream_injective (congrArg Prod.fst eq)
        simp [endpoint] at ends
      · rw [eq] at taken
        rw [sends]
        exact taken
      · rw [same]
        exact taken
  · intro z port ne
    by_cases here : z = s.boundTo x
    · subst here
      have inPort : (s.outVc (s.boundTo x)).inPort = x.port := congrArg (·.port) holder
      have inPort' : (s'.outVc (s.boundTo x)).inPort = (s.outVc (s.boundTo x)).inPort :=
        congrArg (·.port) (sent.holder (s.boundTo x))
      rw [inPort'] at ne
      rw [sent.switchBuffer, update_of_ne]
      · exact sound.noStrays _ port ne
      · exact fun eq => ne ((congrArg (·.port) eq).trans inPort.symm)
    · rw [sent.switch here]
      exact sound.noStrays z port (by rwa [sent.outVc_ne here] at ne)

end Passage

section VcAllocator

theorem vcsOf_nodup (r ports : Nat) : (vcsOf cfg r ports).Nodup := by
  refine nodup_flatMap.mpr ⟨fun port _ => ?_, ?_⟩
  · exact nodup_range.map fun a b eq => congrArg VcId.vc eq
  · refine nodup_range.imp fun {a b} ne => ?_
    intro x first second
    simp only [mem_map] at first second
    obtain ⟨_, _, rfl⟩ := first
    obtain ⟨_, _, eq⟩ := second
    exact ne (congrArg (·.port) eq).symm

theorem requestOf_requests (h : s.requestOf x = some y) : Requests s x y := by
  unfold requestOf at h
  split at h
  · rename_i wants
    simp only [wantsVc, VirtualChannel.needStage, Bool.and_eq_true, decide_eq_true_eq]
      at wants
    obtain ⟨offset, found, rfl⟩ := Option.map_eq_some_iff.mp h
    have idle := search_test found
    simp only [OutVcState.isInState, decide_eq_true_eq] at idle
    exact ⟨wants.1.2.1, idle.1, rfl, rfl⟩
  · cases h

theorem mem_arbitrateInvcs {r : Nat} (h : (x, y) ∈ (arbitrateInvcs r s).1) :
    s.requestOf x = some y := by
  simp only [arbitrateInvcs, mem_filterMap, Option.map_eq_some_iff, Prod.mk.injEq] at h
  obtain ⟨_, _, _, requested, rfl, rfl⟩ := h
  exact requested

variable {P : NetState cfg → Prop}
  (pointers : ∀ (s : NetState cfg) (next : Pointers), P s → P { s with pointers := next })

include pointers

variable (grant : ∀ s x y, P s → Requests s x y → ∃ s', grantVc x y s = .ok s' ∧ P s')
include grant

variable {requests : List (VcId × VcId)}

theorem grantOutvc_step (single : ∀ x y y', (x, y) ∈ requests → (x, y') ∈ requests → y = y')
    (start : P s) (ready : ∀ x, (x, y) ∈ requests → Requests s x y) :
    ∃ s', grantOutvc requests s y = .ok s' ∧ P s' ∧
      ∀ x z, (x, z) ∈ requests → z ≠ y → Requests s x z → Requests s' x z := by
  have kept : ∀ (next : Pointers) (x z : VcId), Requests s x z →
      Requests { s with pointers := next } x z := by
    rintro _ _ _ ⟨waits, idle, router, port⟩
    exact ⟨waits, idle, router, port⟩
  unfold grantOutvc
  dsimp only
  split
  · split
    · exact ⟨_, rfl, pointers _ _ start, fun x z _ _ => kept _ x z⟩
    · rename_i position found
      have asked := search_test found
      rw [decide_eq_true_eq] at asked
      obtain ⟨s', granted, inv⟩ := grant _ _ _ (pointers _ _ start) (kept _ _ _ (ready _ asked))
      refine ⟨s', granted, inv, fun x z member ne old => ?_⟩
      have effect := grantVc_granted granted
      generalize VcId.mk _ _ = grantee at asked effect
      have other : x ≠ grantee := by
        rintro rfl
        exact ne (single _ _ _ member asked)
      obtain ⟨waits, idle, router, port⟩ := old
      refine ⟨?_, ?_, router, ?_⟩
      · rw [effect.inVc x other]
        exact waits
      · rw [effect.outVc, update_of_ne ne]
        exact idle
      · rw [effect.inVc x other]
        exact port
  · exact ⟨s, rfl, start, fun _ _ _ _ old => old⟩

theorem grantOutvcs_induction (single : ∀ x y y', (x, y) ∈ requests → (x, y') ∈ requests → y = y')
    {outVcs : List VcId} (nodup : outVcs.Nodup) (start : P s)
    (ready : ∀ x y, (x, y) ∈ requests → y ∈ outVcs → Requests s x y) :
    ∃ s', outVcs.foldlM (grantOutvc requests) s = .ok s' ∧ P s' := by
  induction outVcs generalizing s with
  | nil => exact ⟨s, rfl, start⟩
  | cons y rest ih =>
    obtain ⟨fresh, nodup⟩ := nodup_cons.mp nodup
    obtain ⟨s', granted, inv, kept⟩ := grantOutvc_step pointers grant single start
      fun x member => ready x y member mem_cons_self
    rw [foldlM_cons, granted]
    refine ih nodup inv fun x z member inRest => kept x z member ?_ ?_
    · rintro rfl
      exact fresh inRest
    · exact ready x z member (mem_cons_of_mem _ inRest)

theorem vcAllocatorWakeup_induction (start : P s) (r : Nat) :
    ∃ s', vcAllocatorWakeup r s = .ok s' ∧ P s' := by
  refine grantOutvcs_induction pointers grant ?_ (vcsOf_nodup r _) (pointers _ _ start) ?_
  · intro x y y' first second
    exact Option.some_inj.mp ((mem_arbitrateInvcs first).symm.trans (mem_arbitrateInvcs second))
  · intro x y member _
    obtain ⟨waits, idle, router, port⟩ := requestOf_requests (mem_arbitrateInvcs member)
    exact ⟨waits, idle, router, port⟩

end VcAllocator

section SwAllocator

/-- An input VC that has something to send, and thinks that it may. -/
structure Sends (s : NetState cfg) (x : VcId) : Prop where
  active : (s.inVc x).state = .active
  items : (s.inVc x).buffer.items ≠ []
  credits : 0 < (s.inVc x).creditCount

theorem vcWinner_sends {p : PortId} (h : s.vcWinner p = some x) : Sends s x ∧ x.toPortId = p := by
  obtain ⟨vc, found, rfl⟩ := Option.map_eq_some_iff.mp h
  have wants := search_test found
  simp only [wantsSwitch, VirtualChannel.needStage, Bool.and_eq_true, decide_eq_true_eq]
    at wants
  obtain ⟨⟨⟨_, active, _, any⟩, credits⟩, _⟩ := wants
  refine ⟨⟨active, ?_, credits⟩, rfl⟩
  intro empty
  simp [FlitBuffer.ready?, empty] at any

theorem mem_arbitrateInports {r : Nat} (h : x ∈ (arbitrateInports r s).1) :
    s.vcWinner x.toPortId = some x := by
  simp only [arbitrateInports, mem_filterMap] at h
  obtain ⟨p, _, winner⟩ := h
  rwa [(vcWinner_sends winner).2]

theorem arbitrateInports_single {r : Nat} : ∀ x ∈ (arbitrateInports r s).1,
    ∀ x' ∈ (arbitrateInports r s).1, x.port = x'.port → x = x' := by
  have router : ∀ x ∈ (arbitrateInports r s).1, x.router = r := by
    intro x member
    simp only [arbitrateInports, mem_filterMap, mem_map] at member
    obtain ⟨_, ⟨port, _, rfl⟩, winner⟩ := member
    exact congrArg (·.router) (vcWinner_sends winner).2
  intro x member x' member' port
  have ends : x.toPortId = x'.toPortId := by
    have same := (router x member).trans (router x' member').symm
    obtain ⟨⟨_, _⟩, _⟩ := x
    obtain ⟨⟨_, _⟩, _⟩ := x'
    cases same
    cases port
    rfl
  have winner := mem_arbitrateInports member
  rw [ends, mem_arbitrateInports member'] at winner
  exact (Option.some_inj.mp winner).symm

theorem grantee_winner {r outport : Nat} {winners : List VcId} {route : VcId → Nat}
    (single : ∀ x ∈ winners, ∀ x' ∈ winners, x.port = x'.port → x = x')
    (h : s.grantee r winners route outport = some x) : x ∈ winners ∧ route x = outport := by
  obtain ⟨port, found, first⟩ := Option.bind_eq_some_iff.mp h
  have wanted := search_test found
  obtain ⟨x', member', wanted⟩ := any_eq_true.mp wanted
  simp only [Bool.and_eq_true, decide_eq_true_eq] at wanted
  have member := List.mem_of_find?_eq_some first
  have port_eq := List.find?_some first
  rw [decide_eq_true_eq] at port_eq
  have same := single x member x' member' (port_eq.trans wanted.1.symm)
  exact ⟨member, same ▸ wanted.2⟩

variable {P : NetState cfg → Prop}
  (pointers : ∀ (s : NetState cfg) (next : Pointers), P s → P { s with pointers := next })
  (send : ∀ s x, P s → Sends s x → ∃ s', sendFlit x (s.inVc x).route s = .ok s' ∧ P s' ∧
    ∀ x', x' ≠ x → s'.inVc x' = s.inVc x')

include pointers send

theorem grantOutports_induction (start : P s) (r k : Nat) :
    ∃ s', (List.range k).foldlM (grantOutport r (arbitrateInports r s).1 fun x => (s.inVc x).route)
        (arbitrateInports r s).2 = .ok s' ∧ P s' ∧
      ∀ x ∈ (arbitrateInports r s).1, k ≤ (s.inVc x).route → s'.inVc x = s.inVc x := by
  induction k with
  | zero => exact ⟨_, rfl, pointers _ _ start, fun _ _ _ => rfl⟩
  | succ k ih =>
    obtain ⟨s₁, served, inv, kept⟩ := ih
    suffices step : ∃ s', grantOutport r (arbitrateInports r s).1 (fun x => (s.inVc x).route) s₁ k =
        .ok s' ∧ P s' ∧
        ∀ x ∈ (arbitrateInports r s).1, k + 1 ≤ (s.inVc x).route → s'.inVc x = s.inVc x by
      obtain ⟨s', granted, rest⟩ := step
      refine ⟨s', ?_, rest⟩
      rw [range_succ, foldlM_append, served]
      exact (bind_pure _).trans granted
    unfold grantOutport
    dsimp only
    generalize Pointers.mk _ _ _ _ = next
    split
    · exact ⟨_, rfl, pointers _ _ inv, fun x member later => kept x member (by omega)⟩
    · rename_i x granted
      obtain ⟨member, route⟩ := grantee_winner arbitrateInports_single granted
      have same := kept x member route.ge
      have sends := (vcWinner_sends (mem_arbitrateInports member)).1
      obtain ⟨s', sent, inv', others⟩ := send _ x (pointers s₁ next inv)
        ⟨same ▸ sends.active, same ▸ sends.items, same ▸ sends.credits⟩
      refine ⟨s', ?_, inv', fun x' member' later => ?_⟩
      · rw [← route, ← same]
        exact sent
      · have ne : x' ≠ x := by
          rintro rfl
          omega
        rw [others x' ne]
        exact kept x' member' (by omega)

theorem swAllocatorWakeup_induction (start : P s) (r : Nat) :
    ∃ s', swAllocatorWakeup r s = .ok s' ∧ P s' := by
  obtain ⟨s', served, inv, _⟩ := grantOutports_induction pointers send start r (cfg.numOutports r)
  exact ⟨s', served, inv⟩

end SwAllocator

section Network
open Transition

theorem Sound.grantVc (sound : Sound s G) (requests : Requests s x y) :
    ∃ s' G, grantVc x y s = .ok s' ∧ Granted x y s s' ∧ Sound s' G := by
  obtain ⟨s', granted⟩ := sound.grantVc_ok requests.waits
  have effect := grantVc_granted granted
  exact ⟨s', _, granted, effect, sound.granted requests effect⟩

theorem Sound.sendFlit (sound : Sound s G) (sends : Sends s x) :
    ∃ s' f G, sendFlit x (s.inVc x).route s = .ok s' ∧ Sent x f s s' ∧ Sound s' G := by
  obtain ⟨f, rest, items⟩ := exists_cons_of_ne_nil sends.items
  obtain ⟨s', sent, effect⟩ := sendFlit_sent items ((sound.delivers x).active sends.active).1
    (sound.front items).whole
  exact ⟨s', f, _, sent, effect, sound.sent sends.active items effect⟩

theorem Sound.vcAllocatorWakeup (sound : Sound s G) (r : Nat) :
    ∃ s' G, vcAllocatorWakeup r s = .ok s' ∧ Sound s' G := by
  obtain ⟨s', done, G', sound'⟩ := vcAllocatorWakeup_induction (P := fun s => ∃ G, Sound s G)
    (fun _ next ⟨G, sound⟩ => ⟨G, sound.pointers next⟩)
    (fun _ _ _ ⟨_, sound⟩ requests =>
      let ⟨s', G, granted, _, sound'⟩ := sound.grantVc requests
      ⟨s', granted, G, sound'⟩) ⟨G, sound⟩ r
  exact ⟨s', G', done, sound'⟩

theorem Sound.swAllocatorWakeup (sound : Sound s G) (r : Nat) :
    ∃ s' G, swAllocatorWakeup r s = .ok s' ∧ Sound s' G := by
  obtain ⟨s', done, G', sound'⟩ := swAllocatorWakeup_induction (P := fun s => ∃ G, Sound s G)
    (fun _ next ⟨G, sound⟩ => ⟨G, sound.pointers next⟩)
    (fun _ _ ⟨_, sound⟩ sends =>
      let ⟨s', _, G, sent, effect, sound'⟩ := sound.sendFlit sends
      ⟨s', sent, ⟨G, sound'⟩, effect.inVc⟩) ⟨G, sound⟩ r
  exact ⟨s', G', done, sound'⟩

theorem Sound.perform (sound : Sound s G) (a : Action cfg.machines) :
    s.perform a = .error .noRoute ∨ ∃ s' G, s.perform a = .ok s' ∧ Sound s' G := by
  cases a with
  | tick => exact .inr ⟨_, G, rfl, sound.tick⟩
  | message n vnet msg => exact .inr ⟨_, G, rfl, sound.setNi rfl rfl⟩
  | niWakeup n =>
    obtain ⟨G', sound'⟩ := sound.niWakeup n
    exact .inr ⟨_, G', rfl, sound'⟩
  | linkWakeup p => exact .inr ⟨_, G, rfl, sound.linkWakeup p⟩
  | creditLinkWakeup p => exact .inr ⟨_, G, rfl, sound.creditLinkWakeup p⟩
  | inputUnitWakeup p => exact sound.inputUnitWakeup p
  | outputUnitWakeup p =>
    obtain ⟨G', sound'⟩ := sound.outputUnitWakeup p
    exact .inr ⟨_, G', rfl, sound'⟩
  | vcAllocatorWakeup r => exact .inr (sound.vcAllocatorWakeup r)
  | swAllocatorWakeup r => exact .inr (sound.swAllocatorWakeup r)
  | switchWakeup r => exact .inr ⟨_, G, rfl, sound.switchWakeup r⟩

theorem reachable_sound (reach : Reachable (network cfg) s) : ∃ G, Sound s G := by
  refine reach.invariant (fun s => ∃ G, Sound s G) (fun s => sound_initial) ?_
  rintro s a next _ _ ⟨G, sound⟩ taken
  obtain failed | ⟨s', G', ok, sound'⟩ := sound.perform a
  · cases failed.symm.trans taken
  · cases ok.symm.trans taken
    exact ⟨G', sound'⟩

end Network

end SynchroTrace.Garnet
