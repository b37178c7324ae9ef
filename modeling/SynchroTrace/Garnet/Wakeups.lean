import SynchroTrace.Garnet.Channels

namespace SynchroTrace.Garnet
open List PriorityQueue Function NetState Channel

variable {cfg : Config} {now w : Nat}

theorem FlitBuffer.ready?_some {m : Machines} {b : FlitBuffer m} {f : Flit m}
    (h : b.ready? now = some f) : b.items = f :: b.items.tail ∧ f.time ≤ now := by
  obtain ⟨head, due⟩ := Option.filter_eq_some_iff.mp h
  exact ⟨(List.cons_head?_tail head).symm, of_decide_eq_true due⟩

theorem CreditBuffer.ready?_some {b : CreditBuffer} {c : Credit}
    (h : b.ready? now = some c) : b.items = c :: b.items.tail := by
  obtain ⟨head, _⟩ := Option.filter_eq_some_iff.mp h
  exact (List.cons_head?_tail head).symm

variable {c : Channel.State PacketId} {s s' : NetState cfg} {p : Endpoint}

theorem Carries.congr (h : Carries s p w c) (state : (s'.out p w).state = (s.out p w).state)
    (credits : (s'.out p w).creditCount = (s.out p w).creditCount)
    (flight : (s'.flight p w).map Flit.piece = (s.flight p w).map Flit.piece)
    (plain : s'.plainCredits p w = s.plainCredits p w)
    (freeing : s'.freeSignals p w = s.freeSignals p w) : Carries s' p w c :=
  ⟨state.trans h.state, credits.trans h.credits, flight.trans h.flight, plain.trans h.plain,
    freeing.trans h.freeing⟩

/-- Two channels look the same from their downstream end. -/
structure SameSink (c c' : Channel.State PacketId) : Prop where
  packet : c'.packet = c.packet
  size : c'.size = c.size
  arrived : c'.arrived = c.arrived
  taken : c'.taken = c.taken

/-- Two channels look the same from their upstream end, but for their credits. -/
structure SameSource (c c' : Channel.State PacketId) : Prop where
  busy : c'.busy = c.busy
  packet : c'.packet = c.packet
  size : c'.size = c.size
  sent : c'.sent = c.sent

theorem SameSink.refl (c : Channel.State PacketId) : SameSink c c := ⟨rfl, rfl, rfl, rfl⟩

theorem SameSource.refl (c : Channel.State PacketId) : SameSource c c := ⟨rfl, rfl, rfl, rfl⟩

variable {G G' : Channels} {k : Endpoint × Nat}

theorem SameSink.update (same : SameSink (G k) c) (other : Endpoint × Nat) :
    SameSink (G other) (Function.update G k c other) := by
  by_cases here : other = k
  · subst here
    rwa [update_self]
  · rw [update_of_ne here]
    exact SameSink.refl _

theorem SameSource.update (same : SameSource (G k) c) (other : Endpoint × Nat) :
    SameSource (G other) (Function.update G k c other) := by
  by_cases here : other = k
  · subst here
    rwa [update_self]
  · rw [update_of_ne here]
    exact SameSource.refl _

theorem Passes.congr {c' d d' : Channel.State PacketId} (h : Passes c d) (sink : SameSink c c')
    (source : SameSource d d') : Passes c' d' where
  busy := source.busy.trans h.busy
  packet := source.packet.trans (h.packet.trans sink.packet.symm)
  size := source.size.trans (h.size.trans sink.size.symm)
  sent := source.sent.trans (h.sent.trans sink.taken.symm)

/-- What an input VC shows of its channel: everything but its credits. -/
structure SameVc {m : Machines} (vc vc' : VirtualChannel m) : Prop where
  buffer : vc'.buffer.items.map Flit.piece = vc.buffer.items.map Flit.piece
  state : vc'.state = vc.state
  route : vc'.route = vc.route
  outputVc : vc'.outputVc = vc.outputVc

theorem SameVc.refl {m : Machines} (vc : VirtualChannel m) : SameVc vc vc := ⟨rfl, rfl, rfl, rfl⟩

theorem Delivers.congr {x : VcId} (h : Delivers s G x) (same : SameVc (s.inVc x) (s'.inVc x))
    (up : SameSink (upChannel G cfg x) (upChannel G' cfg x))
    (down : (s.inVc x).state = .active → s'.holder (s.boundTo x) = s.holder (s.boundTo x) ∧
      SameSource (downChannel G (s.boundTo x)) (downChannel G' (s.boundTo x))) :
    Delivers s' G' x := by
  have bound : s'.boundTo x = s.boundTo x := by
    simp only [boundTo, same.route, same.outputVc]
  refine ⟨?_, ?_, ?_, ?_⟩
  · rw [same.buffer, h.buffered, up.packet, up.size, up.taken, up.arrived]
  · rw [same.state, h.idle, Channel.State.Open, Channel.State.Open, up.arrived, up.taken, up.size]
  · rw [same.state, up.taken]
    exact h.waiting
  · rw [same.state, bound]
    intro active
    obtain ⟨held, source⟩ := down active
    obtain ⟨holder, passes⟩ := h.active active
    exact ⟨held.trans holder, passes.congr up source⟩

theorem Interfaces.congr (h : Interfaces s G) (ni : ∀ n, (s'.ni n).buffers = (s.ni n).buffers)
    (source : ∀ n w, (G' (.ni n, w)).packet = (G (.ni n, w)).packet ∧ (G' (.ni n, w)).size =
      (G (.ni n, w)).size ∧ (G' (.ni n, w)).sent = (G (.ni n, w)).sent)
    (taken : ∀ n w, (G' (cfg.upstream (.ni n), w)).taken = (G' (cfg.upstream (.ni n), w)).arrived) :
    Interfaces s' G' where
  vcs n w := by
    rw [ni]
    exact h.vcs n w
  unsent n w := by
    obtain ⟨packet, size, sent⟩ := source n w
    rw [ni, h.unsent, packet, size, sent]
  taken := taken

theorem Records.congr {c' : Channel.State PacketId}
    (h : Records s p w c) (carried : (s'.link p).carried = (s.link p).carried)
    (packet : c'.packet = c.packet) (size : c'.size = c.size)
    (entered : c'.arrived + ((s'.link p).linkBuffer.items.filter (·.vc = w)).length =
      c.arrived + ((s.link p).linkBuffer.items.filter (·.vc = w)).length) :
    Records s' p w c' := by
  obtain ⟨packets, whole⟩ := h
  exact ⟨packets, by rw [carried, whole, packet, size, entered]⟩

/-- A step shows nothing of itself on a channel's link or at its upstream end. -/
structure Unmoved (s s' : NetState cfg) (p : Endpoint) (w : Nat) : Prop where
  state : (s'.out p w).state = (s.out p w).state
  credits : (s'.out p w).creditCount = (s.out p w).creditCount
  flight : (s'.flight p w).map Flit.piece = (s.flight p w).map Flit.piece
  plain : s'.plainCredits p w = s.plainCredits p w
  freeing : s'.freeSignals p w = s.freeSignals p w
  carried : (s'.link p).carried = (s.link p).carried
  entered : ((s'.link p).linkBuffer.items.filter (·.vc = w)).length =
    ((s.link p).linkBuffer.items.filter (·.vc = w)).length

theorem Unmoved.trans {s'' : NetState cfg} (h : Unmoved s s' p w)
    (h' : Unmoved s' s'' p w) : Unmoved s s'' p w where
  state := h'.state.trans h.state
  credits := h'.credits.trans h.credits
  flight := h'.flight.trans h.flight
  plain := h'.plain.trans h.plain
  freeing := h'.freeing.trans h.freeing
  carried := h'.carried.trans h.carried
  entered := h'.entered.trans h.entered

/-- Each channel either stays as it is, and so does what it shows, or is sound afterwards. -/
theorem Sound.of_channels (sound : Sound s G)
    (channels : ∀ p w, Unmoved s s' p w ∧ G' (p, w) = G (p, w) ∨ (G' (p, w)).Valid (cfg.depth w) ∧
      Carries s' p w (G' (p, w)) ∧ Records s' p w (G' (p, w)))
    (delivers : ∀ x, Delivers s' G' x) (interfaces : Interfaces s' G') (timely : Timely s')
    (noStrays : NoStrays s') : Sound s' G' where
  valid p w := by
    obtain ⟨_, same⟩ | ⟨valid, _⟩ := channels p w
    · rw [same]
      exact sound.valid p w
    · exact valid
  carries p w := by
    obtain ⟨unmoved, same⟩ | ⟨_, carries, _⟩ := channels p w
    · rw [same]
      exact (sound.carries p w).congr unmoved.state unmoved.credits unmoved.flight unmoved.plain
        unmoved.freeing
    · exact carries
  delivers := delivers
  interfaces := interfaces
  records p w := by
    obtain ⟨unmoved, same⟩ | ⟨_, _, records⟩ := channels p w
    · rw [same]
      exact (sound.records p w).congr unmoved.carried rfl rfl (by rw [unmoved.entered])
    · exact records
  timely := timely
  noStrays := noStrays

theorem Sound.of_channel (sound : Sound s G) (valid : c.Valid (cfg.depth w))
    (carries : Carries s' p w c) (records : Records s' p w c)
    (others : ∀ q v, (q, v) ≠ (p, w) → Unmoved s s' q v)
    (delivers : ∀ x, Delivers s' (update G (p, w) c) x) (interfaces : Interfaces s' (update G (p, w) c))
    (timely : Timely s') (noStrays : NoStrays s') : Sound s' (update G (p, w) c) := by
  refine sound.of_channels (fun q v => ?_) delivers interfaces timely noStrays
  by_cases same : (q, v) = (p, w)
  · rw [same, update_self]
    cases same
    exact .inr ⟨valid, carries, records⟩
  · exact .inl ⟨others q v same, update_of_ne same ..⟩

/-- Flits keep their times, but for those that a step passes on to a switch or to a link. -/
theorem Timely.of_moves (timely : Timely s) (time : s'.time = s.time)
    (switchBuffer : ∀ p, ∀ f ∈ (s'.switchBuffer p).items, f ∈ (s.switchBuffer p).items ∨ f.time =
      s.time + 1)
    (srcQueue : ∀ p, ∀ f ∈ (s'.link p).srcQueue.items, f ∈ (s.link p).srcQueue.items ∨ f.time =
      s.time + 1)
    (linkBuffer : ∀ p, ∀ f ∈ (s'.link p).linkBuffer.items, f ∈ (s.link p).linkBuffer.items)
    (inVc : ∀ x, ∀ f ∈ (s'.inVc x).buffer.items, ∃ g ∈ (s.inVc x).buffer.items, g.time = f.time) :
    Timely s' where
  switchBuffer p f member := by
    rw [time]
    obtain old | new := switchBuffer p f member
    · exact timely.switchBuffer p f old
    · exact new.le
  srcQueue p f member := by
    rw [time]
    obtain old | new := srcQueue p f member
    · exact timely.srcQueue p f old
    · exact new.le
  linkBuffer p f member := by
    rw [time]
    exact timely.linkBuffer p f (linkBuffer p f member)
  inVc x f member := by
    obtain ⟨g, old, same⟩ := inVc x f member
    rw [time, ← same]
    exact timely.inVc x g old
  lined x f member g onLink vc := by
    obtain ⟨f', old, same⟩ := inVc x f member
    rw [← same]
    exact timely.lined x f' old g (linkBuffer _ g onLink) vc

theorem Timely.of_link {l : Link cfg.machines} (timely : Timely s)
    (time : s'.time = s.time) (switchBuffer : s'.switchBuffer = s.switchBuffer)
    (link : s'.link = update s.link p l)
    (srcQueue : ∀ f ∈ l.srcQueue.items, f ∈ (s.link p).srcQueue.items ∨ f.time = s.time + 1)
    (linkBuffer : ∀ f ∈ l.linkBuffer.items, f ∈ (s.link p).linkBuffer.items)
    (inVc : ∀ x, (s'.inVc x).buffer = (s.inVc x).buffer) : Timely s' := by
  have links q : s'.link q = l ∧ q = p ∨ s'.link q = s.link q := by
    rw [link]
    by_cases here : q = p
    · exact .inl ⟨by rw [here, update_self], here⟩
    · exact .inr (update_of_ne here ..)
  refine timely.of_moves time ?_ ?_ ?_ ?_
  · intro q f member
    rw [switchBuffer] at member
    exact .inl member
  · intro q f member
    rcases links q with ⟨changed, rfl⟩ | same
    · exact srcQueue f (changed ▸ member)
    · exact .inl (same ▸ member)
  · intro q f member
    rcases links q with ⟨changed, rfl⟩ | same
    · exact linkBuffer f (changed ▸ member)
    · exact same ▸ member
  · intro x f member
    rw [inVc] at member
    exact ⟨f, member, rfl⟩

theorem Carries.increasing (h : Carries s p w c) :
    (s.flight p w).Pairwise fun f g => f.id < g.id := by
  have increasing := segment_increasing c.packet c.size c.arrived c.sent
  rw [← h.flight, pairwise_map] at increasing
  exact increasing

theorem Carries.bounds (h : Carries s p w c) {f : Flit cfg.machines} (member : f ∈ s.flight p w) :
    c.arrived ≤ f.id ∧ f.id < c.sent ∧ f.size = c.size := by
  have piece := mem_map_of_mem (f := Flit.piece) member
  rw [h.flight, mem_segment] at piece
  exact ⟨piece.2.2.1, piece.2.2.2, piece.2.1⟩

section Quiet
variable {s s' : NetState cfg} {G : Channels}

theorem Sound.of_same (sound : Sound s G) (time : s.time ≤ s'.time) (link : s'.link = s.link)
    (inVc : s'.inVc = s.inVc) (outVc : s'.outVc = s.outVc)
    (switchBuffer : s'.switchBuffer = s.switchBuffer)
    (niOut : ∀ n, (s'.ni n).outVc = (s.ni n).outVc)
    (niBuffers : ∀ n, (s'.ni n).buffers = (s.ni n).buffers) : Sound s' G := by
  have out : ∀ p w, s'.out p w = s.out p w := by
    intro p w
    cases p with
    | router r o => simp only [NetState.out, outVc]
    | ni n => simp only [NetState.out, niOut]
  have flight : ∀ p w, s'.flight p w = s.flight p w := by
    intro p w
    cases p <;> simp only [NetState.flight, NetState.crossing, link, outVc, switchBuffer]
  refine ⟨sound.valid, ?_, ?_, ?_, ?_, ?_, ?_⟩
  · intro p w
    refine (sound.carries p w).congr ?_ ?_ ?_ ?_ ?_
    · rw [out]
    · rw [out]
    · rw [flight]
    · simp only [plainCredits, NetState.credits, link]
    · simp only [freeSignals, NetState.credits, link]
  · intro x
    refine (sound.delivers x).congr ?_ (SameSink.refl _) fun _ => ⟨?_, SameSource.refl _⟩
    · rw [inVc]
      exact SameVc.refl _
    · simp only [NetState.holder, outVc]
  · exact sound.interfaces.congr niBuffers (fun _ _ => ⟨rfl, rfl, rfl⟩) sound.interfaces.taken
  · intro p w
    exact (sound.records p w).congr (by rw [link]) rfl rfl (by rw [link])
  · constructor
    · intro p f member
      have := sound.timely.switchBuffer p f (switchBuffer ▸ member)
      omega
    · intro p f member
      have := sound.timely.srcQueue p f (link ▸ member)
      omega
    · intro p f member
      have := sound.timely.linkBuffer p f (link ▸ member)
      omega
    · intro x f member
      have := sound.timely.inVc x f (inVc ▸ member)
      omega
    · rw [inVc, link]
      exact sound.timely.lined
  · intro y port other
    rw [switchBuffer]
    exact sound.noStrays y port (by rwa [outVc] at other)

theorem Sound.tick (sound : Sound s G) : Sound { s with time := s.time + 1 } G :=
  sound.of_same (Nat.le_succ _) rfl rfl rfl rfl (fun _ => rfl) (fun _ => rfl)

theorem Sound.pointers (sound : Sound s G) (pointers : Pointers) :
    Sound { s with pointers := pointers } G :=
  sound.of_same (Nat.le_refl _) rfl rfl rfl rfl (fun _ => rfl) (fun _ => rfl)

theorem Sound.setNi (sound : Sound s G) {n : Nat} {ni : NetworkInterface cfg.machines}
    (outVc : ni.outVc = (s.ni n).outVc) (buffers : ni.buffers = (s.ni n).buffers) :
    Sound (s.setNi n ni) G := by
  refine sound.of_same (Nat.le_refl _) rfl rfl rfl rfl ?_ ?_
  · intro n'
    by_cases here : n' = n
    · subst here
      simp [NetState.setNi, outVc]
    · simp [NetState.setNi, here]
  · intro n'
    by_cases here : n' = n
    · subst here
      simp [NetState.setNi, buffers]
    · simp [NetState.setNi, here]

end Quiet

section Setters
variable {s : NetState cfg}

theorem unmoved_setInVc (x : VcId) (vc : VirtualChannel cfg.machines) (p : Endpoint) (w : Nat) :
    Unmoved s (s.setInVc x vc) p w := by
  cases p <;> exact ⟨rfl, rfl, rfl, rfl, rfl, rfl, rfl⟩

theorem unmoved_setOutVc {y : VcId} {out : OutVcState} {p : Endpoint} {w : Nat}
    (other : (p, w) ≠ (y.toPortId.endpoint, y.vc)) : Unmoved s (s.setOutVc y out) p w := by
  cases p with
  | ni n => exact ⟨rfl, rfl, rfl, rfl, rfl, rfl, rfl⟩
  | router r o =>
    have same : (s.setOutVc y out).outVc ⟨⟨r, o⟩, w⟩ = s.outVc ⟨⟨r, o⟩, w⟩ :=
      update_of_ne (fun eq => other (by rw [← eq]; rfl)) _ _
    refine ⟨?_, ?_, ?_, rfl, rfl, rfl, rfl⟩
    · simp only [NetState.out, same]
    · simp only [NetState.out, same]
    · simp only [NetState.flight, NetState.crossing, same]
      rfl

theorem unmoved_setNi {n : Nat} {ni : NetworkInterface cfg.machines} {p : Endpoint} {w : Nat}
    (same : p = .ni n → (ni.outVc w).state = ((s.ni n).outVc w).state ∧ (ni.outVc w).creditCount =
      ((s.ni n).outVc w).creditCount) :
    Unmoved s (s.setNi n ni) p w := by
  cases p with
  | router r o => exact ⟨rfl, rfl, rfl, rfl, rfl, rfl, rfl⟩
  | ni k =>
    by_cases here : k = n
    · subst here
      refine ⟨?_, ?_, rfl, rfl, rfl, rfl, rfl⟩
      · simpa [NetState.out, NetState.setNi] using (same rfl).1
      · simpa [NetState.out, NetState.setNi] using (same rfl).2
    · refine ⟨?_, ?_, rfl, rfl, rfl, rfl, rfl⟩
      · simp [NetState.out, NetState.setNi, here]
      · simp [NetState.out, NetState.setNi, here]

end Setters

section Links
variable {s : NetState cfg} {G : Channels}

theorem setLink_out (p : Endpoint) (l : Link cfg.machines) (q : Endpoint) (w : Nat) :
    (s.setLink p l).out q w = s.out q w := by
  cases q <;> rfl

theorem setLink_crossing (p : Endpoint) (l : Link cfg.machines) (q : Endpoint) (w : Nat) :
    (s.setLink p l).crossing q w = s.crossing q w := by
  cases q <;> rfl

@[simp] theorem setLink_self (p : Endpoint) (l : Link cfg.machines) : (s.setLink p l).link p = l := by
  simp [NetState.setLink]

variable {p q : Endpoint}

theorem setLink_ne (l : Link cfg.machines) (ne : q ≠ p) :
    (s.setLink p l).link q = s.link q := by
  simp [NetState.setLink, ne]

structure Link.SameOn {m : Machines} (w : Nat) (l l' : Link m) : Prop where
  linkBuffer : l'.linkBuffer.items.filter (·.vc = w) = l.linkBuffer.items.filter (·.vc = w)
  srcQueue : l'.srcQueue.items.filter (·.vc = w) = l.srcQueue.items.filter (·.vc = w)
  credits : ∀ free, (l'.creditQueue.items ++ l'.creditBuffer.items).countP
      (fun c => c.vc = w && c.isFreeSignal == free) =
    (l.creditQueue.items ++ l.creditBuffer.items).countP (fun c => c.vc = w && c.isFreeSignal == free)
  carried : l'.carried = l.carried

theorem Link.SameOn.refl {m : Machines} (w : Nat) (l : Link m) : l.SameOn w l :=
  ⟨rfl, rfl, fun _ => rfl, rfl⟩

variable {s s' : NetState cfg}

theorem Link.SameOn.counts {w : Nat} (same : (s.link p).SameOn w (s'.link p)) :
    s'.plainCredits p w = s.plainCredits p w ∧ s'.freeSignals p w = s.freeSignals p w := by
  refine ⟨?_, ?_⟩
  · simpa [plainCredits, NetState.credits] using same.credits false
  · simpa [freeSignals, NetState.credits] using same.credits true

theorem unmoved_of_link {w : Nat}
    (out : s'.out p w = s.out p w) (crossing : s'.crossing p w = s.crossing p w)
    (same : (s.link p).SameOn w (s'.link p)) : Unmoved s s' p w := by
  refine ⟨by rw [out], by rw [out], ?_, same.counts.1, same.counts.2, same.carried, ?_⟩
  · simp only [NetState.flight, crossing, same.linkBuffer, same.srcQueue]
  · rw [same.linkBuffer]

variable {l : Link cfg.machines}

theorem unmoved_setLink {w : Nat}
    (same : q = p → (s.link p).SameOn w l) : Unmoved s (s.setLink p l) q w := by
  refine unmoved_of_link (setLink_out ..) (setLink_crossing ..) ?_
  by_cases here : q = p
  · subst here
    rw [setLink_self]
    exact same rfl
  · rw [setLink_ne l here]
    exact Link.SameOn.refl w _

theorem Sound.setLink (sound : Sound s G)
    (flight : ∀ w, ((s.setLink p l).flight p w).map Flit.piece = (s.flight p w).map Flit.piece)
    (plain : ∀ w, (s.setLink p l).plainCredits p w = s.plainCredits p w)
    (freeing : ∀ w, (s.setLink p l).freeSignals p w = s.freeSignals p w)
    (records : ∀ w, Records (s.setLink p l) p w (G (p, w)))
    (srcQueue : ∀ f ∈ l.srcQueue.items, f.time ≤ s.time + 1)
    (linkBuffer : ∀ f ∈ l.linkBuffer.items, f ∈ (s.link p).linkBuffer.items ∨ f.time =
      s.time + cfg.linkLatency p) :
    Sound (s.setLink p l) G := by
  refine sound.of_channels (fun q w => ?_) (fun x => ?_) ?_ ?_ sound.noStrays
  · by_cases here : q = p
    · subst here
      refine .inr ⟨sound.valid q w, ?_, records w⟩
      exact (sound.carries q w).congr (by rw [setLink_out]) (by rw [setLink_out]) (flight w) (plain w)
        (freeing w)
    · exact .inl ⟨unmoved_setLink fun same => absurd same here, rfl⟩
  · exact (sound.delivers x).congr (SameVc.refl _) (SameSink.refl _) fun _ => ⟨rfl, SameSource.refl _⟩
  · exact sound.interfaces.congr (fun _ => rfl) (fun _ _ => ⟨rfl, rfl, rfl⟩) sound.interfaces.taken
  · refine ⟨sound.timely.switchBuffer, ?_, ?_, sound.timely.inVc, ?_⟩
    · intro q f member
      by_cases here : q = p
      · subst here
        rw [setLink_self] at member
        exact srcQueue f member
      · rw [setLink_ne l here] at member
        exact sound.timely.srcQueue q f member
    · intro q f member
      by_cases here : q = p
      · subst here
        rw [setLink_self] at member
        obtain old | new := linkBuffer f member
        · exact sound.timely.linkBuffer q f old
        · exact new.le
      · rw [setLink_ne l here] at member
        exact sound.timely.linkBuffer q f member
    · intro x f buffered g member vc
      by_cases here : cfg.upstream x.toPortId.endpoint = p
      · rw [here, setLink_self] at member
        obtain old | new := linkBuffer g member
        · exact sound.timely.lined x f buffered g (by rwa [here]) vc
        · have := sound.timely.inVc x f buffered
          omega
      · rw [setLink_ne l here] at member
        exact sound.timely.lined x f buffered g member vc

theorem Sound.linkWakeup (sound : Sound s G) (p : Endpoint) : Sound (linkWakeup p s) G := by
  unfold Garnet.linkWakeup Link.advance
  dsimp only
  split
  · exact sound
  rename_i f ready
  obtain ⟨queue, _⟩ := FlitBuffer.ready?_some ready
  generalize (s.link p).srcQueue.items.tail = rest at queue
  have carries := sound.carries p f.vc
  have here : s.flight p f.vc = (s.link p).linkBuffer.items.filter (·.vc = f.vc) ++
      f :: (rest.filter (·.vc = f.vc) ++ s.crossing p f.vc) := by
    simp [NetState.flight, queue]
  -- the flit goes behind those of its channel that are on the link already
  have order : ∀ g ∈ (s.link p).linkBuffer.items, decide (g.vc = f.vc) = true →
      g.Before { f with time := s.time + cfg.linkLatency p } := by
    intro g member vc
    have time := sound.timely.linkBuffer p g member
    have increasing := carries.increasing
    rw [here, pairwise_append] at increasing
    have less := increasing.2.2 g (mem_filter.mpr ⟨member, vc⟩) f mem_cons_self
    unfold Flit.Before
    dsimp only
    omega
  have placed := filter_insert (q := (s.link p).linkBuffer) (p := fun g => g.vc = f.vc)
    (x := { f with time := s.time + cfg.linkLatency p }) (by simp) order
  refine sound.setLink ?_ (fun w => ?_) (fun w => ?_) ?_ ?_ ?_
  · intro w
    simp only [NetState.flight, setLink_self, setLink_crossing, pop_items, queue, tail_cons]
    by_cases same : f.vc = w
    · subst same
      rw [placed]
      simp [Flit.piece]
    · rw [filter_insert_of_false (by simpa using same), filter_cons_of_neg (by simpa using same)]
  · simp [plainCredits, NetState.credits]
  · simp [freeSignals, NetState.credits]
  · intro w
    obtain ⟨packets, whole⟩ := sound.records p w
    refine ⟨packets, ?_⟩
    rw [setLink_self, filter_append, map_append, whole]
    by_cases same : f.vc = w
    · subst same
      have piece := carries.flight
      rw [here, map_append, map_cons] at piece
      have number := append_cons_eq_segment piece
      rw [placed, length_append, length_singleton, ← Nat.add_assoc,
        segment_concat _ (Nat.zero_le _), ← append_assoc]
      simp [number]
    · rw [filter_insert_of_false (by simpa using same)]
      simp [same]
  · intro g member
    refine sound.timely.srcQueue p g ?_
    rw [pop_items] at member
    exact mem_of_mem_tail member
  · intro g member
    obtain rfl | old := mem_insert.mp member
    · exact .inr rfl
    · exact .inl old

theorem Sound.creditLinkWakeup (sound : Sound s G) (p : Endpoint) :
    Sound (creditLinkWakeup p s) G := by
  unfold Garnet.creditLinkWakeup
  dsimp only
  split
  · exact sound
  rename_i c ready
  have queue := CreditBuffer.ready?_some ready
  generalize (s.link p).creditQueue.items.tail = rest at queue
  have count : ∀ q : Credit → Bool, q { c with time := s.time + cfg.creditLatency p } = q c →
      (rest ++ ((s.link p).creditBuffer.insert
        { c with time := s.time + cfg.creditLatency p }).items).countP q =
        (s.credits p).countP q := by
    intro q same
    rw [NetState.credits, queue, countP_append, countP_append, countP_cons, countP_insert, same]
    omega
  refine sound.setLink (fun w => ?_) (fun w => ?_) (fun w => ?_) (fun w => ?_) ?_ ?_
  · simp only [NetState.flight, setLink_self, setLink_crossing]
  · simp only [plainCredits, NetState.credits, setLink_self, pop_items, queue, tail_cons]
    rw [count _ rfl, NetState.credits, queue]
  · simp only [freeSignals, NetState.credits, setLink_self, pop_items, queue, tail_cons]
    rw [count _ rfl, NetState.credits, queue]
  · exact (sound.records p w).congr (by rw [setLink_self]) rfl rfl (by rw [setLink_self])
  · exact sound.timely.srcQueue p
  · exact fun f member => .inl member

end Links

section Crossbar
variable {s : NetState cfg} {G : Channels}

theorem towards_of_ne {m : Machines} {f : Flit m} {y y' : VcId} (towards : NetState.towards y f)
    (router : y'.router = y.router) (ne : y' ≠ y) : NetState.towards y' f = false := by
  by_contra both
  simp only [NetState.towards, Bool.decide_and, Bool.and_eq_true, decide_eq_true_eq,
    Bool.not_eq_false] at towards both
  refine ne ?_
  obtain ⟨⟨r, o⟩, w⟩ := y
  obtain ⟨⟨r', o'⟩, w'⟩ := y'
  obtain ⟨rfl, rfl⟩ := towards
  obtain ⟨rfl, rfl⟩ := both
  cases router
  rfl

theorem NoStrays.inPort_eq (noStrays : NoStrays s) {p : PortId} {f : Flit cfg.machines}
    (member : f ∈ (s.switchBuffer p).items) :
    (s.outVc ⟨⟨p.router, f.outport⟩, f.vc⟩).inPort = p.port := by
  by_contra other
  have none := noStrays ⟨⟨p.router, f.outport⟩, f.vc⟩ p.port (Ne.symm other)
  have : f ∈ (s.switchBuffer p).items.filter (NetState.towards ⟨⟨p.router, f.outport⟩, f.vc⟩) :=
    mem_filter.mpr ⟨member, by simp [NetState.towards]⟩
  simp [none] at this

/-- The head of a switch buffer has gone to the source queue of its output link. -/
structure Crossed (p : PortId) (f : Flit cfg.machines) (rest : List (Flit cfg.machines))
    (s next : NetState cfg) : Prop where
  queue : (s.switchBuffer p).items = f :: rest
  time : next.time = s.time
  inVc : next.inVc = s.inVc
  outVc : next.outVc = s.outVc
  ni : next.ni = s.ni
  link : ∀ q, q ≠ .router p.router f.outport → next.link q = s.link q
  linkHere : next.link (.router p.router f.outport) = { s.link (.router p.router f.outport) with
    srcQueue := (s.link (.router p.router f.outport)).srcQueue.insert
      { f.advanceStage .lt s.time with time := s.time + 1 } }
  switch : ∀ q, q ≠ p → next.switchBuffer q = s.switchBuffer q
  switchHere : (next.switchBuffer p).items = rest

theorem crossSwitch_crossed (s : NetState cfg) (p : PortId) :
    crossSwitch s p = s ∨ ∃ f rest, Crossed p f rest s (crossSwitch s p) := by
  unfold Garnet.crossSwitch
  split
  · exact .inl rfl
  · rename_i f ready
    obtain ⟨ready, _⟩ := Option.filter_eq_some_iff.mp ready
    obtain ⟨queue, _⟩ := FlitBuffer.ready?_some ready
    refine .inr ⟨f, _, queue, rfl, rfl, rfl, rfl, fun q other => setLink_ne _ other,
      setLink_self _ _, fun q other => update_of_ne other .., ?_⟩
    simp [setSwitch, NetState.setLink]

section Crossed
variable {next : NetState cfg} {p : PortId} {f : Flit cfg.machines}
  {rest : List (Flit cfg.machines)}

theorem Crossed.inPort (crossed : Crossed p f rest s next) (noStrays : NoStrays s) :
    (s.outVc ⟨⟨p.router, f.outport⟩, f.vc⟩).inPort = p.port :=
  noStrays.inPort_eq (by rw [crossed.queue]; exact mem_cons_self)

theorem Crossed.towards (f : Flit cfg.machines) (r : Nat) :
    NetState.towards ⟨⟨r, f.outport⟩, f.vc⟩ f := by
  simp [NetState.towards]

variable (crossed : Crossed p f rest s next)
include crossed

theorem Crossed.out (q : Endpoint) (w : Nat) : next.out q w = s.out q w := by
  cases q with
  | router r o => exact congrFun crossed.outVc _
  | ni n => exact congrArg (fun ni => (ni n).outVc w) crossed.ni

theorem Crossed.rest_of_link (q : Endpoint) : (next.link q).linkBuffer = (s.link q).linkBuffer ∧
      (next.link q).carried = (s.link q).carried ∧ next.credits q = s.credits q := by
  by_cases same : q = .router p.router f.outport
  · subst same
    simp only [NetState.credits, crossed.linkHere, and_self]
  · simp only [NetState.credits, crossed.link q same, and_self]

theorem Crossed.crossing {y : VcId} (other : y ≠ ⟨⟨p.router, f.outport⟩, f.vc⟩) {q : PortId}
    (router : q.router = y.router) :
    (next.switchBuffer q).items.filter (NetState.towards y) =
      (s.switchBuffer q).items.filter (NetState.towards y) := by
  by_cases same : q = p
  · subst same
    rw [crossed.switchHere, crossed.queue, filter_cons_of_neg]
    simp [towards_of_ne (Crossed.towards f q.router) router.symm other]
  · rw [crossed.switch q same]

theorem Crossed.flight_here (sound : Sound s G) :
    (next.flight (.router p.router f.outport) f.vc).map Flit.piece =
      (s.flight (.router p.router f.outport) f.vc).map Flit.piece := by
  have inPort := crossed.inPort sound.noStrays
  have here : s.flight (.router p.router f.outport) f.vc =
      (s.link (.router p.router f.outport)).linkBuffer.items.filter (·.vc = f.vc) ++
        ((s.link (.router p.router f.outport)).srcQueue.items.filter (·.vc = f.vc) ++
          f :: rest.filter (NetState.towards ⟨⟨p.router, f.outport⟩, f.vc⟩)) := by
    simp only [NetState.flight, NetState.crossing, inPort, crossed.queue,
      filter_cons_of_pos (Crossed.towards f p.router)]
  have order : ∀ g ∈ (s.link (.router p.router f.outport)).srcQueue.items,
      decide (g.vc = f.vc) = true →
      g.Before { f.advanceStage .lt s.time with time := s.time + 1 } := by
    intro g member vc
    have time := sound.timely.srcQueue _ g member
    have increasing := (sound.carries (.router p.router f.outport) f.vc).increasing
    rw [here, pairwise_append, pairwise_append] at increasing
    have less := increasing.2.1.2.2 g (mem_filter.mpr ⟨member, vc⟩) f mem_cons_self
    simp only [Flit.Before, Flit.advanceStage]
    omega
  have placed := filter_insert (q := (s.link (.router p.router f.outport)).srcQueue)
    (p := fun g => g.vc = f.vc) (x := { f.advanceStage .lt s.time with time := s.time + 1 })
    (by simp [Flit.advanceStage]) order
  rw [here]
  simp only [NetState.flight, NetState.crossing, crossed.linkHere, crossed.outVc, inPort,
    crossed.switchHere]
  rw [placed]
  simp [Flit.piece, Flit.advanceStage]

theorem Crossed.flight (sound : Sound s G) (q : Endpoint) (w : Nat) :
    (next.flight q w).map Flit.piece = (s.flight q w).map Flit.piece := by
  cases q with
  | ni n => simp only [NetState.flight, NetState.crossing, crossed.link (.ni n) (by simp)]
  | router r o =>
    by_cases same : (⟨⟨r, o⟩, w⟩ : VcId) = ⟨⟨p.router, f.outport⟩, f.vc⟩
    · cases same
      exact crossed.flight_here sound
    · simp only [NetState.flight, NetState.crossing, (crossed.rest_of_link _).1, crossed.outVc]
      rw [crossed.crossing same (q := ⟨r, (s.outVc ⟨⟨r, o⟩, w⟩).inPort⟩) rfl]
      congr 3
      by_cases there : Endpoint.router r o = .router p.router f.outport
      · cases there
        rw [crossed.linkHere]
        refine filter_insert_of_false ?_ _
        have other : f.vc ≠ w := fun vc => same (by rw [vc])
        exact decide_eq_false other
      · rw [crossed.link _ there]

theorem Crossed.timely (timely : Timely s) : Timely next := by
  refine timely.of_moves crossed.time ?_ ?_ ?_ ?_
  · intro q g member
    by_cases same : q = p
    · subst same
      rw [crossed.switchHere] at member
      rw [crossed.queue]
      exact .inl (mem_cons_of_mem _ member)
    · rw [crossed.switch q same] at member
      exact .inl member
  · intro q g member
    by_cases same : q = .router p.router f.outport
    · subst same
      rw [crossed.linkHere] at member
      obtain rfl | old := mem_insert.mp member
      · exact .inr rfl
      · exact .inl old
    · rw [crossed.link q same] at member
      exact .inl member
  · intro q g member
    rwa [(crossed.rest_of_link q).1] at member
  · intro x g member
    rw [crossed.inVc] at member
    exact ⟨g, member, rfl⟩

theorem Crossed.noStrays (noStrays : NoStrays s) : NoStrays next := by
  intro y port other
  rw [crossed.outVc] at other
  have none := noStrays y port other
  by_cases same : y = ⟨⟨p.router, f.outport⟩, f.vc⟩
  · subst same
    have elsewhere : (⟨p.router, port⟩ : PortId) ≠ p := fun eq =>
      other ((congrArg PortId.port eq).trans (crossed.inPort noStrays).symm)
    rw [crossed.switch _ elsewhere]
    exact none
  · rw [crossed.crossing same (q := ⟨y.router, port⟩) rfl]
    exact none

end Crossed

theorem Sound.crossSwitch (sound : Sound s G) (p : PortId) : Sound (crossSwitch s p) G := by
  rcases crossSwitch_crossed s p with same | ⟨f, rest, crossed⟩
  · rw [same]
    exact sound
  refine sound.of_channels (fun q w => .inl ⟨?_, rfl⟩) (fun x => ?_) ?_
    (crossed.timely sound.timely) (crossed.noStrays sound.noStrays)
  · obtain ⟨buffer, carried, credits⟩ := crossed.rest_of_link q
    refine ⟨?_, ?_, crossed.flight sound q w, ?_, ?_, carried, ?_⟩
    · rw [crossed.out]
    · rw [crossed.out]
    · rw [plainCredits, credits, plainCredits]
    · rw [freeSignals, credits, freeSignals]
    · rw [buffer]
  · refine (sound.delivers x).congr ?_ (SameSink.refl _) fun _ => ⟨?_, SameSource.refl _⟩
    · rw [crossed.inVc]
      exact SameVc.refl _
    · simp only [NetState.holder, crossed.outVc]
  · refine sound.interfaces.congr ?_ (fun _ _ => ⟨rfl, rfl, rfl⟩) sound.interfaces.taken
    rw [crossed.ni]
    exact fun _ => rfl

theorem Sound.switchWakeup (sound : Sound s G) (r : Nat) : Sound (switchWakeup r s) G := by
  unfold Garnet.switchWakeup
  generalize List.range (cfg.numInports r) = ports
  induction ports generalizing s with
  | nil => exact sound
  | cons port rest ih => exact ih (sound.crossSwitch ⟨r, port⟩)

end Crossbar

end SynchroTrace.Garnet
