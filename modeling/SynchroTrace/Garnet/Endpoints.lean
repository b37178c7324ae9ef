import SynchroTrace.Garnet.Wakeups

namespace SynchroTrace.Garnet
open List PriorityQueue NetworkInterface NetState PortId Channel
open Function (update update_of_ne update_self)

variable {cfg : Config} {m : Machines} {s : NetState cfg} {G : Channels}

theorem scheduleOutputLink_cases (ni : NetworkInterface cfg.machines) (now : Nat) :
    (ni.scheduleOutputLink cfg now).1 = none ∧ (ni.scheduleOutputLink cfg now).2.outVc = ni.outVc ∧
        (ni.scheduleOutputLink cfg now).2.buffers = ni.buffers ∨
      ∃ w f, (ni.buffers w).items.head? = some f ∧ 0 < (ni.outVc w).creditCount ∧
        (ni.scheduleOutputLink cfg now).1 = some { f with time := now + 1 } ∧
        (ni.scheduleOutputLink cfg now).2.outVc = update ni.outVc w (ni.outVc w).decrementCredit ∧
        (ni.scheduleOutputLink cfg now).2.buffers = update ni.buffers w (ni.buffers w).pop := by
  unfold scheduleOutputLink
  dsimp only
  split
  · exact .inl ⟨rfl, rfl, rfl⟩
  rename_i w picked
  have test := RoundRobin.search_test picked
  simp only [Bool.and_eq_true, decide_eq_true_eq, Option.isSome_iff_exists] at test
  obtain ⟨⟨⟨f, ready⟩, credit⟩, _⟩ := test
  obtain ⟨front, _⟩ := Option.filter_eq_some_iff.mp ready
  refine .inr ⟨w, f, front, credit, ?_, ?_, ?_⟩
  · simp [NetworkInterface.sendFlit, front]
  · simp [NetworkInterface.sendFlit, front]
  · simp [NetworkInterface.sendFlit, front]

@[simp] theorem setNi_self (s : NetState cfg) (n : Nat) (ni : NetworkInterface cfg.machines) :
    (s.setNi n ni).ni n = ni := by
  simp [NetState.setNi]

theorem setNi_ne (s : NetState cfg) {n k : Nat} (ni : NetworkInterface cfg.machines) (ne : k ≠ n) :
    (s.setNi n ni).ni k = s.ni k := by
  simp [NetState.setNi, ne]

variable {c : Channel.State PacketId} {s s' : NetState cfg}

theorem Delivers.of_source {n w : Nat} {x : VcId} (h : Delivers s G x) (inVc : s'.inVc = s.inVc)
    (outVc : s'.outVc = s.outVc) (sink : SameSink (G (.ni n, w)) c) :
    Delivers s' (update G (.ni n, w) c) x := by
  refine h.congr ?_ (sink.update _) fun _ => ⟨?_, ?_⟩
  · rw [inVc]
    exact SameVc.refl _
  · simp only [NetState.holder, outVc]
  · rw [downChannel, downChannel, update_of_ne (by simp [endpoint])]
    exact SameSource.refl _

theorem Interfaces.of_source {n w : Nat} {ni : NetworkInterface cfg.machines}
    {b : FlitBuffer cfg.machines} (h : Interfaces s G) (changed : s'.ni = update s.ni n ni)
    (buffers : ni.buffers = update (s.ni n).buffers w b) (vcs : ∀ f ∈ b.items, f.vc = w)
    (unsent : b.items.map Flit.piece = Channel.segment c.packet c.size c.sent c.size)
    (taken : (G (.ni n, w)).taken = (G (.ni n, w)).arrived → c.taken = c.arrived) :
    Interfaces s' (update G (.ni n, w) c) := by
  have buffer : ∀ k v, (k = n ∧ v = w) ∧ (s'.ni k).buffers v = b ∨
      ¬ (k = n ∧ v = w) ∧ (s'.ni k).buffers v = (s.ni k).buffers v := by
    intro k v
    by_cases here : k = n
    · subst here
      by_cases same : v = w <;> simp [changed, buffers, same]
    · simp [changed, here]
  refine ⟨?_, ?_, ?_⟩
  · intro k v
    obtain ⟨⟨rfl, rfl⟩, same⟩ | ⟨_, same⟩ := buffer k v
    · rwa [same]
    · rw [same]
      exact h.vcs k v
  · intro k v
    obtain ⟨⟨rfl, rfl⟩, same⟩ | ⟨other, same⟩ := buffer k v
    · rwa [same, update_self]
    · rw [same, update_of_ne (by simpa using other)]
      exact h.unsent k v
  · intro k v
    have old := h.taken k v
    by_cases here : (cfg.upstream (.ni k), v) = (.ni n, w)
    · rw [here] at old ⊢
      rw [update_self]
      exact taken old
    · rwa [update_of_ne here]

theorem Sound.niSend (sound : Sound s G) (n : Nat) : ∃ G, Sound (niSend n s) G := by
  unfold Garnet.niSend Link.enqueue
  have cases := scheduleOutputLink_cases (s.ni n) s.time
  generalize (s.ni n).scheduleOutputLink cfg s.time = result at cases
  obtain ⟨sent, ni⟩ := result
  obtain ⟨none, outVc, buffers⟩ | ⟨w, f, front, credit, some, outVc, buffers⟩ := cases
  · dsimp only at none outVc buffers ⊢
    subst none
    exact ⟨G, sound.setNi outVc buffers⟩
  dsimp only at some outVc buffers ⊢
  subst some
  have queue := (List.cons_head?_tail front).symm
  generalize ((s.ni n).buffers w).items.tail = rest at queue
  have vc : f.vc = w := sound.interfaces.vcs n w f (by simp [queue])
  subst vc
  have carries := sound.carries (.ni n) f.vc
  have unsent := sound.interfaces.unsent n f.vc
  rw [queue, map_cons] at unsent
  obtain ⟨less, piece, unsent⟩ := cons_eq_segment unsent
  have order : ∀ g ∈ (s.link (.ni n)).srcQueue.items, decide (g.vc = f.vc) = true →
      g.Before { f with time := s.time + 1 } := by
    intro g member vc
    have time := sound.timely.srcQueue _ g member
    have inFlight : g ∈ s.flight (.ni n) f.vc := by
      simp only [NetState.flight, mem_append, mem_filter]
      exact .inr (.inl ⟨member, vc⟩)
    have bound := (carries.bounds inFlight).2.1
    have number : f.id = (G (.ni n, f.vc)).sent := congrArg (·.2.2) piece
    unfold Flit.Before
    dsimp only
    omega
  have placed := filter_insert (q := (s.link (.ni n)).srcQueue)
    (p := fun g => g.vc = f.vc) (x := { f with time := s.time + 1 }) (by simp) order
  refine ⟨update G (.ni n, f.vc) (G (.ni n, f.vc)).send,
    sound.of_channel ((sound.valid _ _).send less) ⟨?_, ?_, ?_, ?_, ?_⟩ ?_ ?_ ?_ ?_ ?_ sound.noStrays⟩
  · simpa [NetState.out, NetState.setLink, outVc, OutVcState.decrementCredit] using carries.state
  · have credits := carries.credits
    simp only [NetState.out] at credits
    simp [NetState.out, NetState.setLink, outVc, OutVcState.decrementCredit, credits,
      Channel.State.send]
  · have flight := carries.flight
    simp only [NetState.flight, NetState.crossing, append_nil] at flight
    simp only [NetState.flight, NetState.crossing, append_nil, setLink_self]
    rw [setNi_link, placed, ← append_assoc, map_append, flight,
      Channel.State.send_packet, Channel.State.send_size, Channel.State.send_arrived,
      Channel.State.send_sent, segment_concat _ (sound.valid _ _).arrived_le, ← piece]
    rfl
  · simpa [plainCredits, NetState.credits, NetState.setNi] using carries.plain
  · simpa [freeSignals, NetState.credits, NetState.setNi] using carries.freeing
  · exact (sound.records (.ni n) f.vc).congr (by simp [NetState.setNi]) rfl rfl
      (by simp [NetState.setNi, Channel.State.send])
  · intro p w same
    refine Unmoved.trans (unmoved_setNi ?_) (unmoved_setLink ?_)
    · rintro rfl
      have other : w ≠ f.vc := fun eq => same (by rw [eq])
      simp [outVc, other]
    · rintro rfl
      have other : f.vc ≠ w := fun eq => same (by rw [eq])
      refine ⟨rfl, filter_insert_of_false ?_ _, fun _ => rfl, rfl⟩
      exact decide_eq_false other
  · intro x
    exact (sound.delivers x).of_source rfl rfl ⟨rfl, rfl, rfl, rfl⟩
  · refine sound.interfaces.of_source rfl buffers ?_ ?_ id
    · intro g member
      exact sound.interfaces.vcs n f.vc g (mem_of_mem_tail member)
    · rw [pop_items, queue]
      exact unsent
  · refine sound.timely.of_link rfl rfl rfl (fun g member => ?_) (fun _ => id) fun _ => rfl
    exact (mem_insert.mp member).symm.imp_right fun same => by rw [same]

def Credit.returned (c : Credit) (channel : Channel.State PacketId) : Channel.State PacketId :=
  if c.isFreeSignal then channel.free else channel.credit

theorem Credit.returned_sink (c : Credit) (channel : Channel.State PacketId) :
    SameSink channel (c.returned channel) := by
  unfold returned
  split <;> exact ⟨rfl, rfl, rfl, rfl⟩

theorem Credit.returned_source {c : Credit} (plain : c.isFreeSignal = false)
    (channel : Channel.State PacketId) : SameSource channel (c.returned channel) := by
  simp only [returned, plain, Bool.false_eq_true, ↓reduceIte]
  exact ⟨rfl, rfl, rfl, rfl⟩

theorem Credit.returned_sent (c : Credit) (key other : Endpoint × Nat) :
    (update G key (c.returned (G key)) other).sent = (G other).sent := by
  by_cases here : other = key
  · subst here
    rw [update_self, returned]
    split <;> rfl
  · rw [update_of_ne here]

def Link.popCredit (l : Link m) : Link m :=
  { l with creditBuffer := l.creditBuffer.pop }

section Returned
variable {p : Endpoint} {c : Credit} {rest : List Credit}

theorem Link.popCredit_sameOn {l : Link m} (buffer : l.creditBuffer.items = c :: rest)
    {w : Nat} (other : c.vc ≠ w) : l.SameOn w l.popCredit := by
  refine ⟨rfl, rfl, fun free => ?_, rfl⟩
  rw [popCredit, pop_items, buffer, tail_cons, countP_append, countP_append, countP_cons_of_neg]
  simp [other]

theorem Carries.returned {s s' : NetState cfg} {channel : Channel.State PacketId}
    (h : Carries s p c.vc channel) (buffer : (s.link p).creditBuffer.items = c :: rest)
    (link : s'.link p = (s.link p).popCredit)
    (flight : (s'.flight p c.vc).map Flit.piece = (s.flight p c.vc).map Flit.piece)
    (credits : (s'.out p c.vc).creditCount = (s.out p c.vc).creditCount + 1)
    (state : (s'.out p c.vc).state = if c.isFreeSignal then .idle else (s.out p c.vc).state) :
    Carries s' p c.vc (c.returned channel) := by
  have plain := h.plain
  have freeing := h.freeing
  simp only [plainCredits, freeSignals, NetState.credits, buffer,
    countP_append, countP_cons] at plain freeing
  by_cases free : c.isFreeSignal
  · simp only [free, Credit.returned, ↓reduceIte] at state plain freeing ⊢
    refine ⟨state, ?_, flight.trans h.flight, ?_, ?_⟩
    · rw [credits, h.credits]
      rfl
    · simpa [plainCredits, NetState.credits, link, Link.popCredit, buffer] using plain
    · simp [freeSignals, NetState.credits, link, Link.popCredit, buffer, ← freeing]
  · simp only [free, Credit.returned, ↓reduceIte, Bool.false_eq_true] at state plain freeing ⊢
    refine ⟨state.trans h.state, ?_, flight.trans h.flight, ?_, ?_⟩
    · rw [credits, h.credits]
      rfl
    · simp [plainCredits, NetState.credits, link, Link.popCredit, buffer, ← plain]
    · simpa [freeSignals, NetState.credits, link, Link.popCredit, buffer] using freeing

section
variable {channel : Channel.State PacketId} (h : Carries s p c.vc channel)
  (buffer : (s.link p).creditBuffer.items = c :: rest)
include h buffer

theorem Carries.freeing_pos (free : c.isFreeSignal = true) : 0 < channel.freeing := by
  rw [← h.freeing]
  exact countP_pos_iff.mpr ⟨c, by simp [NetState.credits, buffer], by simp [free]⟩

theorem Carries.valid_returned {depth : Nat} (valid : channel.Valid depth) :
    (c.returned channel).Valid depth := by
  unfold Credit.returned
  split
  · rename_i free
    exact valid.free (h.freeing_pos buffer free)
  · rename_i plain
    refine valid.credit ?_
    rw [← h.plain]
    exact countP_pos_iff.mpr ⟨c, by simp [NetState.credits, buffer], by simp [plain]⟩

end

variable {s s' : NetState cfg}

theorem Interfaces.returned {key : Endpoint × Nat} (h : Interfaces s G)
    (buffers : ∀ n, (s'.ni n).buffers = (s.ni n).buffers) :
    Interfaces s' (update G key (c.returned (G key))) := by
  have sink := (c.returned_sink (G key)).update
  refine h.congr buffers ?_ ?_
  · intro n w
    exact ⟨(sink _).packet, (sink _).size, c.returned_sent _ _⟩
  · intro n w
    rw [(sink _).taken, (sink _).arrived]
    exact h.taken n w

end Returned

theorem Sound.niCredit (sound : Sound s G) (n : Nat) : ∃ G, Sound (niCredit n s) G := by
  unfold Garnet.niCredit
  dsimp only
  split
  · exact ⟨G, sound⟩
  rename_i c ready
  have buffer := CreditBuffer.ready?_some ready
  have carries := sound.carries (.ni n) c.vc
  refine ⟨update G (.ni n, c.vc) (c.returned (G (.ni n, c.vc))), sound.of_channel
    (carries.valid_returned buffer (sound.valid _ _)) ?_ ?_ ?_ ?_ ?_ ?_ sound.noStrays⟩
  · refine carries.returned buffer ?_ ?_ ?_ ?_
    · simp [Link.popCredit]
    · simp [NetState.flight, NetState.crossing]
    · simp only [NetState.out, setNi_self, receiveCredit, update_self]
      split <;> rfl
    · simp only [NetState.out, setNi_self, receiveCredit, update_self]
      split <;> rfl
  · refine (sound.records (.ni n) c.vc).congr ?_ (c.returned_sink _).packet
      (c.returned_sink _).size ?_
    · simp
    · simp [(c.returned_sink _).arrived]
  · intro p w same
    refine Unmoved.trans (unmoved_setLink ?_) (unmoved_setNi ?_)
    · rintro rfl
      exact Link.popCredit_sameOn buffer fun eq => same (by rw [eq])
    · rintro rfl
      have other : w ≠ c.vc := fun eq => same (by rw [eq])
      simp [receiveCredit, other]
  · intro x
    exact (sound.delivers x).of_source rfl rfl (c.returned_sink _)
  · refine sound.interfaces.returned fun k => ?_
    by_cases here : k = n
    · subst here
      simp [receiveCredit]
    · simp [here]
  · exact sound.timely.of_link rfl rfl rfl (fun _ => .inl) (fun _ => id) fun _ => rfl

theorem updateIncredit_inVc (s : NetState cfg) (h : VcId) (credit : Int) (x : VcId) :
    SameVc (s.inVc x) ((s.updateIncredit h credit).inVc x) ∧
      ((s.updateIncredit h credit).inVc x).buffer = (s.inVc x).buffer := by
  by_cases here : x = h
  · subst here
    simp only [updateIncredit, setInVc_inVc, update_self]
    exact ⟨⟨rfl, rfl, rfl, rfl⟩, trivial⟩
  · simp only [updateIncredit, setInVc_inVc, update_of_ne here]
    exact ⟨SameVc.refl _, trivial⟩

theorem Delivers.no_freeing {x : VcId} {depth : Nat} (h : Delivers s G x)
    (active : (s.inVc x).state = .active) (valid : (downChannel G (s.boundTo x)).Valid depth) :
    (downChannel G (s.boundTo x)).freeing = 0 := by
  obtain ⟨_, passes⟩ := h.active active
  have isOpen : (upChannel G cfg x).Open := by
    by_contra closed
    rw [h.idle.mpr closed] at active
    cases active
  by_contra some
  obtain ⟨_, _, _, sent⟩ := valid.of_freeing (by omega)
  have := isOpen.2
  rw [passes.sent, passes.size] at sent
  omega

theorem Sound.outputUnitWakeup (sound : Sound s G) (p : PortId) :
    ∃ G, Sound (outputUnitWakeup p s) G := by
  unfold Garnet.outputUnitWakeup
  dsimp only
  split
  · exact ⟨G, sound⟩
  rename_i c ready
  have buffer := CreditBuffer.ready?_some ready
  have carries := sound.carries p.endpoint c.vc
  generalize out_eq : (if c.isFreeSignal = true then _ else _) = out
  have kept : out.inPort = (s.outVc { p with vc := c.vc }).inPort ∧
      out.inVc = (s.outVc { p with vc := c.vc }).inVc ∧
      out.creditCount = (s.outVc { p with vc := c.vc }).creditCount + 1 ∧
      out.state = if c.isFreeSignal then .idle else (s.outVc { p with vc := c.vc }).state := by
    subst out_eq
    split <;> simp
  obtain ⟨inPort, inVc, credits, state⟩ := kept
  generalize next_eq : setOutVc _ _ out = next
  have holder : ∀ z, next.holder z = s.holder z := by
    intro z
    subst next_eq
    by_cases here : z = { p with vc := c.vc }
    · subst here
      simp [NetState.holder, inPort, inVc]
    · simp [NetState.holder, here, updateIncredit]
  have link : next.link = update s.link p.endpoint (s.link p.endpoint).popCredit := by
    subst next_eq
    rfl
  have switchBuffer : next.switchBuffer = s.switchBuffer := by
    subst next_eq
    rfl
  have vcs : ∀ x, SameVc (s.inVc x) (next.inVc x) ∧ (next.inVc x).buffer = (s.inVc x).buffer := by
    subst next_eq
    exact updateIncredit_inVc _ _ _
  refine ⟨update G (p.endpoint, c.vc) (c.returned (G (p.endpoint, c.vc))), sound.of_channel
    (carries.valid_returned buffer (sound.valid _ _)) ?_ ?_ ?_ ?_ ?_ ?_ ?_⟩
  · refine carries.returned buffer ?_ ?_ ?_ ?_
    · rw [link, update_self]
    · have port : (next.outVc { p with vc := c.vc }).inPort = _ :=
        congrArg (·.port) (holder { p with vc := c.vc })
      simp only [NetState.flight, link, update_self, Link.popCredit]
      simp only [NetState.crossing, endpoint, switchBuffer]
      rw [port]
      rfl
    · rw [← next_eq]
      simpa [NetState.out, endpoint] using credits
    · rw [← next_eq]
      simpa [NetState.out, endpoint] using state
  · refine (sound.records p.endpoint c.vc).congr ?_ (c.returned_sink _).packet
      (c.returned_sink _).size ?_
    · simp [link, Link.popCredit]
    · simp [link, Link.popCredit, (c.returned_sink _).arrived]
  · intro q w same
    subst next_eq
    refine (Unmoved.trans (unmoved_setLink ?_) (unmoved_setInVc _ _ _ _)).trans (unmoved_setOutVc same)
    rintro rfl
    exact Link.popCredit_sameOn buffer fun eq => same (by rw [eq])
  · intro x
    refine (sound.delivers x).congr (vcs x).1 ((c.returned_sink _).update _) fun active => ⟨holder _, ?_⟩
    by_cases here : ((s.boundTo x).toPortId.endpoint, (s.boundTo x).vc) = (p.endpoint, c.vc)
    · have none := (sound.delivers x).no_freeing active (sound.valid _ _)
      rw [downChannel, here] at none
      have plain : c.isFreeSignal = false := by
        by_contra free
        have := carries.freeing_pos buffer (by simpa using free)
        omega
      exact (Credit.returned_source plain _).update _
    · rw [downChannel, downChannel, update_of_ne here]
      exact SameSource.refl _
  · refine sound.interfaces.returned fun k => ?_
    subst next_eq
    rfl
  · refine sound.timely.of_link ?_ switchBuffer link (fun _ => .inl) (fun _ => id) fun x => (vcs x).2
    subst next_eq
    rfl
  · intro z port other
    rw [switchBuffer]
    refine sound.noStrays z port fun eq => other ?_
    exact eq.trans (congrArg (·.port) (holder z)).symm

section Arrival
variable {p : Endpoint} {f : Flit cfg.machines} {rest : List (Flit cfg.machines)}

theorem Carries.front {c : Channel.State PacketId} (h : Carries s p f.vc c)
    (buffer : (s.link p).linkBuffer.items = f :: rest) :
    c.arrived < c.sent ∧ f.piece = (c.packet, c.size, c.arrived) ∧
      (rest.filter (·.vc = f.vc) ++ ((s.link p).srcQueue.items.filter (·.vc = f.vc) ++
        s.crossing p f.vc)).map Flit.piece = Channel.segment c.packet c.size (c.arrived + 1) c.sent := by
  have flight := h.flight
  rw [NetState.flight, buffer, filter_cons_of_pos (by simp), cons_append, map_cons] at flight
  exact cons_eq_segment flight

theorem Records.arrive {s' : NetState cfg} {c c' : Channel.State PacketId}
    (h : Records s p f.vc c) (buffer : (s.link p).linkBuffer.items = f :: rest)
    (rest_eq : (s'.link p).linkBuffer.items = rest)
    (carried : (s'.link p).carried = (s.link p).carried) (packet : c'.packet = c.packet)
    (size : c'.size = c.size) (arrived : c'.arrived = c.arrived + 1) : Records s' p f.vc c' := by
  refine h.congr carried packet size ?_
  rw [arrived, rest_eq, buffer, filter_cons_of_pos (by simp), length_cons]
  omega

end Arrival

section Insert
variable {s t : NetState cfg} {p : Endpoint} {c : Credit}

theorem credits_insert (queue : (t.link p).creditQueue = (s.link p).creditQueue.insert c)
    (buffer : (t.link p).creditBuffer = (s.link p).creditBuffer) :
    t.plainCredits p c.vc = s.plainCredits p c.vc + (if c.isFreeSignal then 0 else 1) ∧
      t.freeSignals p c.vc = s.freeSignals p c.vc + (if c.isFreeSignal then 1 else 0) := by
  simp only [plainCredits, freeSignals, NetState.credits, queue, buffer,
    countP_append, countP_insert]
  by_cases free : c.isFreeSignal <;> simp [free] <;> omega

theorem Link.creditQueue_insert_sameOn (l : Link m) {w : Nat} (other : c.vc ≠ w) :
    l.SameOn w { l with creditQueue := l.creditQueue.insert c } := by
  refine ⟨rfl, rfl, fun free => ?_, rfl⟩
  simp [countP_append, countP_insert, other]

end Insert

def Link.takeFlit (l : Link m) (now : Nat) (f : Flit m) : Link m :=
  { l with
    linkBuffer := l.linkBuffer.pop
    creditQueue := l.creditQueue.insert { vc := f.vc, isFreeSignal := f.isTail, time := now } }

theorem Link.takeFlit_sameOn {l : Link cfg.machines} {f : Flit cfg.machines}
    {rest : List (Flit cfg.machines)} (buffer : l.linkBuffer.items = f :: rest) {now w : Nat}
    (other : f.vc ≠ w) : l.SameOn w (l.takeFlit now f) := by
  refine ⟨?_, rfl, ?_, rfl⟩
  · rw [takeFlit, pop_items, buffer, tail_cons, filter_cons_of_neg (by simpa using other)]
  · exact (l.creditQueue_insert_sameOn other).credits

theorem Sound.niReceive (sound : Sound s G) (n : Nat) : ∃ G, Sound (niReceive n s) G := by
  unfold Garnet.niReceive
  dsimp only
  split
  · exact ⟨G, sound⟩
  rename_i f ready
  obtain ⟨buffer, _⟩ := FlitBuffer.ready?_some ready
  generalize (s.link (cfg.upstream (.ni n))).linkBuffer.items.tail = rest at buffer
  generalize next_eq : returnCredit _ _ _ _ = next
  have link : next.link = update s.link (cfg.upstream (.ni n))
      ((s.link (cfg.upstream (.ni n))).takeFlit s.time f) := by
    subst next_eq
    funext q
    by_cases here : q = cfg.upstream (.ni n) <;> simp [returnCredit, Link.takeFlit, here]
  have vcs : next.inVc = s.inVc ∧ next.outVc = s.outVc ∧ next.switchBuffer = s.switchBuffer := by
    subst next_eq
    exact ⟨rfl, rfl, rfl⟩
  obtain ⟨inVc, outVc, switchBuffer⟩ := vcs
  have taken := sound.interfaces.taken n f.vc
  generalize source_eq : cfg.upstream (.ni n) = source at *
  have carries := sound.carries source f.vc
  obtain ⟨less, piece, flight⟩ := carries.front buffer
  have sent_le := (sound.valid source f.vc).sent_le
  have tail : f.isTail = (G (source, f.vc)).arrive.atLast := by
    have size : f.size = (G (source, f.vc)).size := congrArg (·.2.1) piece
    have number : f.id = (G (source, f.vc)).arrived := congrArg (·.2.2) piece
    rw [Bool.eq_iff_iff, Flit.isTail_iff (by omega)]
    simp [Channel.State.atLast, size, number, taken]
  have out : ∀ q w, next.out q w = s.out q w := by
    intro q w
    cases q with
    | router r o => simp only [NetState.out, outVc]
    | ni k =>
      subst next_eq
      by_cases here : k = n
      · subst here
        simp only [NetState.out, returnCredit, setLink_ni, setNi_self, NetworkInterface.receive]
        split <;> rfl
      · simp [NetState.out, returnCredit, here]
  have crossing : ∀ q w, next.crossing q w = s.crossing q w := by
    intro q w
    cases q <;> simp only [NetState.crossing, outVc, switchBuffer]
  have returned := credits_insert (s := s) (t := next) (p := source)
    (c := { vc := f.vc, isFreeSignal := f.isTail, time := s.time }) (by simp [link, Link.takeFlit])
    (by simp [link, Link.takeFlit])
  refine ⟨update G (source, f.vc) (G (source, f.vc)).arrive.take, sound.of_channel
    (((sound.valid _ _).arrive less).take (by simp [taken])) ⟨?_, ?_, ?_, ?_, ?_⟩ ?_ ?_ ?_ ?_ ?_ ?_⟩
  · rw [out]
    exact carries.state
  · rw [out]
    exact carries.credits
  · simpa [NetState.flight, crossing, link, Link.takeFlit, buffer] using flight
  · rw [returned.1, carries.plain]
    simp [tail]
  · rw [returned.2, carries.freeing]
    simp [tail]
  · exact (sound.records source f.vc).arrive buffer (by simp [link, Link.takeFlit, buffer])
      (by simp [link, Link.takeFlit]) rfl rfl rfl
  · intro q w same
    refine unmoved_of_link (out q w) (crossing q w) ?_
    by_cases here : q = source
    · subst here
      have other : f.vc ≠ w := fun eq => same (by rw [eq])
      rw [link, update_self]
      exact Link.takeFlit_sameOn buffer other
    · rw [link, update_of_ne here]
      exact Link.SameOn.refl w _
  · intro x
    -- the link of an interface ends at no router
    have up : upChannel (update G (source, f.vc) (G (source, f.vc)).arrive.take) cfg x =
        upChannel G cfg x := by
      refine update_of_ne (fun eq => ?_) _ _
      have same := cfg.upstream_injective ((congrArg Prod.fst eq).trans source_eq.symm)
      simp [endpoint] at same
    refine (sound.delivers x).congr ?_ ?_ fun _ => ⟨?_, ?_⟩
    · rw [inVc]
      exact SameVc.refl _
    · rw [up]
      exact SameSink.refl _
    · simp only [NetState.holder, outVc]
    · exact SameSource.update (c := (G (source, f.vc)).arrive.take) ⟨rfl, rfl, rfl, rfl⟩ _
  · refine sound.interfaces.congr ?_ ?_ ?_
    · intro k
      subst next_eq
      by_cases here : k = n
      · subst here
        simp only [returnCredit, setLink_ni, setNi_self, NetworkInterface.receive]
        split <;> rfl
      · simp [returnCredit, here]
    · intro k w
      have source := SameSource.update (c := (G (source, f.vc)).arrive.take) ⟨rfl, rfl, rfl, rfl⟩
        (.ni k, w)
      exact ⟨source.packet, source.size, source.sent⟩
    · intro k w
      by_cases here : (cfg.upstream (.ni k), w) = (source, f.vc)
      · rw [here, update_self]
        simp [taken]
      · rw [update_of_ne here]
        exact sound.interfaces.taken k w
  · refine sound.timely.of_link ?_ switchBuffer link (fun _ => .inl) (fun _ => mem_of_mem_tail) fun _ => ?_
    · subst next_eq
      rfl
    · rw [inVc]
  · intro z port other
    rw [switchBuffer]
    exact sound.noStrays z port (by rwa [outVc] at other)

section InputUnit
variable {p : PortId} {f g : Flit cfg.machines} {rest : List (Flit cfg.machines)}
  {depth : Nat}

variable {x : VcId}

theorem Sound.insert_arrived (sound : Sound s G)
    (buffer : (s.link (cfg.upstream x.toPortId.endpoint)).linkBuffer.items = f :: rest)
    (same : f.vc = x.vc) (piece : g.piece = f.piece) (time : g.time = f.time) :
    ((s.inVc x).buffer.insert g).items = (s.inVc x).buffer.items ++ [g] := by
  refine insert_items_of_last fun h member => ?_
  have carries := sound.carries (cfg.upstream x.toPortId.endpoint) f.vc
  obtain ⟨_, number, _⟩ := carries.front buffer
  have inSegment := mem_map_of_mem (f := Flit.piece) member
  rw [(sound.delivers x).buffered, mem_segment, upChannel, ← same] at inSegment
  have before := inSegment.2.2.2
  have lined := sound.timely.lined x h member f (by simp [buffer]) same
  have id : g.id = (G (cfg.upstream x.toPortId.endpoint, f.vc)).arrived :=
    congrArg (·.2.2) (piece.trans number)
  have less : h.id < g.id := by
    rw [id]
    exact before
  unfold Flit.Before
  omega

/-- The head of a packet makes its input VC wait for an output VC; what follows leaves the state
of the input VC as it is. -/
structure Accepts (f g : Flit m) (old vc : VirtualChannel m) : Prop where
  buffer : vc.buffer = old.buffer.insert g
  state : f.id = 0 ∧ vc.state = .vcAb ∨ f.id ≠ 0 ∧ vc.state = old.state ∧ vc.route = old.route ∧
    vc.outputVc = old.outputVc

theorem upChannel_injective {x' : VcId} (same : (cfg.upstream x'.toPortId.endpoint, x'.vc) =
    (cfg.upstream x.toPortId.endpoint, x.vc)) : x' = x := by
  obtain ⟨⟨r, o⟩, w⟩ := x
  obtain ⟨⟨r', o'⟩, w'⟩ := x'
  simp only [Prod.mk.injEq] at same
  obtain ⟨ends, rfl⟩ := same
  cases cfg.upstream_injective ends
  rfl

theorem Delivers.arrive {s' : NetState cfg} {c : Channel.State PacketId} (h : Delivers s G x)
    (valid : c.Valid depth) (up : upChannel G cfg x = c) (less : c.arrived < c.sent)
    (number : f.piece = (c.packet, c.size, c.arrived)) (piece : g.piece = f.piece)
    (placed : ((s.inVc x).buffer.insert g).items = (s.inVc x).buffer.items ++ [g])
    (accepts : Accepts f g (s.inVc x) (s'.inVc x)) (outVc : s'.outVc = s.outVc) :
    Delivers s' (update G (cfg.upstream x.toPortId.endpoint, x.vc) c.arrive) x := by
  have up' : upChannel (update G (cfg.upstream x.toPortId.endpoint, x.vc) c.arrive) cfg x =
      c.arrive := update_self ..
  obtain ⟨buffered, idle, waiting, active⟩ := h
  rw [up] at buffered idle waiting active
  have sent := valid.sent_le
  have taken := valid.taken_le
  have id : f.id = c.arrived := congrArg (·.2.2) number
  refine ⟨?_, ?_, ?_, ?_⟩
  · rw [accepts.buffer, placed, map_append, buffered, up', map_singleton, piece, number]
    exact (segment_concat _ taken).symm
  · rw [up']
    obtain ⟨first, state⟩ | ⟨later, state, _⟩ := accepts.state
    · simp [state, Channel.State.Open]
      omega
    · rw [state, idle]
      simp [Channel.State.Open]
      omega
  · rw [up']
    obtain ⟨first, state⟩ | ⟨later, state, _⟩ := accepts.state
    · intro _
      simp
      omega
    · rw [state]
      exact waiting
  · rw [up']
    obtain ⟨first, state⟩ | ⟨later, state, route, outputVc⟩ := accepts.state
    · simp [state]
    · have bound : s'.boundTo x = s.boundTo x := by simp only [boundTo, route, outputVc]
      rw [state, bound]
      intro isActive
      obtain ⟨holder, passes⟩ := active isActive
      have source := SameSource.update (G := G)
        (k := (cfg.upstream x.toPortId.endpoint, x.vc)) (c := c.arrive)
        (up ▸ ⟨rfl, rfl, rfl, rfl⟩) ((s.boundTo x).toPortId.endpoint, (s.boundTo x).vc)
      refine ⟨?_, ?_⟩
      · simpa only [NetState.holder, outVc] using holder
      · exact ⟨source.busy.trans passes.busy, source.packet.trans passes.packet,
          source.size.trans passes.size, source.sent.trans passes.sent⟩

def Link.popFlit (l : Link m) : Link m := { l with linkBuffer := l.linkBuffer.pop }

theorem Sound.arrive (sound : Sound s G) {vc : VirtualChannel cfg.machines}
    (buffer : (s.link (cfg.upstream x.toPortId.endpoint)).linkBuffer.items = f :: rest)
    (same : f.vc = x.vc) (due : f.time ≤ s.time) (piece : g.piece = f.piece) (time : g.time = f.time)
    (accepts : Accepts f g (s.inVc x) vc) :
    Sound ((s.setLink (cfg.upstream x.toPortId.endpoint)
        (s.link (cfg.upstream x.toPortId.endpoint)).popFlit).setInVc x vc)
      (update G (cfg.upstream x.toPortId.endpoint, x.vc)
        (G (cfg.upstream x.toPortId.endpoint, x.vc)).arrive) := by
  have placed := sound.insert_arrived buffer same piece time
  have carries := sound.carries (cfg.upstream x.toPortId.endpoint) f.vc
  obtain ⟨less, number, flight⟩ := carries.front buffer
  rw [same] at carries less number flight
  have out : ∀ q w l, ((s.setLink q l).setInVc x vc).out q w = s.out q w := by
    intro q w l
    cases q <;> rfl
  have crossing : ∀ q w l, ((s.setLink q l).setInVc x vc).crossing q w = s.crossing q w := by
    intro q w l
    cases q <;> rfl
  refine sound.of_channel ((sound.valid _ _).arrive less) ⟨?_, ?_, ?_, ?_, ?_⟩ ?_ ?_ ?_ ?_ ?_
    sound.noStrays
  · rw [out]
    exact carries.state
  · rw [out]
    exact carries.credits
  · rw [← same] at flight ⊢
    simpa [NetState.flight, crossing, Link.popFlit, buffer] using flight
  · simpa [plainCredits, NetState.credits, Link.popFlit] using carries.plain
  · simpa [freeSignals, NetState.credits, Link.popFlit] using carries.freeing
  · rw [← same]
    exact (sound.records _ f.vc).arrive buffer (by simp [Link.popFlit, buffer])
      (by simp [Link.popFlit]) rfl rfl rfl
  · intro q w here
    refine (unmoved_setLink ?_).trans (unmoved_setInVc _ _ _ _)
    rintro rfl
    refine ⟨?_, rfl, fun _ => rfl, rfl⟩
    have other : f.vc ≠ w := fun eq => here (by rw [← eq, same])
    rw [Link.popFlit, pop_items, buffer, tail_cons, filter_cons_of_neg (by simpa using other)]
  · intro x'
    by_cases here : x' = x
    · subst here
      refine (sound.delivers x').arrive (sound.valid _ _) rfl less number piece placed ?_ rfl
      rwa [setInVc_inVc, update_self]
    · refine (sound.delivers x').congr ?_ ?_ fun _ => ⟨rfl, ?_⟩
      · rw [setInVc_inVc, update_of_ne here]
        exact SameVc.refl _
      · rw [upChannel, upChannel, update_of_ne fun eq => here (upChannel_injective eq)]
        exact SameSink.refl _
      · exact SameSource.update (c := Channel.State.arrive _) ⟨rfl, rfl, rfl, rfl⟩ _
  · refine sound.interfaces.congr (fun _ => rfl) ?_ ?_
    · intro n w
      have source := SameSource.update (G := G) (k := (cfg.upstream x.toPortId.endpoint, x.vc))
        (c := Channel.State.arrive _) ⟨rfl, rfl, rfl, rfl⟩ (.ni n, w)
      exact ⟨source.packet, source.size, source.sent⟩
    · intro n w
      rw [update_of_ne]
      · exact sound.interfaces.taken n w
      · intro eq
        have ends := cfg.upstream_injective (congrArg Prod.fst eq)
        simp [endpoint] at ends
  · have links : ∀ q, ((s.setLink (cfg.upstream x.toPortId.endpoint)
        (s.link (cfg.upstream x.toPortId.endpoint)).popFlit).link q).srcQueue =
          (s.link q).srcQueue ∧
        ∀ h ∈ ((s.setLink (cfg.upstream x.toPortId.endpoint)
          (s.link (cfg.upstream x.toPortId.endpoint)).popFlit).link q).linkBuffer.items,
          h ∈ (s.link q).linkBuffer.items := by
      intro q
      by_cases here : q = cfg.upstream x.toPortId.endpoint
      · subst here
        rw [setLink_self]
        exact ⟨rfl, fun _ => mem_of_mem_tail⟩
      · rw [setLink_ne _ here]
        exact ⟨rfl, fun _ => id⟩
    have members : ∀ h ∈ vc.buffer.items, h = g ∨ h ∈ (s.inVc x).buffer.items := by
      intro h member
      rw [accepts.buffer, placed] at member
      simpa [or_comm] using member
    refine ⟨sound.timely.switchBuffer, ?_, ?_, ?_, ?_⟩
    · intro q h member
      exact sound.timely.srcQueue q h ((links q).1 ▸ member)
    · intro q h member
      exact sound.timely.linkBuffer q h ((links q).2 h member)
    · intro x' h member
      by_cases here : x' = x
      · subst here
        rw [setInVc_inVc, update_self] at member
        obtain rfl | old := members h member
        · exact time.trans_le due
        · exact sound.timely.inVc x' h old
      · rw [setInVc_inVc, update_of_ne here] at member
        exact sound.timely.inVc x' h member
    · intro x' h member h' onLink sameVc
      have still := (links _).2 h' onLink
      by_cases here : x' = x
      · subst here
        rw [setInVc_inVc, update_self] at member
        obtain rfl | old := members h member
        · -- the flits behind the one that arrives are not older
          have ordered := (s.link (cfg.upstream x'.toPortId.endpoint)).linkBuffer.ordered
          rw [buffer, pairwise_cons] at ordered
          have onRest : h' ∈ rest := by
            simpa [Link.popFlit, buffer] using onLink
          have before := ordered.1 h' onRest
          unfold Flit.Before at before
          omega
        · exact sound.timely.lined x' h old h' still sameVc
      · rw [setInVc_inVc, update_of_ne here] at member
        exact sound.timely.lined x' h member h' still sameVc

theorem Sound.inputUnitWakeup (sound : Sound s G) (p : PortId) :
    inputUnitWakeup p s = .error .noRoute ∨ ∃ s' G, inputUnitWakeup p s = .ok s' ∧ Sound s' G := by
  unfold Garnet.inputUnitWakeup
  dsimp only
  split
  · exact .inr ⟨s, G, rfl, sound⟩
  rename_i f ready
  obtain ⟨buffer, due⟩ := FlitBuffer.ready?_some ready
  have carries := sound.carries (cfg.upstream p.endpoint) f.vc
  obtain ⟨less, number, _⟩ := carries.front buffer
  have valid := sound.valid (cfg.upstream p.endpoint) f.vc
  have sent_le := valid.sent_le
  have size : f.size = (G (cfg.upstream p.endpoint, f.vc)).size := congrArg (·.2.1) number
  have id : f.id = (G (cfg.upstream p.endpoint, f.vc)).arrived := congrArg (·.2.2) number
  have head := Flit.isHead_iff (f := f) (by omega)
  split
  · rename_i isHead
    have first := head.mp isHead
    have idle : (s.inVc { p with vc := f.vc }).state = .idle := by
      rw [(sound.delivers _).idle]
      intro isOpen
      have := isOpen.1
      change 0 < (G (cfg.upstream p.endpoint, f.vc)).arrived at this
      omega
    simp only [idle, ne_eq, not_true_eq_false, ↓reduceIte]
    split
    · exact .inl rfl
    · exact .inr ⟨_, _, rfl, sound.arrive (x := { p with vc := f.vc })
        (g := f.advanceStage .va s.time) buffer rfl due rfl rfl ⟨rfl, .inl ⟨first, rfl⟩⟩⟩
  · rename_i notHead
    exact .inr ⟨_, _, rfl, sound.arrive (x := { p with vc := f.vc })
      (g := f.advanceStage .sa s.time) buffer rfl due rfl rfl
      ⟨rfl, .inr ⟨fun first => notHead (head.mpr first), rfl, rfl, rfl⟩⟩⟩

end InputUnit

section Acquire
variable {s s' : NetState cfg} {p : Endpoint} {w : Nat} {c : Channel.State PacketId} {depth : Nat}

theorem Carries.flight_eq_nil (h : Carries s p w c) (valid : c.Valid depth)
    (idle : c.busy = false) : s.flight p w = [] := by
  have flight := h.flight
  have := valid.idle idle
  have := valid.taken_le
  have := valid.arrived_le
  have := valid.sent_le
  rwa [segment_eq_nil_iff.mpr (by omega), map_eq_nil_iff] at flight

theorem Carries.acquire (h : Carries s p w c) (valid : c.Valid depth) (idle : c.busy = false)
    (packet : PacketId) (size : Nat) (state : (s'.out p w).state = .active)
    (credits : (s'.out p w).creditCount = (s.out p w).creditCount) (link : s'.link p = s.link p)
    (crossing : s'.crossing p w = []) : Carries s' p w (c.acquire packet size) := by
  have nothing := h.flight_eq_nil valid idle
  simp only [NetState.flight, append_eq_nil_iff] at nothing
  refine ⟨by simp [state], ?_, ?_, ?_, ?_⟩
  · rw [credits, h.credits]
    rfl
  · simp [NetState.flight, link, nothing, crossing]
  · rw [plainCredits, NetState.credits, link]
    exact h.plain
  · rw [freeSignals, NetState.credits, link]
    exact h.freeing

theorem Records.acquire (h : Records s p w c) (carries : Carries s p w c)
    (valid : c.Valid depth) (idle : c.busy = false) (packet : PacketId) (size : Nat)
    (link : s'.link p = s.link p) : Records s' p w (c.acquire packet size) := by
  obtain ⟨packets, whole⟩ := h
  have nothing := carries.flight_eq_nil valid idle
  simp only [NetState.flight, append_eq_nil_iff] at nothing
  have all : c.arrived = c.size := by
    have := valid.idle idle
    have := valid.taken_le
    have := valid.arrived_le
    have := valid.sent_le
    omega
  refine ⟨packets ++ [(c.packet, c.size)], ?_⟩
  rw [link, whole, nothing.1, flatMap_append]
  simp [all]

theorem Delivers.acquire {x : VcId} {key : Endpoint × Nat} (h : Delivers s G x)
    (valid : (G key).Valid depth) (idle : (G key).busy = false) (packet : PacketId) (size : Nat)
    (inVc : s'.inVc x = s.inVc x)
    (holder : ∀ z : VcId, (z.toPortId.endpoint, z.vc) ≠ key → s'.holder z = s.holder z) :
    Delivers s' (update G key ((G key).acquire packet size)) x := by
  by_cases here : (cfg.upstream x.toPortId.endpoint, x.vc) = key
  · have up' : upChannel (update G key ((G key).acquire packet size)) cfg x =
        (G key).acquire packet size := by rw [upChannel, here, update_self]
    have up : upChannel G cfg x = G key := by rw [upChannel, here]
    have taken := valid.idle idle
    have closed : ¬ (upChannel G cfg x).Open := by
      rw [up]
      intro isOpen
      have := isOpen.2
      omega
    have state := h.idle.mpr closed
    have nothing := h.buffered
    rw [up, valid.taken_eq_arrived (up ▸ closed), segment_self] at nothing
    refine ⟨?_, ?_, ?_, ?_⟩
    · rw [inVc, up', nothing]
      simp
    · simp [inVc, state, up', Channel.State.Open]
    · simp [inVc, state]
    · simp [inVc, state]
  · refine h.congr ?_ ?_ fun active => ?_
    · rw [inVc]
      exact SameVc.refl _
    · rw [upChannel, upChannel, update_of_ne here]
      exact SameSink.refl _
    · have other : ((s.boundTo x).toPortId.endpoint, (s.boundTo x).vc) ≠ key := by
        intro eq
        have busy := (h.active active).2.busy
        rw [downChannel, eq, idle] at busy
        cases busy
      refine ⟨holder _ other, ?_⟩
      rw [downChannel, downChannel, update_of_ne other]
      exact SameSource.refl _

end Acquire

theorem makeFlits_piece (now vnet vc numFlits : Nat) (msg : MsgPtr m) :
    (makeFlits now vnet vc numFlits msg).map Flit.piece =
      Channel.segment (msg.source, msg.serial) numFlits 0 numFlits := by
  simp [makeFlits, Channel.segment, Flit.piece, range_eq_range']

theorem makeFlits_ordered (now vnet vc numFlits : Nat) (msg : MsgPtr m) :
    (makeFlits now vnet vc numFlits msg).Pairwise Flit.Before := by
  rw [makeFlits, pairwise_map]
  exact pairwise_lt_range.imp fun less => .inr ⟨rfl, less.le⟩

theorem busy_eq_false {p : Endpoint} {w : Nat} {c : Channel.State PacketId} (h : Carries s p w c)
    (idle : (s.out p w).state = .idle) : c.busy = false := by
  have state := h.state
  rw [idle] at state
  by_contra busy
  simp [busy] at state

theorem Sound.inject (sound : Sound s G) (n vc : Nat) (idle : ((s.ni n).outVc vc).state = .idle)
    (now vnet numFlits origin : Nat) (clone : NetworkMessage cfg.machines) :
    ∃ G, Sound (s.setNi n ((s.ni n).inject n now vnet vc numFlits origin clone)) G := by
  have carries := sound.carries (.ni n) vc
  have valid := sound.valid (.ni n) vc
  have free := busy_eq_false carries idle
  have empty : ((s.ni n).buffers vc).items = [] := by
    have unsent := sound.interfaces.unsent n vc
    have := valid.idle free
    have := valid.taken_le
    have := valid.arrived_le
    have := valid.sent_le
    rwa [segment_eq_nil_iff.mpr (by omega), map_eq_nil_iff] at unsent
  refine ⟨update G (.ni n, vc) ((G (.ni n, vc)).acquire (n, (s.ni n).clones) numFlits),
    sound.of_channel (valid.acquire free _ _) (carries.acquire valid free _ _ ?_ ?_ rfl rfl)
      ((sound.records _ _).acquire carries valid free _ _ rfl) ?_ ?_ ?_ ?_ sound.noStrays⟩
  · simp [NetState.out, NetworkInterface.inject]
  · simp [NetState.out, NetworkInterface.inject]
  · intro p w here
    apply unmoved_setNi
    rintro rfl
    have other : w ≠ vc := fun eq => here (by rw [eq])
    simp [NetworkInterface.inject, other]
  · intro x
    exact (sound.delivers x).acquire valid free _ _ rfl fun _ _ => rfl
  · have placed := foldl_insert_items ((s.ni n).buffers vc)
      (makeFlits_ordered now vnet vc numFlits ⟨n, (s.ni n).clones, clone⟩) (by simp [empty])
    rw [empty, nil_append] at placed
    refine sound.interfaces.of_source rfl rfl ?_ ?_ fun _ => rfl
    · intro f member
      rw [NetworkInterface.packet, placed] at member
      simp only [makeFlits, mem_map] at member
      obtain ⟨_, _, rfl⟩ := member
      rfl
    · rw [NetworkInterface.packet, placed]
      exact makeFlits_piece ..
  · exact sound.timely.of_moves rfl (fun _ _ => .inl) (fun _ _ => .inl) (fun _ _ => id)
      fun _ f member => ⟨f, member, rfl⟩

theorem Sound.niInject (sound : Sound s G) (n : Nat) : ∃ G, Sound (niInject n s) G := by
  unfold Garnet.niInject
  have again : ∀ ni ni', (s.setNi n ni).setNi n ni' = s.setNi n ni' := by
    intro ni ni'
    simp [NetState.setNi]
  refine injectMessages_induction cfg (P := fun ni => ∃ G, Sound (s.setNi n ni) G)
    ?_ ?_ ?_ ?_
  · rintro ni vnet ⟨G, before⟩
    exact ⟨G, again ni _ ▸ before.setNi (by simp) (by simp)⟩
  · rintro ni queues ⟨G, before⟩
    exact ⟨G, again ni _ ▸ before.setNi (by simp) (by simp)⟩
  · rintro ni vnet vc numFlits origin clone ⟨G, before⟩ idle _
    have injected := before.inject n vc (by simpa using idle) s.time vnet numFlits
      origin clone
    rwa [setNi_self, again] at injected
  · exact ⟨G, sound.setNi rfl rfl⟩

theorem Sound.niWakeup (sound : Sound s G) (n : Nat) : ∃ G, Sound (niWakeup n s) G := by
  obtain ⟨_, injected⟩ := sound.niInject n
  obtain ⟨_, sent⟩ := injected.niSend n
  obtain ⟨_, received⟩ := sent.niReceive n
  exact received.niCredit n

end SynchroTrace.Garnet
