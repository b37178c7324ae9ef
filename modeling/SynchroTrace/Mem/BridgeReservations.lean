import SynchroTrace.Mem.Bridge

namespace SynchroTrace.Mem.Bridge
open Outcome Transition List

namespace SendQueue
variable {α : Type} {now : Nat} {q q' : SendQueue α}

/-- A queue that is not empty is going to be sent: the event is scheduled for when the first entry
is ready, or the port waits for a retry. -/
inductive Armed (now : Nat) : SendQueue α → Prop where
  | empty : Armed now ⟨[], false, none⟩
  | scheduled {first : Nat × α} {rest : List (Nat × α)} {tick : Nat} (due : first.1 ≤ tick)
      (ahead : now ≤ tick) : Armed now ⟨first :: rest, false, some tick⟩
  | retrying {first : Nat × α} {rest : List (Nat × α)} (due : first.1 ≤ now) :
      Armed now ⟨first :: rest, true, none⟩

theorem Armed.tick (armed : Armed now q) (notDue : q.sendEvent ≠ some now) : Armed (now + 1) q := by
  cases armed with
  | empty => exact .empty
  | scheduled due ahead =>
    have later := fun same => notDue (congrArg some same)
    exact .scheduled due (Nat.lt_of_le_of_ne ahead (Ne.symm later))
  | retrying due => exact .retrying (by omega)

theorem schedule_ok {tick : Nat} (later : now ≤ tick) (idle : q.sendEvent = none) :
    q.schedule now tick = .ok { q with sendEvent := some tick } := by
  unfold schedule
  rw [require_of ⟨later, idle⟩]
  rfl

variable {ready : Nat}

theorem Armed.push (armed : Armed now q) (x : α) (later : now ≤ ready) :
    ∃ q', q.push now ready x = .ok q' ∧ Armed now q' ∧ q'.queue = q.queue ++ [(ready, x)] := by
  cases armed with
  | empty =>
    refine ⟨⟨[(ready, x)], false, some ready⟩, ?_, .scheduled (Nat.le_refl ready) later, rfl⟩
    unfold SendQueue.push
    rw [if_pos rfl, schedule_ok later rfl]
    rfl
  | scheduled due ahead => exact ⟨_, rfl, .scheduled due ahead, rfl⟩
  | retrying due => exact ⟨_, rfl, .retrying due, rfl⟩

theorem insertEarlier_ok (x : α) {entries : List (Nat × α)} {last : Nat × α}
    (member : last ∈ entries) (later : ready < last.1) :
    ∃ before next after, entries = before ++ next :: after ∧ ready < next.1 ∧
      (∀ entry ∈ before, entry.1 ≤ ready) ∧
      insertEarlier ready x entries = .ok (before ++ (ready, x) :: next :: after) := by
  induction entries with
  | nil => cases member
  | cons first rest ih =>
    by_cases here : ready < first.1
    · exact ⟨[], first, rest, rfl, here, by simp, if_pos here⟩
    · have inside : last ∈ rest := by
        rcases mem_cons.mp member with rfl | inside
        · exact absurd later here
        · exact inside
      obtain ⟨before, next, after, split, above, below, done⟩ := ih inside
      refine ⟨first :: before, next, after, by rw [split]; rfl, above, ?_, ?_⟩
      · intro entry place
        rcases mem_cons.mp place with rfl | place
        · omega
        · exact below entry place
      · rw [insertEarlier, if_neg here, done]
        rfl

theorem insert_ok (first : Nat × α) (rest : List (Nat × α)) (inRetry : Bool) (event : Option Nat)
    (x : α) (active : event.isSome ∨ inRetry = true) (later : now ≤ ready)
    (early : ready < first.1 → event.isSome) :
    ∃ before after event', first :: rest = before ++ after ∧
      insert now ready x ⟨first :: rest, inRetry, event⟩ =
        .ok ⟨before ++ (ready, x) :: after, inRetry, event'⟩ ∧
      (before = [] ∧ event' = some ready ∧ ready < first.1 ∨
        before.head? = some first ∧ event' = event) := by
  unfold SendQueue.insert
  dsimp only
  rw [require_of active, ok_bind]
  by_cases last : ((first :: rest).getLast (cons_ne_nil first rest)).1 ≤ ready
  · refine ⟨first :: rest, [], event, (append_nil _).symm, ?_, Or.inr ⟨rfl, rfl⟩⟩
    rw [if_pos last]
    rfl
  · rw [if_neg last]
    obtain ⟨before, next, after, split, above, below, done⟩ :=
      insertEarlier_ok x (getLast_mem (cons_ne_nil first rest)) (Nat.lt_of_not_le last)
    refine ⟨before, next :: after, ?_⟩
    cases before with
    | nil =>
      cases split
      refine ⟨some ready, rfl, ?_, Or.inl ⟨rfl, rfl, above⟩⟩
      rw [if_pos above, reschedule, require_of ⟨later, early above⟩]
      show insertEarlier ready x _ >>= _ = _
      rw [done]
      rfl
    | cons front before =>
      cases split
      have behind : ¬ ready < first.1 := Nat.not_lt.mpr (below first mem_cons_self)
      refine ⟨event, rfl, ?_, Or.inr ⟨rfl, rfl⟩⟩
      rw [if_neg behind]
      show insertEarlier ready x _ >>= _ = _
      rw [done]
      rfl

theorem Armed.insert (armed : Armed now q) (x : α) (later : now ≤ ready) :
    ∃ q' before after, q.insert now ready x = .ok q' ∧ Armed now q' ∧
      q.queue = before ++ after ∧ q'.queue = before ++ (ready, x) :: after := by
  cases armed with
  | empty =>
    refine ⟨⟨[(ready, x)], false, some ready⟩, [], [], ?_, ?_, rfl, rfl⟩
    · unfold SendQueue.insert
      dsimp only
      rw [schedule_ok later rfl]
      rfl
    · exact .scheduled (Nat.le_refl ready) later
  | @scheduled first rest tick due ahead =>
    obtain ⟨before, after, event, split, done, place⟩ :=
      insert_ok first rest false (some tick) x (Or.inl rfl) later fun _ => rfl
    refine ⟨_, before, after, done, ?_, split, rfl⟩
    rcases place with ⟨rfl, rfl, _⟩ | ⟨head, rfl⟩
    · exact .scheduled (Nat.le_refl ready) later
    · obtain ⟨behind, rfl⟩ := List.head?_eq_some_iff.mp head
      exact .scheduled due ahead
  | @retrying first rest due =>
    obtain ⟨before, after, event, split, done, place⟩ :=
      insert_ok first rest true none x (Or.inr rfl) later fun early => absurd early (by omega)
    refine ⟨_, before, after, done, ?_, split, rfl⟩
    rcases place with ⟨_, _, early⟩ | ⟨head, rfl⟩
    · exact absurd early (by omega)
    · obtain ⟨behind, rfl⟩ := List.head?_eq_some_iff.mp head
      exact .retrying due

theorem trySend_ok {first : Nat × α} (rest : List (Nat × α)) (accept : Bool) (due : first.1 ≤ now) :
    ∃ (out : Option (Nat × α)) (q' : SendQueue α),
      trySend now accept ⟨first :: rest, false, none⟩ = .ok (out.map Prod.snd, q') ∧
        Armed now q' ∧ first :: rest = out.toList ++ q'.queue := by
  unfold SendQueue.trySend
  dsimp only
  rw [require_of due, ok_bind]
  cases accept with
  | false => exact ⟨none, _, rfl, .retrying due, rfl⟩
  | true =>
    refine ⟨some first, ?_⟩
    cases rest with
    | nil => exact ⟨_, rfl, .empty, rfl⟩
    | cons next rest =>
      refine ⟨⟨next :: rest, false, some (max next.1 (now + 1))⟩, ?_, ?_, rfl⟩
      · rw [if_pos rfl]
        dsimp only
        rw [schedule_ok (by omega) rfl]
        rfl
      · exact .scheduled (by omega) (by omega)

theorem Armed.send (armed : Armed now q) (due : q.sendEvent = some now) (accept : Bool) :
    ∃ (out : Option (Nat × α)) (q' : SendQueue α),
      trySend now accept { q with sendEvent := none } = .ok (out.map Prod.snd, q') ∧
        Armed now q' ∧ q.queue = out.toList ++ q'.queue := by
  cases armed with
  | empty => cases due
  | @scheduled first rest tick ready ahead =>
    cases due
    exact trySend_ok rest accept ready
  | retrying ready => cases due

theorem Armed.retry (armed : Armed now q) (waits : q.inRetry = true) (accept : Bool) :
    ∃ (out : Option (Nat × α)) (q' : SendQueue α),
      q.recvRetry now accept = .ok (out.map Prod.snd, q') ∧ Armed now q' ∧
        q.queue = out.toList ++ q'.queue := by
  cases armed with
  | empty => cases waits
  | scheduled ready ahead => cases waits
  | @retrying first rest ready =>
    unfold SendQueue.recvRetry
    dsimp only
    rw [if_pos ready]
    exact trySend_ok rest accept ready

end SendQueue

/-- The accepted requests whose response is still to pass the bridge or is waiting to leave it. -/
def State.responsesDue (s : State) : Nat :=
  s.requests.queue.countP (·.2.expected) + s.awaited.length + s.responses.queue.countP (!·.2.2)

/-- A response that comes back finds the state that the bridge has pushed. -/
def Packet.Returns (pkt : Packet) : Prop :=
  ∃ src origSenderState, pkt.senderState = some src :: origSenderState

structure Reserved (p : Params) (s : State) : Prop where
  requests : s.requests.Armed s.curTick
  responses : s.responses.Armed s.curTick
  room : s.requests.queue.length ≤ p.reqQueueLimit
  within : s.outstandingResponses ≤ p.respQueueLimit
  due : s.responsesDue ≤ s.outstandingResponses
  pushed : ∀ entry ∈ s.requests.queue, entry.2.expected = true → entry.2.Returns
  awaited : ∀ pkt ∈ s.awaited, pkt.Returns

variable {p : Params} {s next : State} {pkt : Packet}

theorem Reserved.nackRequest (reserved : Reserved p s) (h : nackRequest p pkt s = .ok next) :
    Reserved p next ∧ next.responsesDue = s.responsesDue ∧
      next.outstandingResponses = s.outstandingResponses := by
  obtain ⟨response, _, h⟩ := bind_ok h
  obtain ⟨nack, _, h⟩ := bind_ok h
  obtain ⟨responses, inserted, h⟩ := bind_ok h
  rw [pure_ok h]
  obtain ⟨q, before, after, done, armed, split, queue⟩ :=
    reserved.responses.insert (nack, true) (Nat.le_add_right s.curTick p.nackDelay)
  rw [done] at inserted
  obtain rfl : q = responses := Except.ok.inj inserted
  have same : { s with responses := q }.responsesDue = s.responsesDue := by
    simp [State.responsesDue, queue, split]
  exact ⟨{ reserved with responses := armed, due := same ▸ reserved.due }, same, rfl⟩

theorem queueRequest_ok (armed : s.requests.Armed s.curTick) (h : queueRequest p pkt s = .ok next) :
    ∃ requests sent, next = { s with requests } ∧ requests.Armed s.curTick ∧
      requests.queue = s.requests.queue ++ [(s.curTick + p.delay, sent)] ∧
      sent.expected = pkt.expected ∧ (sent.expected = true → sent.Returns) ∧
      s.requests.queue.length ≠ p.reqQueueLimit := by
  obtain ⟨sent, stored, h⟩ := bind_ok h
  obtain ⟨_, free, h⟩ := bind_ok h
  obtain ⟨requests, pushed, h⟩ := bind_ok h
  obtain ⟨q, done, armed, queue⟩ := armed.push sent (Nat.le_add_right s.curTick p.delay)
  rw [done] at pushed
  obtain rfl : q = requests := Except.ok.inj pushed
  have state : sent.expected = pkt.expected ∧ (sent.expected = true → sent.Returns) := by
    split at stored
    · obtain ⟨_, valid, stored⟩ := bind_ok stored
      rw [pure_ok stored]
      obtain ⟨src, known⟩ := Option.isSome_iff_exists.mp (require_ok valid)
      exact ⟨rfl, fun _ => ⟨src, pkt.senderState, by rw [known]⟩⟩
    · rename_i unexpected
      cases stored
      exact ⟨rfl, fun expected => absurd expected unexpected⟩
  exact ⟨q, sent, pure_ok h, armed, queue, state.1, state.2, require_ok free⟩

theorem Reserved.queueRequest (reserved : Reserved p s)
    (room : s.responsesDue + (if pkt.expected then 1 else 0) ≤ s.outstandingResponses)
    (h : queueRequest p pkt s = .ok next) :
    Reserved p next ∧ next.responsesDue = s.responsesDue + (if pkt.expected then 1 else 0) ∧
      next.outstandingResponses = s.outstandingResponses := by
  obtain ⟨requests, sent, rfl, armed, queue, same, returns, free⟩ :=
    queueRequest_ok reserved.requests h
  have due : { s with requests }.responsesDue =
      s.responsesDue + (if pkt.expected then 1 else 0) := by
    simp only [State.responsesDue, queue, countP_append, countP_cons, countP_nil, same]
    omega
  refine ⟨{ reserved with
    requests := armed
    room := ?_
    due := due ▸ room
    pushed := fun entry member expected => ?_ }, due, rfl⟩
  · have before := reserved.room
    show requests.queue.length ≤ p.reqQueueLimit
    rw [queue, length_append, length_singleton]
    omega
  · rw [queue, mem_append] at member
    rcases member with old | new
    · exact reserved.pushed entry old expected
    · rw [mem_singleton.mp new] at expected ⊢
      exact returns expected

def Accepts (p : Params) (s : State) (pkt : Packet) : Prop :=
  reqQueueFull p s = false ∧ (pkt.needsResponse = true → respQueueFull p s = false)

def State.Exact (s : State) : Prop := s.outstandingResponses = s.responsesDue

theorem Reserved.recvTimingReq (reserved : Reserved p s) (h : recvTimingReq p pkt s = .ok next) :
    Reserved p next ∧ (s.Exact →
      (Accepts p s pkt → pkt.needsResponse = true → pkt.memInhibitAsserted = false) →
        next.Exact) := by
  have nacked : Bridge.nackRequest p pkt s = .ok next →
      Reserved p next ∧ (s.Exact → next.Exact) := by
    intro nacked
    obtain ⟨reserved, due, same⟩ := reserved.nackRequest nacked
    exact ⟨reserved, fun exact => same.trans (exact.trans due.symm)⟩
  unfold Bridge.recvTimingReq at h
  split at h
  · exact ⟨(nacked h).1, fun exact _ => (nacked h).2 exact⟩
  rename_i notFull
  split at h
  · rename_i needs
    split at h
    · exact ⟨(nacked h).1, fun exact _ => (nacked h).2 exact⟩
    · rename_i free
      have below : s.outstandingResponses ≠ p.respQueueLimit := by
        simpa [respQueueFull] using free
      have within := reserved.within
      have due := reserved.due
      have word : (s.outstandingResponses + 1) % 2 ^ 32 = s.outstandingResponses + 1 :=
        Nat.mod_eq_of_lt (by have := p.limits_int.2; omega)
      rw [word] at h
      have booked : Reserved p
          { s with outstandingResponses := s.outstandingResponses + 1 } := by
        refine { reserved with within := ?_, due := Nat.le_succ_of_le due }
        show s.outstandingResponses + 1 ≤ p.respQueueLimit
        omega
      have room : s.responsesDue + (if pkt.expected then 1 else 0) ≤
          s.outstandingResponses + 1 := by
        split <;> omega
      obtain ⟨reserved, more, same⟩ := booked.queueRequest room h
      refine ⟨reserved, fun exact answered => ?_⟩
      have expected : pkt.expected = true := by
        have notFull : reqQueueFull p s = false := by simpa using notFull
        have free : respQueueFull p s = false := by simpa using free
        simp [Packet.expected, needs, answered ⟨notFull, fun _ => free⟩ needs]
      rw [if_pos expected] at more
      unfold State.Exact at exact ⊢
      rw [same, more]
      exact congrArg (· + 1) exact
  · rename_i needs
    have unexpected : pkt.expected = false := by simp [Packet.expected, needs]
    have room : s.responsesDue + (if pkt.expected then 1 else 0) ≤ s.outstandingResponses := by
      simpa [unexpected] using reserved.due
    obtain ⟨reserved, more, same⟩ := reserved.queueRequest room h
    refine ⟨reserved, fun exact _ => ?_⟩
    unfold State.Exact at exact ⊢
    rw [same, more, unexpected]
    exact exact

def Keeps (p : Params) (s : State) (outcome : Except Fault State) : Prop :=
  (∃ next, outcome = .ok next ∧ Reserved p next ∧ (s.Exact → next.Exact)) ∨
    outcome = .error .impossible

section
variable (reserved : Reserved p s)
include reserved

theorem Reserved.tick : Keeps p s (tick s) := by
  unfold Bridge.tick
  split
  · exact Or.inr rfl
  · rename_i notDue
    refine Or.inl ⟨_, rfl, { reserved with
      requests := reserved.requests.tick fun due => notDue (Or.inl due)
      responses := reserved.responses.tick fun due => notDue (Or.inr due) }, fun exact => exact⟩

theorem Reserved.answer (request response : Packet) : Keeps p s (answer p request response s) := by
  unfold Bridge.answer
  split
  · rename_i sent
    obtain ⟨src, origSenderState, state⟩ := reserved.awaited request sent.1
    let fixed : Packet := { response with dest := some src, senderState := origSenderState }
    have fix : response.fixResponse = .ok fixed := by
      unfold Packet.fixResponse
      rw [sent.2, state]
      rfl
    obtain ⟨q, done, armed, queue⟩ :=
      reserved.responses.push (fixed, false) (Nat.le_add_right s.curTick p.delay)
    have due : { s with awaited := s.awaited.erase request, responses := q }.responsesDue =
        s.responsesDue := by
      have some : 0 < s.awaited.length := length_pos_of_mem sent.1
      simp only [State.responsesDue, queue, countP_append, countP_cons, countP_nil,
        length_erase_of_mem sent.1, Bool.not_false, if_true]
      omega
    have outcome : recvTimingResp p response { s with awaited := s.awaited.erase request } =
        .ok { s with awaited := s.awaited.erase request, responses := q } := by
      unfold recvTimingResp queueResponse
      rw [fix, ok_bind, done]
      rfl
    refine Or.inl ⟨_, outcome, { reserved with
      responses := armed
      due := due ▸ reserved.due
      awaited := fun pkt member => reserved.awaited pkt (mem_of_mem_erase member) },
      fun exact => exact.trans due.symm⟩
  · exact Or.inr rfl

theorem Reserved.sent {out : Option (Nat × Packet)} {q : SendQueue Packet}
    (armed : q.Armed s.curTick) (queue : s.requests.queue = out.toList ++ q.queue) :
    Reserved p ({ s with requests := q }.sent (out.map Prod.snd)) ∧
      (s.Exact → ({ s with requests := q }.sent (out.map Prod.snd)).Exact) := by
  have due : ({ s with requests := q }.sent (out.map Prod.snd)).responsesDue = s.responsesDue := by
    have left : ((out.map Prod.snd).toList.filter Packet.expected).length =
        out.toList.countP (·.2.expected) := by
      cases out with
      | none => rfl
      | some entry => exact countP_eq_length_filter.symm
    simp only [State.responsesDue, State.sent, queue, countP_append, length_append, left]
    omega
  refine ⟨{ reserved with
    requests := armed
    room := ?_
    due := due ▸ reserved.due
    pushed := fun entry member => ?_
    awaited := fun pkt member => ?_ }, fun exact => exact.trans due.symm⟩
  · have fits := reserved.room
    rw [queue, length_append] at fits
    exact Nat.le_trans (Nat.le_add_left ..) fits
  · exact reserved.pushed entry (by rw [queue]; exact mem_append_right _ member)
  · rcases mem_append.mp member with old | new
    · exact reserved.awaited pkt old
    · obtain ⟨gone, expected⟩ := mem_filter.mp new
      obtain ⟨entry, first, rfl⟩ := Option.map_eq_some_iff.mp (Option.mem_toList.mp gone)
      refine reserved.pushed entry ?_ expected
      rw [queue]
      exact mem_append_left _ (Option.mem_toList.mpr first)

theorem Reserved.returned {out : Option (Nat × Packet × Bool)} {q : SendQueue (Packet × Bool)}
    (armed : q.Armed s.curTick) (queue : s.responses.queue = out.toList ++ q.queue) :
    ∃ next, { s with responses := q }.returned (out.map Prod.snd) = .ok next ∧
      Reserved p next ∧ (s.Exact → next.Exact) := by
  have before := reserved.due
  have fewer : { s with responses := q }.responsesDue + out.toList.countP (!·.2.2) =
      s.responsesDue := by
    simp only [State.responsesDue, queue, countP_append]
    omega
  rcases out with _ | ⟨_, pkt, _ | _⟩
  · refine ⟨_, rfl, { reserved with responses := armed, due := ?_ }, fun exact => ?_⟩
    · exact Nat.le_trans (Nat.le_of_eq fewer) before
    · exact exact.trans fewer.symm
  · have one : { s with responses := q }.responsesDue + 1 = s.responsesDue := fewer
    have some : s.outstandingResponses ≠ 0 := by omega
    refine ⟨{ s with responses := q, outstandingResponses := s.outstandingResponses - 1 }, ?_,
      { reserved with responses := armed, within := ?_, due := ?_ }, fun exact => ?_⟩
    · show (do require (s.outstandingResponses ≠ 0) Fault.assertion; _) = _
      rw [require_of some]
      rfl
    · exact Nat.le_trans (Nat.sub_le ..) reserved.within
    · show { s with responses := q }.responsesDue ≤ s.outstandingResponses - 1
      omega
    · show s.outstandingResponses - 1 = { s with responses := q }.responsesDue
      unfold State.Exact at exact
      omega
  · refine ⟨_, rfl, { reserved with responses := armed, due := ?_ }, fun exact => ?_⟩
    · exact Nat.le_trans (Nat.le_of_eq fewer) before
    · exact exact.trans fewer.symm

variable (accept : Bool)

theorem Reserved.sendRequest : Keeps p s (sendRequest accept s) := by
  unfold Bridge.sendRequest
  split
  · obtain ⟨out, q, done, armed, queue⟩ := reserved.requests.send ‹_› accept
    rw [done]
    exact Or.inl ⟨_, rfl, reserved.sent armed queue⟩
  · exact Or.inr rfl

theorem Reserved.retryRequest : Keeps p s (retryRequest accept s) := by
  unfold Bridge.retryRequest
  split
  · obtain ⟨out, q, done, armed, queue⟩ := reserved.requests.retry ‹_› accept
    rw [done]
    exact Or.inl ⟨_, rfl, reserved.sent armed queue⟩
  · exact Or.inr rfl

theorem Reserved.sendResponse : Keeps p s (sendResponse accept s) := by
  unfold Bridge.sendResponse
  split
  · obtain ⟨out, q, done, armed, queue⟩ := reserved.responses.send ‹_› accept
    rw [done]
    exact Or.inl (reserved.returned armed queue)
  · exact Or.inr rfl

theorem Reserved.retryResponse : Keeps p s (retryResponse accept s) := by
  unfold Bridge.retryResponse
  split
  · obtain ⟨out, q, done, armed, queue⟩ := reserved.responses.retry ‹_› accept
    rw [done]
    exact Or.inl (reserved.returned armed queue)
  · exact Or.inr rfl

end

/-- A response comes to every accepted request that needs one. -/
def Responds (p : Params) (s : State) : Action → Prop
  | .recvTimingReq pkt =>
    Accepts p s pkt → pkt.needsResponse = true → pkt.memInhibitAsserted = false
  | _ => True

theorem Reserved.keeps (reserved : Reserved p s) {a : Action}
    (other : ∀ pkt, a ≠ .recvTimingReq pkt) : Keeps p s (perform p s a) := by
  cases a with
  | tick => exact reserved.tick
  | recvTimingReq pkt => exact absurd rfl (other pkt)
  | recvTimingResp request response => exact reserved.answer request response
  | sendRequest accept => exact reserved.sendRequest accept
  | retryRequest accept => exact reserved.retryRequest accept
  | sendResponse accept => exact reserved.sendResponse accept
  | retryResponse accept => exact reserved.retryResponse accept

theorem Reserved.perform (reserved : Reserved p s) {a : Action} (h : perform p s a = .ok next) :
    Reserved p next ∧ (s.Exact → Responds p s a → next.Exact) := by
  by_cases request : ∃ pkt, a = .recvTimingReq pkt
  · obtain ⟨pkt, rfl⟩ := request
    exact reserved.recvTimingReq h
  · rcases reserved.keeps fun pkt same => request ⟨pkt, same⟩ with ⟨_, done, kept, exact⟩ | failed
    · cases done.symm.trans h
      exact ⟨kept, fun before _ => exact before⟩
    · cases failed.symm.trans h

theorem reserved_start (p : Params) : Reserved p .start where
  requests := .empty
  responses := .empty
  room := Nat.zero_le _
  within := Nat.zero_le _
  due := Nat.le_refl 0
  pushed := by simp [State.start]
  awaited := by simp [State.start]

theorem reachable_reserved {allowed : State → Action → Prop}
    (reach : ReachableVia (bridge p) allowed s) : Reserved p s := by
  refine reach.invariant (Reserved p) ?_ fun s a next _ _ reserved taken =>
    (reserved.perform taken).1
  rintro s rfl
  exact reserved_start p

theorem reachable_exact (reach : ReachableVia (bridge p) (Responds p) s) : s.Exact := by
  refine reach.invariant State.Exact ?_ fun s a next before responds exact taken =>
    ((reachable_reserved before).perform taken).2 exact responds
  rintro s rfl
  rfl

/-- As long as a response comes to every accepted request that needs one, the reservations are
exact: a request is nacked for lack of response space only if as many responses are due. -/
theorem reservations_exact (reach : ReachableVia (bridge p) (Responds p) s) :
    s.outstandingResponses = s.responsesDue ∧ s.outstandingResponses ≤ p.respQueueLimit ∧
      s.requests.queue.length ≤ p.reqQueueLimit ∧
      ((∀ entry ∈ s.requests.queue, entry.2.expected = false) → s.awaited = [] →
        (∀ entry ∈ s.responses.queue, entry.2.2 = true) → s.outstandingResponses = 0) ∧
      (respQueueFull p s = true → s.responsesDue = p.respQueueLimit) := by
  have reserved := reachable_reserved reach
  have exact : s.outstandingResponses = s.responsesDue := reachable_exact reach
  refine ⟨exact, reserved.within, reserved.room, fun requests awaited responses => ?_, ?_⟩
  · have noRequest : s.requests.queue.countP (·.2.expected) = 0 :=
      countP_eq_zero.mpr fun entry member => by simp [requests entry member]
    have noResponse : s.responses.queue.countP (!·.2.2) = 0 :=
      countP_eq_zero.mpr fun entry member => by simp [responses entry member]
    rw [exact, State.responsesDue, noRequest, noResponse, awaited]
    rfl
  · intro full
    rw [← exact]
    simpa [respQueueFull] using full

def tight : Params where
  delay := 1
  nackDelay := 1
  reqQueueLimit := 1
  respQueueLimit := 1
  reqQueueLimit_pos := Nat.one_pos
  respQueueLimit_pos := Nat.one_pos
  limits_int := by decide

def read (inhibited : Bool) : Packet where
  isRequest := true
  needsResponse := true
  memInhibitAsserted := inhibited
  wasNacked := false
  src := some 0
  dest := none
  senderState := []

def readSent (inhibited : Bool) : List Action :=
  [.recvTimingReq (read inhibited), .tick, .sendRequest true]

theorem reservations_exact_read : ∃ s, ReachableVia (bridge tight) (Responds tight) s ∧
    s.awaited.length = 1 ∧ s.outstandingResponses = s.responsesDue ∧
      s.outstandingResponses ≤ 1 := by
  have check : ((readSent false).foldlM (perform tight) .start).toOption.any
      (fun s => s.awaited.length == 1) = true := by
    decide +kernel
  have permitted : ∀ a ∈ readSent false, ∀ s, Responds tight s a := by
    simp [readSent, Responds, read]
  obtain ⟨s, reach, sent⟩ := foldlM_check (· = State.start) permitted rfl check
  obtain ⟨exact, within, _⟩ := reservations_exact reach
  exact ⟨s, reach, by simpa using sent, exact, within⟩

/-- Whatever the peers answer, a queue with packets is going to be sent, and sending does not fail. -/
theorem packets_not_stranded (reach : Reachable (bridge p) s) :
    s.requests.Armed s.curTick ∧ s.responses.Armed s.curTick ∧
      ∀ a, (∀ pkt, a ≠ .recvTimingReq pkt) → perform p s a ≠ .error .assertion := by
  have reserved := reachable_reserved reach
  refine ⟨reserved.requests, reserved.responses, fun a other failed => ?_⟩
  rcases reserved.keeps other with ⟨_, done, _⟩ | refused
  · cases done.symm.trans failed
  · cases refused.symm.trans failed

theorem packets_not_stranded_read : ∃ s, Reachable (bridge tight) s ∧ s.requests.queue ≠ [] ∧
    s.requests.Armed s.curTick := by
  have check : ([Action.recvTimingReq (read false)].foldlM (perform tight) .start).toOption.any
      (·.requests.queue.length == 1) = true := by decide +kernel
  obtain ⟨s, reach, one⟩ := foldlM_check (· = State.start) (fun _ _ _ => trivial) rfl check
  refine ⟨s, reach, fun empty => ?_, (packets_not_stranded reach).1⟩
  rw [empty] at one
  cases one

/-- No response to a read with `memInhibit` asserted comes through the bridge. Its reservation
stays, and the bridge nacks what needs a response. -/
theorem inhibited_read_leaks : ∃ s, Reachable (bridge tight) s ∧ s.requests.queue = [] ∧
    s.awaited = [] ∧ s.responses.queue = [] ∧ s.outstandingResponses = 1 ∧
    respQueueFull tight s = true := by
  have check : ((readSent true).foldlM (perform tight) .start).toOption.any (fun s =>
      s.requests.queue.isEmpty && s.awaited.isEmpty && s.responses.queue.isEmpty &&
        decide (s.outstandingResponses = 1) && respQueueFull tight s) = true := by
    decide +kernel
  obtain ⟨s, reach, checked⟩ := foldlM_check (· = State.start) (fun _ _ _ => trivial) rfl check
  simp only [Bool.and_eq_true, List.isEmpty_iff, decide_eq_true_eq] at checked
  obtain ⟨⟨⟨⟨requests, awaited⟩, responses⟩, one⟩, full⟩ := checked
  exact ⟨s, reach, requests, awaited, responses, one, full⟩

end SynchroTrace.Mem.Bridge
