import Mathlib.Algebra.BigOperators.Ring.Finset
import SynchroTrace.Replay.Ports

/-!
The round trip times of a thread: a histogram, a maximum and a sum that are kept apart. A run is
watched to know when each request was issued.
-/

namespace SynchroTrace.Replay
open Function (update update_of_ne update_self)
open Outcome Transition List

/-- The loop of `outputRTT_hist` over the latencies of one thread, from `lat` on. `lat` is an
`int`. -/
def histLoop (roundTripTime : List (Int × Int)) (maxRTT : Int) :
    Nat → Int → Except Fault (List (Int × Int))
  | 0, _ => .error .diverges
  | rounds + 1, lat =>
    if lat ≤ maxRTT then do
      let later ← histLoop roundTripTime maxRTT rounds (toInt32 (lat + 1))
      return (roundTripTime.find? (·.1 = lat)).toList ++ later
    else .ok []

def outputRTTHist (cfg : Config) (rounds : Nat) (s : State) :
    Except Fault (List (List (Int × Int))) :=
  (List.range cfg.numThreads).mapM fun i => histLoop (s.roundTripTime i) (s.maxRTT i) rounds 0

variable {cfg : Config} {table : List (Int × Int)}

theorem find_key (keys : (table.map Prod.fst).Nodup) {lat : Int} {e : Int × Int} :
    table.find? (·.1 = lat) = some e ↔ e ∈ table ∧ e.1 = lat := by
  constructor
  · intro found
    exact ⟨List.mem_of_find?_eq_some found, by simpa using List.find?_some found⟩
  · rintro ⟨member, rfl⟩
    induction table with
    | nil => cases member
    | cons other rest ih =>
      rw [map_cons, nodup_cons] at keys
      rcases mem_cons.mp member with rfl | later
      · simp
      · have different : other.1 ≠ e.1 := by
          intro same
          exact keys.1 (same ▸ mem_map_of_mem later)
        rw [List.find?_cons_of_neg (by simpa using different)]
        exact ih keys.2 later

/-- A table is written once, in the order of its latencies, if `lat` can pass the last of them. -/
theorem histLoop_sorted {maxRTT : Int} (keys : (table.map Prod.fst).Nodup)
    (small : maxRTT < 2 ^ 31 - 1) {rounds : Nat} {lat : Int} (start : 0 ≤ lat)
    (enough : maxRTT + 1 < lat + rounds) (count : 0 < rounds) :
    ∃ out, histLoop table maxRTT rounds lat = .ok out ∧ out.Pairwise (·.1 < ·.1) ∧
      ∀ e, e ∈ out ↔ e ∈ table ∧ lat ≤ e.1 ∧ e.1 ≤ maxRTT := by
  induction rounds generalizing lat with
  | zero => cases count
  | succ rounds ih =>
    by_cases more : lat ≤ maxRTT
    · have next : toInt32 (lat + 1) = lat + 1 := toInt32_eq (by omega) (by omega)
      obtain ⟨out, done, sorted, mem⟩ := @ih (lat + 1) (by omega) (by omega) (by omega)
      have found : ∀ e, e ∈ (table.find? (·.1 = lat)).toList ↔ e ∈ table ∧ e.1 = lat := by
        intro e
        rw [Option.mem_toList, find_key keys]
      refine ⟨(table.find? (·.1 = lat)).toList ++ out, ?_, ?_, fun e => ?_⟩
      · rw [histLoop, if_pos more, next, done]
        rfl
      · refine pairwise_append.mpr ⟨?_, sorted, fun a first b later => ?_⟩
        · cases table.find? (·.1 = lat) <;> simp
        · have here := ((found a).mp first).2
          have after := ((mem b).mp later).2.1
          omega
      · rw [mem_append, found, mem]
        constructor
        · rintro (⟨inside, here⟩ | ⟨inside, low, high⟩)
          · exact ⟨inside, by omega, by omega⟩
          · exact ⟨inside, by omega, high⟩
        · rintro ⟨inside, low, high⟩
          by_cases here : e.1 = lat
          · exact Or.inl ⟨inside, here⟩
          · exact Or.inr ⟨inside, by omega, high⟩
    · refine ⟨[], ?_, .nil, fun e => ?_⟩
      · rw [histLoop, if_neg more]
      · simp only [not_mem_nil, false_iff]
        omega

theorem histLoop_diverges (table : List (Int × Int)) (rounds : Nat) (lat : Int)
    (int : lat < 2 ^ 31) : histLoop table (2 ^ 31 - 1) rounds lat = .error .diverges := by
  induction rounds generalizing lat with
  | zero => rfl
  | succ rounds ih =>
    have next : toInt32 (lat + 1) < 2 ^ 31 := Int.bmod_lt (by decide)
    rw [histLoop, if_pos (by omega), ih _ next]
    rfl

/-- The sum over a table of a weight of the latency, times the count. -/
def weigh (f : Int → Int) (table : List (Int × Int)) : Int :=
  (table.map fun e => f e.1 * e.2).sum

structure Counts (trips : List Nat) (table : List (Int × Int)) : Prop where
  keys : (table.map Prod.fst).Nodup
  positive : ∀ e ∈ table, 0 < e.2
  weighed : ∀ f, weigh f table = (trips.map fun rtt : Nat => f rtt).sum

theorem countRTT_mem {rtt : Int} {lat : Int} :
    lat ∈ (countRTT rtt table).map Prod.fst ↔ lat ∈ table.map Prod.fst ∨ lat = rtt := by
  induction table with
  | nil => simp [countRTT]
  | cons e rest ih =>
    unfold countRTT
    split
    · grind
    · grind

theorem countRTT_keys {rtt : Int} (keys : (table.map Prod.fst).Nodup) :
    ((countRTT rtt table).map Prod.fst).Nodup := by
  induction table with
  | nil => simp [countRTT]
  | cons e rest ih =>
    rw [map_cons, nodup_cons] at keys
    unfold countRTT
    split
    · simpa using keys
    · rename_i other
      rw [map_cons, nodup_cons, countRTT_mem]
      exact ⟨by rintro (old | new) <;> grind, ih keys.2⟩

theorem countRTT_entry {rtt : Int} (positive : ∀ e ∈ table, 0 < e.2)
    (room : ∀ e ∈ table, e.1 = rtt → e.2 < 2 ^ 31 - 1) :
    (∀ e ∈ countRTT rtt table, 0 < e.2) ∧
      ∀ f, weigh f (countRTT rtt table) = weigh f table + f rtt := by
  induction table with
  | nil => simp [countRTT, weigh]
  | cons e rest ih =>
    have here := positive e mem_cons_self
    have fits := room e mem_cons_self
    obtain ⟨laterPositive, laterWeigh⟩ := ih
      (fun e member => positive e (mem_cons_of_mem _ member))
      (fun e member => room e (mem_cons_of_mem _ member))
    unfold countRTT
    split
    · rename_i same
      have next : toInt32 (e.2 + 1) = e.2 + 1 :=
        toInt32_eq (by omega) (by have := fits same; omega)
      rw [next]
      constructor
      · intro other member
        rcases mem_cons.mp member with rfl | later
        · show 0 < e.2 + 1
          omega
        · exact positive other (mem_cons_of_mem _ later)
      · intro f
        simp only [weigh, map_cons, sum_cons, same]
        ring
    · constructor
      · intro other member
        rcases mem_cons.mp member with rfl | later
        · exact here
        · exact laterPositive other later
      · intro f
        have later := laterWeigh f
        simp only [weigh, map_cons, sum_cons] at later ⊢
        rw [later]
        ring

theorem Counts.nil : Counts [] [] :=
  ⟨nodup_nil, by simp, fun _ => rfl⟩

theorem sum_indicator (trips : List Nat) (rtt : Nat) :
    (trips.map fun other : Nat => if (other : Int) = rtt then (1 : Int) else 0).sum =
      trips.count rtt := by
  induction trips with
  | nil => rfl
  | cons first rest ih =>
    rw [map_cons, sum_cons, ih, count_cons]
    split <;> grind

theorem weigh_zero {f : Int → Int} (zero : ∀ e ∈ table, f e.1 = 0) :
    weigh f table = 0 := by
  refine sum_eq_zero fun x member => ?_
  obtain ⟨e, inside, rfl⟩ := mem_map.mp member
  rw [zero e inside, zero_mul]

theorem weigh_indicator (keys : (table.map Prod.fst).Nodup)
    {e : Int × Int} (member : e ∈ table) :
    weigh (fun lat => if lat = e.1 then 1 else 0) table = e.2 := by
  induction table with
  | nil => cases member
  | cons other rest ih =>
    rw [map_cons, nodup_cons] at keys
    have split : ∀ f, weigh f (other :: rest) = f other.1 * other.2 + weigh f rest := fun _ => rfl
    rw [split]
    rcases mem_cons.mp member with rfl | later
    · rw [weigh_zero, if_pos rfl, one_mul, add_zero]
      intro later inside
      refine if_neg fun same => keys.1 ?_
      exact same ▸ mem_map_of_mem inside
    · have different : other.1 ≠ e.1 := by
        intro same
        exact keys.1 (same ▸ mem_map_of_mem later)
      rw [if_neg different, zero_mul, zero_add]
      exact ih keys.2 later

namespace Counts
variable {trips : List Nat}

theorem mem_iff (counts : Counts trips table) (e : Int × Int) :
    e ∈ table ↔ ∃ rtt ∈ trips, e = ((rtt : Int), (trips.count rtt : Int)) := by
  constructor
  · intro member
    have amount := weigh_indicator counts.keys member
    have positive := counts.positive e member
    rw [counts.weighed] at amount
    have some : ∃ rtt ∈ trips, (rtt : Int) = e.1 := by
      by_contra none
      rw [sum_eq_zero] at amount
      · omega
      · intro x weight
        obtain ⟨rtt, inside, rfl⟩ := mem_map.mp weight
        exact if_neg fun same => none ⟨rtt, inside, same⟩
    obtain ⟨rtt, inside, same⟩ := some
    rw [← same, sum_indicator] at amount
    exact ⟨rtt, inside, Prod.ext same.symm amount.symm⟩
  · rintro ⟨rtt, inside, rfl⟩
    have amount := sum_indicator trips rtt
    rw [← counts.weighed fun lat => if lat = rtt then 1 else 0] at amount
    have some : ∃ e ∈ table, e.1 = rtt := by
      by_contra none
      rw [weigh_zero fun e member => if_neg fun same => none ⟨e, member, same⟩] at amount
      have := count_pos_iff.mpr inside
      omega
    obtain ⟨e, member, key⟩ := some
    have own := weigh_indicator counts.keys member
    rw [key, amount] at own
    have entry : e = ((rtt : Int), (trips.count rtt : Int)) := Prod.ext key own.symm
    exact entry ▸ member

theorem add (counts : Counts trips table) {rtt : Nat} (room : trips.count rtt < 2 ^ 31 - 1) :
    Counts (trips ++ [rtt]) (countRTT rtt table) := by
  have fits : ∀ e ∈ table, e.1 = rtt → e.2 < 2 ^ 31 - 1 := by
    intro e member key
    obtain ⟨other, _, rfl⟩ := (counts.mem_iff e).mp member
    have same : other = rtt := Int.ofNat.inj key
    subst same
    show (trips.count other : Int) < 2 ^ 31 - 1
    omega
  obtain ⟨positive, weighed⟩ := countRTT_entry counts.positive fits
  refine ⟨countRTT_keys counts.keys, positive, fun f => ?_⟩
  rw [weighed, counts.weighed, map_append, sum_append]
  simp

end Counts

structure RttRecord where
  curTick : Nat
  pending : List Request
  lastMsgTriggerTime : Nat → Int
  roundTripTime : Nat → List (Int × Int)
  maxRTT : Nat → Int
  totalRTT : Nat → UInt64

def State.rtt (s : State) : RttRecord where
  curTick := s.curTick
  pending := s.pending
  lastMsgTriggerTime := s.lastMsgTriggerTime
  roundTripTime := s.roundTripTime
  maxRTT := s.maxRTT
  totalRTT t := (s.threadStatistics t).totalRTT

def RttRecord.send (rec : RttRecord) (r : Request) : RttRecord :=
  { rec with
    pending := rec.pending ++ [r]
    lastMsgTriggerTime :=
      update rec.lastMsgTriggerTime r.threadID (toInt32 rec.curTick) }

def RttRecord.answer (rec : RttRecord) (r : Request) (time : Nat) : RttRecord :=
  let thisMsgRTT := toInt32 (time - rec.lastMsgTriggerTime r.threadID)
  { rec with
    curTick := time
    pending := rec.pending.erase r
    roundTripTime := update rec.roundTripTime r.threadID
      (countRTT thisMsgRTT (rec.roundTripTime r.threadID))
    maxRTT := update rec.maxRTT r.threadID (max (rec.maxRTT r.threadID) thisMsgRTT)
    totalRTT := update rec.totalRTT r.threadID
      (rec.totalRTT r.threadID + UInt64.ofInt thisMsgRTT) }

structure NotPast (s next : State) : Prop where
  now : next.curTick = s.curTick
  start : next.startEvent = s.startEvent
  events : ∀ p time, next.coreEvents p = some time → s.coreEvents p = some time ∨ s.curTick ≤ time

theorem NotPast.trans {s middle next : State} (first : NotPast s middle)
    (second : NotPast middle next) : NotPast s next := by
  refine ⟨second.now.trans first.now, second.start.trans first.start, fun p time due => ?_⟩
  rcases second.events p time due with old | new
  · exact first.events p time old
  · exact Or.inr (first.now ▸ new)

structure Quiet (s next : State) : Prop extends NotPast s next where
  rtt : next.rtt = s.rtt

/-- The records show that request `r` of the core has been accepted. -/
structure Sent (cfg : Config) (p : Nat) (s next : State) (r : Request) : Prop
    extends NotPast s next where
  sender : r.procID = p
  placed : r.threadID % cfg.numMapped = p
  rtt : next.rtt = s.rtt.send r

section Frames
variable {p t : Nat} {s next : State} {e : STEvent} {rest : List STEvent}
  {top : SubEvent} {more : List SubEvent}

theorem Quiet.of_rtt (rtt : next.rtt = s.rtt) (start : next.startEvent = s.startEvent)
    (events : next.coreEvents = s.coreEvents) : Quiet s next :=
  ⟨⟨congrArg RttRecord.curTick rtt, start, fun _ _ due => Or.inl (events ▸ due)⟩, rtt⟩

theorem Quiet.refl (s : State) : Quiet s s :=
  .of_rtt rfl rfl rfl

theorem Quiet.trans {middle : State} (first : Quiet s middle) (second : Quiet middle next) :
    Quiet s next :=
  ⟨first.toNotPast.trans second.toNotPast, second.rtt.trans first.rtt⟩

theorem Quiet.sent {middle : State} {r : Request} (first : Quiet s middle)
    (second : Sent cfg p middle next r) : Sent cfg p s next r :=
  { second with
    toNotPast := first.toNotPast.trans second.toNotPast
    rtt := first.rtt ▸ second.rtt }

theorem Sent.quiet {middle : State} {r : Request} (first : Sent cfg p s middle r)
    (second : Quiet middle next) : Sent cfg p s next r :=
  { first with
    toNotPast := first.toNotPast.trans second.toNotPast
    rtt := second.rtt.trans first.rtt }

theorem Quiet.updateStats (s : State) (t : Nat) {f : ThreadStats → ThreadStats}
    (same : ∀ st, (f st).totalRTT = st.totalRTT) : Quiet s (s.updateStats t f) := by
  have total : (fun u => ((s.updateStats t f).threadStatistics u).totalRTT) =
      fun u => (s.threadStatistics u).totalRTT := by
    funext u
    by_cases own : u = t
    · subst own
      simp only [State.updateStats, update_self, same]
    · simp only [State.updateStats, update_of_ne own]
  exact .of_rtt (congrArg (fun total => { s.rtt with totalRTT := total }) total) rfl rfl

theorem Quiet.countOps (s : State) (t : Nat) (top : SubEvent) :
    Quiet s (s.updateStats t (·.countOps top)) :=
  .updateStats s t fun _ => rfl

theorem Quiet.countSubEvent (s : State) (t : Nat) : Quiet s (s.countSubEvent t) :=
  .updateStats s t fun _ => rfl

theorem Quiet.replenish (cfg : Config) (s : State) (t : Nat) : Quiet s (s.replenish cfg t) := by
  unfold State.replenish
  split <;> exact .of_rtt rfl rfl rfl

theorem Quiet.leave (cfg : Config) (s : State) (t : Nat) (e : STEvent) (rest : List STEvent)
    (more : List SubEvent) : Quiet s (s.leave cfg t e rest more) := by
  cases more with
  | nil =>
    show Quiet s (s.finish cfg t e rest)
    have popped : Quiet s (s.popEvent t e rest) := .of_rtt rfl rfl rfl
    unfold State.finish
    split
    · exact popped
    · exact popped.trans (.replenish ..)
  | cons next more => exact .of_rtt rfl rfl rfl

theorem Quiet.afterVisit (cfg : Config) (s : State) (t : Nat) (e : STEvent) (rest : List STEvent)
    (top : SubEvent) (more : List SubEvent) (sync : Sync) (seen : List Obs) (visit : Visit) :
    Quiet s (s.afterVisit cfg t e rest top more sync seen visit) := by
  cases visit with
  | waiting => exact .of_rtt rfl rfl rfl
  | skipped =>
    refine .trans ?_ (.leave ..)
    exact .of_rtt rfl rfl rfl
  | consumed =>
    refine .trans ?_ (.leave ..)
    refine .trans ?_ (.countSubEvent ..)
    exact .of_rtt rfl rfl rfl

theorem Scheduled.quiet (h : Scheduled p s next) : Quiet s next := by
  obtain ⟨events, rfl, _, only, ahead⟩ := h
  refine ⟨⟨rfl, rfl, fun q time due => ?_⟩, rfl⟩
  by_cases own : q = p
  · subst own
    exact ahead time due
  · exact Or.inl (only q own ▸ due)

theorem Rescheduled.quiet (h : Rescheduled p s next) : Quiet s next := by
  obtain ⟨i, scheduled⟩ := h
  have moved : Quiet s (moveThreadToHead p i s) := .of_rtt rfl rfl rfl
  exact moved.trans scheduled.quiet

theorem createSubEventsOf_quiet {rand : Nat → Nat}
    (h : createSubEventsOf cfg p t rand s = .ok next) : Quiet s next := by
  rcases createSubEventsOf_ok h with ⟨rfl, _⟩ | ⟨e, rest, top, more, created⟩
  · exact .refl _
  · have made : Quiet s (s.setSubEvents t e rest (cfg.timed top s.curTick :: more)) :=
      .of_rtt rfl rfl rfl
    exact made.trans created.scheduled.quiet

theorem Swapped.quiet {others : List Nat} (h : Swapped cfg p t others s next) : Quiet s next := by
  cases h with
  | alone => exact .refl _
  | aloneAtBarrier _ _ _ scheduled => exact scheduled.quiet
  | makeRoom _ _ swap scheduled =>
    obtain ⟨i, rfl⟩ := swapIfStarted_ok swap
    exact Rescheduled.quiet ⟨i, scheduled⟩
  | stay _ _ created => exact createSubEventsOf_quiet created
  | stalled _ _ created _ _ swapped =>
    exact (createSubEventsOf_quiet created).trans (swapAndSchedule_ok swapped).quiet

theorem msgCounter_totalRTT (kind : EventKind) (type : DtReqType) (st : ThreadStats) :
    (msgCounter kind type st).totalRTT = st.totalRTT := by
  cases kind <;> cases type <;> rfl

theorem triggerMsg_sent {count : ThreadStats → ThreadStats} {msg : Msg}
    (placed : t % cfg.numMapped = p) (same : ∀ st, (count st).totalRTT = st.totalRTT) :
    Sent cfg p s (triggerMsg count p t e rest top more msg true s) (s.packet p t e more msg) := by
  refine ⟨⟨rfl, rfl, fun _ _ due => Or.inl due⟩, rfl, placed, ?_⟩
  unfold triggerMsg
  exact congrArg (RttRecord.send · (s.packet p t e more msg)) (Quiet.updateStats _ t same).rtt

theorem FrontProgressed.quiet {accept : Bool} (h : FrontProgressed cfg p t accept s next)
    (placed : t % cfg.numMapped = p) : Quiet s next ∨ ∃ r, Sent cfg p s next r := by
  cases h with
  | nothing => exact Or.inl (.refl _)
  | later _ _ scheduled => exact Or.inl scheduled.quiet
  | @due _ e rest top more _ _ _ _ progressed =>
    have counted := Quiet.countOps s t top
    cases progressed with
    | recheck _ _ _ scheduled =>
      left
      refine counted.trans (.trans ?_ scheduled.quiet)
      exact .of_rtt rfl rfl rfl
    | work _ _ scheduled =>
      left
      refine counted.trans (.trans ?_ scheduled.quiet)
      refine .trans ?_ (.leave ..)
      refine .trans ?_ (.countSubEvent ..)
      exact .of_rtt rfl rfl rfl
    | visit _ _ _ scheduled =>
      left
      exact counted.trans ((Quiet.afterVisit ..).trans scheduled.quiet)
    | @sent msg =>
      cases accept with
      | false =>
        left
        refine counted.trans ?_
        exact .of_rtt rfl rfl rfl
      | true =>
        right
        exact ⟨_, counted.sent (triggerMsg_sent placed (msgCounter_totalRTT e.kind msg.msgType))⟩

theorem wakeup_quiet {rand : Nat → Nat → Nat} {accept : Bool} (shape : Shape cfg s)
    (h : wakeup cfg p rand accept s = .ok next) : Quiet s next ∨ ∃ r, Sent cfg p s next r := by
  obtain ⟨t, others, created, moved, wake⟩ := wakeup_ok shape h
  obtain ⟨_, create⟩ := wake.create
  obtain ⟨_, _, _, swapped⟩ := wake.swap
  have placed : t % cfg.numMapped = p :=
    (shape.mapped p t (by rw [wake.threads]; exact mem_cons_self)).2
  have first := createSubEventsOf_quiet create
  rcases wake.progress.quiet placed with same | ⟨r, sent⟩
  · exact Or.inl (first.trans (same.trans swapped.quiet))
  · exact Or.inr ⟨r, first.sent (sent.quiet swapped.quiet)⟩

theorem wakeupMaster_quiet {rand : Nat → Nat → Nat} (shape : Shape cfg s)
    (h : wakeupMaster cfg rand s = .ok next) :
    Quiet { s with startEvent := s.curTick + cfg.masterWakeupFrequency } next := by
  have kept : ∃ start, Quiet { s with startEvent := start } next := by
    refine wakeupMaster_invariant (fun after => ∃ start, Quiet { s with startEvent := start } after)
      h shape ?_ ?_ ?_ ⟨s.startEvent, .refl _⟩
    · exact fun filled t ⟨start, same⟩ => ⟨start, same.trans (.replenish cfg filled t)⟩
    · rintro before after q rand _ _ made ⟨start, same⟩
      obtain ⟨t, _, _, created⟩ := createSubEvents_ok made
      exact ⟨start, same.trans (createSubEventsOf_quiet created)⟩
    · exact fun after start stop ⟨_, same⟩ => ⟨start, ⟨same.now, rfl, same.events⟩, same.rtt⟩
  obtain ⟨start, same⟩ := kept
  have restarted : next.startEvent = next.curTick + cfg.masterWakeupFrequency := by
    obtain ⟨filled, _, h⟩ := bind_ok h
    obtain ⟨created, _, h⟩ := bind_ok h
    rw [pure_ok h]
  have now : next.curTick = s.curTick := same.now
  exact ⟨⟨now, now ▸ restarted, same.events⟩, same.rtt⟩

end Frames

/-- A state, when its requests were issued, and the round trips that have ended. -/
structure Watched where
  state : State
  issuedAt : Request → Nat
  trips : Nat → List Nat

/-- What is seen of an action that leads to `next`: when a new request is issued, and how long the
round trip of an answered one took. -/
def Watched.after (w : Watched) (a : Action) (next : State) : Watched where
  state := next
  issuedAt r := if r ∈ next.pending ∧ r ∉ w.state.pending then next.curTick else w.issuedAt r
  trips :=
    match a with
    | .response r time =>
      update w.trips r.threadID (w.trips r.threadID ++ [time - w.issuedAt r])
    | _ => w.trips

def Watched.take (cfg : Config) (w : Watched) (a : Action) : Option Watched :=
  (a.take cfg w.state).map (w.after a)

def watched (cfg : Config) : System Watched Action where
  initial w := initState cfg = .ok w.state ∧ ∀ t, w.trips t = []
  step w a next := w.take cfg a = some next

theorem watched_replay {allowed : Watched → Action → Prop} {w : Watched}
    (reach : ReachableVia (watched cfg) allowed w) : Reachable (replay cfg) w.state := by
  induction reach with
  | initial start => exact .initial start.1
  | step _ _ taken before =>
    obtain ⟨s, chosen, rfl⟩ := Option.map_eq_some_iff.mp taken
    exact .step before trivial (Action.take_step chosen)

/-- A round trip that the records can hold: it is shorter than the last `int`, and its count stays
one. -/
def Watched.Fits (w : Watched) : Action → Prop
  | .response r time =>
    time - w.issuedAt r < 2 ^ 31 - 1 ∧ (w.trips r.threadID).count (time - w.issuedAt r) < 2 ^ 31 - 1
  | _ => True

structure Timely (cfg : Config) (s : State) : Prop where
  start : s.curTick ≤ s.startEvent
  events : ∀ p < cfg.numMapped, ∀ time, s.coreEvents p = some time → s.curTick ≤ time

theorem Action.DueAt.monotone {s : State} {a : Action} {time : Nat}
    (timely : Timely cfg s) (due : a.DueAt cfg s time) : s.curTick ≤ time := by
  obtain ⟨taken, _⟩ := id due
  cases a with
  | master rand =>
    cases taken
    exact timely.start
  | core p rand accept =>
    obtain ⟨inside, scheduled⟩ := due.core
    exact timely.events p inside time scheduled
  | response r arrival =>
    simp only [Action.time] at taken
    split at taken
    · rename_i sent
      cases taken
      exact sent.2
    · cases taken

theorem NotPast.timely {s now next : State} (notPast : NotPast now next)
    (none : NoneEarlier cfg s now.curTick) (start : now.curTick ≤ now.startEvent)
    (events : ∀ p time, now.coreEvents p = some time → s.coreEvents p = some time) :
    Timely cfg next := by
  constructor
  · rw [notPast.now, notPast.start]
    exact start
  · intro p inside time due
    rw [notPast.now]
    rcases notPast.events p time due with old | new
    · have later := none.2 p inside
      rw [events p time old] at later
      simpa using later
    · exact new

/-- The records agree with what has been seen: when requests were issued, and how long their round
trips took. -/
structure Recorded (rec : RttRecord) (issuedAt : Request → Nat) (trips : Nat → List Nat) :
    Prop where
  elapsed : ∀ t, (trips t).sum ≤ rec.curTick
  /-- A thread has one request at a time, so its round trips do not overlap. -/
  issued : ∀ r ∈ rec.pending, issuedAt r ≤ rec.curTick ∧ (trips r.threadID).sum ≤ issuedAt r ∧
    rec.lastMsgTriggerTime r.threadID = toInt32 (issuedAt r)
  table : ∀ t, Counts (trips t) (rec.roundTripTime t)
  longest : ∀ t, 0 ≤ rec.maxRTT t ∧ rec.maxRTT t < 2 ^ 31 - 1 ∧
    ∀ rtt ∈ trips t, (rtt : Int) ≤ rec.maxRTT t
  total : ∀ t, rec.totalRTT t = UInt64.ofNat (trips t).sum

theorem toInt32_sub {start time : Nat} (order : start ≤ time) (short : time - start < 2 ^ 31) :
    toInt32 (time - toInt32 start) = (time - start : Nat) := by
  unfold toInt32
  rw [Int.sub_bmod_bmod]
  have difference : (time : Int) - start = (time - start : Nat) := by omega
  rw [difference]
  exact toInt32_eq (by omega) (by omega)

theorem ofInt_natCast (n : Nat) : UInt64.ofInt n = UInt64.ofNat n := by
  have word : ((n : Int) % 2 ^ 64).toNat = n % 2 ^ 64 := by omega
  rw [UInt64.ofInt, word, UInt64.ofNat_mod_size]

namespace Recorded
variable {rec : RttRecord} {issuedAt : Request → Nat} {trips : Nat → List Nat}

theorem advance (recorded : Recorded rec issuedAt trips) {time : Nat} (later : rec.curTick ≤ time) :
    Recorded { rec with curTick := time } issuedAt trips :=
  { recorded with
    elapsed := fun t => (recorded.elapsed t).trans later
    issued := fun r sent =>
      have ⟨early, after, trigger⟩ := recorded.issued r sent
      ⟨early.trans later, after, trigger⟩ }

theorem send (recorded : Recorded rec issuedAt trips) {r : Request}
    (others : ∀ other ∈ rec.pending, other.threadID ≠ r.threadID) :
    Recorded (rec.send r)
      (fun other => if other ∈ rec.pending ++ [r] ∧ other ∉ rec.pending then rec.curTick
        else issuedAt other) trips := by
  refine { recorded with issued := fun other sent => ?_ }
  by_cases old : other ∈ rec.pending
  · obtain ⟨early, after, trigger⟩ := recorded.issued other old
    have same : (rec.send r).lastMsgTriggerTime other.threadID =
        rec.lastMsgTriggerTime other.threadID := update_of_ne (others other old) ..
    rw [if_neg fun new => new.2 old, same]
    exact ⟨early, after, trigger⟩
  · have own : other = r := by
      rcases mem_append.mp sent with before | new
      · exact absurd before old
      · exact mem_singleton.mp new
    subst own
    rw [if_pos ⟨sent, old⟩]
    exact ⟨le_rfl, recorded.elapsed _, update_self ..⟩

/-- The subtraction is right although both times are cut to an `int`. -/
theorem answer (recorded : Recorded rec issuedAt trips) {r : Request} {time : Nat}
    (sent : r ∈ rec.pending) (later : rec.curTick ≤ time) (short : time - issuedAt r < 2 ^ 31 - 1)
    (room : (trips r.threadID).count (time - issuedAt r) < 2 ^ 31 - 1)
    (others : ∀ other ∈ rec.pending.erase r, other.threadID ≠ r.threadID) :
    Recorded (rec.answer r time) issuedAt
      (update trips r.threadID (trips r.threadID ++ [time - issuedAt r])) := by
  obtain ⟨early, before, trigger⟩ := recorded.issued r sent
  have length : toInt32 (time - rec.lastMsgTriggerTime r.threadID) = (time - issuedAt r : Nat) := by
    rw [trigger]
    exact toInt32_sub (by omega) (by omega)
  have sums : ∀ t,
      (update trips r.threadID (trips r.threadID ++ [time - issuedAt r]) t).sum ≤ time := by
    intro t
    by_cases own : t = r.threadID
    · rw [own, update_self, sum_append, sum_singleton]
      omega
    · rw [update_of_ne own]
      exact (recorded.elapsed t).trans later
  unfold RttRecord.answer
  simp only [length]
  refine ⟨sums, fun other member => ?_, fun t => ?_, fun t => ?_, fun t => ?_⟩
  · obtain ⟨early, after, same⟩ := recorded.issued other (mem_of_mem_erase member)
    rw [update_of_ne (others other member)]
    exact ⟨early.trans later, after, same⟩
  all_goals by_cases own : t = r.threadID
  · subst own
    simp only [update_self]
    exact (recorded.table _).add room
  · simp only [update_of_ne own]
    exact recorded.table t
  · subst own
    simp only [update_self]
    obtain ⟨low, high, all⟩ := recorded.longest r.threadID
    refine ⟨by omega, by omega, fun rtt member => ?_⟩
    rcases mem_append.mp member with old | new
    · have := all rtt old
      omega
    · rw [mem_singleton.mp new]
      omega
  · simp only [update_of_ne own]
    exact recorded.longest t
  · subst own
    simp only [update_self]
    rw [recorded.total, sum_append, sum_singleton, UInt64.ofNat_add, ofInt_natCast]
  · simp only [update_of_ne own]
    exact recorded.total t

end Recorded

theorem recordRTT_rtt (s : State) (r : Request) (time : Nat) :
    (State.recordRTT { s with curTick := time, pending := s.pending.erase r } r.threadID).rtt =
      s.rtt.answer r time := by
  simp only [State.recordRTT, State.updateStats, State.rtt, RttRecord.answer, RttRecord.mk.injEq,
    true_and]
  constructor
  · congr 1
    split
    · rw [max_eq_right (by omega)]
    · rw [max_eq_left (by omega)]
  · funext t
    by_cases own : t = r.threadID
    · subst own
      simp only [update_self]
    · simp only [update_of_ne own]

theorem hitCallback_answer {p time : Nat} {s next : State} {r : Request}
    (shape : Shape cfg s) (waiting : Waiting cfg p s r)
    (h : hitCallback cfg p { s with curTick := time, pending := s.pending.erase r } = .ok next) :
    next.rtt = s.rtt.answer r time ∧ NotPast { s with curTick := time } next := by
  obtain ⟨e, rest, top, more, _, scheduled⟩ := hitCallback_waiting shape waiting h
  have left : Quiet (State.recordRTT { s with curTick := time, pending := s.pending.erase r }
      r.threadID) next := by
    refine .trans ?_ scheduled.quiet
    refine .trans ?_ (.leave ..)
    refine .trans (.countSubEvent _ r.threadID) ?_
    exact .of_rtt rfl rfl rfl
  exact ⟨left.rtt.trans (recordRTT_rtt s r time), ⟨left.now, left.start, left.events⟩⟩

theorem Watched.after_issuedAt {w : Watched} {a : Action} {next : State}
    (old : ∀ r ∈ next.pending, r ∈ w.state.pending) : (w.after a next).issuedAt = w.issuedAt :=
  funext fun r => if_neg fun new => new.2 (old r new.1)

section
variable {s : State} (shape : Shape cfg s) (orderly : Orderly cfg s)
include shape orderly

theorem Orderly.placed {r : Request} (sent : r ∈ s.pending) :
    r.threadID % cfg.numMapped = r.procID :=
  (shape.mapped _ _ (List.mem_of_head? (orderly.waiting sent).2.front)).2

theorem Orderly.calm_thread {p t : Nat} (calm : Calm cfg p s) (placed : t % cfg.numMapped = p)
    {r : Request} (sent : r ∈ s.pending) : r.threadID ≠ t := by
  intro same
  have core := orderly.placed shape sent
  rw [same, placed] at core
  have own : r ∈ s.pending.filter (·.procID = p) := mem_filter.mpr ⟨sent, by simp [core]⟩
  rw [calm.answered] at own
  cases own

theorem Orderly.other_thread {r other : Request} (sent : r ∈ s.pending)
    (left : other ∈ s.pending.erase r) : other.threadID ≠ r.threadID := by
  intro same
  have core := orderly.placed shape (mem_of_mem_erase left)
  rw [same, orderly.placed shape sent] at core
  have own : other ∈ (s.pending.erase r).filter (·.procID = r.procID) :=
    mem_filter.mpr ⟨left, by simp [core]⟩
  rw [filter_erase, (orderly.waiting sent).2.only, erase_cons_head] at own
  cases own

end

section Steps
variable {w : Watched} {time : Nat} {s : State}

theorem Recorded.quiet {a : Action} (recorded : Recorded w.state.rtt w.issuedAt w.trips)
    (later : w.state.curTick ≤ time) (rtt : s.rtt = { w.state.rtt with curTick := time }) :
    Recorded s.rtt (w.after a s).issuedAt w.trips := by
  have same : s.pending = w.state.pending := congrArg RttRecord.pending rtt
  rw [Watched.after_issuedAt (same ▸ fun _ sent => sent), rtt]
  exact recorded.advance later

theorem Recorded.sent {p : Nat} {a : Action} {r : Request} {now : State}
    (recorded : Recorded w.state.rtt w.issuedAt w.trips) (later : w.state.curTick ≤ time)
    (others : ∀ other ∈ w.state.pending, other.threadID ≠ r.threadID)
    (start : now.rtt = { w.state.rtt with curTick := time }) (sent : Sent cfg p now s r) :
    Recorded s.rtt (w.after a s).issuedAt w.trips := by
  have rtt := sent.rtt
  rw [start] at rtt
  have pending : s.pending = w.state.pending ++ [r] := congrArg RttRecord.pending rtt
  have tick : s.curTick = time := congrArg RttRecord.curTick rtt
  have seen : (w.after a s).issuedAt = fun other =>
      if other ∈ w.state.pending ++ [r] ∧ other ∉ w.state.pending then time
      else w.issuedAt other := by
    funext other
    show (if other ∈ s.pending ∧ _ then s.curTick else _) = _
    rw [pending, tick]
  rw [seen, rtt]
  exact (recorded.advance later).send others

end Steps

theorem Recorded.step {w next : Watched} {a : Action} (shape : Shape cfg w.state)
    (orderly : Orderly cfg w.state) (timely : Timely cfg w.state)
    (recorded : Recorded w.state.rtt w.issuedAt w.trips) (fits : w.Fits a)
    (taken : (watched cfg).step w a next) :
    Timely cfg next.state ∧ Recorded next.state.rtt next.issuedAt next.trips := by
  obtain ⟨s, chosen, rfl⟩ := Option.map_eq_some_iff.mp taken
  obtain ⟨time, due, done⟩ := Action.take_step chosen
  have later := due.monotone timely
  cases a with
  | master rand =>
    have now : Shape cfg { w.state with curTick := time } := shape.congr rfl rfl rfl
    have quiet := wakeupMaster_quiet now done
    refine ⟨quiet.timely due.2.1 (Nat.le_add_right ..) fun _ _ event => event, ?_⟩
    exact recorded.quiet later quiet.rtt
  | core p rand accept =>
    obtain ⟨inside, scheduled⟩ := due.core
    have calm := orderly.calm inside scheduled
    have woken : ∀ q time', update w.state.coreEvents p none q = some time' →
        w.state.coreEvents q = some time' := by
      intro q time' event
      by_cases own : q = p
      · rw [own, update_self] at event
        cases event
      · rwa [update_of_ne own] at event
    have now : Shape cfg { w.state with
        curTick := time, coreEvents := update w.state.coreEvents p none } :=
      shape.congr rfl rfl rfl
    rcases wakeup_quiet now done with quiet | ⟨r, sent⟩
    · exact ⟨quiet.timely due.2.1 due.2.1.1 woken, recorded.quiet later quiet.rtt⟩
    · refine ⟨sent.timely due.2.1 due.2.1.1 woken, ?_⟩
      have others : ∀ other ∈ w.state.pending, other.threadID ≠ r.threadID :=
        fun _ before => orderly.calm_thread shape calm sent.placed before
      exact recorded.sent later others rfl sent
  | response r arrival =>
    have sent := due.response
    have arrives : arrival = time := by
      have taken := due.1
      simp only [Action.time] at taken
      split at taken
      · exact Option.some.inj taken
      · cases taken
    subst arrives
    obtain ⟨rtt, notPast⟩ := hitCallback_answer shape (orderly.waiting sent).2 done
    refine ⟨notPast.timely due.2.1 due.2.1.1 fun _ _ event => event, ?_⟩
    have pending : s.pending = w.state.pending.erase r := congrArg RttRecord.pending rtt
    rw [Watched.after_issuedAt fun other member => mem_of_mem_erase (pending ▸ member),
      show (w.after (.response r arrival) s).state.rtt = _ from rtt]
    exact recorded.answer sent later fits.1 fits.2 fun _ left =>
      orderly.other_thread shape sent left

theorem initState_quiet {s : State} (h : initState cfg = .ok s) :
    Quiet (State.blank cfg) s := by
  rw [initState_eq] at h
  cases h
  exact List.foldlRecOn _ _ (.refl _) fun s quiet t _ => quiet.trans (.replenish cfg s t)

theorem reachable_recorded {w : Watched}
    (reach : ReachableVia (watched cfg) Watched.Fits w) :
    Timely cfg w.state ∧ Recorded w.state.rtt w.issuedAt w.trips := by
  refine reach.invariant
    (fun w => Timely cfg w.state ∧ Recorded w.state.rtt w.issuedAt w.trips) ?_ ?_
  · intro w start
    have quiet := initState_quiet start.1
    have trips := start.2
    constructor
    · refine quiet.timely (s := State.blank cfg) ?_ (Nat.zero_le 1) fun _ _ event => event
      exact ⟨Nat.zero_le 1, fun _ _ => rfl⟩
    · rw [quiet.rtt]
      refine ⟨fun t => ?_, fun r sent => ?_, fun t => ?_, fun t => ?_, fun t => ?_⟩
      · rw [trips t]
        exact Nat.zero_le _
      · cases sent
      · rw [trips t]
        exact .nil
      · rw [trips t]
        exact ⟨le_rfl, show (0 : Int) < 2 ^ 31 - 1 by decide, by simp⟩
      · rw [trips t]
        rfl
  · rintro w a next before fits ⟨timely, recorded⟩ taken
    have reached := watched_replay before
    exact recorded.step (reachable_shape reached) (reachable_orderly reached) timely fits taken

section Scripts
variable (cfg) (allowed : Watched → Action → Prop) [∀ w a, Decidable (allowed w a)]

def Watched.turn (w : Watched) (turn : Turn) : Option Watched :=
  (turn.action w.state).bind fun a => if allowed w a then w.take cfg a else none

def watchFrom (script : List Turn) (check : Watched → Bool) : Bool :=
  (initState cfg).toOption.any fun s =>
    (script.foldlM (Watched.turn cfg allowed) ⟨s, fun _ => 0, fun _ => []⟩).any check

variable {cfg allowed}

theorem Watched.foldlM_reachable {script : List Turn} {w final : Watched}
    (reach : ReachableVia (watched cfg) allowed w)
    (h : script.foldlM (Watched.turn cfg allowed) w = some final) :
    ReachableVia (watched cfg) allowed final := by
  induction script generalizing w with
  | nil =>
    cases h
    exact reach
  | cons turn rest ih =>
    rw [foldlM_cons] at h
    obtain ⟨next, taken, h⟩ := Option.bind_eq_some_iff.mp h
    obtain ⟨a, chosen, taken⟩ := Option.bind_eq_some_iff.mp taken
    split at taken
    · exact ih (.step reach ‹_› taken) h
    · cases taken

theorem watchFrom_check {script : List Turn} {check : Watched → Bool}
    (h : watchFrom cfg allowed script check = true) :
    ∃ w, ReachableVia (watched cfg) allowed w ∧ check w = true := by
  obtain ⟨s, start, ran⟩ := any_toOption h
  obtain ⟨final, ran, checked⟩ := (Option.any_eq_true _ _).mp ran
  exact ⟨final, Watched.foldlM_reachable (.initial ⟨start, fun _ => rfl⟩) ran, checked⟩

end Scripts

instance (w : Watched) (a : Action) : Decidable (w.Fits a) :=
  match a with
  | .master _ => isTrue trivial
  | .core .. => isTrue trivial
  | .response _ _ => inferInstanceAs (Decidable (_ ∧ _))

/-- Every round trip is shorter than `2 ^ 31` cycles. -/
def Watched.Short (w : Watched) : Action → Prop
  | .response r time => time - w.issuedAt r < 2 ^ 31
  | _ => True

instance (w : Watched) (a : Action) : Decidable (w.Short a) :=
  match a with
  | .master _ => isTrue trivial
  | .core .. => isTrue trivial
  | .response _ _ => inferInstanceAs (Decidable (_ < _))

def slowConfig : Config where
  ruby := .small
  numCpus := 1
  numThreads := 1
  masterWakeupFrequency := 2 ^ 30
  traceFile t := if t = 0 then ["1,1,10,0,1,0 * 64 71".toList] else []

end SynchroTrace.Replay
