import SynchroTrace.Lib.Outcome
import SynchroTrace.Replay.Scheduler

/-!
What a replay is for: the threads run through their traces; pthread calls order their events, and
dependencies the requests that they send. The replay refines this machine.
-/

namespace SynchroTrace.Replay
open Outcome

/-- The visits of thread `t` to a pthread call on `addr`: what becomes of the synchronisation
objects, how the event is left and what is observed. `Ended` says of a thread that it has retired
its trace. -/
inductive Call (cfg : Config) (t addr : Nat) (Ended : Nat → Prop) (y : Sync) :
    PthreadType → Sync → Visit → List Obs → Prop where
  | lockBusy (held : addr ∈ y.mutexLocks) : Call cfg t addr Ended y .mutexLk y .waiting []
  | lock (free : addr ∉ y.mutexLocks) : Call cfg t addr Ended y .mutexLk
      { y with
        mutexLocks := insert addr y.mutexLocks
        threadMutexMap := Function.update y.threadMutexMap t true } .consumed []
  | unlock (held : addr ∈ y.mutexLocks) : Call cfg t addr Ended y .mutexUlk
      { y with
        mutexLocks := y.mutexLocks.erase addr
        threadMutexMap := Function.update y.threadMutexMap t false } .consumed []
  | spinBusy (held : addr ∈ y.spinLocks) : Call cfg t addr Ended y .spinLk y .waiting []
  | spinLock (free : addr ∉ y.spinLocks) : Call cfg t addr Ended y .spinLk
      { y with spinLocks := insert addr y.spinLocks } .consumed []
  | spinUnlock (held : addr ∈ y.spinLocks) : Call cfg t addr Ended y .spinUlk
      { y with spinLocks := y.spinLocks.erase addr } .consumed []
  | create {u : Nat} (created : cfg.threadIndex (cfg.addresstoIdMap addr) = .ok u) :
      Call cfg t addr Ended y .create
        { y with
          roiFlag := true
          workerThreadCount := y.workerThreadCount + 1
          threadStartedMap := Function.update y.threadStartedMap u true } .consumed
        (if y.roiFlag then [] else [.parallelRegion])
  | joinBusy {u : Nat} (joined : cfg.threadIndex (cfg.addresstoIdMap addr) = .ok u)
      (running : ¬ Ended u) :
      Call cfg t addr Ended y .join { y with workerThreadCount := y.workerThreadCount - 1 } .waiting
        (.joinPending t :: if y.workerThreadCount - 1 = 0 then [.lastThreadJoined] else [])
  | join {u : Nat} (joined : cfg.threadIndex (cfg.addresstoIdMap addr) = .ok u) (ended : Ended u) :
      Call cfg t addr Ended y .join { y with workerThreadCount := y.workerThreadCount - 1 } .consumed
        (if y.workerThreadCount - 1 = 0 then [.lastThreadJoined] else [])
  | barrierPass (released : y.threadContMap t = true) : Call cfg t addr Ended y .barrierWt
      { y with threadContMap := Function.update y.threadContMap t false } .consumed []
  | barrierArrive (blocked : y.threadContMap t = false)
      (missing : checkBarriers cfg addr (y.arrive t addr) = false) :
      Call cfg t addr Ended y .barrierWt (y.arrive t addr) .waiting [.arrived t addr]
  | barrierRelease (blocked : y.threadContMap t = false)
      (complete : checkBarriers cfg addr (y.arrive t addr) = true)
      (valid : ∀ id ∈ cfg.barrierMap addr, 0 ≤ id ∧ id < cfg.numThreads) :
      Call cfg t addr Ended y .barrierWt ((y.arrive t addr).release cfg addr) .waiting
        [.arrived t addr, .released addr]
  | condition {type : PthreadType} (kind : type = .condWt ∨ type = .condSg) :
      Call cfg t addr Ended y type y .skipped []

variable {cfg : Config} {visit : Visit} {seen : List Obs}

theorem Config.threadIndex_lt {id : Int} {u : Nat} (h : cfg.threadIndex id = .ok u) :
    u < cfg.numThreads := by
  unfold Config.threadIndex at h
  split at h
  · rw [← Except.ok.inj h]
    omega
  · cases h

variable {t addr : Nat} {y sync : Sync} {type : PthreadType} {Ended : Nat → Prop}

theorem Call.congr {Ended' : Nat → Prop} (same : ∀ u < cfg.numThreads, Ended u ↔ Ended' u)
    (h : Call cfg t addr Ended y type sync visit seen) :
    Call cfg t addr Ended' y type sync visit seen := by
  cases h with
  | lockBusy held => exact .lockBusy held
  | lock free => exact .lock free
  | unlock held => exact .unlock held
  | spinBusy held => exact .spinBusy held
  | spinLock free => exact .spinLock free
  | spinUnlock held => exact .spinUnlock held
  | create created => exact .create created
  | joinBusy joined running =>
    exact .joinBusy joined fun ended => running ((same _ (Config.threadIndex_lt joined)).mpr ended)
  | join joined ended => exact .join joined ((same _ (Config.threadIndex_lt joined)).mp ended)
  | barrierPass released => exact .barrierPass released
  | barrierArrive blocked missing => exact .barrierArrive blocked missing
  | barrierRelease blocked complete valid => exact .barrierRelease blocked complete valid
  | condition kind => exact .condition kind

theorem barrierWait_call (h : barrierWait cfg t addr y = .ok (sync, visit, seen)) :
    Call cfg t addr Ended y .barrierWt sync visit seen := by
  unfold barrierWait at h
  split at h
  · rename_i released
    cases h
    exact .barrierPass released
  · rename_i blocked
    simp only [Bool.not_eq_true] at blocked
    dsimp only at h
    split at h
    · rename_i complete
      split at h
      · rename_i valid
        cases h
        exact .barrierRelease blocked complete valid
      · cases h
    · rename_i missing
      cases h
      exact .barrierArrive blocked (by simpa using missing)

theorem visitPthread_call {queueEmpty : Nat → Bool}
    (h : visitPthread cfg t type addr queueEmpty y = .ok (sync, visit, seen)) :
    Call cfg t addr (fun u => queueEmpty u = true) y type sync visit seen := by
  cases type with
  | mutexLk =>
    simp only [visitPthread] at h
    split at h
    · rename_i held
      cases h
      exact .lockBusy held
    · rename_i free
      cases h
      exact .lock free
  | mutexUlk =>
    simp only [visitPthread] at h
    split at h
    · rename_i held
      cases h
      exact .unlock held
    · cases h
  | spinLk =>
    simp only [visitPthread] at h
    split at h
    · rename_i held
      cases h
      exact .spinBusy held
    · rename_i free
      cases h
      exact .spinLock free
  | spinUlk =>
    simp only [visitPthread] at h
    split at h
    · rename_i held
      cases h
      exact .spinUnlock held
    · cases h
  | create =>
    obtain ⟨u, created, h⟩ := bind_ok h
    cases h
    exact .create created
  | join =>
    obtain ⟨u, joined, h⟩ := bind_ok h
    dsimp only at h
    split at h
    · rename_i ended
      cases h
      exact .join joined ended
    · rename_i running
      cases h
      exact .joinBusy joined running
  | barrierWt => exact barrierWait_call h
  | condWt =>
    cases h
    exact .condition (Or.inl rfl)
  | condSg =>
    cases h
    exact .condition (Or.inr rfl)
  | _ => cases h

theorem Call.retires_none
    (h : Call cfg t addr Ended y type sync visit seen) (u : Nat) : retiredBy seen u = [] := by
  cases h with
  | create | join =>
    split <;> rfl
  | joinBusy =>
    unfold retiredBy
    split <;> rfl
  | _ => rfl

structure Threads where
  sync : Sync
  todo : Nat → List TraceEvent
  history : List Obs

namespace Threads

def retire (a : Threads) (t : Nat) (e : TraceEvent) (rest : List TraceEvent) : Threads :=
  { a with todo := Function.update a.todo t rest, history := a.history ++ [.retired t e] }

def visited (a : Threads) (t : Nat) (e : TraceEvent) (rest : List TraceEvent) (sync : Sync)
    (seen : List Obs) : Visit → Threads
  | .waiting => { a with sync, history := a.history ++ seen }
  | .skipped | .consumed => retire { a with sync, history := a.history ++ seen } t e rest

def Satisfied (cfg : Config) (a : Threads) (dep : SharedInfo) : Prop :=
  dep.prodThreadID = osThreadID ∨ dep.prodThreadID < cfg.numThreads ∧
    ∀ e ∈ (a.todo dep.prodThreadID).head?, dep.prodEventID < e.eventID

inductive Step (cfg : Config) (a : Threads) : Threads → Prop where
  | work {t : Nat} {e : TraceEvent} {rest : List TraceEvent} (simulated : t < cfg.numThreads)
      (next : a.todo t = e :: rest) (kind : ∀ type addr, e.kind ≠ .pthreadApi type addr) :
      Step cfg a (a.retire t e rest)
  | visit {t : Nat} {e : TraceEvent} {rest : List TraceEvent} {type : PthreadType} {addr : Nat}
      {sync : Sync} {visit : Visit} {seen : List Obs} (simulated : t < cfg.numThreads)
      (next : a.todo t = e :: rest) (kind : e.kind = .pthreadApi type addr)
      (started : a.sync.threadStartedMap t = true)
      (call : Call cfg t addr (fun u => a.todo u = []) a.sync type sync visit seen) :
      Step cfg a (a.visited t e rest sync seen visit)
  | send {request : Request} {rest : List TraceEvent} (accept : Bool)
      (simulated : request.threadID < cfg.numThreads)
      (next : a.todo request.threadID = request.event :: rest)
      (index : request.eventIndex = (retiredBy a.history request.threadID).length)
      (satisfied : ∀ requests, request.event.kind = .communication requests →
        a.Satisfied cfg request.msg.thisMsg ∨ a.sync.threadMutexMap request.threadID = true) :
      Step cfg a { a with history := a.history ++
        [.sent request (a.sync.threadMutexMap request.threadID) accept] }

end Threads

end SynchroTrace.Replay
