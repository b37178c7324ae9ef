import Mathlib.Data.Fintype.Pi
import SynchroTrace.Lib.Transition
import SynchroTrace.Ruby.Address
import SynchroTrace.Ruby.Sequencer

namespace SynchroTrace.Ruby
open Outcome Transition RubyRequestType

/-- `AbstractCacheEntry::changePermission`, as far as the lock is concerned. -/
def LockField.changePermission (locked : LockField) (perm : AccessPermission) : LockField :=
  if perm = .invalid ∨ perm = .notPresent then locked.map fun _ => unlocked else locked

structure PortState (cfg : Config) where
  tables : Outstanding
  dataCache : Nat → LockField
  blockMap : Nat → Bool
  mandatoryQueue : List RubyRequest
  completed : List (Completion cfg)

/-- A request of the processor, a callback of the L1 controller with the block it hands over, or
what the controller does to the entry of a line in the data cache. -/
inductive PortAction (cfg : Config) where
  | makeRequest (pkt : Packet)
  | writeCallback (line : Nat) (data : DataBlock cfg)
  | readCallback (line : Nat) (data : DataBlock cfg)
  | allocate (line : Nat)
  | deallocate (line : Nat)
  | changePermission (line : Nat) (perm : AccessPermission)

def PortState.setLock {cfg : Config} (s : PortState cfg) (line : Nat) (locked : LockField) :
    PortState cfg :=
  { s with dataCache := Function.update s.dataCache line locked }

def BlockCommand.run (command : BlockCommand) (line : Nat) (blockMap : Nat → Bool) : Nat → Bool :=
  match command with
  | .keep => blockMap
  | .blockOnQueue => Function.update blockMap line true
  | .unblock => Function.update blockMap line false

def PortState.perform {cfg : Config} (s : PortState cfg) :
    PortAction cfg → Except Fault (PortState cfg)
  | .makeRequest pkt => do
    let (_, tables, issued) ← Ruby.makeRequest cfg pkt s.tables
    return { s with tables, mandatoryQueue := s.mandatoryQueue ++ issued.toList }
  | .writeCallback line data => do
    let (done, locked, command, tables) ←
      Ruby.writeCallback cfg line data (s.dataCache line) s.tables
    return { s.setLock line locked with
      tables, blockMap := command.run line s.blockMap, completed := s.completed ++ [done] }
  | .readCallback line data => do
    let (done, tables) ← Ruby.readCallback cfg line data s.tables
    return { s with tables, completed := s.completed ++ [done] }
  | .allocate line => .ok (s.setLock line (some unlocked))
  | .deallocate line => .ok (s.setLock line none)
  | .changePermission line perm => .ok (s.setLock line ((s.dataCache line).changePermission perm))

def PortState.initial (cfg : Config) : PortState cfg where
  tables := { writeRequestTable := [], readRequestTable := [], outstandingCount := 0 }
  dataCache _ := none
  blockMap _ := false
  mandatoryQueue := []
  completed := []

/-- A sequencer under any requests, and an L1 controller that calls back as it likes. -/
def port (cfg : Config) : System (PortState cfg) (PortAction cfg) :=
  ofFunction (· = PortState.initial cfg) PortState.perform

section Completion
variable {cfg : Config}

def Completion.InRange (c : Completion cfg) (i : Fin cfg.blockSize) : Prop :=
  cfg.getOffset c.request.pkt.addr ≤ i ∧ i < cfg.getOffset c.request.pkt.addr + c.request.pkt.size

def Completion.Failed (c : Completion cfg) : Prop :=
  c.request.type = .storeConditional ∧ c.pkt.extraData = some 0

instance (c : Completion cfg) : Decidable c.Failed := inferInstanceAs (Decidable (_ ∧ _))

/-- Only a store that succeeded changes the block, and only in the packet's range. -/
structure Completion.WritesOnSuccess (c : Completion cfg) : Prop where
  store : c.after ≠ c.before → c.request.type.isWriteCallback ∧ c.request.type.copiesOut = false
  success : c.Failed → c.after = c.before
  outside : ∀ i, ¬ c.InRange i → c.after i = c.before i

/-- The packet has no data, or the data that the block holds in its range. -/
def Completion.CarriesBlock (c : Completion cfg) : Prop :=
  ∀ bytes ∈ c.request.pkt.ptr,
    (c.before.getData (cfg.getOffset c.request.pkt.addr) c.request.pkt.size).toOption = some bytes

instance (c : Completion cfg) : Decidable c.CarriesBlock :=
  inferInstanceAs (Decidable (∀ _ ∈ _, _))

section
variable {after data : DataBlock cfg} {len offset : Nat} {bytes : Vector UInt8 len}
  (h : data.setData bytes offset = .ok after)
include h

theorem setData_outside (i : Fin cfg.blockSize) (outside : ¬ (offset ≤ i ∧ i < offset + len)) :
    after i = data i := by
  unfold DataBlock.setData at h
  split at h
  · cases h
    simp only [outside, ↓reduceDIte]
  · cases h

theorem setData_same_iff : after = data ↔ (data.getData offset len).toOption = some bytes := by
  unfold DataBlock.setData at h
  split at h
  · rename_i fits
    cases h
    simp only [DataBlock.getData, fits, ↓reduceDIte, Except.toOption, Option.some.injEq]
    constructor
    · intro same
      apply Vector.ext
      intro j bound
      have byte := congrFun same ⟨offset + j, by omega⟩
      have inside : offset ≤ offset + j ∧ offset + j < offset + len := by omega
      simp only [inside, and_self, ↓reduceDIte, Nat.add_sub_cancel_left] at byte
      simpa using byte.symm
    · intro same
      funext i
      split
      · rename_i inside
        subst same
        have back : offset + (i.val - offset) = i.val := by omega
        simp [back]
      · rfl
  · cases h

end

theorem hitCallback_ok {request : SequencerRequest} {data after : DataBlock cfg} {success : Bool}
    {pkt : Packet} (normal : cfg.warmupEnabled = false)
    (h : hitCallback cfg request data success = .ok (pkt, after)) :
    pkt.extraData = request.pkt.extraData ∧
      (after = data ∧ (request.pkt.ptr = none ∨ request.type.copiesOut = true) ∨
        request.type.copiesOut = false ∧ ∃ bytes ∈ request.pkt.ptr,
          data.setData bytes (cfg.getOffset request.pkt.addr) = .ok after) := by
  simp only [hitCallback, normal, Bool.false_eq_true, ↓reduceIte] at h
  split at h
  · rename_i empty
    cases h
    exact ⟨rfl, .inl ⟨rfl, .inl empty⟩⟩
  · rename_i bytes full
    split at h
    · rename_i reads
      obtain ⟨read, _, h⟩ := bind_ok h
      cases h
      exact ⟨rfl, .inl ⟨rfl, .inr reads⟩⟩
    · rename_i writes
      obtain ⟨written, done, h⟩ := bind_ok h
      cases h
      exact ⟨rfl, .inr ⟨by simpa using writes, bytes, full, done⟩⟩

/-- What the completion of a request says about it. -/
structure Completion.Explained (c : Completion cfg) : Prop where
  types : c.request.type.isWriteCallback ∨ c.request.type.isReadCallback
  moved : c.after = c.before ∧ (c.request.pkt.ptr = none ∨ c.request.type.copiesOut = true) ∨
    c.request.type.copiesOut = false ∧ ∃ bytes ∈ c.request.pkt.ptr,
      c.before.setData bytes (cfg.getOffset c.request.pkt.addr) = .ok c.after

section
variable (normal : cfg.warmupEnabled = false)
include normal

variable {tables tables' : Outstanding} {done : Completion cfg} {data : DataBlock cfg}

theorem writeCallback_explained {line : Nat} {locked locked' : LockField} {command : BlockCommand}
    (h : writeCallback cfg line data locked tables = .ok (done, locked', command, tables')) :
    done.Explained := by
  unfold writeCallback at h
  obtain ⟨_, _, h⟩ := bind_ok h
  split at h
  · cases h
  · obtain ⟨_, _, h⟩ := bind_ok h
    obtain ⟨_, typed, h⟩ := bind_ok h
    obtain ⟨_, _, h⟩ := bind_ok h
    obtain ⟨⟨pkt, after⟩, hit, h⟩ := bind_ok h
    cases h
    exact ⟨.inl (require_ok typed), (hitCallback_ok normal hit).2⟩

theorem readCallback_explained {line : Nat}
    (h : readCallback cfg line data tables = .ok (done, tables')) :
    done.Explained := by
  unfold readCallback at h
  obtain ⟨_, _, h⟩ := bind_ok h
  split at h
  · cases h
  · obtain ⟨_, _, h⟩ := bind_ok h
    obtain ⟨_, typed, h⟩ := bind_ok h
    obtain ⟨⟨pkt, after⟩, hit, h⟩ := bind_ok h
    cases h
    exact ⟨.inr (require_ok typed), (hitCallback_ok normal hit).2⟩

theorem PortState.perform_explained {s next : PortState cfg} {a : PortAction cfg}
    (before : ∀ c ∈ s.completed, c.Explained) (h : s.perform a = .ok next) :
    ∀ c ∈ next.completed, c.Explained := by
  cases a with
  | makeRequest pkt =>
    obtain ⟨_, _, h⟩ := bind_ok h
    cases h
    exact before
  | writeCallback line data =>
    obtain ⟨⟨done, locked, command, tables⟩, called, h⟩ := bind_ok h
    cases h
    simp only [List.mem_append, List.mem_singleton]
    rintro c (member | rfl)
    · exact before c member
    · exact writeCallback_explained normal called
  | readCallback line data =>
    obtain ⟨⟨done, tables⟩, called, h⟩ := bind_ok h
    cases h
    simp only [List.mem_append, List.mem_singleton]
    rintro c (member | rfl)
    · exact before c member
    · exact readCallback_explained normal called
  | allocate | deallocate | changePermission =>
    cases h
    exact before

theorem reachable_explained {s : PortState cfg} (reach : Reachable (port cfg) s) :
    ∀ c ∈ s.completed, c.Explained := by
  refine reach.invariant (fun s => ∀ c ∈ s.completed, c.Explained) ?_ ?_
  · rintro s rfl c member
    cases member
  · intro s a next _ _ before taken
    exact s.perform_explained normal before taken

end

theorem isWriteCallback_of_stores {type : RubyRequestType}
    (types : type.isWriteCallback ∨ type.isReadCallback) (stores : type.copiesOut = false) :
    type.isWriteCallback = true := by
  cases type <;> simp_all [isWriteCallback, isReadCallback, copiesOut]

theorem Completion.Explained.writesOnSuccess_iff {c : Completion cfg} (e : c.Explained) :
    c.WritesOnSuccess ↔ (c.Failed → c.CarriesBlock) := by
  obtain ⟨same, quiet⟩ | ⟨stores, bytes, carried, written⟩ := e.moved
  · have reads : c.Failed → c.CarriesBlock := by
      rintro ⟨conditional, _⟩ bytes carried
      cases quiet with
      | inl none => simp [none] at carried
      | inr reads => simp [conditional, copiesOut] at reads
    refine ⟨fun _ => reads, fun _ => ⟨?_, fun _ => same, fun i _ => congrFun same i⟩⟩
    intro changed
    exact absurd same changed
  · have unchanged_iff : c.after = c.before ↔ c.CarriesBlock := by
      rw [setData_same_iff written]
      refine ⟨fun same other given => ?_, fun all => all bytes carried⟩
      rw [same, Option.mem_unique carried given]
    constructor
    · intro obeys failed
      exact unchanged_iff.mp (obeys.success failed)
    · intro kept
      refine ⟨fun _ => ⟨isWriteCallback_of_stores e.types stores, stores⟩, ?_, ?_⟩
      · intro failed
        exact unchanged_iff.mpr (kept failed)
      · intro i outside
        exact setData_outside written i outside

/-- A completed request changes its block only as a store that succeeded and only in its own range,
unless it is a store-conditional that fails with other bytes than those of the block. `hitCallback`
ignores the flag and writes those bytes. -/
theorem completed_writesOnSuccess_iff {s : PortState cfg} (normal : cfg.warmupEnabled = false)
    (reach : Reachable (port cfg) s) {c : Completion cfg} (member : c ∈ s.completed) :
    c.WritesOnSuccess ↔ (c.Failed → c.CarriesBlock) :=
  (reachable_explained normal reach c member).writesOnSuccess_iff

end Completion

def twoBytes : Config where
  blockSizeBits := 1
  version := 0
  maxOutstandingRequests := 16
  usingNetworkTester := false
  warmupEnabled := false
  version_nonneg := le_rfl

def conditionalByte (byte : UInt8) : Packet where
  addr := 0
  size := 1
  ptr := some #v[byte]
  extraData := none
  isLLSC := true
  isLocked := false
  isRead := false
  isWrite := true
  isInstFetch := false
  storeCheck := false
  isFlush := false

def conditionalAlone (byte : UInt8) : List (PortAction twoBytes) :=
  [.makeRequest (conditionalByte byte), .allocate 0, .writeCallback 0 fun _ => 0]

theorem conditionalAlone_check {byte : UInt8} {check : Completion twoBytes → Bool}
    (h : ((conditionalAlone byte).foldlM PortState.perform
      (PortState.initial twoBytes)).toOption.any (·.completed.any check) = true) :
    ∃ s, Reachable (port twoBytes) s ∧ ∃ c ∈ s.completed, check c = true := by
  obtain ⟨s, reach, found⟩ :=
    foldlM_check (· = PortState.initial twoBytes) (fun _ _ _ => trivial) rfl h
  exact ⟨s, reach, List.any_eq_true.mp found⟩

/-- Zero bytes over a block of zeros. -/
theorem completed_writesOnSuccess_iff_zero :
    ∃ s, Reachable (port twoBytes) s ∧ ∃ c ∈ s.completed, c.Failed ∧ c.WritesOnSuccess := by
  have check : ((conditionalAlone 0).foldlM PortState.perform
      (PortState.initial twoBytes)).toOption.any (·.completed.any fun c =>
        decide (c.Failed ∧ c.CarriesBlock)) = true := by decide +kernel
  obtain ⟨s, reach, c, member, checked⟩ := conditionalAlone_check check
  obtain ⟨failed, carries⟩ := of_decide_eq_true checked
  exact ⟨s, reach, c, member, failed,
    (completed_writesOnSuccess_iff rfl reach member).mpr fun _ => carries⟩

theorem failed_conditional_writes : ∃ s, Reachable (port twoBytes) s ∧
      ∃ c ∈ s.completed, c.Failed ∧ c.after ≠ c.before := by
  have check : ((conditionalAlone 7).foldlM PortState.perform
      (PortState.initial twoBytes)).toOption.any (·.completed.any fun c =>
        decide (c.Failed ∧ c.after ≠ c.before)) = true := by decide +kernel
  obtain ⟨s, reach, c, member, checked⟩ := conditionalAlone_check check
  exact ⟨s, reach, c, member, of_decide_eq_true checked⟩

end SynchroTrace.Ruby
