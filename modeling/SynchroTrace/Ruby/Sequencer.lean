import Mathlib.Logic.Function.Basic
import SynchroTrace.Lib.Outcome

/-!
The requests of a processor that are outstanding, and what is done when the L1 completes one.
-/

namespace SynchroTrace.Ruby
open Outcome

inductive RubyRequestType where
  | ld
  | st
  | atomic
  | ifetch
  | io
  | replacement
  | loadLinked
  | storeConditional
  | rmwRead
  | rmwWrite
  | lockedRmwRead
  | lockedRmwWrite
  | commit
  | null
  | flush
  deriving DecidableEq, Repr

/-- The assertions of the sequencer and of the cache memory, and the panic of `makeRequest`. -/
inductive Fault where
  | unsupportedPacket
  | outstandingCount
  | notLineAddress
  | noRequest
  | requestType
  | tagMissing
  | noData
  | beyondBlock
  deriving DecidableEq, Repr

structure Config where
  blockSizeBits : Nat
  version : Int
  maxOutstandingRequests : Nat
  usingNetworkTester : Bool
  warmupEnabled : Bool
  /-- A sequencer's version is its index: -1 marks an entry that nobody has locked. -/
  version_nonneg : 0 ≤ version

variable (cfg : Config)

def Config.blockSize : Nat := 1 <<< cfg.blockSizeBits

def Config.getOffset (addr : Nat) : Nat := addr % cfg.blockSize

def Config.lineAddress (addr : Nat) : Nat := addr - cfg.getOffset addr

abbrev DataBlock := Fin cfg.blockSize → UInt8

def DataBlock.getData {cfg : Config} (data : DataBlock cfg) (offset len : Nat) :
    Except Fault (Vector UInt8 len) :=
  if fits : offset + len ≤ cfg.blockSize then
    .ok (Vector.ofFn fun i => data ⟨offset + i, by omega⟩)
  else .error .beyondBlock

def DataBlock.setData {cfg : Config} (data : DataBlock cfg) {len : Nat} (bytes : Vector UInt8 len)
    (offset : Nat) : Except Fault (DataBlock cfg) :=
  if offset + len ≤ cfg.blockSize then
    .ok fun i => if inside : offset ≤ i ∧ i < offset + len then bytes[i.val - offset] else data i
  else .error .beyondBlock

/-- A packet of the processor. `ptr` is what `getPtr` points to, if it is not `NULL`. -/
structure Packet where
  addr : Nat
  size : Nat
  ptr : Option (Vector UInt8 size)
  extraData : Option Nat
  isLLSC : Bool
  isLocked : Bool
  isRead : Bool
  isWrite : Bool
  isInstFetch : Bool
  storeCheck : Bool
  isFlush : Bool

structure SequencerRequest where
  pkt : Packet
  type : RubyRequestType

structure RubyRequest where
  lineAddress : Nat
  type : RubyRequestType
  deriving DecidableEq, Repr

variable (pkt : Packet)

/-- The primary and the secondary type of a packet, as `makeRequest` determines them. -/
def Packet.types : Except Fault (RubyRequestType × RubyRequestType) :=
  if pkt.isLLSC then
    if pkt.isWrite then .ok (.storeConditional, .atomic)
    else do
      require pkt.isRead .unsupportedPacket
      return (.loadLinked, .atomic)
  else if pkt.isLocked then
    if pkt.isWrite then .ok (.lockedRmwWrite, .st)
    else do
      require pkt.isRead .unsupportedPacket
      return (.lockedRmwRead, .st)
  else if pkt.isRead then
    if pkt.isInstFetch then .ok (.ifetch, .ifetch)
    else if pkt.storeCheck then .ok (.rmwRead, .st)
    else .ok (.ld, .ld)
  else if pkt.isWrite then .ok (.st, .st)
  else if pkt.isFlush then .ok (.flush, .flush)
  else .error .unsupportedPacket

abbrev RequestTable := List (Nat × SequencerRequest)

def RequestTable.erase (table : RequestTable) (line : Nat) : RequestTable :=
  List.filter (fun entry => entry.1 ≠ line) table

structure Outstanding where
  writeRequestTable : RequestTable
  readRequestTable : RequestTable
  outstandingCount : Int

inductive RequestStatus where
  | ready
  | issued
  | bufferFull
  | aliased
  deriving DecidableEq, Repr

variable (tables : Outstanding)

/-- The assertion on `m_outstanding_count`. -/
def Outstanding.checkCount : Except Fault Unit :=
  require (tables.outstandingCount =
    tables.writeRequestTable.length + tables.readRequestTable.length) .outstandingCount

def RubyRequestType.isStore : RubyRequestType → Bool
  | .st | .rmwRead | .rmwWrite | .loadLinked | .storeConditional | .lockedRmwRead
  | .lockedRmwWrite | .flush => true
  | _ => false

def insertRequest (type : RubyRequestType) (tables : Outstanding) :
    Except Fault (RequestStatus × Outstanding) := do
  tables.checkCount
  let line := cfg.lineAddress pkt.addr
  if (tables.writeRequestTable.lookup line).isSome ∨ (tables.readRequestTable.lookup line).isSome
  then return (.aliased, tables)
  let entry : Nat × SequencerRequest := (line, { pkt, type })
  let tables := { tables with outstandingCount := tables.outstandingCount + 1 }
  let tables := if type.isStore then
      { tables with writeRequestTable := entry :: tables.writeRequestTable }
    else { tables with readRequestTable := entry :: tables.readRequestTable }
  tables.checkCount
  return (.ready, tables)

/-- `makeRequest` with `issueRequest`: what goes to the mandatory queue, if anything does. -/
def makeRequest : Except Fault (RequestStatus × Outstanding × Option RubyRequest) := do
  if cfg.maxOutstandingRequests ≤ tables.outstandingCount then
    return (.bufferFull, tables, none)
  let (primary, secondary) ← pkt.types
  let (status, tables) ← insertRequest cfg pkt primary tables
  match status with
  | .ready =>
    let issued := { lineAddress := cfg.lineAddress pkt.addr, type := secondary }
    return (.issued, tables, some issued)
  | status => return (status, tables, none)

def markRemoved : Except Fault Outstanding := do
  let tables := { tables with outstandingCount := tables.outstandingCount - 1 }
  tables.checkCount
  return tables

def unlocked : Int := -1

/-- `m_locked` of the entry of a line in the data cache; `none` if the tag is not there. -/
abbrev LockField := Option Int

variable (locked : LockField)

def LockField.isLocked (context : Int) : Except Fault Bool :=
  match locked with
  | none => .error .tagMissing
  | some owner => .ok (owner = context)

def LockField.setLocked (context : Int) : Except Fault LockField :=
  match locked with
  | none => .error .tagMissing
  | some _ => .ok (some context)

def LockField.clearLocked : Except Fault LockField :=
  locked.setLocked unlocked

/-- `handleLlsc`: whether the request succeeded, the extra data it sets and the lock it leaves. -/
def handleLlsc (version : Int) (type : RubyRequestType) (locked : LockField) :
    Except Fault (Bool × Option Nat × LockField) :=
  match type with
  | .storeConditional => do
    let success ← locked.isLocked version
    let cleared ← locked.clearLocked
    return (success, some (if success then 1 else 0), cleared)
  | .loadLinked => do
    let held ← locked.setLocked version
    return (true, none, held)
  | _ =>
    match locked with
    | none => .ok (true, none, locked)
    | some _ => do
      if ← locked.isLocked version then
        return (true, none, ← locked.clearLocked)
      else return (true, none, locked)

/-- The call of `handleLlsc`, which the network tester leaves out. -/
def Config.updateLock (type : RubyRequestType) (locked : LockField) :
    Except Fault (Bool × Option Nat × LockField) :=
  if cfg.usingNetworkTester then .ok (true, none, locked)
  else handleLlsc cfg.version type locked

def RubyRequestType.copiesOut : RubyRequestType → Bool
  | .ld | .ifetch | .rmwRead | .lockedRmwRead | .loadLinked => true
  | _ => false

/-- `hitCallback`: the packet that goes back and the block that stays. The flag `success` is only
traced. -/
def hitCallback (request : SequencerRequest) (data : DataBlock cfg)
    (_success : Bool) : Except Fault (Packet × DataBlock cfg) :=
  let pkt := request.pkt
  let offset := cfg.getOffset pkt.addr
  if cfg.warmupEnabled then
    match pkt.ptr with
    | none => .error .noData
    | some bytes => do return (pkt, ← data.setData bytes offset)
  else
    match pkt.ptr with
    | none => .ok (pkt, data)
    | some bytes =>
      if request.type.copiesOut then do
        let read ← data.getData offset pkt.size
        return ({ pkt with ptr := some read }, data)
      else do return (pkt, ← data.setData bytes offset)

def RubyRequestType.isWriteCallback : RubyRequestType → Bool
  | .st | .atomic | .rmwRead | .rmwWrite | .loadLinked | .storeConditional | .lockedRmwRead
  | .lockedRmwWrite | .flush => true
  | _ => false

def RubyRequestType.isReadCallback : RubyRequestType → Bool
  | .ld | .ifetch => true
  | _ => false

/-- What `writeCallback` asks of the controller's block map. -/
inductive BlockCommand where
  | keep
  | blockOnQueue
  | unblock
  deriving DecidableEq, Repr

def RubyRequestType.blockCommand : RubyRequestType → BlockCommand
  | .lockedRmwRead => .blockOnQueue
  | .lockedRmwWrite => .unblock
  | _ => .keep

structure Completion (cfg : Config) where
  request : SequencerRequest
  pkt : Packet
  before : DataBlock cfg
  after : DataBlock cfg

def writeCallback (line : Nat) (data : DataBlock cfg) (locked : LockField)
    (tables : Outstanding) :
    Except Fault (Completion cfg × LockField × BlockCommand × Outstanding) := do
  require (line = cfg.lineAddress line) .notLineAddress
  match tables.writeRequestTable.lookup line with
  | none => .error .noRequest
  | some request => do
    let tables ← markRemoved
      { tables with writeRequestTable := tables.writeRequestTable.erase line }
    require request.type.isWriteCallback .requestType
    let (success, extraData, locked) ← cfg.updateLock request.type locked
    let answered := { request with
      pkt := { request.pkt with extraData := extraData.or request.pkt.extraData } }
    let (pkt, after) ← hitCallback cfg answered data success
    return ({ request, pkt, before := data, after }, locked, request.type.blockCommand, tables)

def readCallback (line : Nat) (data : DataBlock cfg) (tables : Outstanding) :
    Except Fault (Completion cfg × Outstanding) := do
  require (line = cfg.lineAddress line) .notLineAddress
  match tables.readRequestTable.lookup line with
  | none => .error .noRequest
  | some request => do
    let tables ← markRemoved
      { tables with readRequestTable := tables.readRequestTable.erase line }
    require request.type.isReadCallback .requestType
    let (pkt, after) ← hitCallback cfg request data true
    return ({ request, pkt, before := data, after }, tables)

end SynchroTrace.Ruby
