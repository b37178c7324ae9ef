import SynchroTrace.Replay.Event

/-!
Reading trace lines. Positions in a line are `size_t` values that start at `-1` or `-2` and wrap.
-/

namespace SynchroTrace.Replay

abbrev Line := List Char

/-- The memory that the requests of a trace are mapped onto. `RubySystem` asserts that a block
is a power of two, and `init` that a request fits in a block and a block in the memory. The size
of a block is an `int` and that of the memory a `uint64`. -/
structure Ruby where
  blockSizeBits : Nat
  memorySizeBytes : Nat
  request_fits : 8 ≤ 2 ^ blockSizeBits := by decide
  block_fits : 2 ^ blockSizeBits ≤ memorySizeBytes := by decide
  block_int : 2 ^ blockSizeBits < 2 ^ 31 := by decide
  memory_word : memorySizeBytes < 2 ^ 64 := by decide

variable (ruby : Ruby)

def Ruby.blockSizeBytes : Nat := 2 ^ ruby.blockSizeBits

def Ruby.numCacheLines : Nat := ruby.memorySizeBytes / ruby.blockSizeBytes

def maxRequestSize : Nat := 8

def npos : UInt64 := 0 - 1

variable (line : Line)

def find (c : Char) (pos : UInt64) : UInt64 :=
  if pos.toNat ≤ line.length then
    match (line.drop pos.toNat).findIdx? (· = c) with
    | some i => UInt64.ofNat (pos.toNat + i)
    | none => npos
  else npos

def substr (pos len : UInt64) : Except Fault Line :=
  if pos.toNat ≤ line.length then .ok ((line.drop pos.toNat).take len.toNat)
  else .error .outOfRange

def digitValue (c : Char) : Nat :=
  if '0' ≤ c ∧ c ≤ '9' then c.toNat - '0'.toNat
  else if 'a' ≤ c ∧ c ≤ 'z' then c.toNat - 'a'.toNat + 10
  else if 'A' ≤ c ∧ c ≤ 'Z' then c.toNat - 'A'.toNat + 10
  else 36

/-- The value of the longest run of digits in the base. -/
def readDigits (base : Nat) : Line → Nat → Nat
  | [], acc => acc
  | c :: rest, acc =>
    if digitValue c < base then readDigits base rest (acc * base + digitValue c) else acc

def isSpace (c : Char) : Bool := c = ' ' ∨ (9 ≤ c.toNat ∧ c.toNat ≤ 13)

/-- Sign and magnitude of a numeral. Base 0 reads the base off the numeral. -/
def readNumeral (base : Nat) (text : Line) : Bool × Nat :=
  let text := text.dropWhile isSpace
  let (negative, text) := match text with
    | '-' :: rest => (true, rest)
    | '+' :: rest => (false, rest)
    | _ => (false, text)
  (negative, match base, text with
    | 0, '0' :: 'x' :: rest => readDigits 16 rest 0
    | 0, '0' :: 'X' :: rest => readDigits 16 rest 0
    | 0, '0' :: rest => readDigits 8 rest 0
    | 0, _ => readDigits 10 text 0
    | base, _ => readDigits base text 0)

def strtoul (text : Line) : Nat :=
  let (negative, magnitude) := readNumeral 0 text
  if 2 ^ 64 ≤ magnitude then 2 ^ 64 - 1
  else if negative then (2 ^ 64 - magnitude) % 2 ^ 64 else magnitude

def strtol (base : Nat) (text : Line) : Int :=
  let (negative, magnitude) := readNumeral base text
  let value : Int := if negative then -magnitude else magnitude
  max (-2 ^ 63) (min value (2 ^ 63 - 1))

def toInt32 (n : Int) : Int := n.bmod (2 ^ 32)

theorem toInt32_eq {n : Int} (low : -2 ^ 31 ≤ n) (high : n < 2 ^ 31) : toInt32 n = n :=
  Int.bmod_eq_of_le (by omega) (by omega)

def atoi (text : Line) : Int := toInt32 (strtol 10 text)

/-- `n` entries of a line separated by `sep`, from behind position `curPos`, and the position of
the last separator found. After the last entry the search wraps to the start of the line. -/
def splitEntries (line : Line) (sep : Char) : Nat → UInt64 → Except Fault (List Line × UInt64)
  | 0, curPos => .ok ([], curPos)
  | n + 1, curPos => do
    let nextPos := find line sep (curPos + 1)
    let entry ← substr line (curPos + 1) (nextPos - (curPos + 1))
    let (entries, last) ← splitEntries line sep n nextPos
    return (entry :: entries, last)

/-- The groups of a line that `sep` and a blank introduce. Every round moves `curPos` forward, so
the length of the line bounds the rounds. -/
def splitGroups (line : Line) (sep : Char) : Nat → UInt64 → Except Fault (List Line)
  | 0, _ => .error .diverges
  | rounds + 1, curPos => do
    let nextPos := find line sep (curPos + 2)
    let group ← substr line (curPos + 2) ((nextPos - 1) - (curPos + 2))
    if nextPos = npos then return [group]
    else return group :: (← splitGroups line sep rounds nextPos)

def groupsOf (sep : Char) : Except Fault (List Line) :=
  splitGroups line sep (line.length + 1) (0 - 2)

/-- The `do` loop that cuts `numBytes` bytes into requests within one block. Every round takes
a byte at least, so the number of bytes bounds the rounds. -/
def splitLoop (ruby : Ruby) (prodThreadID prodEventID : Nat) :
    Nat → Nat → Nat → Nat → Except Fault (List SharedInfo)
  | 0, _, _, _ => .error .diverges
  | rounds + 1, curAdd, prevReqSize, numBytes => do
    let thisReqSize := if maxRequestSize ≤ numBytes then maxRequestSize else numBytes
    let curAdd := (curAdd + prevReqSize) % 2 ^ 64 % ruby.memorySizeBytes
    -- a `uint64` less an `int`, stored in an `int`
    let residual := toInt32 (thisReqSize -
      toInt32 (ruby.blockSizeBytes - toInt32 (curAdd % ruby.blockSizeBytes : Nat)))
    let prevReqSize :=
      if 0 < residual then ((thisReqSize - residual) % 2 ^ 64).toNat else thisReqSize
    let thisLine := ⟨prodThreadID, prodEventID, curAdd, prevReqSize % 2 ^ 32⟩
    let numBytes := (numBytes + 2 ^ 64 - prevReqSize) % 2 ^ 64
    if 0 < numBytes then
      return thisLine ::
        (← splitLoop ruby prodThreadID prodEventID rounds curAdd prevReqSize numBytes)
    else return [thisLine]

def splitRange (prodThreadID prodEventID memStart memEnd : Nat) : Except Fault (List SharedInfo) :=
  let numBytes := (memEnd + 2 ^ 64 - memStart + 1) % 2 ^ 64
  let lineStart := (memStart / ruby.blockSizeBytes) % ruby.numCacheLines
  let startOffset := memStart % ruby.blockSizeBytes
  let curAdd := (lineStart <<< ruby.blockSizeBits) % 2 ^ 64 ||| startOffset
  splitLoop ruby prodThreadID prodEventID (numBytes + 1) curAdd 0 numBytes

def commRequests : Ruby → Nat → Nat → Nat → Nat → Except Fault (List SharedInfo) := splitRange

def compWriteRequests : Nat → Nat → Except Fault (List SharedInfo) :=
  splitRange ruby 0 0

def compReadRequests : Nat → Nat → Except Fault (List SharedInfo) :=
  splitRange ruby 0 0

/-- `eventMap[newEvent->ThreadID]` is not an entry of the array when the id is negative. -/
def threadOf (id : Int) : Except Fault Nat :=
  if 0 ≤ id then .ok id.toNat else .error .outOfRange

/-- `COMM_SHARED_INFO_ENTRIES` numbers: producer thread and event, first and last address. -/
def processCommGroup (group : Line) : Except Fault (List SharedInfo) := do
  let (entries, _) ← splitEntries group ' ' 4 (0 - 1)
  match entries with
  | [thread, event, memStart, memEnd] =>
    commRequests ruby ((atoi thread - 1) % 2 ^ 32).toNat (strtoul event) (strtoul memStart)
      (strtoul memEnd)
  | _ => .error .outOfRange

def processCommEvent (hashPos : UInt64) : Except Fault TraceEvent := do
  let eventInfo ← substr line 0 (hashPos - 1)
  let (entries, _) ← splitEntries eventInfo ',' 2 (0 - 1)
  match entries with
  | [event, thread] =>
    let dependencyInfo ← substr line (hashPos + 2) npos
    let groups ← groupsOf dependencyInfo '#'
    let requests ← groups.mapM (processCommGroup ruby)
    return ⟨strtoul event, ← threadOf (atoi thread - 1), .communication requests.flatten⟩
  | _ => .error .outOfRange

variable (requestsOf : Nat → Nat → Except Fault (List SharedInfo))

def processCompGroup (group : Line) : Except Fault (List SharedInfo) := do
  let (entries, _) ← splitEntries group ' ' 2 (0 - 1)
  match entries with
  | [memStart, memEnd] => requestsOf (strtoul memStart) (strtoul memEnd)
  | _ => .error .outOfRange

/-- The requests of the groups behind a mark: `processCompWriteEvent` and `processCompReadEvent`
differ only in the mark and in the list they fill. -/
def processCompRanges (mark : Char)
    (dependencyInfo : Line) : Except Fault (List SharedInfo) := do
  let groups ← groupsOf dependencyInfo mark
  let requests ← groups.mapM (processCompGroup requestsOf)
  return requests.flatten

def processCompWriteEvent : Line → Except Fault (List SharedInfo) :=
  processCompRanges (compWriteRequests ruby) '$'

def processCompReadEvent : Line → Except Fault (List SharedInfo) :=
  processCompRanges (compReadRequests ruby) '*'

/-- Event and thread number and the four counts of a computation event. -/
def processCompMainEvent (eventInfo : Line) : Except Fault (Nat × Int × CompInfo) := do
  if eventInfo.count ',' < 5 then .error .elementCount
  else
    let (entries, _) ← splitEntries eventInfo ',' 6 (0 - 1)
    match entries with
    | [event, thread, iops, flops, reads, writes] =>
      return (strtoul event, atoi thread - 1,
        { compIOPS := strtoul iops, compFLOPS := strtoul flops,
          compMemReads := strtoul reads, compMemWrites := strtoul writes })
    | _ => .error .outOfRange

def processCompEvent : Except Fault TraceEvent := do
  let dollarPos := find line '$' 0
  let starPos := find line '*' 0
  let (readEventInfo, remainder) ←
    if starPos = npos then pure ([], line)
    else do pure (← substr line (starPos + 2) npos, ← substr line 0 (starPos - 1))
  let (writeEventInfo, remainder) ←
    if dollarPos = npos then pure ([], remainder)
    else do pure (← substr remainder (dollarPos + 2) npos, ← substr remainder 0 (dollarPos - 1))
  let (eventID, threadID, comp) ← processCompMainEvent remainder
  let writes ← if dollarPos = npos then pure [] else processCompWriteEvent ruby writeEventInfo
  let reads ← if starPos = npos then pure [] else processCompReadEvent ruby readEventInfo
  return ⟨eventID, ← threadOf threadID,
    .computation { comp with compWriteEvents := writes, compReadEvents := reads }⟩

def cutAt (pos : UInt64) : Except Fault (Line × Line) :=
  if pos = npos then pure ([], line)
  else do pure (← substr line (pos + 2) npos, ← substr line 0 (pos - 1))

theorem processCompEvent_eq (ruby : Ruby) (line : Line) : processCompEvent ruby line = (do
      let star ← cutAt line (find line '*' 0)
      let dollar ← cutAt star.2 (find line '$' 0)
      let main ← processCompMainEvent dollar.2
      let writes ← (if find line '$' 0 = npos then pure [] else processCompWriteEvent ruby dollar.1)
      let reads ← (if find line '*' 0 = npos then pure [] else processCompReadEvent ruby star.1)
      let threadID ← threadOf main.2.1
      return ⟨main.1, threadID,
        .computation { main.2.2 with compWriteEvents := writes, compReadEvents := reads }⟩) := by
  unfold processCompEvent cutAt
  by_cases star : find line '*' 0 = npos <;> by_cases dollar : find line '$' 0 = npos <;>
    simp only [star, dollar, if_true, if_false, bind_assoc, pure_bind]

def pthreadTag : Line := ['p', 't', 'h', '_', 't', 'y']

def processPthreadEvent (caretPos : UInt64) : Except Fault TraceEvent := do
  let eventInfo ← substr line 0 (caretPos - 1)
  let (entries, last) ← splitEntries eventInfo ',' 3 (0 - 1)
  match entries with
  | [event, thread, type] =>
    if last ≠ npos then .error .pthreadTag
    else
      let colonPos := find type ':' 0
      if (← substr type 0 colonPos) ≠ pthreadTag then .error .pthreadTag
      else
        let code ← substr type (colonPos + 1) npos
        let addr ← substr line (caretPos + 2) npos
        return ⟨strtoul event, ← threadOf (toInt32 (strtoul thread - 1)),
          .pthreadApi (.ofCode (toInt32 (strtol 0 code))) (strtoul addr)⟩
  | _ => .error .outOfRange

def parseLine : Except Fault TraceEvent :=
  let hashPos := find line '#' 0
  let caretPos := find line '^' 0
  if hashPos ≠ npos then processCommEvent ruby line hashPos
  else if caretPos ≠ npos then processPthreadEvent line caretPos
  else processCompEvent ruby line

end SynchroTrace.Replay
