import SynchroTrace.Replay.Ranges
import SynchroTrace.Replay.State
import SynchroTrace.Replay.Text

namespace SynchroTrace.Replay
open Outcome List

structure Range where
  first : UInt64
  last : UInt64
  deriving DecidableEq, Repr

structure Dependency extends Range where
  producerThread : UInt32
  producerEvent : UInt64
  deriving DecidableEq, Repr

/-- The threads whose number in a trace, where they are counted from 1, is an `int`. -/
abbrev ThreadIndex := Fin (2 ^ 31 - 1)

/-- An event as a trace has it. -/
inductive Printed where
  | computation (event : UInt64) (thread : ThreadIndex) (iops flops reads writes : UInt64)
      (written read : List Range)
  | communication (event : UInt64) (thread : ThreadIndex) (dependency : Dependency)
      (others : List Dependency)
  | pthread (event : UInt64) (thread : ThreadIndex) (code : Fin (2 ^ 31)) (addr : UInt64)
  deriving DecidableEq, Repr

def Range.fields (range : Range) : List Line :=
  [decimal range.first.toNat, decimal range.last.toNat]

def Dependency.fields (d : Dependency) : List Line :=
  [decimal (d.producerThread.toNat + 1), decimal d.producerEvent.toNat, decimal d.first.toNat,
    decimal d.last.toNat]

def Range.text (range : Range) : Line := [' '].intercalate range.fields

def Dependency.text (d : Dependency) : Line := [' '].intercalate d.fields

def marked (mark : Char) (groups : List Line) : Line := groups.flatMap ([' ', mark, ' '] ++ ·)

def Printed.line : Printed → Line
  | .computation event thread iops flops reads writes written read =>
    [','].intercalate [decimal event.toNat, decimal (thread.val + 1), decimal iops.toNat,
        decimal flops.toNat, decimal reads.toNat, decimal writes.toNat] ++
      (marked '$' (written.map (·.text)) ++ marked '*' (read.map (·.text)))
  | .communication event thread dependency others =>
    [','].intercalate [decimal event.toNat, decimal (thread.val + 1)] ++
      marked '#' ((dependency :: others).map (·.text))
  | .pthread event thread code addr =>
    [','].intercalate [decimal event.toNat, decimal (thread.val + 1),
      pthreadTag ++ ':' :: decimal code.val] ++ marked '^' [decimal addr.toNat]

def Printed.thread : Printed → Nat
  | .computation _ thread _ _ _ _ _ _ | .communication _ thread _ _ | .pthread _ thread _ _ =>
    thread.val

/-- The event that a line is about: its requests are those of the printed ranges, in order. -/
def Printed.Means (ruby : Ruby) (e : TraceEvent) : Printed → Prop
  | .computation event thread iops flops reads writes written read =>
    e.eventID = event.toNat ∧ e.threadID = thread.val ∧ ∃ writeRequests readRequests,
      written.mapM (fun r => compWriteRequests ruby r.first.toNat r.last.toNat) =
        .ok writeRequests ∧
      read.mapM (fun r => compReadRequests ruby r.first.toNat r.last.toNat) = .ok readRequests ∧
      e.kind = .computation ⟨iops.toNat, flops.toNat, reads.toNat, writes.toNat,
        writeRequests.flatten, readRequests.flatten⟩
  | .communication event thread dependency others =>
    e.eventID = event.toNat ∧ e.threadID = thread.val ∧ ∃ requests,
      (dependency :: others).mapM (fun d => commRequests ruby d.producerThread.toNat
        d.producerEvent.toNat d.first.toNat d.last.toNat) = .ok requests ∧
      e.kind = .communication requests.flatten
  | .pthread event thread code addr =>
    e.eventID = event.toNat ∧ e.threadID = thread.val ∧
      e.kind = .pthreadApi (.ofCode code.val) addr.toNat

theorem notMem_decimal {c : Char} (other : c.isDigit = false) (n : Nat) : c ∉ decimal n := by
  intro member
  rw [isDigit_decimal member] at other
  cases other

theorem intercalate_cons (sep first : Line) (rest : List Line) :
    sep.intercalate (first :: rest) = first ++ rest.flatMap (sep ++ ·) := by
  induction rest generalizing first with
  | nil => simp
  | cons next rest ih =>
    rw [intercalate_cons_cons, ih next, flatMap_cons, append_assoc, append_assoc]

theorem marked_cons (mark : Char) (group : Line) (groups : List Line) :
    marked mark (group :: groups) =
      ' ' :: mark :: ' ' :: [' ', mark, ' '].intercalate (group :: groups) := by
  rw [intercalate_cons, marked, flatMap_cons]
  rfl

section Marks
variable {mark : Char} {head group tail : Line} {groups : List Line}

theorem find_marked (clean : mark ∉ head) (other : mark ≠ ' ') :
    find (head ++ (marked mark (group :: groups) ++ tail)) mark 0 =
      UInt64.ofNat (head.length + 1) := by
  have split : head ++ (marked mark (group :: groups) ++ tail) = (head ++ [' ']) ++ mark ::
      (' ' :: [' ', mark, ' '].intercalate (group :: groups) ++ tail) := by
    rw [marked_cons]
    simp
  rw [find_mark split (Nat.zero_le _) (by simp [clean, other]), length_append]
  rfl

theorem substr_before_mark (short : Storable (head ++ marked mark (group :: groups))) :
    substr (head ++ marked mark (group :: groups)) 0 (UInt64.ofNat (head.length + 1) - 1) =
      .ok head := by
  have stop : UInt64.ofNat (head.length + 1) - 1 = UInt64.ofNat head.length := by
    rw [UInt64.ofNat_add]
    exact UInt64.add_sub_cancel _ _
  rw [stop]
  refine substr_start rfl (toNat_ofNat short ?_)
  rw [length_append]
  omega

theorem substr_behind_mark (short : Storable (head ++ marked mark (group :: groups))) :
    substr (head ++ marked mark (group :: groups)) (UInt64.ofNat (head.length + 1) + 2) npos =
      .ok ([' ', mark, ' '].intercalate (group :: groups)) := by
  have split : head ++ marked mark (group :: groups) = (head ++ [' ', mark, ' ']) ++
      [' ', mark, ' '].intercalate (group :: groups) := by
    rw [marked_cons]
    simp
  have size : (head ++ marked mark (group :: groups)).length =
      head.length + 3 + ([' ', mark, ' '].intercalate (group :: groups)).length := by
    rw [split, length_append, length_append]
    rfl
  refine substr_rest split ((toNat_ofNat_add short (d := 2) ?_).trans ?_) ?_
  · omega
  · rw [length_append]
    rfl
  · unfold Storable at short
    omega

end Marks

theorem length_decimal {n : Nat} (word : n < 2 ^ 64) : (decimal n).length ≤ 20 :=
  (Nat.length_toDigits_le_iff (by decide) (by decide)).mpr (Nat.lt_trans word (by decide))

variable {fields : List Line}

theorem length_intercalate_le (sep : Char) {k : Nat} (small : ∀ field ∈ fields, field.length ≤ k) :
    ([sep].intercalate fields).length ≤ fields.length * (k + 1) := by
  induction fields with
  | nil => simp
  | cons field rest ih =>
    have own := small field mem_cons_self
    have others := ih fun f member => small f (mem_cons_of_mem _ member)
    rw [length_cons, Nat.succ_mul]
    cases rest with
    | nil =>
      rw [intercalate_singleton]
      omega
    | cons next rest =>
      rw [intercalate_cons_cons, length_append, length_append]
      simp only [length_singleton]
      omega

variable {sep : Char} {event : UInt64}

theorem splitEntries_fields (some : fields ≠ []) (few : fields.length ≤ 6)
    (clean : ∀ field ∈ fields, sep ∉ field) (small : ∀ field ∈ fields, field.length ≤ 20) :
    splitEntries ([sep].intercalate fields) sep fields.length (0 - 1) = .ok (fields, npos) := by
  refine splitEntries_joined ?_ some clean (nil_append _).symm rfl
  have length := length_intercalate_le sep small
  have bound : npos.toNat = 2 ^ 64 - 1 := rfl
  unfold Storable
  omega

theorem Range.field {range : Range} {field : Line} (member : field ∈ range.fields) :
    ∃ n, field = decimal n ∧ n < 2 ^ 64 := by
  rcases mem_cons.mp member with rfl | member
  · exact ⟨_, rfl, range.first.toNat_lt⟩
  · rw [mem_singleton.mp member]
    exact ⟨_, rfl, range.last.toNat_lt⟩

theorem Dependency.field {d : Dependency} {field : Line} (member : field ∈ d.fields) :
    ∃ n, field = decimal n ∧ n < 2 ^ 64 := by
  have thread := d.producerThread.toNat_lt
  rcases mem_cons.mp member with rfl | member
  · exact ⟨_, rfl, by omega⟩
  rcases mem_cons.mp member with rfl | member
  · exact ⟨_, rfl, d.producerEvent.toNat_lt⟩
  · exact @Range.field d.toRange field member

theorem count_intercalate (some : fields ≠ []) (clean : ∀ field ∈ fields, sep ∉ field) :
    ([sep].intercalate fields).count sep + 1 = fields.length := by
  induction fields with
  | nil => exact absurd rfl some
  | cons field rest ih =>
    have own := count_eq_zero.mpr (clean field mem_cons_self)
    cases rest with
    | nil => rw [intercalate_singleton, own, length_singleton]
    | cons next rest =>
      have others := ih (cons_ne_nil _ _) fun f member => clean f (mem_cons_of_mem _ member)
      rw [intercalate_cons_cons, count_append, count_append, own, count_singleton_self, length_cons]
      omega

theorem splitEntries_decimals (other : sep.isDigit = false) (some : fields ≠ [])
    (few : fields.length ≤ 6) (decimals : ∀ field ∈ fields, ∃ n, field = decimal n ∧ n < 2 ^ 64) :
    splitEntries ([sep].intercalate fields) sep fields.length (0 - 1) = .ok (fields, npos) := by
  refine splitEntries_fields some few (fun field member => ?_) fun field member => ?_
  · obtain ⟨n, rfl, _⟩ := decimals field member
    exact notMem_decimal other n
  · obtain ⟨n, rfl, word⟩ := decimals field member
    exact length_decimal word

theorem strtoul_number {n : Nat} (word : n < 2 ^ 64) : strtoul (decimal n) = n := by
  rw [← append_nil (decimal _), strtoul_decimal word .nil]

theorem strtoul_word (n : UInt64) : strtoul (decimal n.toNat) = n.toNat :=
  strtoul_number n.toNat_lt

theorem atoi_decimal {n : Nat} (word : n < 2 ^ 63) : atoi (decimal n) = toInt32 n := by
  rw [atoi, ← append_nil (decimal _), strtol_decimal (.inr rfl) word .nil]

theorem producer_word (thread : UInt32) :
    ((atoi (decimal (thread.toNat + 1)) - 1) % 2 ^ 32).toNat = thread.toNat := by
  have small := thread.toNat_lt
  have wrapped : toInt32 (thread.toNat + 1 : Nat) % 2 ^ 32 = (thread.toNat + 1 : Nat) % 2 ^ 32 :=
    Int.bmod_emod
  rw [atoi_decimal (by omega)]
  omega

variable {c mark : Char}

theorem notMem_intercalate (other : c ≠ sep)
    (clean : ∀ field ∈ fields, c ∉ field) : c ∉ [sep].intercalate fields := by
  cases fields with
  | nil => simp
  | cons field rest =>
    rw [intercalate_cons, mem_append, mem_flatMap]
    rintro (own | ⟨f, member, inField⟩)
    · exact clean field mem_cons_self own
    · rcases mem_append.mp inField with isSep | inField
      · exact other (mem_singleton.mp isSep)
      · exact clean f (mem_cons_of_mem _ member) inField

theorem notMem_decimals (other : c ≠ sep) (noDigit : c.isDigit = false)
    (decimals : ∀ field ∈ fields, ∃ n, field = decimal n ∧ n < 2 ^ 64) :
    c ∉ [sep].intercalate fields := by
  refine notMem_intercalate other fun field member => ?_
  obtain ⟨n, rfl, _⟩ := decimals field member
  exact notMem_decimal noDigit n

variable (requestsOf : Nat → Nat → Except Fault (List SharedInfo))

theorem processCompGroup_text (range : Range) :
    processCompGroup requestsOf range.text = requestsOf range.first.toNat range.last.toNat := by
  have entries : splitEntries range.text ' ' 2 (0 - 1) = .ok (range.fields, npos) :=
    splitEntries_decimals rfl (cons_ne_nil _ _) (show 2 ≤ 6 by decide) fun _ => Range.field
  rw [processCompGroup, entries]
  show requestsOf (strtoul (decimal _)) (strtoul (decimal _)) = _
  rw [strtoul_word, strtoul_word]

theorem processCommGroup_text (ruby : Ruby) (d : Dependency) :
    processCommGroup ruby d.text = commRequests ruby d.producerThread.toNat
      d.producerEvent.toNat d.first.toNat d.last.toNat := by
  have entries : splitEntries d.text ' ' 4 (0 - 1) = .ok (d.fields, npos) :=
    splitEntries_decimals rfl (cons_ne_nil _ _) (show 4 ≤ 6 by decide)
      fun _ => Dependency.field
  rw [processCommGroup, entries, ok_bind]
  dsimp only [Dependency.fields]
  rw [strtoul_word, strtoul_word, strtoul_word, producer_word]

theorem groupsOf_texts {α : Type} {text : α → Line} {items : List α}
    (some : items ≠ []) (clean : ∀ item, mark ∉ text item) (other : mark ≠ ' ')
    (short : Storable ([' ', mark, ' '].intercalate (items.map text))) :
    groupsOf ([' ', mark, ' '].intercalate (items.map text)) mark = .ok (items.map text) := by
  refine groupsOf_joined short (by simpa using some) (fun group member => ?_) other rfl
  obtain ⟨item, _, rfl⟩ := mem_map.mp member
  exact clean item

theorem processCompRanges_text
    (other : mark ≠ ' ') (noDigit : mark.isDigit = false) {ranges : List Range}
    (some : ranges ≠ []) (short : Storable ([' ', mark, ' '].intercalate (ranges.map (·.text)))) :
    processCompRanges requestsOf mark ([' ', mark, ' '].intercalate (ranges.map (·.text))) =
      List.flatten <$> ranges.mapM fun r => requestsOf r.first.toNat r.last.toNat := by
  have clean (range : Range) : mark ∉ range.text :=
    notMem_decimals other noDigit fun _ => Range.field
  rw [processCompRanges, groupsOf_texts some clean other short, ok_bind,
    mapM_map fun r _ => processCompGroup_text requestsOf r]
  rfl

section Lines
variable {mark : Char} {head tail : Line} {groups : List Line}

theorem notMem_marked {c : Char} (noBlank : c ≠ ' ') (noMark : c ≠ mark)
    (clean : ∀ group ∈ groups, c ∉ group) : c ∉ marked mark groups := by
  intro member
  obtain ⟨group, inGroups, inGroup⟩ := mem_flatMap.mp member
  rcases mem_append.mp inGroup with isMark | inGroup
  · simp [noBlank, noMark] at isMark
  · exact clean group inGroups inGroup

theorem mark_ne_npos {line : Line} (short : Storable line) {k : Nat} (inside : k ≤ line.length) :
    UInt64.ofNat k ≠ npos := by
  intro same
  have value := congrArg UInt64.toNat same
  rw [toNat_ofNat short inside] at value
  unfold Storable at short
  omega

theorem Storable.of_le {line line' : Line} (short : Storable line)
    (le : line'.length ≤ line.length) : Storable line' :=
  Nat.lt_of_le_of_lt le short

theorem mark_found {group : Line} (clean : mark ∉ head) (other : mark ≠ ' ')
    (short : Storable (head ++ marked mark (group :: groups))) :
    find (head ++ marked mark (group :: groups)) mark 0 = UInt64.ofNat (head.length + 1) ∧
      UInt64.ofNat (head.length + 1) ≠ npos := by
  have found := @find_marked mark head group [] groups clean other
  rw [append_nil] at found
  refine ⟨found, mark_ne_npos short ?_⟩
  rw [marked_cons, length_append, length_cons]
  omega

theorem intercalate_sublist_marked (mark : Char) (groups : List Line) :
    ([' ', mark, ' '].intercalate groups).Sublist (marked mark groups) := by
  cases groups with
  | nil => exact nil_sublist _
  | cons group groups =>
    rw [marked_cons]
    exact sublist_append_right [' ', mark, ' '] _

variable (clean : mark ∉ head) (cleanTail : mark ∉ tail) (other : mark ≠ ' ')
  (short : Storable (head ++ (marked mark groups ++ tail)))
include clean cleanTail other short

theorem find_section : find (head ++ (marked mark groups ++ tail)) mark 0 = npos ↔ groups = [] := by
  cases groups with
  | nil =>
    refine iff_of_true (find_none ?_) rfl
    show mark ∉ head ++ tail
    rw [mem_append]
    exact not_or.mpr ⟨clean, cleanTail⟩
  | cons group groups =>
    refine iff_of_false ?_ (cons_ne_nil _ _)
    rw [find_marked clean other]
    refine mark_ne_npos short ?_
    rw [marked_cons, length_append, length_append, length_cons]
    omega

theorem cutAt_section :
    cutAt (head ++ marked mark groups) (find (head ++ (marked mark groups ++ tail)) mark 0) =
      .ok ([' ', mark, ' '].intercalate groups, head) := by
  have found := find_section clean cleanTail other short
  cases groups with
  | nil =>
    rw [found.mpr rfl, cutAt, if_pos rfl, marked, flatMap_nil, append_nil]
    rfl
  | cons group groups =>
    have inner : Storable (head ++ marked mark (group :: groups)) := by
      refine short.of_le ?_
      rw [← append_assoc]
      exact (sublist_append_left _ _).length_le
    rw [cutAt, if_neg (fun none => cons_ne_nil _ _ (found.mp none)), find_marked clean other,
      substr_behind_mark inner, substr_before_mark inner]
    rfl

end Lines

def headFields (event : UInt64) (thread : ThreadIndex) (others : List Line) : List Line :=
  decimal event.toNat :: decimal (thread.val + 1) :: others

variable {thread : ThreadIndex} {field head : Line}

theorem headFields_decimals {others : List Line}
    (decimals : ∀ field ∈ others, ∃ n, field = decimal n ∧ n < 2 ^ 64)
    (member : field ∈ headFields event thread others) : ∃ n, field = decimal n ∧ n < 2 ^ 64 := by
  rcases mem_cons.mp member with rfl | member
  · exact ⟨_, rfl, event.toNat_lt⟩
  rcases mem_cons.mp member with rfl | member
  · exact ⟨_, rfl, by omega⟩
  · exact decimals field member

theorem head_entries (event : UInt64) (thread : ThreadIndex) (others : List Line)
    (few : others.length ≤ 4) (decimals : ∀ field ∈ others, ∃ n, field = decimal n ∧ n < 2 ^ 64) :
    splitEntries ([','].intercalate (headFields event thread others)) ',' (others.length + 2)
      (0 - 1) = .ok (headFields event thread others, npos) :=
  splitEntries_decimals rfl (cons_ne_nil _ _) (Nat.add_le_add_right few 2)
    fun _ => headFields_decimals decimals

theorem head_clean (event : UInt64) (thread : ThreadIndex) (others : List Line)
    (decimals : ∀ field ∈ others, ∃ n, field = decimal n ∧ n < 2 ^ 64) (c : Char) (other : c ≠ ',')
    (noDigit : c.isDigit = false) : c ∉ [','].intercalate (headFields event thread others) :=
  notMem_decimals other noDigit fun _ => headFields_decimals decimals

theorem threadOf_decimal (thread : ThreadIndex) :
    threadOf (atoi (decimal (thread.val + 1)) - 1) = .ok thread.val := by
  have word : toInt32 (thread.val + 1 : Nat) = (thread.val + 1 : Nat) :=
    toInt32_eq (by omega) (by omega)
  rw [atoi_decimal (by omega), word, threadOf, if_pos (by omega)]
  exact congrArg Except.ok (by omega)

variable (ruby : Ruby)

theorem parseLine_communication
    (entries : splitEntries head ',' 2 (0 - 1) = .ok (headFields event thread [], npos))
    (clean : '#' ∉ head) (dependency : Dependency) (others : List Dependency)
    (short : Storable (head ++ marked '#' ((dependency :: others).map (·.text)))) :
    parseLine ruby (head ++ marked '#' ((dependency :: others).map (·.text))) = (do
      let requests ← (dependency :: others).mapM fun d => commRequests ruby d.producerThread.toNat
        d.producerEvent.toNat d.first.toNat d.last.toNat
      return ⟨event.toNat, thread.val, .communication requests.flatten⟩) := by
  have groupClean (d : Dependency) : '#' ∉ d.text :=
    notMem_decimals (by decide) rfl fun _ => Dependency.field
  have groups := groupsOf_texts (cons_ne_nil dependency others) groupClean (by decide)
    (short.of_le ((intercalate_sublist_marked _ _).trans (sublist_append_right _ _)).length_le)
  obtain ⟨hash, present⟩ := mark_found clean (by decide) short
  rw [parseLine, map_cons, hash, if_pos present, processCommEvent, substr_before_mark short,
    ok_bind, entries, ok_bind]
  dsimp only [headFields]
  rw [substr_behind_mark short, ok_bind, ← map_cons, groups, ok_bind,
    mapM_map fun d _ => processCommGroup_text ruby d, strtoul_word]
  simp only [threadOf_decimal]
  rfl

def counts (iops flops reads writes : UInt64) : List Line :=
  [decimal iops.toNat, decimal flops.toNat, decimal reads.toNat, decimal writes.toNat]

theorem counts_decimals {iops flops reads writes : UInt64} {field : Line}
    (member : field ∈ counts iops flops reads writes) : ∃ n, field = decimal n ∧ n < 2 ^ 64 := by
  simp only [counts, mem_cons, not_mem_nil, or_false] at member
  rcases member with rfl | rfl | rfl | rfl
  · exact ⟨_, rfl, iops.toNat_lt⟩
  · exact ⟨_, rfl, flops.toNat_lt⟩
  · exact ⟨_, rfl, reads.toNat_lt⟩
  · exact ⟨_, rfl, writes.toNat_lt⟩

variable {iops flops reads writes : UInt64}

theorem section_requests (requestsOf : Nat → Nat → Except Fault (List SharedInfo)) {mark : Char}
    (other : mark ≠ ' ') (noDigit : mark.isDigit = false) {ranges : List Range} {pos : UInt64}
    (found : pos = npos ↔ ranges.map (·.text) = [])
    (short : Storable ([' ', mark, ' '].intercalate (ranges.map (·.text)))) :
    (if pos = npos then pure []
      else processCompRanges requestsOf mark ([' ', mark, ' '].intercalate (ranges.map (·.text)))) =
      List.flatten <$> ranges.mapM fun r => requestsOf r.first.toNat r.last.toNat := by
  by_cases none : ranges = []
  · rw [if_pos (found.mpr (by rw [none]; rfl)), none]
    rfl
  · rw [if_neg (fun absent => none (map_eq_nil_iff.mp (found.mp absent))),
      processCompRanges_text requestsOf other noDigit none short]

theorem code_of_text (code : Nat) : find (pthreadTag ++ ':' :: decimal code) ':' 0 = 6 ∧
      substr (pthreadTag ++ ':' :: decimal code) 0 6 = .ok pthreadTag ∧
      (code < 2 ^ 64 → substr (pthreadTag ++ ':' :: decimal code) (6 + 1) npos =
        .ok (decimal code)) := by
  refine ⟨find_mark rfl (Nat.zero_le _) (by decide), ?_, fun word => ?_⟩
  · exact substr_start rfl rfl
  · have split : pthreadTag ++ ':' :: decimal code = (pthreadTag ++ [':']) ++ decimal code := rfl
    exact substr_rest split rfl (Nat.le_trans (length_decimal word) (by decide))

section
variable
  (entries : splitEntries head ',' 6 (0 - 1) =
      .ok (headFields event thread (counts iops flops reads writes), npos))
  (commas : head.count ',' = 5)
include entries commas

theorem processCompMainEvent_text :
    processCompMainEvent head = .ok (event.toNat, atoi (decimal (thread.val + 1)) - 1,
      ⟨iops.toNat, flops.toNat, reads.toNat, writes.toNat, [], []⟩) := by
  rw [processCompMainEvent, if_neg (by omega), entries, ok_bind]
  dsimp only [headFields, counts]
  simp only [strtoul_word]
  rfl

theorem parseLine_computation (clean : ∀ c, c ≠ ',' → c.isDigit = false → c ∉ head)
    (written read : List Range)
    (short : Storable (head ++ (marked '$' (written.map (·.text)) ++ marked '*' (read.map (·.text))))) :
    parseLine ruby
        (head ++ (marked '$' (written.map (·.text)) ++ marked '*' (read.map (·.text)))) = (do
      let writeRequests ← written.mapM fun r => compWriteRequests ruby r.first.toNat r.last.toNat
      let readRequests ← read.mapM fun r => compReadRequests ruby r.first.toNat r.last.toNat
      return ⟨event.toNat, thread.val, .computation ⟨iops.toNat, flops.toNat, reads.toNat,
        writes.toNat, writeRequests.flatten, readRequests.flatten⟩⟩) := by
  have groupClean {c : Char} (noBlank : c ≠ ' ') (noDigit : c.isDigit = false)
      (ranges : List Range) : ∀ group ∈ ranges.map (·.text), c ∉ group := by
    intro group member
    obtain ⟨range, _, rfl⟩ := mem_map.mp member
    exact notMem_decimals noBlank noDigit fun _ => Range.field
  have absent {c : Char} (noBlank : c ≠ ' ') (noComma : c ≠ ',') (noDollar : c ≠ '$')
      (noStar : c ≠ '*') (noDigit : c.isDigit = false) : find (head ++
        (marked '$' (written.map (·.text)) ++ marked '*' (read.map (·.text)))) c 0 = npos := by
    refine find_none ?_
    rw [UInt64.toNat_zero, drop_zero, mem_append, mem_append]
    exact not_or.mpr ⟨clean c noComma noDigit, not_or.mpr
      ⟨notMem_marked noBlank noDollar (groupClean noBlank noDigit written),
        notMem_marked noBlank noStar (groupClean noBlank noDigit read)⟩⟩
  have starHead : '*' ∉ head ++ marked '$' (written.map (·.text)) := by
    rw [mem_append]
    exact not_or.mpr ⟨clean '*' (by decide) rfl,
      notMem_marked (by decide) (by decide) (groupClean (by decide) rfl written)⟩
  have dollarTail : '$' ∉ marked '*' (read.map (·.text)) :=
    notMem_marked (by decide) (by decide) (groupClean (by decide) rfl read)
  have dollarHead : '$' ∉ head := clean '$' (by decide) rfl
  have whole : Storable ((head ++ marked '$' (written.map (·.text))) ++
      (marked '*' (read.map (·.text)) ++ [])) := by
    rwa [append_nil, append_assoc]
  have star := cutAt_section starHead not_mem_nil (by decide) whole
  have starFound := find_section starHead not_mem_nil (by decide) whole
  rw [append_nil, append_assoc] at star starFound
  have dollar := cutAt_section dollarHead dollarTail (by decide) short
  have dollarFound := find_section dollarHead dollarTail (by decide) short
  rw [parseLine, absent (by decide) (by decide) (by decide) (by decide) rfl,
    absent (by decide) (by decide) (by decide) (by decide) rfl, if_neg (by simp), if_neg (by simp),
    processCompEvent_eq, star, ok_bind, dollar, ok_bind, processCompMainEvent_text entries commas,
    ok_bind]
  have writtenShort := (intercalate_sublist_marked '$' (written.map (·.text))).length_le
  have readShort := (intercalate_sublist_marked '*' (read.map (·.text))).length_le
  have lengths : (head ++ (marked '$' (written.map (·.text)) ++ marked '*' (read.map (·.text)))).length
      = head.length + ((marked '$' (written.map (·.text))).length +
        (marked '*' (read.map (·.text))).length) := by
    rw [length_append, length_append]
  dsimp only
  rw [processCompWriteEvent, processCompReadEvent,
    section_requests _ (by decide) rfl dollarFound (short.of_le (by omega)),
    section_requests _ (by decide) rfl starFound (short.of_le (by omega))]
  simp only [threadOf_decimal, ok_bind, bind_map_left]

end

variable {code : Fin (2 ^ 31)}

theorem pthread_field
    (member : field ∈ headFields event thread [pthreadTag ++ ':' :: decimal code.val]) :
    field.length ≤ 20 ∧ ∀ c : Char, c.isDigit = false → c ∉ pthreadTag ++ [':'] → c ∉ field := by
  rcases mem_cons.mp member with rfl | member
  · exact ⟨length_decimal event.toNat_lt, fun c noDigit _ => notMem_decimal noDigit _⟩
  rcases mem_cons.mp member with rfl | member
  · exact ⟨length_decimal (by omega), fun c noDigit _ => notMem_decimal noDigit _⟩
  rw [mem_singleton.mp member, append_cons]
  have digits : (decimal code.val).length ≤ 10 :=
    (Nat.length_toDigits_le_iff (by decide) (by decide)).mpr (by omega)
  refine ⟨?_, fun c noDigit noTag => ?_⟩
  · have tag : (pthreadTag ++ [':']).length = 7 := rfl
    rw [length_append]
    omega
  · rw [mem_append]
    exact not_or.mpr ⟨noTag, notMem_decimal noDigit _⟩

theorem parseLine_pthread {addr : UInt64}
    (entries : splitEntries head ',' 3 (0 - 1) =
      .ok (headFields event thread [pthreadTag ++ ':' :: decimal code.val], npos))
    (noHash : '#' ∉ head) (noCaret : '^' ∉ head)
    (short : Storable (head ++ marked '^' [decimal addr.toNat])) :
    parseLine ruby (head ++ marked '^' [decimal addr.toNat]) =
      .ok ⟨event.toNat, thread.val, .pthreadApi (.ofCode code.val) addr.toNat⟩ := by
  have none : find (head ++ marked '^' [decimal addr.toNat]) '#' 0 = npos := by
    refine find_none ?_
    rw [UInt64.toNat_zero, drop_zero, mem_append]
    refine not_or.mpr ⟨noHash, notMem_marked (by decide) (by decide) fun group member => ?_⟩
    rw [mem_singleton.mp member]
    exact notMem_decimal rfl _
  obtain ⟨caret, present⟩ := mark_found noCaret (by decide) short
  obtain ⟨colon, tag, number⟩ := code_of_text code.val
  have id : threadOf (toInt32 ((thread.val + 1 : Nat) - 1)) = .ok thread.val := by
    rw [toInt32_eq (by omega) (by omega), threadOf, if_pos (by omega)]
    exact congrArg Except.ok (by omega)
  have type : toInt32 (strtol 0 (decimal code.val)) = code.val := by
    rw [← append_nil (decimal _), strtol_decimal (.inl rfl) (by omega) .nil]
    exact toInt32_eq (by omega) (by omega)
  rw [parseLine, none, if_neg (by simp), caret, if_pos present, processPthreadEvent,
    substr_before_mark short, ok_bind, entries, ok_bind]
  dsimp only [headFields]
  rw [if_neg (by simp), colon, tag, ok_bind, if_neg (by simp), number (by omega), ok_bind,
    substr_behind_mark short, ok_bind, strtoul_number (show thread.val + 1 < 2 ^ 64 by omega), id,
    ok_bind, strtoul_word, type, intercalate_singleton, strtoul_word]
  rfl

theorem Printed.parseLine_line (printed : Printed) (short : Storable printed.line) :
    ∃ e, parseLine ruby printed.line = .ok e ∧ printed.Means ruby e := by
  cases printed with
  | computation event thread iops flops reads writes written read =>
    have decimals := fun field => @counts_decimals iops flops reads writes field
    have entries := head_entries event thread (counts iops flops reads writes) (Nat.le_refl 4)
      decimals
    have commas : ([','].intercalate (headFields event thread
        (counts iops flops reads writes))).count ',' + 1 = 6 := by
      refine count_intercalate (cons_ne_nil _ _) fun field member => ?_
      obtain ⟨n, rfl, _⟩ := headFields_decimals decimals member
      exact notMem_decimal rfl n
    obtain ⟨writeRequests, writeRun⟩ := mapM_total fun r (_ : r ∈ written) =>
      splitRange_total ruby 0 0 r.first.toNat r.last.toNat
    obtain ⟨readRequests, readRun⟩ := mapM_total fun r (_ : r ∈ read) =>
      splitRange_total ruby 0 0 r.first.toNat r.last.toNat
    have parsed := parseLine_computation ruby entries (by omega)
      (head_clean event thread (counts iops flops reads writes) decimals) written read short
    rw [compWriteRequests, writeRun, ok_bind, compReadRequests, readRun, ok_bind] at parsed
    exact ⟨_, parsed, rfl, rfl, writeRequests, readRequests, writeRun, readRun, rfl⟩
  | communication event thread dependency others =>
    have entries := head_entries event thread [] (Nat.zero_le 4) nofun
    obtain ⟨requests, run⟩ := mapM_total fun d (_ : d ∈ dependency :: others) =>
      splitRange_total ruby d.producerThread.toNat d.producerEvent.toNat d.first.toNat
        d.last.toNat
    have parsed := parseLine_communication ruby entries
      (head_clean event thread [] nofun '#' (by decide) rfl) dependency others short
    rw [commRequests, run, ok_bind] at parsed
    exact ⟨_, parsed, rfl, rfl, requests, run, rfl⟩
  | pthread event thread code addr =>
    have clean {c : Char} (other : c ≠ ',') (noDigit : c.isDigit = false)
        (noTag : c ∉ pthreadTag ++ [':']) : c ∉ [','].intercalate
          (headFields event thread [pthreadTag ++ ':' :: decimal code.val]) :=
      notMem_intercalate other fun field member => (pthread_field member).2 c noDigit noTag
    have entries : splitEntries ([','].intercalate
        (headFields event thread [pthreadTag ++ ':' :: decimal code.val])) ',' 3 (0 - 1) = _ :=
      splitEntries_fields (cons_ne_nil _ _) (show 3 ≤ 6 by decide)
        (fun field member => (pthread_field member).2 ',' rfl (by decide))
        fun field member => (pthread_field member).1
    exact ⟨_, parseLine_pthread ruby entries (clean (by decide) rfl (by decide))
      (clean (by decide) rfl (by decide)) short, rfl, rfl, rfl⟩

theorem Printed.Means.threadID {ruby : Ruby} {e : TraceEvent} {printed : Printed}
    (means : printed.Means ruby e) : e.threadID = printed.thread := by
  cases printed <;> exact means.2.1

/-- A printed line is read as the event it is about, and `readEventFile` puts that event, and no
other, at the end of the queue of its thread. -/
theorem readEventFile_printed (ruby : Ruby) (printed : Printed) (short : Storable printed.line) :
    ∃ e, parseLine ruby printed.line = .ok e ∧ printed.Means ruby e ∧
      ∀ (cfg : Config) (s : State) (threadID count : Nat) (rest : List Line), cfg.ruby = ruby →
        s.inputFile threadID = printed.line :: rest →
        printed.thread < cfg.numThreads →
        (s.eventMap printed.thread).length < maxEventsSize →
        readLines cfg threadID (count + 1) s = readLines cfg threadID count { s with
          inputFile := Function.update s.inputFile threadID rest
          eventMap := Function.update s.eventMap printed.thread
            (s.eventMap printed.thread ++ [⟨e, none⟩]) } := by
  obtain ⟨e, parsed, means⟩ := printed.parseLine_line ruby short
  refine ⟨e, parsed, means, fun cfg s threadID count rest same file known room => ?_⟩
  have pushed : pushEvent cfg e { s with inputFile := Function.update s.inputFile threadID rest } =
      .ok { s with
        inputFile := Function.update s.inputFile threadID rest
        eventMap := Function.update s.eventMap printed.thread
          (s.eventMap printed.thread ++ [⟨e, none⟩]) } := by
    rw [pushEvent, means.threadID, if_neg (by omega)]
    dsimp only
    rw [if_neg (by omega)]
  rw [readLines, file]
  dsimp only
  rw [same, parsed, ok_bind, pushed, ok_bind]

/-- `"5,2,3,0,1,1 $ 0 7 * 64 71"`. -/
theorem readEventFile_printed_computation :
    ∃ e, parseLine { blockSizeBits := 6, memorySizeBytes := 2 ^ 30 }
        (Printed.computation 5 ⟨1, by decide⟩ 3 0 1 1 [⟨0, 7⟩] [⟨64, 71⟩]).line = .ok e ∧
      e.eventID = 5 ∧ e.threadID = 1 := by
  obtain ⟨e, parsed, means, _⟩ := readEventFile_printed
    { blockSizeBits := 6, memorySizeBytes := 2 ^ 30 }
    (.computation 5 ⟨1, by decide⟩ 3 0 1 1 [⟨0, 7⟩] [⟨64, 71⟩]) (by unfold Storable; decide +kernel)
  exact ⟨e, parsed, means.1, means.2.1⟩

example : (Printed.computation 5 ⟨1, by decide⟩ 3 0 1 1 [⟨0, 7⟩] [⟨64, 71⟩]).line =
    "5,2,3,0,1,1 $ 0 7 * 64 71".toList := by
  decide +kernel

end SynchroTrace.Replay
