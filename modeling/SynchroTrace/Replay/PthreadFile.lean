import Mathlib.Data.Finset.Insert
import SynchroTrace.Replay.Printing

namespace SynchroTrace.Replay
open Outcome List

def rfind (line : Line) (c : Char) : UInt64 :=
  match line.reverse.findIdx? (· = c) with
  | some i => UInt64.ofNat (line.length - 1 - i)
  | none => npos

structure PthreadMaps where
  addresstoIdMap : Nat → Option Int := fun _ => none
  barrierMap : Nat → Option (Finset Int) := fun _ => none
  threadWaitMap : Nat → Option (Finset Int) := fun _ => none

def processAddressToID (line : Line) (hashPos : UInt64) (maps : PthreadMaps) :
    Except Fault PthreadMaps := do
  let threadAddrLine ← substr line (hashPos + 1) npos
  let commaPos := find threadAddrLine ',' 0
  let threadAddressString ← substr threadAddrLine 0 commaPos
  let threadIdString ← substr threadAddrLine (commaPos + 1) npos
  let threadId := toInt32 (strtol 0 threadIdString)
  return { maps with
    addresstoIdMap :=
      Function.update maps.addresstoIdMap (strtoul threadAddressString) (some (threadId - 1)) }

/-- The loop over the ids of a barrier. The position of the comma is passed where `substr` takes a
length. Every round moves `commaPos` forward, so the length of the text bounds the rounds. -/
def readThreadIds (threadIdList : Line) :
    Nat → UInt64 → UInt64 → Finset Int → Except Fault (Finset Int)
  | 0, _, _, _ => .error .diverges
  | rounds + 1, oldcomma, commaPos, threadIds =>
    if commaPos = npos then .ok threadIds
    else do
      let threadId := toInt32 (strtol 0 (← substr threadIdList oldcomma commaPos))
      readThreadIds threadIdList rounds (commaPos + 1) (find threadIdList ',' (commaPos + 1))
        (insert (threadId - 1) threadIds)

def processBarrierEvent (line : Line) (starPos : UInt64) (maps : PthreadMaps) :
    Except Fault PthreadMaps := do
  let barrierLine ← substr line (starPos + 1) npos
  let commaPos := find barrierLine ',' 0
  let barrierAddressString ← substr barrierLine 0 commaPos
  let threadIdList ← substr barrierLine (commaPos + 1) npos
  let threadIds ← readThreadIds threadIdList (threadIdList.length + 1) 0 (find threadIdList ',' 0) ∅
  let barrierAddress := strtoul barrierAddressString
  return { maps with
    barrierMap := Function.update maps.barrierMap barrierAddress (some threadIds)
    threadWaitMap := Function.update maps.threadWaitMap barrierAddress (some ∅) }

def processPthreadLine (maps : PthreadMaps) (line : Line) : Except Fault PthreadMaps :=
  let hashPos := rfind line '#'
  let starPos := rfind line '*'
  if hashPos ≠ npos then processAddressToID line hashPos maps
  else processBarrierEvent line starPos maps

def processPthreadFile (lines : List Line) : Except Fault PthreadMaps :=
  lines.foldlM processPthreadLine {}

/-- The address of a thread with its number, or that of a barrier with the threads it waits for. -/
inductive PthreadLine where
  | thread (addr : UInt64) (id : ThreadIndex)
  | barrier (addr : UInt64) (ids : List ThreadIndex)
  deriving DecidableEq, Repr

def idList (ids : List ThreadIndex) : Line := ids.flatMap fun id => decimal (id.val + 1) ++ [',']

def PthreadLine.text : PthreadLine → Line
  | .thread addr id => ['#', '#'] ++ (decimal addr.toNat ++ ',' :: decimal (id.val + 1))
  | .barrier addr ids => ['*', '*'] ++ (decimal addr.toNat ++ ',' :: idList ids)

def idSet (ids : List ThreadIndex) : Finset Int := (ids.map fun id => (id.val : Int)).toFinset

def PthreadLine.enter (maps : PthreadMaps) : PthreadLine → PthreadMaps
  | .thread addr id => { maps with
      addresstoIdMap := Function.update maps.addresstoIdMap addr.toNat (some id.val) }
  | .barrier addr ids => { maps with
      barrierMap := Function.update maps.barrierMap addr.toNat
        (some (idSet ids))
      threadWaitMap := Function.update maps.threadWaitMap addr.toNat (some ∅) }

variable {line rest : Line} {c : Char}

theorem rfind_mark {before after : Line} (split : line = before ++ c :: after)
    (clean : c ∉ after) : rfind line c = UInt64.ofNat before.length := by
  have missed : c ∉ after.reverse := fun member => clean (mem_reverse.mp member)
  have backwards : line.reverse = after.reverse ++ c :: before.reverse := by
    rw [split]
    simp
  rw [rfind, backwards, List.findIdx?_append, findIdx?_of_notMem missed]
  simp only [List.findIdx?_cons, decide_true, if_true, Option.none_or, Option.map_some,
    length_reverse]
  rw [split, length_append, length_cons]
  congr 1
  omega

theorem rfind_none (clean : c ∉ line) : rfind line c = npos := by
  have missed : c ∉ line.reverse := fun member => clean (mem_reverse.mp member)
  rw [rfind, findIdx?_of_notMem missed]

theorem length_le_idList (ids : List ThreadIndex) : ids.length ≤ (idList ids).length := by
  induction ids with
  | nil => exact Nat.zero_le _
  | cons id ids ih =>
    rw [idList, flatMap_cons, ← idList, length_append, length_append, length_cons, length_singleton]
    omega

theorem Stops.take_comma (rest : Line) (n : Nat) : Stops ((',' :: rest).take n) := by
  cases n with
  | zero => exact .nil
  | succ n =>
    intro c member
    cases member
    decide

/-- By induction on the ids: the slice runs past the comma, where `strtol` stops. -/
theorem readThreadIds_text {line done : Line} {ids : List ThreadIndex} {rounds : Nat}
    {oldcomma : UInt64} {read : Finset Int} (short : Storable line)
    (split : line = done ++ idList ids) (start : oldcomma.toNat = done.length)
    (enough : ids.length < rounds) :
    readThreadIds line rounds oldcomma (find line ',' oldcomma) read =
      .ok (read ∪ idSet ids) := by
  induction ids generalizing done rounds oldcomma read with
  | nil =>
    obtain ⟨rounds, rfl⟩ := Nat.exists_eq_succ_of_ne_zero (Nat.ne_of_gt enough)
    have none : find line ',' oldcomma = npos := by
      refine find_none ?_
      rw [split, start, drop_left]
      exact not_mem_nil
    rw [readThreadIds, if_pos none, idSet, map_nil, toFinset_nil, Finset.union_empty]
  | cons id ids ih =>
    obtain ⟨rounds, rfl⟩ := Nat.exists_eq_succ_of_ne_zero (Nat.ne_of_gt (Nat.zero_lt_of_lt enough))
    have here : line = (done ++ decimal (id.val + 1)) ++ ',' :: idList ids := by
      rw [split, idList, flatMap_cons]
      simp [idList]
    have size := congrArg List.length here
    rw [length_append, length_cons] at size
    have comma : find line ',' oldcomma = UInt64.ofNat (done ++ decimal (id.val + 1)).length := by
      refine find_mark here ?_ ?_
      · rw [start, length_append]
        omega
      · rw [start, drop_left]
        exact notMem_decimal rfl _
    have present := mark_ne_npos short (k := (done ++ decimal (id.val + 1)).length) (by omega)
    have stop := toNat_ofNat short (k := (done ++ decimal (id.val + 1)).length) (by omega)
    have fits : (decimal (id.val + 1)).length ≤
        (UInt64.ofNat (done ++ decimal (id.val + 1)).length).toNat := by
      rw [stop, length_append]
      omega
    have number (n : Nat) : toInt32 (strtol 0 (decimal (id.val + 1) ++
        (',' :: idList ids).take n)) = (id.val + 1 : Nat) := by
      rw [strtol_decimal (.inl rfl) (by omega) (.take_comma _ _)]
      exact toInt32_eq (by omega) (by omega)
    have later := @ih (done ++ decimal (id.val + 1) ++ [',']) rounds
      (UInt64.ofNat (done ++ decimal (id.val + 1)).length + 1) (insert (id.val : Int) read)
      (by rw [here]; simp) ((toNat_ofNat_add short (d := 1) (by omega)).trans (by simp; omega))
      (Nat.lt_of_succ_lt_succ enough)
    have less : ((id.val + 1 : Nat) : Int) - 1 = id.val := by omega
    rw [readThreadIds, comma, if_neg present, substr_past here start fits, ok_bind, number]
    dsimp only
    rw [less, later, idSet, idSet, map_cons, toFinset_cons, Finset.insert_union,
      Finset.union_insert]

theorem cut_comma {addr : UInt64} (short : Storable (decimal addr.toNat ++ ',' :: rest)) :
    substr (decimal addr.toNat ++ ',' :: rest) 0
        (find (decimal addr.toNat ++ ',' :: rest) ',' 0) = .ok (decimal addr.toNat) ∧
      substr (decimal addr.toNat ++ ',' :: rest)
        (find (decimal addr.toNat ++ ',' :: rest) ',' 0 + 1) npos = .ok rest := by
  have size : (decimal addr.toNat ++ ',' :: rest).length =
      (decimal addr.toNat).length + (rest.length + 1) := by
    rw [length_append, length_cons]
  have split : decimal addr.toNat ++ ',' :: rest = (decimal addr.toNat ++ [',']) ++ rest := by simp
  rw [find_mark rfl (Nat.zero_le _) (by simpa using notMem_decimal rfl _)]
  constructor
  · exact substr_start rfl (toNat_ofNat short (by omega))
  · refine substr_rest split ((toNat_ofNat_add short (d := 1) (by omega)).trans (by simp)) ?_
    unfold Storable at short
    omega

theorem substr_marks (short : Storable ([c, c] ++ rest)) :
    substr ([c, c] ++ rest) (UInt64.ofNat 1 + 1) npos = .ok rest := by
  refine substr_rest rfl rfl ?_
  have size : ([c, c] ++ rest).length = 2 + rest.length := length_append
  unfold Storable at short
  omega

theorem rfind_marks (clean : c ∉ rest) :
    rfind ([c, c] ++ rest) c = UInt64.ofNat 1 :=
  rfind_mark (show [c, c] ++ rest = [c] ++ c :: rest from rfl) clean

theorem processPthreadLine_text (maps : PthreadMaps) (line : PthreadLine)
    (short : Storable line.text) : processPthreadLine maps line.text = .ok (line.enter maps) := by
  cases line with
  | thread addr id =>
    have clean : '#' ∉ decimal addr.toNat ++ ',' :: decimal (id.val + 1) := by
      rw [mem_append, mem_cons]
      simp [notMem_decimal (c := '#') rfl]
    have rest : Storable (decimal addr.toNat ++ ',' :: decimal (id.val + 1)) :=
      short.of_le (sublist_append_right ['#', '#'] _).length_le
    obtain ⟨address, number⟩ := cut_comma rest
    have value : toInt32 (strtol 0 (decimal (id.val + 1))) - 1 = id.val := by
      rw [← append_nil (decimal _), strtol_decimal (.inl rfl) (by omega) .nil,
        toInt32_eq (by omega) (by omega)]
      omega
    rw [PthreadLine.text, processPthreadLine, rfind_marks clean, if_pos (by decide),
      processAddressToID, substr_marks short, ok_bind]
    dsimp only
    rw [address, ok_bind, number, ok_bind, strtoul_word, value]
    rfl
  | barrier addr ids =>
    have clean {c : Char} (noComma : c ≠ ',') (noDigit : c.isDigit = false) :
        c ∉ decimal addr.toNat ++ ',' :: idList ids := by
      rw [mem_append, mem_cons, idList, mem_flatMap]
      simp [notMem_decimal noDigit, noComma]
    have rest : Storable (decimal addr.toNat ++ ',' :: idList ids) :=
      short.of_le (sublist_append_right ['*', '*'] _).length_le
    have idsShort : Storable (idList ids) :=
      rest.of_le ((sublist_cons_self ',' _).trans (sublist_append_right _ _)).length_le
    obtain ⟨address, list⟩ := cut_comma rest
    have read := @readThreadIds_text _ [] ids _ 0 ∅ idsShort (nil_append _).symm rfl
      (Nat.lt_succ_of_le (length_le_idList ids))
    have noHash : '#' ∉ ['*', '*'] ++ (decimal addr.toNat ++ ',' :: idList ids) := by
      rw [mem_append]
      exact not_or.mpr ⟨by decide, clean (by decide) rfl⟩
    rw [PthreadLine.text, processPthreadLine, rfind_none noHash, if_neg (by simp),
      rfind_marks (clean (by decide) rfl), processBarrierEvent, substr_marks short, ok_bind]
    dsimp only
    rw [address, ok_bind, list, ok_bind, read, ok_bind, strtoul_word, Finset.empty_union]
    rfl

theorem processPthreadFile_text (lines : List PthreadLine)
    (short : ∀ line ∈ lines, Storable line.text) :
    processPthreadFile (lines.map (·.text)) = .ok (lines.foldl PthreadLine.enter {}) := by
  unfold processPthreadFile
  generalize ({} : PthreadMaps) = maps
  induction lines generalizing maps with
  | nil => rfl
  | cons line lines ih =>
    rw [map_cons, foldlM_cons, processPthreadLine_text maps line
      (short line mem_cons_self), ok_bind, foldl_cons]
    exact ih (fun other member => short other (mem_cons_of_mem _ member)) (line.enter maps)

def PthreadLine.key : PthreadLine → Bool × UInt64
  | .thread addr _ => (true, addr)
  | .barrier addr _ => (false, addr)

structure PthreadMaps.Of (lines : List PthreadLine) (maps : PthreadMaps) : Prop where
  threads : ∀ a v, maps.addresstoIdMap a = some v ↔
    ∃ addr id, .thread addr id ∈ lines ∧ a = addr.toNat ∧ v = id.val
  barriers : ∀ a v, maps.barrierMap a = some v ↔
    ∃ addr ids, .barrier addr ids ∈ lines ∧ a = addr.toNat ∧ v = idSet ids
  waits : ∀ a v, maps.threadWaitMap a = some v ↔
    ∃ addr ids, .barrier addr ids ∈ lines ∧ a = addr.toNat ∧ v = ∅

theorem update_some_iff {V : Type} {m : Nat → Option V} {entry : Nat → V → Prop}
    (entries : ∀ a v, m a = some v ↔ entry a v) {key : Nat} (fresh : ∀ v, ¬ entry key v) (value : V)
    (a : Nat) (v : V) :
    Function.update m key (some value) a = some v ↔ entry a v ∨ (a = key ∧ v = value) := by
  by_cases same : a = key
  · subst same
    simp [fresh, eq_comm]
  · rw [Function.update_of_ne same, entries]
    simp [same]

variable {lines : List PthreadLine}

theorem PthreadMaps.Of.enter {maps : PthreadMaps}
    (entered : PthreadMaps.Of lines maps) {line : PthreadLine} (fresh : line.key ∉ lines.map (·.key)) :
    PthreadMaps.Of (lines ++ [line]) (line.enter maps) := by
  have other {line' : PthreadLine} (member : line' ∈ lines) : line'.key ≠ line.key :=
    fun same => fresh (same ▸ mem_map_of_mem member)
  cases line with
  | thread addr id =>
    refine ⟨fun a v => ?_, fun a v => ?_, fun a v => ?_⟩
    · refine (update_some_iff entered.threads ?_ _ a v).trans ?_
      · rintro v ⟨addr', id', member, same, _⟩
        exact other member (congrArg (true, ·) (UInt64.toNat_inj.mp same).symm)
      · simp [or_and_right, exists_or, eq_comm]
    · simpa [PthreadLine.enter] using entered.barriers a v
    · simpa [PthreadLine.enter] using entered.waits a v
  | barrier addr ids =>
    have new {choice : List ThreadIndex → Finset Int} (v : Finset Int) :
        ¬ ∃ addr' ids', PthreadLine.barrier addr' ids' ∈ lines ∧ addr.toNat = addr'.toNat ∧
          v = choice ids' := by
      rintro ⟨addr', ids', member, same, _⟩
      exact other member (congrArg (false, ·) (UInt64.toNat_inj.mp same).symm)
    refine ⟨fun a v => ?_, fun a v => ?_, fun a v => ?_⟩
    · simpa [PthreadLine.enter] using entered.threads a v
    · refine (update_some_iff entered.barriers new _ a v).trans ?_
      simp [or_and_right, exists_or, eq_comm]
    · refine (update_some_iff entered.waits new _ a v).trans ?_
      simp [or_and_right, exists_or, eq_comm]

theorem foldl_enter_of (distinct : (lines.map (·.key)).Nodup) :
    PthreadMaps.Of lines (lines.foldl PthreadLine.enter {}) := by
  induction lines using List.reverseRecOn with
  | nil => exact ⟨by simp, by simp, by simp⟩
  | append_singleton lines line ih =>
    rw [map_append, nodup_append'] at distinct
    rw [foldl_append]
    refine (ih distinct.1).enter fun member => ?_
    exact distinct.2.2 member (mem_singleton.mpr rfl)

/-- Reading a printed pthread file: the lines are in any order, with no address twice in a map. -/
theorem processPthreadFile_printed (lines : List PthreadLine)
    (short : ∀ line ∈ lines, Storable line.text) (distinct : (lines.map (·.key)).Nodup) :
    ∃ maps, processPthreadFile (lines.map (·.text)) = .ok maps ∧
      (∀ a v, maps.addresstoIdMap a = some v ↔
        ∃ addr id, .thread addr id ∈ lines ∧ a = addr.toNat ∧ v = id.val) ∧
      (∀ a v, maps.barrierMap a = some v ↔
        ∃ addr ids, .barrier addr ids ∈ lines ∧ a = addr.toNat ∧ v = idSet ids) ∧
      ∀ a v, maps.threadWaitMap a = some v ↔
        ∃ addr ids, .barrier addr ids ∈ lines ∧ a = addr.toNat ∧ v = ∅ :=
  have entered := foldl_enter_of distinct
  ⟨_, processPthreadFile_text lines short, entered.threads, entered.barriers, entered.waits⟩

/-- `"##80881984,2"` and `"**67117104,1,12,"`. -/
theorem processPthreadFile_printed_barrier :
    ∃ maps, processPthreadFile ([.thread 80881984 ⟨1, by decide⟩,
        .barrier 67117104 [⟨0, by decide⟩, ⟨11, by decide⟩]].map PthreadLine.text) = .ok maps ∧
      maps.addresstoIdMap 80881984 = some 1 := by
  obtain ⟨maps, read, threads, _⟩ := processPthreadFile_printed
    [.thread 80881984 ⟨1, by decide⟩, .barrier 67117104 [⟨0, by decide⟩, ⟨11, by decide⟩]]
    (by unfold Storable; decide +kernel) (by decide +kernel)
  exact ⟨maps, read, (threads _ _).mpr ⟨_, _, mem_cons_self, rfl, rfl⟩⟩

end SynchroTrace.Replay
