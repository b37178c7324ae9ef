import Mathlib.Data.List.Basic
import Mathlib.Tactic.IntervalCases
import SynchroTrace.Replay.Parse

namespace SynchroTrace.Replay
open List

def Storable (line : Line) : Prop := line.length < npos.toNat

theorem findIdx?_of_notMem {c : Char} {text : Line} (clean : c ∉ text) :
    text.findIdx? (· = c) = none := by
  rw [List.findIdx?_eq_none_iff]
  intro x member
  exact decide_eq_false fun same => clean (same ▸ member)

section Positions
variable {line before middle after : Line} {c : Char} {pos len : UInt64}

theorem find_mark (split : line = before ++ c :: after) (start : pos.toNat ≤ before.length)
    (clean : c ∉ before.drop pos.toNat) : find line c pos = UInt64.ofNat before.length := by
  have inside : pos.toNat ≤ line.length := by
    rw [split, length_append]
    omega
  rw [find, if_pos inside, split, drop_append_of_le_length start, List.findIdx?_append,
    findIdx?_of_notMem clean]
  simp only [List.findIdx?_cons, decide_true, if_true, Option.none_or, Option.map_some, length_drop]
  congr 1
  omega

theorem find_none (clean : c ∉ line.drop pos.toNat) : find line c pos = npos := by
  rw [find, findIdx?_of_notMem clean]
  split <;> rfl

theorem substr_past (split : line = before ++ middle ++ after) (start : pos.toNat = before.length)
    (size : middle.length ≤ len.toNat) :
    substr line pos len = .ok (middle ++ after.take (len.toNat - middle.length)) := by
  have inside : pos.toNat ≤ line.length := by
    rw [split, length_append, length_append]
    omega
  rw [substr, if_pos inside, split, start, append_assoc, drop_left, take_append,
    take_of_length_le size]

theorem substr_prefix (split : line = before ++ middle ++ after) (start : pos.toNat = before.length)
    (size : len.toNat = middle.length) : substr line pos len = .ok middle := by
  rw [substr_past split start (Nat.le_of_eq size.symm), size, Nat.sub_self, take_zero, append_nil]

theorem substr_start (split : line = middle ++ after) (size : len.toNat = middle.length) :
    substr line 0 len = .ok middle :=
  substr_prefix (split.trans (append_assoc [] middle after).symm) rfl size

theorem substr_rest (split : line = before ++ middle) (start : pos.toNat = before.length)
    (size : middle.length ≤ len.toNat) : substr line pos len = .ok middle := by
  have inside : pos.toNat ≤ line.length := by
    rw [split, length_append]
    omega
  rw [substr, if_pos inside, split, start, drop_left, take_of_length_le size]

theorem toNat_ofNat (short : Storable line) {k : Nat} (inside : k ≤ line.length) :
    (UInt64.ofNat k).toNat = k := by
  have bound : npos.toNat = 2 ^ 64 - 1 := rfl
  unfold Storable at short
  exact UInt64.toNat_ofNat_of_lt' (show k < 2 ^ 64 by omega)

theorem toNat_ofNat_add (short : Storable line) {k d : Nat} (inside : k + d ≤ line.length) :
    (UInt64.ofNat k + UInt64.ofNat d).toNat = k + d := by
  rw [← UInt64.ofNat_add, toNat_ofNat short inside]

theorem substr_between (short : Storable line) (split : line = before ++ middle ++ after)
    (start : pos.toNat = before.length) :
    substr line pos (UInt64.ofNat (before ++ middle).length - pos) = .ok middle := by
  have inside : (before ++ middle).length ≤ line.length := by
    rw [split]
    exact List.Sublist.length_le (sublist_append_left _ _)
  have order : pos ≤ UInt64.ofNat (before ++ middle).length := by
    rw [UInt64.le_iff_toNat_le, toNat_ofNat short inside, start, length_append]
    omega
  refine substr_prefix split start ?_
  rw [UInt64.toNat_sub_of_le _ _ order, toNat_ofNat short inside, start, length_append]
  omega

theorem substr_to_end {stop : UInt64} (split : line = before ++ middle)
    (start : pos.toNat = before.length) (long : line.length ≤ stop.toNat) :
    substr line pos (stop - pos) = .ok middle := by
  have size := congrArg List.length split
  rw [length_append] at size
  have order : pos ≤ stop := by
    rw [UInt64.le_iff_toNat_le]
    omega
  refine substr_rest split start ?_
  rw [UInt64.toNat_sub_of_le _ _ order]
  omega

end Positions

variable {line done rest : Line}

theorem splitEntries_joined {fields : List Line} {sep : Char} {curPos : UInt64}
    (short : Storable line) (some : fields ≠ []) (clean : ∀ field ∈ fields, sep ∉ field)
    (split : line = done ++ [sep].intercalate fields) (start : (curPos + 1).toNat = done.length) :
    splitEntries line sep fields.length curPos = .ok (fields, npos) := by
  induction fields generalizing done curPos with
  | nil => exact absurd rfl some
  | cons field rest ih =>
    have own : sep ∉ field := clean field mem_cons_self
    cases rest with
    | nil =>
      rw [intercalate_singleton] at split
      have last : find line sep (curPos + 1) = npos := by
        refine find_none ?_
        rwa [start, split, drop_left]
      rw [length_singleton, splitEntries, last, substr_to_end split start (Nat.le_of_lt short)]
      rfl
    | cons next rest =>
      have here : line = (done ++ field) ++ sep :: [sep].intercalate (next :: rest) := by
        rw [split, intercalate_cons_cons]
        simp
      have mark : find line sep (curPos + 1) = UInt64.ofNat (done ++ field).length := by
        refine find_mark here ?_ ?_
        · rw [start, length_append]
          omega
        · rwa [start, drop_left]
      have size := congrArg List.length here
      rw [length_append, length_cons] at size
      have others := @ih (done ++ field ++ [sep]) (UInt64.ofNat (done ++ field).length)
        (cons_ne_nil _ _) (fun f member => clean f (mem_cons_of_mem _ member))
        (by rw [here]; simp)
        ((toNat_ofNat_add short (d := 1) (by omega)).trans (by simp; omega))
      rw [length_cons, splitEntries, mark, substr_between short here start]
      show (splitEntries line sep (next :: rest).length _ >>= _) = _
      rw [others]
      rfl

variable {mark c : Char} {groups : List Line}

/-- By induction on the groups: the position behind a group is that of the mark of the next. -/
theorem splitGroups_joined {rounds : Nat} {curPos : UInt64} (short : Storable line)
    (some : groups ≠ []) (clean : ∀ group ∈ groups, mark ∉ group) (other : mark ≠ ' ')
    (split : line = done ++ [' ', mark, ' '].intercalate groups)
    (start : (curPos + 2).toNat = done.length) (enough : groups.length ≤ rounds) :
    splitGroups line mark rounds curPos = .ok groups := by
  induction groups generalizing done curPos rounds with
  | nil => exact absurd rfl some
  | cons group rest ih =>
    obtain ⟨rounds, rfl⟩ : ∃ k, rounds = k + 1 := Nat.exists_eq_succ_of_ne_zero (by
      rw [length_cons] at enough
      omega)
    have own : mark ∉ group := clean group mem_cons_self
    cases rest with
    | nil =>
      rw [intercalate_singleton] at split
      have last : find line mark (curPos + 2) = npos := by
        refine find_none ?_
        rwa [start, split, drop_left]
      have long : line.length ≤ (npos - 1).toNat := Nat.le_of_lt_succ short
      rw [splitGroups, last, substr_to_end split start long]
      rfl
    | cons next rest =>
      have here : line = (done ++ group ++ [' ']) ++ mark :: ' ' ::
          [' ', mark, ' '].intercalate (next :: rest) := by
        rw [split, intercalate_cons_cons]
        simp
      have found : find line mark (curPos + 2) = UInt64.ofNat (done ++ group ++ [' ']).length := by
        refine find_mark here ?_ ?_
        · rw [start, append_assoc, length_append]
          omega
        · rw [start, append_assoc, drop_left, mem_append]
          simp [own, other]
      have size := congrArg List.length here
      rw [length_append, length_cons, length_cons] at size
      have stop : UInt64.ofNat (done ++ group ++ [' ']).length - 1 =
          UInt64.ofNat (done ++ group).length := by
        rw [length_append, UInt64.ofNat_add]
        exact UInt64.add_sub_cancel _ _
      have more : UInt64.ofNat (done ++ group ++ [' ']).length ≠ npos := by
        intro same
        have value := congrArg UInt64.toNat same
        rw [toNat_ofNat short (by omega)] at value
        unfold Storable at short
        omega
      have others := @ih (done ++ group ++ [' ', mark, ' ']) rounds
        (UInt64.ofNat (done ++ group ++ [' ']).length)
        (cons_ne_nil _ _) (fun g member => clean g (mem_cons_of_mem _ member))
        (by rw [here]; simp)
        ((toNat_ofNat_add short (d := 2) (by omega)).trans (by simp; omega))
        (Nat.le_of_succ_le_succ enough)
      have cut : line = done ++ group ++ ' ' :: mark :: ' ' ::
          [' ', mark, ' '].intercalate (next :: rest) := by
        rw [here]
        simp
      rw [splitGroups, found, stop, substr_between short cut start]
      show (if _ then _ else _) = _
      rw [if_neg more, others]
      rfl

theorem length_le_intercalate (some : groups ≠ []) :
    groups.length ≤ ([' ', mark, ' '].intercalate groups).length + 1 := by
  induction groups with
  | nil => exact absurd rfl some
  | cons group rest ih =>
    cases rest with
    | nil => simp
    | cons next rest =>
      have := ih (cons_ne_nil _ _)
      rw [intercalate_cons_cons, length_append, length_append, length_cons]
      simp only [length_cons] at this ⊢
      omega

theorem groupsOf_joined (short : Storable line)
    (some : groups ≠ []) (clean : ∀ group ∈ groups, mark ∉ group) (other : mark ≠ ' ')
    (split : line = [' ', mark, ' '].intercalate groups) : groupsOf line mark = .ok groups :=
  splitGroups_joined short some clean other (split.trans (nil_append _).symm) rfl
    (split ▸ length_le_intercalate some)

/-- A number as it is printed: no leading zeros. -/
def decimal (n : Nat) : Line := Nat.toDigits 10 n

/-- What follows a numeral: nothing, or a character that is no digit in any base. -/
def Stops (rest : Line) : Prop := ∀ c ∈ rest.head?, digitValue c = 36

theorem Stops.nil : Stops [] := fun _ member => by cases member

variable {base n : Nat}

theorem readDigits_stops (stops : Stops rest) (small : base ≤ 36)
    (acc : Nat) : readDigits base rest acc = acc := by
  cases rest with
  | nil => rfl
  | cons c rest =>
    have big := stops c rfl
    rw [readDigits, if_neg (by omega)]

theorem isDigit_bounds (digit : c.isDigit) : '0' ≤ c ∧ c ≤ '9' := by
  rw [Char.isDigit, Bool.and_eq_true, decide_eq_true_iff, decide_eq_true_iff] at digit
  exact digit

theorem digitValue_of_isDigit (digit : c.isDigit) :
    digitValue c = c.toNat - '0'.toNat ∧ digitValue c < 10 := by
  have bounds := isDigit_bounds digit
  have high : c.toNat ≤ '9'.toNat := bounds.2
  have nine : '9'.toNat = 57 := rfl
  have zero : '0'.toNat = 48 := rfl
  rw [digitValue, if_pos bounds]
  omega

theorem readDigits_ten {digits : Line} (all : ∀ c ∈ digits, c.isDigit)
    (stops : Stops rest) (acc : Nat) :
    readDigits 10 (digits ++ rest) acc = Nat.ofDigitChars 10 digits acc := by
  induction digits generalizing acc with
  | nil => exact readDigits_stops stops (by decide) acc
  | cons c digits ih =>
    obtain ⟨value, small⟩ := digitValue_of_isDigit (all c mem_cons_self)
    rw [cons_append, readDigits, if_pos small,
      ih (fun d member => all d (mem_cons_of_mem _ member)), value, Nat.mul_comm]
    rfl

theorem isDigit_decimal (member : c ∈ decimal n) : c.isDigit :=
  Nat.isDigit_of_mem_toDigits (by decide) (by decide) member

theorem decimal_cons (n : Nat) :
    ∃ c rest, decimal n = c :: rest ∧ (c = '0' → n = 0 ∧ rest = []) := by
  induction n using Nat.strongRecOn with
  | _ n ih =>
    rw [decimal, Nat.toDigits_eq_if (by decide)]
    split
    · rename_i small
      refine ⟨n.digitChar, [], rfl, fun zero => ⟨?_, rfl⟩⟩
      interval_cases n <;> first | rfl | cases zero
    · obtain ⟨c, rest, digits, zero⟩ := ih (n / 10) (by omega)
      refine ⟨c, rest ++ [(n % 10).digitChar], ?_, fun isZero => ?_⟩
      · rw [← cons_append, ← digits]
        rfl
      · have := (zero isZero).1
        omega

theorem isDigit_not (digit : c.isDigit) : isSpace c = false ∧ c ≠ '-' ∧ c ≠ '+' := by
  refine ⟨?_, ?_, ?_⟩
  · have low : '0'.toNat ≤ c.toNat := (isDigit_bounds digit).1
    have zero : '0'.toNat = 48 := rfl
    have blank : c ≠ ' ' := by
      rintro rfl
      cases digit
    rw [isSpace, decide_eq_false_iff_not]
    rintro (same | control)
    · exact blank same
    · omega
  · rintro rfl
    cases digit
  · rintro rfl
    cases digit

theorem readNumeral_decimal (ten : base = 0 ∨ base = 10) (n : Nat)
    (stops : Stops rest) : readNumeral base (decimal n ++ rest) = (false, n) := by
  obtain ⟨c, tail, digits, zero⟩ := decimal_cons n
  have digit : c.isDigit := isDigit_decimal (n := n) (by rw [digits]; exact mem_cons_self)
  obtain ⟨noSpace, noMinus, noPlus⟩ := isDigit_not digit
  have value : readDigits 10 (decimal n ++ rest) 0 = n := by
    rw [readDigits_ten (fun _ => isDigit_decimal) stops]
    exact Nat.ofDigitChars_ten_toDigits
  have leading {text : Line} (same : c :: (tail ++ rest) = '0' :: text) : n = 0 ∧ rest = text := by
    obtain ⟨isZero, others⟩ := List.cons.inj same
    obtain ⟨none, empty⟩ := zero isZero
    exact ⟨none, by rwa [empty] at others⟩
  rw [digits, cons_append] at value ⊢
  unfold readNumeral
  rw [dropWhile_cons_of_neg (by simp [noSpace])]
  dsimp only
  split
  · rename_i same
    exact absurd (List.cons.inj same).1 noMinus
  · rename_i same
    exact absurd (List.cons.inj same).1 noPlus
  · congr 1
    dsimp only
    split
    · rename_i same
      exact absurd (stops 'x' (by rw [(leading same).2]; rfl)) (by decide)
    · rename_i same
      exact absurd (stops 'X' (by rw [(leading same).2]; rfl)) (by decide)
    · rename_i same
      obtain ⟨isZero, isRest⟩ := leading same
      rw [← isRest, readDigits_stops stops (by decide), isZero]
    · exact value
    · rename_i other _ _ _
      rw [ten.resolve_left other]
      exact value

theorem strtoul_decimal (word : n < 2 ^ 64) (stops : Stops rest) :
    strtoul (decimal n ++ rest) = n := by
  rw [strtoul, readNumeral_decimal (.inl rfl) n stops]
  simp only [if_neg (Nat.not_le.mpr word), Bool.false_eq_true, if_false]

theorem strtol_decimal (ten : base = 0 ∨ base = 10) (word : n < 2 ^ 63)
    (stops : Stops rest) : strtol base (decimal n ++ rest) = n := by
  rw [strtol, readNumeral_decimal ten n stops]
  simp only [Bool.false_eq_true, if_false]
  omega

end SynchroTrace.Replay
