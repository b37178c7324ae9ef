import Mathlib.Data.List.AList

/-- A value at depth 0, and a table of tries above it. -/
@[reducible] def Trie (κ α : Type) : Nat → Type
  | 0 => α
  | n + 1 => AList fun _ : κ => Trie κ α n

namespace Trie
open List

variable {κ α : Type} [DecidableEq κ] {n : Nat}

abbrev Table (κ α : Type) (n : Nat) : Type := AList fun _ : κ => Trie κ α n

def find : {n : Nat} → Trie κ α n → List κ → Option α
  | 0, a, [] => some a
  | 0, _, _ :: _ => none
  | _ + 1, _, [] => none
  | n + 1, t, k :: path => (AList.lookup k (t : Table κ α n)).bind (find · path)

/-- The trie with the value at the end of the path, and with the tables on the way to it. -/
def put : {n : Nat} → List κ → α → Option (Trie κ α n) → Trie κ α n
  | 0, _, a, _ => a
  | n + 1, [], _, t => t.getD (∅ : Table κ α n)
  | n + 1, k :: path, a, t =>
    let table : Table κ α n := t.getD (∅ : Table κ α n)
    table.insert k (put path a (table.lookup k))

/-- The table without the value at the end of the path and the tables that this empties. -/
def cut : {n : Nat} → List κ → Table κ α n → Table κ α n
  | _, [], t => t
  | 0, k :: _, t => t.erase k
  | n + 1, k :: path, t =>
    match t.lookup k with
    | none => t
    | some next =>
      let next : Table κ α n := cut path (next : Table κ α n)
      if next.entries.length = 0 then t.erase k else t.insert k next

def elements : {n : Nat} → Trie κ α n → List (List κ × α)
  | 0, a => [([], a)]
  | n + 1, t =>
    (t : Table κ α n).entries.flatMap fun e => (elements e.2).map fun (path, a) => (e.1 :: path, a)

def Filled : {n : Nat} → Trie κ α n → Prop
  | 0, _ => True
  | n + 1, t => (t : Table κ α n).entries ≠ []

def Pruned : {n : Nat} → Trie κ α n → Prop
  | 0, _ => True
  | n + 1, t => ∀ e ∈ (t : Table κ α n).entries, Filled e.2 ∧ Pruned e.2

variable {t : Table κ α n}

theorem mem_entries_iff {k : κ} {next : Trie κ α n} :
    (⟨k, next⟩ : Sigma fun _ : κ => Trie κ α n) ∈ t.entries ↔ t.lookup k = some next :=
  AList.mem_lookup_iff.symm

theorem lookup_insert_eq (t : Table κ α n) (k k' : κ) (next : Trie κ α n) :
    (t.insert k next).lookup k' = if k' = k then some next else t.lookup k' := by
  by_cases here : k' = k
  · subst here
    rw [AList.lookup_insert, if_pos rfl]
  · rw [AList.lookup_insert_ne here, if_neg here]

theorem lookup_erase_eq (t : Table κ α n) (k k' : κ) :
    (t.erase k).lookup k' = if k' = k then none else t.lookup k' := by
  by_cases here : k' = k
  · subst here
    rw [AList.lookup_erase, if_pos rfl]
  · rw [AList.lookup_erase_ne here, if_neg here]

theorem entries_insert_ne (t : Table κ α n) (k : κ) (next : Trie κ α n) :
    (t.insert k next).entries ≠ [] := by
  intro empty
  have member := mem_entries_iff.mpr (AList.lookup_insert (a := k) (b := next) t)
  rw [empty] at member
  cases member

theorem find_cons (t : Table κ α n) (k : κ) (path : List κ) :
    find (n := n + 1) t (k :: path) = (t.lookup k).bind (find · path) := rfl

theorem find_empty (t : Table κ α n) (empty : t.entries = []) (path : List κ) :
    find (n := n + 1) t path = none := by
  cases path with
  | nil => rfl
  | cons k path =>
    cases found : t.lookup k with
    | none => rw [find_cons, found, Option.bind_none]
    | some next =>
      have member := mem_entries_iff.mpr found
      rw [empty] at member
      cases member

variable {path path' : List κ}

theorem find_put_same (a : α) (t : Option (Trie κ α n)) (fits : path.length = n) :
    find (put path a t) path = some a := by
  induction n generalizing path with
  | zero =>
    obtain rfl := length_eq_zero_iff.mp fits
    rfl
  | succ n ih =>
    cases path with
    | nil => cases fits
    | cons k path =>
      rw [put, find_cons, AList.lookup_insert, Option.bind_some]
      exact ih _ (Nat.succ.inj fits)

theorem find_put_ne (a : α) (t : Option (Trie κ α n))
    (fits : path.length = n) (other : path' ≠ path) :
    find (put path a t) path' = t.bind (find · path') := by
  induction n generalizing path path' with
  | zero =>
    obtain rfl := length_eq_zero_iff.mp fits
    cases path' with
    | nil => exact absurd rfl other
    | cons k path' => cases t <;> rfl
  | succ n ih =>
    cases path with
    | nil => cases fits
    | cons k path =>
      cases path' with
      | nil => cases t <;> rfl
      | cons k' path' =>
        rw [put, find_cons, lookup_insert_eq]
        split_ifs with here
        · subst here
          have later : path' ≠ path := fun same => other (by rw [same])
          rw [Option.bind_some, ih _ (Nat.succ.inj fits) later]
          cases t <;> rfl
        · cases t <;> rfl

theorem find_cut_same (t : Table κ α n) (fits : path.length = n + 1) :
    find (n := n + 1) (cut path t) path = none := by
  induction n generalizing path with
  | zero =>
    cases path with
    | nil => cases fits
    | cons k path => rw [cut, find_cons, AList.lookup_erase, Option.bind_none]
  | succ n ih =>
    cases path with
    | nil => cases fits
    | cons k path =>
      rw [cut]
      cases found : t.lookup k with
      | none => rw [find_cons, found, Option.bind_none]
      | some next =>
        dsimp only
        split_ifs with empty
        · rw [find_cons, AList.lookup_erase, Option.bind_none]
        · rw [find_cons, AList.lookup_insert, Option.bind_some]
          exact ih next (Nat.succ.inj fits)

theorem find_cut_ne (t : Table κ α n) (fits : path.length = n + 1)
    (other : path' ≠ path) : find (n := n + 1) (cut path t) path' = find (n := n + 1) t path' := by
  induction n generalizing path path' with
  | zero =>
    cases path with
    | nil => cases fits
    | cons k path =>
      obtain rfl := length_eq_zero_iff.mp (Nat.succ.inj fits)
      cases path' with
      | nil => rfl
      | cons k' path' =>
        rw [cut, find_cons, find_cons, lookup_erase_eq]
        split_ifs with here
        · subst here
          cases path' with
          | nil => exact absurd rfl other
          | cons => cases t.lookup k' <;> rfl
        · rfl
  | succ n ih =>
    cases path with
    | nil => cases fits
    | cons k path =>
      cases path' with
      | nil =>
        rw [cut]
        split
        · rfl
        · dsimp only
          split_ifs <;> rfl
      | cons k' path' =>
        rw [cut]
        cases found : t.lookup k with
        | none => rfl
        | some next =>
          have later : k' = k → find (n := n + 1) (cut path (next : Table κ α n)) path' =
              find (n := n + 1) next path' := fun here =>
            ih next (Nat.succ.inj fits) fun same => other (by rw [here, same])
          dsimp only
          split_ifs with empty
          · rw [find_cons, find_cons, lookup_erase_eq]
            split_ifs with here
            · rw [here, found, Option.bind_some, ← later here,
                find_empty _ (length_eq_zero_iff.mp empty), Option.bind_none]
            · rfl
          · rw [find_cons, find_cons, lookup_insert_eq t k k' (cut path next)]
            split_ifs with here
            · rw [here, found, Option.bind_some, Option.bind_some, later here]
            · rfl

theorem pruned_iff : Pruned (n := n + 1) t ↔
    ∀ k next, t.lookup k = some next → Filled next ∧ Pruned next := by
  constructor
  · exact fun pruned k next found => pruned ⟨k, next⟩ (mem_entries_iff.mpr found)
  · exact fun pruned e member => pruned e.1 e.2 (mem_entries_iff.mp member)

omit [DecidableEq κ] in
theorem pruned_empty : Pruned (n := n + 1) (∅ : Table κ α n) := fun _ member => nomatch member

theorem filled_put (a : α) (t : Option (Trie κ α n)) (fits : path.length = n) :
    Filled (put path a t) := by
  cases n with
  | zero => trivial
  | succ n =>
    cases path with
    | nil => cases fits
    | cons k path => exact entries_insert_ne _ _ _

theorem pruned_put (a : α) {t : Option (Trie κ α n)} (fits : path.length = n)
    (pruned : ∀ t' ∈ t, Pruned t') : Pruned (put path a t) := by
  induction n generalizing path with
  | zero => trivial
  | succ n ih =>
    cases path with
    | nil => cases fits
    | cons k path =>
      have before : Pruned (n := n + 1) (t.getD (∅ : Table κ α n)) := by
        cases t with
        | none => exact pruned_empty
        | some t' => exact pruned t' rfl
      refine pruned_iff.mpr fun k' next found => ?_
      rw [put, lookup_insert_eq] at found
      split_ifs at found with here
      · obtain rfl := Option.some.inj found
        have later := Nat.succ.inj fits
        exact ⟨filled_put a _ later, ih later fun t' below => (pruned_iff.mp before k t' below).2⟩
      · exact pruned_iff.mp before k' next found

theorem pruned_cut (pruned : Pruned (n := n + 1) t) :
    Pruned (n := n + 1) (cut path t) := by
  induction n generalizing path with
  | zero =>
    cases path with
    | nil => exact pruned
    | cons k path => exact fun _ _ => ⟨trivial, trivial⟩
  | succ n ih =>
    cases path with
    | nil => exact pruned
    | cons k path =>
      rw [cut]
      cases found : t.lookup k with
      | none => exact pruned
      | some next =>
        dsimp only
        split_ifs with empty
        · refine pruned_iff.mpr fun k' next' found' => ?_
          rw [lookup_erase_eq] at found'
          split_ifs at found' with here
          exact pruned_iff.mp pruned k' next' found'
        · refine pruned_iff.mpr fun k' next' found' => ?_
          rw [lookup_insert_eq t k k' (cut path next)] at found'
          split_ifs at found' with here
          · obtain rfl := Option.some.inj found'
            have below := (pruned_iff.mp pruned k next found).2
            exact ⟨fun none => empty (length_eq_zero_iff.mpr none), ih below⟩
          · exact pruned_iff.mp pruned k' next' found'

theorem mem_elements {t : Trie κ α n} {a : α} :
    (path, a) ∈ elements t ↔ find t path = some a := by
  induction n generalizing path with
  | zero =>
    cases path with
    | nil => simp [elements, find, eq_comm]
    | cons k path => simp [elements, find]
  | succ n ih =>
    rw [elements, mem_flatMap]
    constructor
    · rintro ⟨⟨k, next⟩, member, listed⟩
      obtain ⟨⟨rest, a'⟩, below, same⟩ := mem_map.mp listed
      cases same
      rw [find_cons, mem_entries_iff.mp member, Option.bind_some]
      exact ih.mp below
    · intro found
      cases path with
      | nil => cases found
      | cons k path =>
        obtain ⟨next, member, found⟩ := Option.bind_eq_some_iff.mp found
        exact ⟨⟨k, next⟩, mem_entries_iff.mpr member, mem_map.mpr ⟨(path, a), ih.mpr found, rfl⟩⟩

omit [DecidableEq κ] in
theorem nodup_elements (t : Trie κ α n) : ((elements t).map Prod.fst).Nodup := by
  induction n with
  | zero => exact nodup_singleton _
  | succ n ih =>
    rw [elements, map_flatMap, nodup_flatMap]
    constructor
    · rintro ⟨k, next⟩ -
      have paths : (((elements next).map fun (p, a) => (k :: p, a)).map Prod.fst) =
          ((elements next).map Prod.fst).map (k :: ·) := by
        simp [Function.comp_def]
      rw [paths]
      exact (ih next).map (cons_injective)
    · refine (nodupKeys_iff_pairwise.mp (AList.nodupKeys t)).imp fun apart => ?_
      intro path first second
      simp only [map_map, mem_map] at first second
      obtain ⟨_, -, rfl⟩ := first
      obtain ⟨_, -, same⟩ := second
      exact apart (List.cons.inj same).1.symm

end Trie
