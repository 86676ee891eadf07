import LineRobot.Proofs.Toml.Documents
import LineRobot.Toml.Conversion

/-! # Lossless libraries

Of a library it is documented that what it has written it reads again, for documents that are made
of texts, integers, numbers, tables and arrays of tables (`Library.IsLossless`), and as what a
program gets these values (`Library.IsFaithful`). The order of the names in a table means nothing,
and so a table is read again up to this order (`Table.Same`).

The library of the project has both properties (`isLossless_library`, `isFaithful_library`). -/

namespace LineRobot.Toml

/-! ## Values up to the order of names -/

mutual

/-- Values that only differ in the order of the names in tables. -/
inductive Value.Same : Value → Value → Prop
  /-- A text is the same as itself. -/
  | text (content : String) : Value.Same (.text content) (.text content)
  /-- An integer is the same as itself. -/
  | integer (number : Int) : Value.Same (.integer number) (.integer number)
  /-- A double is the same as itself. -/
  | float (number : Float) : Value.Same (.float number) (.float number)
  /-- Arrays are the same if their elements are, in order. -/
  | array {elements others : List Value} (same : Value.AllSame elements others) :
      Value.Same (.array elements) (.array others)
  /-- Tables are the same if they have the same entries. -/
  | table {entries others : Table} (same : Table.Same entries others) :
      Value.Same (.table entries) (.table others)

/-- Lists of values that are the same in order. -/
inductive Value.AllSame : List Value → List Value → Prop
  /-- Empty lists are the same. -/
  | nil : Value.AllSame [] []
  /-- Lists are the same if their first values and the others are. -/
  | cons {value other : Value} {rest others : List Value} (first : Value.Same value other)
      (same : Value.AllSame rest others) : Value.AllSame (value :: rest) (other :: others)

/-- Tables that only differ in the order of names, also in the tables within. -/
inductive Table.Same : Table → Table → Prop
  /-- Without entries there is nothing to differ in. -/
  | nil : Table.Same [] []
  /-- The first entry may stand anywhere. -/
  | cons {name : String} {value other : Value} {rest before behind : Table}
      (first : Value.Same value other) (same : Table.Same rest (before ++ behind)) :
      Table.Same ((name, value) :: rest) (before ++ (name, other) :: behind)

end

namespace Table

variable {name : String} {value : Value}

/-- The same table has the same names. -/
theorem Same.perm {table again : Table} :
    Table.Same table again → (again.map Prod.fst).Perm (table.map Prod.fst)
  | .nil => List.Perm.nil
  | @Table.Same.cons name _ _ _ before behind _ same => by
      have others := same.perm
      rw [List.map_append] at others
      rw [List.map_append, List.map_cons, List.map_cons]
      exact List.perm_middle.trans (others.cons name)

/-- The entries of a table are the same in the same table. -/
theorem Same.exists_mem {table again : Table} :
    Table.Same table again → (name, value) ∈ table → ∃ other, Value.Same value other ∧
      (name, other) ∈ again
  | @Table.Same.cons _ _ _ rest before behind first same, inside => by
      rcases List.mem_cons.mp inside with here | later
      · cases here
        exact ⟨_, first, List.mem_append_right before List.mem_cons_self⟩
      · obtain ⟨other, sameOther, found⟩ := same.exists_mem later
        refine ⟨other, sameOther, ?_⟩
        rw [List.mem_append, List.mem_cons]
        rw [List.mem_append] at found
        exact found.imp_right .inr

/-- A name has its value in a table whose names differ if this is an entry. -/
theorem get?_of_mem {table : Table} (different : (table.map Prod.fst).Nodup)
    (inside : (name, value) ∈ table) : table.get? name = some value := by
  induction table with
  | nil => cases inside
  | cons entry rest ih =>
      obtain ⟨first, other⟩ := entry
      rw [List.map_cons, List.nodup_cons] at different
      rcases List.mem_cons.mp inside with here | later
      · cases here
        exact get?_cons_self name value rest
      · have isOther : name ≠ first := by
          rintro rfl
          exact different.1 (List.mem_map.mpr ⟨_, later, rfl⟩)
        rw [get?_cons_of_ne isOther]
        exact ih different.2 later

/-- An entry has the name and the value that are found. -/
theorem mem_of_get? {table : Table} (found : table.get? name = some value) :
    (name, value) ∈ table := by
  induction table with
  | nil => cases found
  | cons entry rest ih =>
      obtain ⟨first, other⟩ := entry
      by_cases here : name = first
      · subst here
        rw [get?_cons_self] at found
        cases found
        exact List.mem_cons_self
      · rw [get?_cons_of_ne here] at found
        exact List.mem_cons_of_mem _ (ih found)

/-- **Names have the same values in the same table**, if they differ. -/
theorem Same.exists_get? {table again : Table} (same : Table.Same table again)
    (different : (table.map Prod.fst).Nodup) (found : table.get? name = some value) :
    ∃ other, Value.Same value other ∧ again.get? name = some other := by
  obtain ⟨other, sameOther, inside⟩ := same.exists_mem (mem_of_get? found)
  exact ⟨other, sameOther, get?_of_mem (same.perm.nodup_iff.mpr different) inside⟩

end Table

/-! ## What is documented of a library -/

namespace Library

variable (library : Library)

/-- An integer that a library holds: one of 64 bits with a sign, or one that it gives to
programs. -/
def Holds (number : Int) : Prop :=
  (-(2 ^ 63) ≤ number ∧ number < 2 ^ 63) ∨
    ∃ bits value natural, library.natural? bits value = some natural ∧ number = (natural : Int)

/-- A value that is made of texts, integers that are held, doubles that are numbers, tables whose
names need no quotes and differ, and arrays of tables, where the tables and arrays lie at most so
many levels deep. -/
def IsPlain : Nat → Value → Prop
  | _, .text _ => True
  | _, .integer number => library.Holds number
  | _, .float number => number.isNaN = false
  | levels + 1, .array elements =>
    ∀ element ∈ elements, element.isTable = true ∧ IsPlain levels element
  | levels + 1, .table entries =>
    ((∀ name ∈ entries.map Prod.fst, IsBare name) ∧ (entries.map Prod.fst).Nodup) ∧
      ∀ entry ∈ entries, IsPlain levels entry.2
  | _, _ => False

/-- A library that writes every plain table of few levels and reads it again. -/
def IsLossless : Prop :=
  ∀ table : Table, library.IsPlain 3 (.table table) →
    ∃ document again, library.write table = .ok document ∧ library.read document = .ok again ∧
      Table.Same table again

/-- A library that gives programs plain values as what they are, and natural numbers only of the
size that is asked for. -/
structure IsFaithful : Prop where
  /-- A double is taken as itself, if it is a number. -/
  float (number : Float) (isNumber : number.isNaN = false) :
    library.float? (.float number) = some number
  /-- A natural number is taken as itself, if it is held and small enough. -/
  natural (bits number : Nat) (small : number < 2 ^ bits) (holds : library.Holds number) :
    library.natural? bits (.integer number) = some number
  /-- A number that a value is taken as is small enough. -/
  small {bits number : Nat} {value : Value} (read : library.natural? bits value = some number) :
    number < 2 ^ bits
  /-- A word is taken as itself. -/
  word (words : List String) (word : String) (inside : word ∈ words) :
    library.word? words (.text word) = some word
  /-- An array is taken as its elements. -/
  elements (elements : List Value) : library.elements? (.array elements) = some elements
  /-- A table is taken as itself, if it has no further names. -/
  parts (names : List String) (entries : Table) (different : (entries.map Prod.fst).Nodup)
    (known : ∀ name ∈ entries.map Prod.fst, name ∈ names) :
    library.parts? names (.table entries) = some entries

end Library

/-! ## The library of the project -/

section Project

open Table (inPlace arranged arrangedHeaders arrangedElements IsWritable HasWritable AllWritable)

variable {library : Library} {levels : Nat}

/-- The tables of an array can be written if each of them can. -/
theorem allWritable_of_forall {depth : Nat} {elements : List Value}
    (writable : ∀ element ∈ elements, ∃ entries, element = .table entries ∧
      IsWritable depth entries) :
    AllWritable depth elements := by
  induction elements with
  | nil =>
      rw [AllWritable]
      trivial
  | cons element rest ih =>
      obtain ⟨⟨entries, rfl, first⟩, others⟩ := List.forall_mem_cons.mp writable
      rw [AllWritable]
      exact ⟨first, ih others⟩

/-- An array of tables has a header unless it is empty. -/
theorem hasHeader_of_tables {element : Value} {rest : List Value}
    (tables : ∀ other ∈ element :: rest, other.isTable = true) :
    (Value.array (element :: rest)).hasHeader = true := by
  rw [Value.hasHeader, List.all_eq_true.mpr tables]
  rfl

/-- A value that is a table has entries. -/
theorem Value.exists_of_isTable {value : Value} (isTable : value.isTable = true) :
    ∃ entries, value = .table entries := by
  cases value with
  | table entries => exact ⟨entries, rfl⟩
  | array | text | integer | float | outsized | boolean | moment => cases isTable

/-- A plain value can be written. -/
theorem Library.IsPlain.hasWritable : {levels : Nat} → {value : Value} → {depth : Nat} →
    library.IsPlain levels value → depth + levels ≤ maxDepth → HasWritable depth value
  | _, .text content, _, _, _ => by simpa only [HasWritable] using Value.readsBack_text content
  | _, .integer number, _, _, _ => by simpa only [HasWritable] using Value.readsBack_integer number
  | _, .float number, _, _, _ => by simpa only [HasWritable] using Value.readsBack_float number
  | levels, .outsized _, _, plain, _ | levels, .boolean _, _, plain, _ | levels, .moment _,
      _, plain, _ => by
      cases levels <;> exact plain.elim
  | levels + 1, .table entries, depth, plain, few => by
      obtain ⟨⟨bare, different⟩, values⟩ := plain
      rw [HasWritable]
      refine ⟨by omega, Table.isWritable_of_names _ rfl bare different fun value inside => ?_⟩
      obtain ⟨entry, isEntry, rfl⟩ := List.mem_map.mp inside
      exact (values entry isEntry).hasWritable (by omega)
  | levels + 1, .array [], depth, _, _ => by
      rw [HasWritable]
      exact Value.readsBack_empty
  | levels + 1, .array (element :: rest), depth, plain, few => by
      have headed := hasHeader_of_tables fun other inside => (plain other inside).1
      rw [HasWritable, if_pos headed]
      refine ⟨by omega, allWritable_of_forall fun element inside => ?_⟩
      obtain ⟨isTable, plainElement⟩ := plain element inside
      obtain ⟨entries, rfl⟩ := Value.exists_of_isTable isTable
      have writable : HasWritable depth (.table entries) := plainElement.hasWritable (by omega)
      rw [HasWritable] at writable
      exact ⟨entries, rfl, writable.2⟩

namespace Table

/-- A value written in place is read first. -/
theorem arranged_cons_inPlace {value : Value} (noHeader : value.hasHeader = false) (name : String)
    (rest : Table) : arranged ((name, value) :: rest) = (name, value) :: arranged rest := by
  have same : arrangedHeaders ((name, value) :: rest) = arrangedHeaders rest := by
    cases value with
    | table => cases noHeader
    | array elements => rw [arrangedHeaders, noHeader, if_neg Bool.false_ne_true]
    | text | integer | float | outsized | boolean | moment => simp only [arrangedHeaders]
  rw [arranged, inPlace, List.filter_cons_of_pos (by rw [noHeader]; rfl), same]
  rfl

/-- A value with a header is read behind all those written in place. -/
theorem arranged_cons_header {value other : Value} {name : String} {rest : Table}
    (headed : value.hasHeader = true)
    (read : arrangedHeaders ((name, value) :: rest) = (name, other) :: arrangedHeaders rest) :
    arranged ((name, value) :: rest) = inPlace rest ++ (name, other) :: arrangedHeaders rest := by
  rw [arranged, inPlace, List.filter_cons_of_neg (by simp [headed]), read]
  rfl

/-- The tables of an array are read again if each table is. -/
theorem allSame_arrangedElements {elements : List Value}
    (plain : ∀ element ∈ elements, ∃ entries, element = .table entries ∧
      Table.Same entries (arranged entries)) :
    Value.AllSame elements (arrangedElements elements) := by
  induction elements with
  | nil =>
      rw [arrangedElements]
      exact .nil
  | cons element rest ih =>
      obtain ⟨⟨entries, rfl, same⟩, others⟩ := List.forall_mem_cons.mp plain
      rw [arrangedElements]
      exact .cons (.table same) (ih others)

/-- A plain table is read again in another order. -/
theorem same_arranged {entries : Table}
    (plain : ∀ entry ∈ entries, library.IsPlain levels entry.2) :
    Table.Same entries (arranged entries) := by
  induction levels using Nat.strong_induction_on generalizing entries with
  | _ levels inner =>
      induction entries with
      | nil =>
          rw [arranged, arrangedHeaders]
          exact .nil
      | cons entry rest ih =>
          obtain ⟨name, value⟩ := entry
          obtain ⟨first, others⟩ := List.forall_mem_cons.mp plain
          have later := ih others
          -- a value written in place is read as the first entry
          have front : Table.Same rest ([] ++ arranged rest) := later
          cases value with
          | text content =>
              rw [arranged_cons_inPlace rfl]
              exact .cons (.text content) front
          | integer number =>
              rw [arranged_cons_inPlace rfl]
              exact .cons (.integer number) front
          | float number =>
              rw [arranged_cons_inPlace rfl]
              exact .cons (.float number) front
          | table entries =>
              cases levels with
              | zero => exact first.elim
              | succ levels =>
                  rw [arranged_cons_header rfl (by rw [arrangedHeaders])]
                  exact .cons (.table (inner levels (Nat.lt_succ_self levels) first.2)) later
          | array elements =>
              cases levels with
              | zero => exact first.elim
              | succ levels =>
                  have tables : ∀ element ∈ elements, ∃ entries, element = .table entries ∧
                      Table.Same entries (arranged entries) := by
                    intro element inside
                    obtain ⟨isTable, plainElement⟩ := first element inside
                    obtain ⟨entries, rfl⟩ := Value.exists_of_isTable isTable
                    cases levels with
                    | zero => exact plainElement.elim
                    | succ levels => exact ⟨entries, rfl, inner levels (by omega) plainElement.2⟩
                  cases elements with
                  | nil =>
                      rw [arranged_cons_inPlace rfl]
                      exact .cons (.array .nil) front
                  | cons element elements =>
                      have headed := hasHeader_of_tables fun other inside => (first other inside).1
                      rw [arranged_cons_header headed (by rw [arrangedHeaders, if_pos headed])]
                      exact .cons (.array (allSame_arrangedElements tables)) later
          | outsized | boolean | moment => cases levels <;> exact first.elim

end Table

/-- A plain table can be written. -/
theorem Library.IsPlain.isWritable {table : Table}
    (plain : library.IsPlain (levels + 1) (.table table)) (few : levels ≤ maxDepth) :
    IsWritable 0 table := by
  obtain ⟨⟨bare, different⟩, values⟩ := plain
  refine Table.isWritable_of_names _ rfl bare different fun value inside => ?_
  obtain ⟨entry, isEntry, rfl⟩ := List.mem_map.mp inside
  exact (values entry isEntry).hasWritable (by omega)

/-- **The library of the project is lossless.** -/
theorem isLossless_library : Toml.library.IsLossless := by
  intro table plain
  have again : Table.ofText? table.written = some (arranged table) :=
    Table.ofText?_written (plain.isWritable (by decide))
  refine ⟨table.written, arranged table, rfl, ?_, Table.same_arranged plain.2⟩
  unfold Toml.library
  dsimp only
  rw [again]

/-- **The library of the project gives programs plain values as what they are.** -/
theorem isFaithful_library : Toml.library.IsFaithful where
  float number _ := rfl
  natural bits number small _ := if_pos small
  small := by
    intro bits number value read
    change Value.natural? bits value = some number at read
    unfold Value.natural? at read
    split at read
    case h_1 =>
      split at read
      case isTrue small =>
        rw [← Option.some.inj read]
        exact small
      case isFalse => cases read
    case h_2 => cases read
  word words word inside := by
    show words.find? (· = word) = some word
    cases found : words.find? (· = word) with
    | none => exact absurd (List.find?_eq_none.mp found word inside) (by simp)
    | some other =>
        have same := List.find?_some found
        rw [decide_eq_true_iff] at same
        rw [same]
  elements elements := rfl
  parts names entries _ known := by
    refine if_pos (List.all_eq_true.mpr fun entry inside => ?_)
    dsimp only
    rw [List.contains_iff_mem.mpr (known entry.1 (List.mem_map_of_mem inside)), Bool.true_or]

end Project

end LineRobot.Toml
