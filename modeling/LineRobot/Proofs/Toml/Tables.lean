import LineRobot.Proofs.Toml.Lines

/-! # Tables as they are written

The document of a table has the lines `Table.lineBlocks`: first those of its values written in
place, then a block for each table under a header. If the names of the table need no quotes and are
different, and if its values written in place read back (`Table.IsWritable`), then these lines are
read from the document (`Table.ofText?_eq_ofLines?`). -/

namespace LineRobot.Toml

variable {name : String} {value : Value} {entries rest : List (String × Value)} {path : List String}

/-! ## The lines of a table -/

namespace Table

/-- The entries that are written in place. -/
def inPlace (entries : List (String × Value)) : List (String × Value) :=
  entries.filter fun entry => !entry.2.hasHeader

/-- The lines of entries written in place. -/
def entryLines (entries : List (String × Value)) : List Line :=
  (inPlace entries).map fun entry => .entry ⟨[], entry.1⟩ entry.2

mutual

/-- The lines of the entries with headers in the table at a path, block by block. -/
def headerBlocks (path : List String) : List (String × Value) → List (List Line)
  | [] => []
  | (name, .table entries) :: rest =>
    (.table ⟨path, name⟩ :: entryLines entries) :: headerBlocks (path ++ [name]) entries ++
      headerBlocks path rest
  | (name, .array elements) :: rest =>
    (if (Value.array elements).hasHeader then elementLines path name elements else []) ++
      headerBlocks path rest
  | _ :: rest => headerBlocks path rest

/-- The lines of the tables of an array, block by block. -/
def elementLines (path : List String) (name : String) : List Value → List (List Line)
  | [] => []
  | .table entries :: rest =>
    (.element ⟨path, name⟩ :: entryLines entries) :: headerBlocks (path ++ [name]) entries ++
      elementLines path name rest
  | _ :: rest => elementLines path name rest

end

/-- The lines of a table, block by block. -/
def lineBlocks (table : Table) : List (List Line) :=
  (if entryLines table = [] then [] else [entryLines table]) ++ headerBlocks [] table

/-- The values written in place are written as their lines. -/
theorem toList_ownLines (entries : List (String × Value)) :
    (ownLines entries).toList = blockText (entryLines entries) := by
  rw [ownLines, String.toList_join, blockText, entryLines, inPlace, List.flatMap_map,
    List.flatMap_map]
  refine List.flatMap_congr fun entry _ => ?_
  rw [Line.text, text_single]
  simp

mutual

/-- The blocks of a table are written as their lines. -/
theorem toList_blocks (path : List String) : (entries : List (String × Value)) →
    (blocks path entries).map String.toList = (headerBlocks path entries).map blockText
  | [] => by rw [blocks, headerBlocks]; rfl
  | (name, value) :: rest => by
      have later := toList_blocks path rest
      cases value with
      | table entries =>
          have inner := toList_blocks (path ++ [name]) entries
          rw [blocks, headerBlocks, List.cons_append, List.cons_append, List.map_cons,
            List.map_cons, List.map_append,
            List.map_append, inner, later, String.toList_append, toList_ownLines, blockText_cons]
          simp [Line.text, Key.text, Key.path]
      | array elements =>
          have inner := toList_elementBlocks path name elements
          rw [blocks, headerBlocks, List.map_append, List.map_append, later]
          split
          · rw [inner]
          · rfl
      | text | integer | float | outsized | boolean | moment =>
          simpa only [blocks, headerBlocks] using later
termination_by entries => sizeOf entries

/-- The blocks of an array are written as their lines. -/
theorem toList_elementBlocks (path : List String) (name : String) : (elements : List Value) →
    (elementBlocks (path ++ [name]) elements).map String.toList =
      (elementLines path name elements).map blockText
  | [] => by rw [elementBlocks, elementLines]; rfl
  | value :: rest => by
      have later := toList_elementBlocks path name rest
      cases value with
      | table entries =>
          have inner := toList_blocks (path ++ [name]) entries
          rw [elementBlocks, elementLines, List.cons_append, List.cons_append,
            List.map_cons, List.map_cons,
            List.map_append, List.map_append, inner, later, String.toList_append, toList_ownLines,
              blockText_cons]
          simp [Line.text, Key.text, Key.path]
      | array | text | integer | float | outsized | boolean | moment =>
          simpa only [elementBlocks, elementLines] using later
termination_by elements => sizeOf elements

end

/-- **A table is written as its lines**, with empty lines between the blocks. -/
theorem toList_written (table : Table) :
    table.written.toList = ['\n'].intercalate (table.lineBlocks.map blockText) := by
  have own := toList_ownLines table
  have empty : (ownLines table).isEmpty = true ↔ entryLines table = [] := by
    rw [String.isEmpty_iff, ← String.toList_eq_nil_iff, own, blockText, List.flatMap_eq_nil_iff,
      List.eq_nil_iff_forall_not_mem]
    refine forall_congr' fun line => forall_congr' fun _ => ?_
    simp
  rw [written, lineBlocks, String.toList_intercalate, List.map_append,
    List.map_append, toList_blocks]
  by_cases none : entryLines table = []
  · rw [if_pos none, if_pos (empty.mpr none)]
    rfl
  · rw [if_neg none, if_neg fun isEmpty => none (empty.mp isEmpty), List.map_singleton, own]
    rfl

/-! ## Tables that can be written -/

mutual

/-- Entries of a table in the given number of tables: their names need no quotes and differ, and
their values can be written. -/
def IsWritable (depth : Nat) : List (String × Value) → Prop
  | [] => True
  | (name, value) :: rest =>
    (IsBare name ∧ name ∉ rest.map Prod.fst) ∧ HasWritable depth value ∧ IsWritable depth rest

/-- A value of a table in the given number of tables: one that is written in place reads back, and
the tables of others can be written. -/
def HasWritable (depth : Nat) : Value → Prop
  | .table entries => depth < maxDepth ∧ IsWritable (depth + 1) entries
  | .array elements =>
    if (Value.array elements).hasHeader then depth < maxDepth ∧ AllWritable (depth + 1) elements
    else (Value.array elements).ReadsBack
  | value => value.ReadsBack

/-- The tables of an array can be written. -/
def AllWritable (depth : Nat) : List Value → Prop
  | [] => True
  | .table entries :: rest => IsWritable depth entries ∧ AllWritable depth rest
  | _ :: rest => AllWritable depth rest

end

variable {depth : Nat}

/-- Entries can be written if their names need no quotes and differ, and if their values can be
written. -/
theorem isWritable_of_names (names : List String) (same : entries.map Prod.fst = names)
    (bare : ∀ name ∈ names, IsBare name) (different : names.Nodup)
    (writable : ∀ value ∈ entries.map Prod.snd, HasWritable depth value) :
    IsWritable depth entries := by
  subst same
  induction entries with
  | nil =>
      rw [IsWritable]
      trivial
  | cons entry rest ih =>
      rw [List.map_cons] at bare different writable
      rw [List.nodup_cons] at different
      rw [List.forall_mem_cons] at bare writable
      rw [IsWritable]
      exact ⟨⟨bare.1, different.1⟩, writable.1, ih writable.2 bare.2 different.2⟩

/-- A value that is written in place reads back. -/
theorem HasWritable.readsBack (writable : HasWritable depth value)
    (inPlace : value.hasHeader = false) :
    value.ReadsBack := by
  cases value with
  | table => cases inPlace
  | array elements =>
      rw [HasWritable, inPlace, if_neg Bool.false_ne_true] at writable
      exact writable
  | text | integer | float | outsized | boolean | moment =>
      simpa only [HasWritable] using writable

/-- The lines of entries written in place are plain. -/
theorem isPlain_entryLines (writable : IsWritable depth entries) : ∀ line ∈ entryLines entries,
    line.IsPlain := by
  induction entries with
  | nil => exact fun line inside => absurd inside List.not_mem_nil
  | cons entry rest ih =>
      obtain ⟨name, value⟩ := entry
      rw [IsWritable] at writable
      obtain ⟨⟨bare, -⟩, hasWritable, others⟩ := writable
      intro line inside
      rw [entryLines, inPlace, List.filter_cons] at inside
      split at inside
      case isTrue noHeader =>
        rcases List.mem_cons.mp inside with rfl | later
        · exact ⟨⟨fun part inside => absurd inside List.not_mem_nil, bare, Nat.succ_pos _⟩,
            hasWritable.readsBack (by simpa using noHeader)⟩
        · exact ih others line later
      case isFalse => exact ih others line inside

/-- A path that goes on with a bare name. -/
theorem bare_append (bare : ∀ part ∈ path, IsBare part) (bareName : IsBare name) :
    ∀ part ∈ path ++ [name], IsBare part := by
  intro part inside
  rcases List.mem_append.mp inside with front | last
  · exact bare part front
  · rw [List.mem_singleton.mp last]
    exact bareName

mutual

/-- The lines of entries with headers are plain. -/
theorem isPlain_headerBlocks (path : List String) (bare : ∀ part ∈ path, IsBare part) :
    (entries : List (String × Value)) → IsWritable path.length entries →
      ∀ block ∈ headerBlocks path entries, ∀ line ∈ block, line.IsPlain
  | [], _ => by
      rw [headerBlocks]
      exact fun block inside => absurd inside List.not_mem_nil
  | (name, value) :: rest, writable => by
      rw [IsWritable] at writable
      obtain ⟨⟨bareName, -⟩, hasWritable, others⟩ := writable
      have later := isPlain_headerBlocks path bare rest others
      cases value with
      | table entries =>
          rw [HasWritable] at hasWritable
          have length : (path ++ [name]).length = path.length + 1 := List.length_append
          have inner := isPlain_headerBlocks (path ++ [name]) (bare_append bare bareName) entries
            (length ▸ hasWritable.2)
          rw [headerBlocks, List.forall_mem_append, List.forall_mem_cons, List.forall_mem_cons]
          exact ⟨⟨⟨⟨bare, bareName, hasWritable.1⟩, isPlain_entryLines hasWritable.2⟩,
            inner⟩, later⟩
      | array elements =>
          rw [headerBlocks, List.forall_mem_append]
          refine ⟨?_, later⟩
          rw [HasWritable] at hasWritable
          split at hasWritable
          case isTrue header =>
            rw [if_pos header]
            exact isPlain_elementLines path bare bareName hasWritable.1 elements hasWritable.2
          case isFalse noHeader =>
            rw [if_neg noHeader]
            exact fun block inside => absurd inside List.not_mem_nil
      | text | integer | float | outsized | boolean | moment =>
          simpa only [headerBlocks] using later
termination_by entries => sizeOf entries

/-- The lines of the tables of an array are plain. -/
theorem isPlain_elementLines (path : List String) (bare : ∀ part ∈ path, IsBare part)
    {name : String} (bareName : IsBare name) (short : path.length < maxDepth) :
    (elements : List Value) → AllWritable (path.length + 1) elements →
      ∀ block ∈ elementLines path name elements, ∀ line ∈ block, line.IsPlain
  | [], _ => by
      rw [elementLines]
      exact fun block inside => absurd inside List.not_mem_nil
  | value :: rest, writable => by
      cases value with
      | table entries =>
          rw [AllWritable] at writable
          have length : (path ++ [name]).length = path.length + 1 := List.length_append
          have later := isPlain_elementLines path bare bareName short rest writable.2
          have inner := isPlain_headerBlocks (path ++ [name]) (bare_append bare bareName) entries
            (length ▸ writable.1)
          rw [elementLines, List.forall_mem_append, List.forall_mem_cons, List.forall_mem_cons]
          exact ⟨⟨⟨⟨bare, bareName, short⟩, isPlain_entryLines writable.1⟩, inner⟩, later⟩
      | array | text | integer | float | outsized | boolean | moment =>
          simp only [AllWritable] at writable
          simpa only [elementLines]
            using isPlain_elementLines path bare bareName short rest writable
termination_by elements => sizeOf elements

end

/-- The lines of a table that can be written are plain. -/
theorem isPlain_lineBlocks {table : Table} (writable : IsWritable 0 table) :
    ∀ block ∈ lineBlocks table, ∀ line ∈ block, line.IsPlain := by
  have noPart : ∀ part ∈ ([] : List String), IsBare part :=
    fun part inside => absurd inside List.not_mem_nil
  rw [lineBlocks, List.forall_mem_append]
  refine ⟨?_, isPlain_headerBlocks [] noPart table writable⟩
  split
  · exact fun block inside => absurd inside List.not_mem_nil
  · rw [List.forall_mem_singleton]
    exact isPlain_entryLines writable

end Table

/-- Another character at the beginning of a text stays there. -/
theorem dropByteOrderMark_cons {first : Char} (other : first ≠ '\ufeff') (later : List Char) :
    dropByteOrderMark (first :: later) = first :: later := by
  unfold dropByteOrderMark
  split
  case h_1 same => exact absurd (List.cons.inj same).1 other
  case h_2 => rfl

/-- Blocks of plain lines do not begin with a byte order mark. -/
theorem dropByteOrderMark_blocks {blocks : List (List Line)}
    (plain : ∀ block ∈ blocks, ∀ line ∈ block, line.IsPlain) :
    dropByteOrderMark (['\n'].intercalate (blocks.map blockText)) =
      ['\n'].intercalate (blocks.map blockText) := by
  cases blocks with
  | nil => rfl
  | cons block others =>
      obtain ⟨later, split⟩ : ∃ later,
          ['\n'].intercalate ((block :: others).map blockText) = blockText block ++ later ∧
            (later = [] ∨ ∃ more, later = '\n' :: more) := by
        cases others with
        | nil => exact ⟨[], by simp⟩
        | cons second others =>
            rw [List.map_cons, List.map_cons, List.intercalate_cons_cons, List.append_assoc]
            exact ⟨_, rfl, .inr ⟨_, rfl⟩⟩
      rw [split.1]
      cases block with
      | nil =>
          rcases split.2 with rfl | ⟨more, rfl⟩
          · rfl
          · exact dropByteOrderMark_cons (by decide) more
      | cons line lines =>
          obtain ⟨first, tail, characters, begins⟩ :=
            Line.exists_text_eq (plain (line :: lines) List.mem_cons_self line List.mem_cons_self)
          rw [blockText_cons, characters]
          refine dropByteOrderMark_cons ?_ _
          rcases begins with rfl | bare
          · decide
          · exact isBare_ne bare rfl

/-- **A written table is read line by line.** -/
theorem Table.ofText?_eq_ofLines? {table : Table} (writable : IsWritable 0 table) :
    ofText? table.written = ofLines? table.lineBlocks.flatten := by
  have plain := isPlain_lineBlocks writable
  rw [ofText?, toList_written, dropByteOrderMark_blocks plain, readLines?_blocks plain]
  rfl

end LineRobot.Toml
