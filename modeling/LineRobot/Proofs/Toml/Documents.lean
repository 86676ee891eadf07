import LineRobot.Proofs.Toml.Tables

/-! # Documents in the making

The lines of a document are taken in one by one. In a document that has been written from a table
each line changes the last entry of a table, or adds an entry after it: what has been read so far is
some content in the last tables on the way to it (`Drafts.within`).

A written table is read as the table again, but for the order of its entries: the values written in
place come first (`Table.arranged`, `Table.ofText?_written`). -/

namespace LineRobot.Toml

/-- A table on the way to the one that is being written, which is its last entry. -/
inductive Layer where
  /-- The last entry is a table. -/
  | table (before : Drafts) (name : String) (origin : Origin)
  /-- The last entry is an array with earlier tables. -/
  | element (before : Drafts) (name : String) (earlier : List Drafts)

namespace Layer

/-- The name of the last entry. -/
def lastName : Layer → String
  | .table _ name _ => name
  | .element _ name _ => name

/-- The entries before the last one. -/
def before : Layer → Drafts
  | .table before _ _ => before
  | .element before _ _ => before

/-- The table with the given content of the table that is being written. -/
def around (content : Drafts) : Layer → Drafts
  | .table before name origin => before ++ [(name, .table origin content)]
  | .element before name earlier => before ++ [(name, .tables (content :: earlier))]

/-- The name of the last entry is the name of no entry before it. -/
def IsFresh (layer : Layer) : Prop :=
  layer.lastName ∉ layer.before.map Prod.fst

/-- The path to a table in one more layer. -/
theorem map_append_singleton (layers : List Layer) (layer : Layer) :
    (layers ++ [layer]).map lastName = layers.map lastName ++ [layer.lastName] :=
  List.map_append

end Layer

namespace Drafts

/-- The outermost table with the given content of the table that is being written. -/
def within (layers : List Layer) (content : Drafts) : Drafts :=
  layers.foldr (fun layer content => layer.around content) content

/-- A further layer is around the content. -/
theorem within_append (layers : List Layer) (layer : Layer) (content : Drafts) :
    within (layers ++ [layer]) content = within layers (layer.around content) := by
  rw [within, List.foldr_append]
  rfl

variable {content : Drafts} {name : String}

/-- A new name is added behind the other entries. -/
theorem alter_of_not_mem (new : name ∉ content.map Prod.fst)
    (change : Option Draft → Option Draft) :
    alter name change content = (change none).map fun draft => content ++ [(name, draft)] := by
  induction content with
  | nil => rfl
  | cons entry rest ih =>
      rw [List.map_cons, List.mem_cons, not_or] at new
      rw [alter, if_neg (Ne.symm new.1), ih new.2, Option.map_map]
      rfl

/-- The last entry is changed where it stands. -/
theorem alter_last (new : name ∉ content.map Prod.fst) (draft : Draft)
    (change : Option Draft → Option Draft) :
    alter name change (content ++ [(name, draft)]) =
      (change (some draft)).map fun draft => content ++ [(name, draft)] := by
  induction content with
  | nil => exact if_pos rfl
  | cons entry rest ih =>
      rw [List.map_cons, List.mem_cons, not_or] at new
      rw [List.cons_append, alter, if_neg (Ne.symm new.1), ih new.2, Option.map_map]
      rfl

/-- Through its layers the table that is being written is changed. -/
theorem alterAt_within {layers : List Layer} (fresh : ∀ layer ∈ layers, layer.IsFresh)
    (change : Drafts → Option Drafts) (content : Drafts) :
    alterAt change (layers.map Layer.lastName) (within layers content) =
      (change content).map (within layers) := by
  induction layers with
  | nil => exact (Option.map_id_apply).symm
  | cons layer layers ih =>
      have inner := ih fun other inside => fresh other (List.mem_cons_of_mem _ inside)
      have new := fresh layer List.mem_cons_self
      rw [List.map_cons, alterAt]
      cases layer with
      | table before name origin =>
          refine (alter_last new _ _).trans ?_
          dsimp only
          rw [← within, inner, Option.map_map, Option.map_map]
          rfl
      | element before name earlier =>
          refine (alter_last new _ _).trans ?_
          dsimp only
          rw [← within, inner, Option.map_map, Option.map_map]
          rfl

end Drafts

/-! ## Lines one by one -/

open Drafts

variable {layers : List Layer} {content : Drafts} {name : String}

/-- An entry is added to the table that is being written. -/
theorem addTo_entry (fresh : ∀ layer ∈ layers, layer.IsFresh) (new : name ∉ content.map Prod.fst)
    (value : Value) :
    Line.addTo ⟨within layers content, layers.map Layer.lastName⟩ (.entry ⟨[], name⟩ value) =
      some ⟨within layers (content ++ [(name, .value value)]), layers.map Layer.lastName⟩ := by
  have added : insertKey ⟨[], name⟩ value content = some (content ++ [(name, .value value)]) :=
    alter_of_not_mem new _
  rw [Line.addTo, alterAt_within fresh, added]
  rfl

/-- A header adds a table to the one that its path leads to. -/
theorem addTo_table (fresh : ∀ layer ∈ layers, layer.IsFresh) (new : name ∉ content.map Prod.fst)
    (header : List String) :
    Line.addTo ⟨within layers content, header⟩ (.table ⟨layers.map Layer.lastName, name⟩) =
      some ⟨within (layers ++ [.table content name .header]) [],
        (layers ++ [Layer.table content name .header]).map Layer.lastName⟩ := by
  rw [Line.addTo, openTable, alterAt_within fresh, alter_of_not_mem new, within_append,
    List.map_append]
  rfl

/-- Entries, and an array of tables behind them unless it is empty. -/
def withTables (content : Drafts) (name : String) : List Drafts → Drafts
  | [] => content
  | latest :: earlier => content ++ [(name, .tables (latest :: earlier))]

/-- The header of an element adds a table to an array, which may be new. -/
theorem addTo_element (fresh : ∀ layer ∈ layers, layer.IsFresh) (new : name ∉ content.map Prod.fst)
    (earlier : List Drafts) (header : List String) :
    Line.addTo ⟨within layers (withTables content name earlier), header⟩
        (.element ⟨layers.map Layer.lastName, name⟩) =
      some ⟨within (layers ++ [.element content name earlier]) [],
        (layers ++ [Layer.element content name earlier]).map Layer.lastName⟩ := by
  rw [Line.addTo, openElement, alterAt_within fresh, within_append, List.map_append]
  cases earlier with
  | nil =>
      rw [withTables, alter_of_not_mem new]
      rfl
  | cons latest earlier =>
      rw [withTables, alter_last new]
      rfl

/-! ## Tables line by line -/

namespace Table

mutual

/-- The entries with headers, as they are read. -/
def arrangedHeaders : List (String × Value) → List (String × Value)
  | [] => []
  | (name, .table entries) :: rest =>
    (name, .table (inPlace entries ++ arrangedHeaders entries)) :: arrangedHeaders rest
  | (name, .array elements) :: rest =>
    if (Value.array elements).hasHeader then (name, .array (arrangedElements elements)) ::
      arrangedHeaders rest
    else arrangedHeaders rest
  | _ :: rest => arrangedHeaders rest

/-- The tables of an array, as they are read. -/
def arrangedElements : List Value → List Value
  | [] => []
  | .table entries :: rest =>
      .table (inPlace entries ++ arrangedHeaders entries) :: arrangedElements rest
  | _ :: rest => arrangedElements rest

end

/-- A table with the values that are written in place before those with headers. -/
def arranged (table : Table) : Table :=
  inPlace table ++ arrangedHeaders table

/-- Entries written in place, as a document in the making has them. -/
def drafts (entries : List (String × Value)) : Drafts :=
  entries.map fun entry => (entry.1, .value entry.2)

/-- Names are kept in the making. -/
theorem map_fst_drafts (entries : List (String × Value)) :
    (drafts entries).map Prod.fst = entries.map Prod.fst := by
  rw [drafts, List.map_map]
  rfl

/-- Entries are finished one after the other. -/
theorem finish_append (first second : Drafts) :
    Drafts.finish (first ++ second) = Drafts.finish first ++ Drafts.finish second := by
  induction first with
  | nil => rfl
  | cons entry rest ih => rw [List.cons_append, Drafts.finish, Drafts.finish, ih, List.cons_append]

/-- Entries written in place stay as they are. -/
theorem finish_drafts (entries : List (String × Value)) :
    Drafts.finish (drafts entries) = entries := by
  induction entries with
  | nil => rfl
  | cons entry rest ih => rw [drafts, List.map_cons, Drafts.finish, ← drafts, ih, Draft.finish]

/-- Tables are finished one after the other. -/
theorem finishAll_append (first second : List Drafts) :
    Drafts.finishAll (first ++ second) = Drafts.finishAll first ++ Drafts.finishAll second := by
  induction first with
  | nil => rfl
  | cons entry rest ih =>
      rw [List.cons_append, Drafts.finishAll, Drafts.finishAll, ih, List.cons_append]

/-- Lines with new and different names are added one after the other. -/
theorem foldlM_entries (fresh : ∀ layer ∈ layers, layer.IsFresh) {entries : List (String × Value)}
    (different : ((content.map Prod.fst) ++ entries.map Prod.fst).Nodup) :
    (entries.map fun entry => Line.entry ⟨[], entry.1⟩ entry.2).foldlM Line.addTo
        ⟨within layers content, layers.map Layer.lastName⟩ =
      some ⟨within layers (content ++ drafts entries), layers.map Layer.lastName⟩ := by
  induction entries generalizing content with
  | nil =>
      rw [drafts, List.map_nil, List.map_nil, List.append_nil]
      rfl
  | cons entry rest ih =>
      have new : entry.1 ∉ content.map Prod.fst := fun inside =>
        List.disjoint_of_nodup_append different inside List.mem_cons_self
      rw [List.map_cons, List.foldlM_cons, addTo_entry fresh new]
      refine (ih ?_).trans ?_
      · rw [List.map_append, List.append_assoc]
        exact different
      · rw [List.append_assoc]
        rfl

/-- The names of a table that can be written are different. -/
theorem IsWritable.nodup {depth : Nat} {entries : List (String × Value)}
    (writable : IsWritable depth entries) :
    (entries.map Prod.fst).Nodup := by
  induction entries with
  | nil => exact List.nodup_nil
  | cons entry rest ih =>
      rw [IsWritable] at writable
      exact List.nodup_cons.mpr ⟨writable.1.2, ih writable.2.2⟩

/-- The names of entries with headers are new behind the values that are written in place. -/
theorem not_mem_drafts_inPlace {entries : List (String × Value)}
    (different : (entries.map Prod.fst).Nodup) :
    ∀ entry ∈ entries, entry.2.hasHeader = true →
      entry.1 ∉ (drafts (inPlace entries)).map Prod.fst := by
  intro entry inside header again
  rw [map_fst_drafts] at again
  obtain ⟨other, otherInPlace, same⟩ := List.mem_map.mp again
  obtain ⟨otherInside, noHeader⟩ := List.mem_filter.mp otherInPlace
  have equal : other = entry := List.inj_on_of_nodup_map different otherInside inside same
  rw [equal, header] at noHeader
  cases noHeader

/-- What the lines of a table add to an empty one, given what those of its entries with headers
add. -/
theorem foldlM_table (fresh : ∀ layer ∈ layers, layer.IsFresh) {entries : List (String × Value)}
    (different : (entries.map Prod.fst).Nodup)
    (headers : ∃ added header,
      (headerBlocks (layers.map Layer.lastName) entries).flatten.foldlM Line.addTo
        ⟨within layers (drafts (inPlace entries)), layers.map Layer.lastName⟩ =
          some ⟨within layers (drafts (inPlace entries) ++ added), header⟩ ∧
        Drafts.finish added = arrangedHeaders entries) :
    ∃ added header,
      (entryLines entries ++ (headerBlocks (layers.map Layer.lastName) entries).flatten).foldlM
        Line.addTo
          ⟨within layers [], layers.map Layer.lastName⟩ = some ⟨within layers added, header⟩ ∧
        Drafts.finish added = arranged entries := by
  obtain ⟨added, header, run, finished⟩ := headers
  have own : ((inPlace entries).map Prod.fst).Nodup :=
    different.sublist (List.filter_sublist.map Prod.fst)
  refine ⟨drafts (inPlace entries) ++ added, header, ?_, ?_⟩
  · rw [List.foldlM_append, entryLines, foldlM_entries fresh (by simpa using own)]
    exact run
  · rw [finish_append, finish_drafts, finished, arranged]

/-- A line that opens a table in a further layer and the lines that fill it add this table as the
last entry. -/
theorem foldlM_opened {layer : Layer} {progress : Progress} {line : Line} {lines later : List Line}
    {inner : Drafts} {header : List String}
    (opens : Line.addTo progress line = some ⟨within (layers ++ [layer]) [],
      (layers ++ [layer]).map Layer.lastName⟩)
    (filled : lines.foldlM Line.addTo ⟨within (layers ++ [layer]) [],
      (layers ++ [layer]).map Layer.lastName⟩ = some ⟨within (layers ++ [layer]) inner, header⟩) :
    (line :: lines ++ later).foldlM Line.addTo progress =
      later.foldlM Line.addTo ⟨within layers (layer.around inner), header⟩ := by
  rw [List.cons_append, List.foldlM_cons, opens]
  refine List.foldlM_append.trans ?_
  rw [filled, within_append]
  rfl

/-- A layer with a new name is fresh, as those around it are. -/
theorem isFresh_append (fresh : ∀ layer ∈ layers, layer.IsFresh) {layer : Layer}
    (new : layer.IsFresh) :
    ∀ other ∈ layers ++ [layer], other.IsFresh := by
  rw [List.forall_mem_append, List.forall_mem_singleton]
  exact ⟨fresh, new⟩

/-- Names that are new for some entries are so for one more, with another name. -/
theorem new_append {rest : List (String × Value)} (missing : name ∉ rest.map Prod.fst)
    (draft : Draft)
    (new : ∀ entry ∈ rest, entry.2.hasHeader = true → entry.1 ∉ content.map Prod.fst) :
    ∀ entry ∈ rest, entry.2.hasHeader = true →
      entry.1 ∉ (content ++ [(name, draft)]).map Prod.fst := by
  intro entry inside header
  rw [List.map_append, List.mem_append, not_or]
  refine ⟨new entry inside header, fun again => missing ?_⟩
  have same : entry.1 = name := List.mem_singleton.mp again
  rw [← same]
  exact List.mem_map_of_mem inside

/-- An array with a header is not empty. -/
theorem arrangedElements_ne_nil {elements : List Value}
    (headed : (Value.array elements).hasHeader = true) :
    arrangedElements elements ≠ [] := by
  cases elements with
  | nil => cases headed
  | cons value rest =>
      cases value with
      | table entries =>
          rw [arrangedElements]
          exact List.cons_ne_nil _ _
      | array | text | integer | float | outsized | boolean | moment => cases headed

mutual

/-- The lines of entries with headers add these entries. -/
theorem foldlM_headerBlocks {depth : Nat} (layers : List Layer)
    (fresh : ∀ layer ∈ layers, layer.IsFresh) (content : Drafts) (header : List String) :
    (entries : List (String × Value)) → IsWritable depth entries →
      (∀ entry ∈ entries, entry.2.hasHeader = true → entry.1 ∉ content.map Prod.fst) →
      ∃ added last, (headerBlocks (layers.map Layer.lastName) entries).flatten.foldlM Line.addTo
          ⟨within layers content, header⟩ = some ⟨within layers (content ++ added), last⟩ ∧
        Drafts.finish added = arrangedHeaders entries
  | [], _, _ => by
      refine ⟨[], header, ?_, ?_⟩
      · rw [headerBlocks, List.append_nil]
        rfl
      · rw [arrangedHeaders]
        rfl
  | (name, value) :: rest, writable, new => by
      have newName : value.hasHeader = true → name ∉ content.map Prod.fst :=
        new _ List.mem_cons_self
      have newRest : ∀ entry ∈ rest, entry.2.hasHeader = true → entry.1 ∉ content.map Prod.fst :=
        fun entry inside => new entry (List.mem_cons_of_mem _ inside)
      rw [IsWritable] at writable
      obtain ⟨⟨-, missing⟩, hasWritable, others⟩ := writable
      cases value with
      | table entries =>
          rw [HasWritable] at hasWritable
          -- the table is the last entry while its own lines are read, and stays as it is afterwards
          have freshName : (Layer.table content name .header).IsFresh := newName rfl
          have freshInner := isFresh_append fresh freshName
          obtain ⟨inner, innerLast, innerRun, innerFinished⟩ :=
            foldlM_table freshInner hasWritable.2.nodup
            (foldlM_headerBlocks _ freshInner _ _ entries hasWritable.2
              (not_mem_drafts_inPlace hasWritable.2.nodup))
          obtain ⟨later, last, run, finished⟩ := foldlM_headerBlocks layers fresh
            (content ++ [(name, .table .header inner)]) innerLast rest others
              (new_append missing _ newRest)
          refine ⟨(name, .table .header inner) :: later, last, ?_, ?_⟩
          · have whole :=
              (foldlM_opened (addTo_table fresh (newName rfl) header) innerRun).trans run
            rw [Layer.map_append_singleton, List.append_assoc] at whole
            rw [headerBlocks, List.flatten_append, List.flatten_cons, List.cons_append]
            exact whole
          · rw [Drafts.finish, Draft.finish, innerFinished, finished, arrangedHeaders, arranged]
      | array elements =>
          rw [HasWritable] at hasWritable
          split at hasWritable
          case isTrue headed =>
            obtain ⟨tables, innerLast, innerRun, innerFinished⟩ :=
              foldlM_elementLines layers fresh content (newName headed) header elements
                hasWritable.2 []
            -- so the array is an entry, which an array without tables would not be
            obtain ⟨latest, earlier, some⟩ : ∃ latest earlier, tables = latest :: earlier := by
              refine List.exists_cons_of_ne_nil fun none => arrangedElements_ne_nil headed ?_
              rw [← innerFinished, none]
              rfl
            subst some
            rw [List.append_nil] at innerRun
            obtain ⟨later, last, run, finished⟩ := foldlM_headerBlocks layers fresh
              (content ++ [(name, .tables (latest :: earlier))]) innerLast rest others
                (new_append missing _ newRest)
            refine ⟨(name, .tables (latest :: earlier)) :: later, last, ?_, ?_⟩
            · rw [headerBlocks, if_pos headed, List.flatten_append, List.foldlM_append]
              refine (congrArg (· >>= _) innerRun).trans (run.trans ?_)
              rw [List.append_assoc]
              rfl
            · rw [Drafts.finish, Draft.finish, innerFinished, finished,
                arrangedHeaders, if_pos headed]
          case isFalse noHeader =>
            rw [headerBlocks, arrangedHeaders, if_neg noHeader, if_neg noHeader]
            exact foldlM_headerBlocks layers fresh content header rest others newRest
      | text | integer | float | outsized | boolean | moment =>
          simp only [headerBlocks, arrangedHeaders]
          exact foldlM_headerBlocks layers fresh content header rest others newRest
termination_by entries => sizeOf entries

/-- The lines of the tables of an array add these tables. -/
theorem foldlM_elementLines {depth : Nat} (layers : List Layer)
    (fresh : ∀ layer ∈ layers, layer.IsFresh) (content : Drafts) {name : String}
    (new : name ∉ content.map Prod.fst) (header : List String) :
    (elements : List Value) → AllWritable depth elements → (earlier : List Drafts) →
      ∃ tables last,
        (elementLines (layers.map Layer.lastName) name elements).flatten.foldlM Line.addTo
          ⟨within layers (withTables content name earlier), header⟩ =
            some ⟨within layers (withTables content name (tables ++ earlier)), last⟩ ∧
        (Drafts.finishAll tables).reverse = arrangedElements elements
  | [], _, earlier => by
      refine ⟨[], header, ?_, ?_⟩
      · rw [elementLines]
        rfl
      · rw [arrangedElements]
        rfl
  | value :: rest, writable, earlier => by
      cases value with
      | table entries =>
          rw [AllWritable] at writable
          -- in the making the latest table stands first
          have freshName : (Layer.element content name earlier).IsFresh := new
          have freshInner := isFresh_append fresh freshName
          obtain ⟨inner, innerLast, innerRun, innerFinished⟩ :=
            foldlM_table freshInner writable.1.nodup
            (foldlM_headerBlocks _ freshInner _ _ entries writable.1
              (not_mem_drafts_inPlace writable.1.nodup))
          obtain ⟨tables, last, run, finished⟩ :=
            foldlM_elementLines layers fresh content new innerLast rest writable.2
              (inner :: earlier)
          refine ⟨tables ++ [inner], last, ?_, ?_⟩
          · have whole :=
              (foldlM_opened (addTo_element fresh new earlier header) innerRun).trans run
            rw [Layer.map_append_singleton] at whole
            rw [elementLines, List.flatten_append, List.flatten_cons, List.cons_append,
              List.append_assoc]
            exact whole
          · rw [finishAll_append, List.reverse_append, finished, Drafts.finishAll, innerFinished,
              arrangedElements, arranged]
            rfl
      | array | text | integer | float | outsized | boolean | moment =>
          simp only [AllWritable] at writable
          simp only [elementLines, arrangedElements]
          exact foldlM_elementLines layers fresh content new header rest writable earlier
termination_by elements => sizeOf elements

end

/-- The lines of a table are those of its values written in place and those of the blocks under
headers. -/
theorem flatten_lineBlocks (table : Table) :
    (lineBlocks table).flatten = entryLines table ++ (headerBlocks [] table).flatten := by
  rw [lineBlocks, List.flatten_append]
  split
  case isTrue none => rw [none, List.flatten_nil]
  case isFalse => rw [List.flatten_singleton]

/-- **A written table is read as the table**, with the values written in place before the others. -/
theorem ofText?_written {table : Table} (writable : IsWritable 0 table) :
    ofText? table.written = some (arranged table) := by
  have fresh : ∀ layer ∈ ([] : List Layer), layer.IsFresh :=
    fun layer inside => absurd inside List.not_mem_nil
  obtain ⟨added, last, run, finished⟩ := foldlM_table fresh writable.nodup
    (foldlM_headerBlocks [] fresh _ _ table writable (not_mem_drafts_inPlace writable.nodup))
  have whole : (lineBlocks table).flatten.foldlM Line.addTo {} = some ⟨added, last⟩ := by
    rw [flatten_lineBlocks]
    exact run
  rw [ofText?_eq_ofLines? writable, ofLines?, whole, Option.map_some, finished]

end Table

end LineRobot.Toml
