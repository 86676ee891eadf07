import Mathlib.Data.List.Nodup
import LineRobot.Proofs.Delegation.Renamed
import LineRobot.Proofs.Source.Blocks
import LineRobot.Proofs.Source.Lines
import LineRobot.Proofs.Syntax.ReadStatement
import LineRobot.Proofs.Syntax.Reading

/-! # Delegating waits in a source

`Source.Delegates` says what delegating waits is for a cleaned source: in some places of its
function bodies the name of the wait function is replaced by that of a new subroutine, and somewhere
the subroutine is added, which waits for as long as its parameter says. If the first source
compiles, the second one is read as the first one with delegated waits
(`Source.Delegates.exists_read`).

The body of the subroutine is cleaned, too. A parameter whose name is made of capital letters only
is lost there, as a name like that in parentheses is a cast. -/

namespace LineRobot

namespace Source

/-- The statement that waits for as long as a parameter says. -/
def waitStatement (parameter : String) : List Char :=
  Vocabulary.wait.toList ++ '(' :: (parameter.toList ++ [')', ';'])

/-- The name and the parameters of the function whose header a text is, if it is one. -/
def functionOf? (header : List Char) : Option (String × List String) :=
  (Header.ofText? header).map fun found =>
    (String.ofList found.name, Header.parameterNames found.parameters)

/-- A pair of braces with the text before it, and the same pair with another name in the place of
the wait function here and there. -/
structure Block (helper : String) (header inside header' inside' : List Char) : Prop where
  /-- No brace stands before the first pair. -/
  opened : '\x7b' ∉ header
  /-- Nor before the second one. -/
  opened' : '\x7b' ∉ header'
  /-- They are the bodies of the same function, or of none. -/
  sameFunction : functionOf? header' = functionOf? header
  /-- All braces between them are in pairs. -/
  closed : Definition.splitAtClosing 0 (inside ++ ['\x7d']) = some (inside, [])
  /-- What stands between them. -/
  renames : Renames Vocabulary.wait helper false inside inside'

/-- A cleaned source, and the same one with another name in the place of the wait function here and
there in its blocks. -/
inductive Edited (helper : String) : (text text' : List Char) → Prop
  /-- No more braces. -/
  | rest {text text' : List Char} : '\x7b' ∉ text → '\x7b' ∉ text' → Edited helper text text'
  /-- A pair of braces with others behind it. -/
  | block {header inside header' inside' after after' : List Char} :
      Block helper header inside header' inside' → Edited helper after after' →
      Edited helper (header ++ '\x7b' :: (inside ++ '\x7d' :: after))
        (header' ++ '\x7b' :: (inside' ++ '\x7d' :: after'))

/-- A cleaned body that waits for as long as a parameter says and does nothing else. -/
def OnlyWaits (parameter : String) (inside : List Char) : Prop :=
  ∃ before after, inside = before ++ clean (waitStatement parameter) ++ after ∧
    before.all Text.isLayout = true ∧ after.all Text.isLayout = true

/-- The subroutine that waits for as long as its parameter says, as it is in a cleaned source. -/
structure Waiter (helper parameter : String) (header inside : List Char) : Prop where
  /-- No brace stands before it. -/
  opened : '\x7b' ∉ header
  /-- Its name and its parameter. -/
  function : functionOf? header = some (helper, [parameter])
  /-- Its body. -/
  body : OnlyWaits parameter inside

/-- A cleaned source, and the same one with waits delegated to a new subroutine, which is added
somewhere. -/
inductive Delegates (helper parameter : String) : (text text' : List Char) → Prop
  /-- The subroutine is added here. -/
  | added {text header inside text' : List Char} :
      Waiter helper parameter header inside → Edited helper text text' →
      Delegates helper parameter text (header ++ '\x7b' :: (inside ++ '\x7d' :: text'))
  /-- The subroutine is added behind a pair of braces. -/
  | block {header inside header' inside' after after' : List Char} :
      Block helper header inside header' inside' → Delegates helper parameter after after' →
      Delegates helper parameter (header ++ '\x7b' :: (inside ++ '\x7d' :: after))
        (header' ++ '\x7b' :: (inside' ++ '\x7d' :: after'))

end Source

open Source

variable {helper parameter : String}

/-! ## Definitions -/

namespace Definition

/-- The same definition with another name in the place of the wait function here and there. -/
structure Renamed (helper : String) (definition other : Definition) : Prop where
  /-- They have the same name. -/
  name : other.name = definition.name
  /-- They have the same parameters. -/
  parameters : other.parameters = definition.parameters
  /-- Their bodies differ in the name of the wait function. -/
  body : Renames Vocabulary.wait helper false definition.body other.body

/-- A definition of the subroutine that waits for as long as its parameter says. -/
structure Waits (definition : Definition) (helper parameter : String) : Prop where
  /-- Its name. -/
  name : definition.name = helper
  /-- Its parameter. -/
  parameters : definition.parameters = [parameter]
  /-- Its body. -/
  body : OnlyWaits parameter definition.body

/-- The definition of a block is that of a function with the given body. -/
theorem ofBlock?_eq_map (position : Position) (header body : List Char) :
    ∃ place, ofBlock? position header body = (functionOf? header).map fun function =>
      ⟨function.1, function.2, body, position.after (header ++ ['\x7b']), place⟩ := by
  unfold ofBlock? functionOf?
  cases Header.ofText? header with
  | none => exact ⟨position, rfl⟩
  | some found => exact ⟨position.after found.lead, rfl⟩

/-- What is open at a place is so, too, with another name here and there. -/
theorem foldlM_step?_renames {word other : String} {joined : Bool} {inside inside' : List Char}
    (isWord : Text.isIdentifier word = true) (isOther : Text.isIdentifier other = true)
    (renames : Renames word other joined inside inside') (depth : Nat) :
    inside'.foldlM step? depth = inside.foldlM step? depth := by
  -- both names are words, and no brace is part of a word
  have noBrace {word : String} (isWord : Text.isIdentifier word = true) (depth : Nat) :
      word.toList.foldlM step? depth = some depth := by
    exact foldlM_step?_of_notMem (Text.notMem_of_isIdentifier isWord (by decide))
      (Text.notMem_of_isIdentifier isWord (by decide)) depth
  induction renames generalizing depth with
  | nil => rfl
  | keep _ ih =>
      rw [List.foldlM_cons, List.foldlM_cons]
      exact bind_congr ih
  | replace _ _ ih =>
      rw [List.foldlM_append, List.foldlM_append, noBrace isWord, noBrace isOther]
      exact ih depth

end Definition

namespace Source

open Definition

/-- The wait function has a name. -/
theorem isIdentifier_wait : Text.isIdentifier Vocabulary.wait = true := by decide

/-- The braces of a block are closed whatever follows. -/
theorem Block.find_eq {header inside header' inside' : List Char}
    (block : Block helper header inside header' inside')
    (isHelper : Text.isIdentifier helper = true) (after : List Char) (position : Position) :
    find position (header ++ '\x7b' :: (inside ++ '\x7d' :: after)) =
        (find (position.after (header ++ '\x7b' :: (inside ++ ['\x7d']))) after).map
          ((ofBlock? position header inside).toList ++ ·) ∧
      find position (header' ++ '\x7b' :: (inside' ++ '\x7d' :: after)) =
        (find (position.after (header' ++ '\x7b' :: (inside' ++ ['\x7d']))) after).map
          ((ofBlock? position header' inside').toList ++ ·) := by
  have balanced := splitAtClosing_eq_some_iff.mp block.closed
  have balanced' := (foldlM_step?_renames isIdentifier_wait isHelper block.renames 0).trans balanced
  exact ⟨find_block block.opened (splitAtClosing_eq_some_iff.mpr balanced) position,
    find_block block.opened' (splitAtClosing_eq_some_iff.mpr balanced') position⟩

/-- A block gives the same definition with another name here and there, or none. -/
theorem Block.renamed {header inside header' inside' : List Char}
    (block : Block helper header inside header' inside') (position position' : Position) :
    List.Forall₂ (Definition.Renamed helper) (ofBlock? position header inside).toList
      (ofBlock? position' header' inside').toList := by
  obtain ⟨place, first⟩ := ofBlock?_eq_map position header inside
  obtain ⟨place', second⟩ := ofBlock?_eq_map position' header' inside'
  rw [first, second, block.sameFunction]
  cases functionOf? header with
  | none => exact .nil
  | some function => exact .cons ⟨rfl, rfl, block.renames⟩ .nil

/-- The definitions of a source with another name here and there. -/
theorem Edited.find {text text' : List Char} (edited : Edited helper text text')
    (isHelper : Text.isIdentifier helper = true) {position : Position}
    {definitions : List Definition} (found : find position text = .ok definitions)
    (position' : Position) :
    ∃ definitions', find position' text' = .ok definitions' ∧
      List.Forall₂ (Definition.Renamed helper) definitions definitions' := by
  induction edited generalizing position definitions position' with
  | rest absent absent' =>
      rw [find_of_notMem absent] at found
      cases found
      exact ⟨[], find_of_notMem absent' position', .nil⟩
  | block block _ ih =>
      rw [(block.find_eq isHelper _ _).1] at found
      rw [(block.find_eq isHelper _ _).2]
      obtain ⟨later, laterFound, rfl⟩ := exists_of_map_eq_ok found
      obtain ⟨later', laterFound', renamed⟩ := ih laterFound _
      rw [laterFound']
      exact ⟨_, rfl, List.rel_append (block.renamed position position') renamed⟩

/-- No braces stand in a body that only waits. -/
theorem OnlyWaits.notMem {inside : List Char} (onlyWaits : OnlyWaits parameter inside)
    (isParameter : Text.isIdentifier parameter = true) {brace : Char}
    (isBrace : brace = '\x7b' ∨ brace = '\x7d') : brace ∉ inside := by
  obtain ⟨before, after, rfl, layout, layout'⟩ := onlyWaits
  have outside : Text.isWordCharacter brace = false := by rcases isBrace with rfl | rfl <;> decide
  have inLayout {text : List Char} (layout : text.all Text.isLayout = true) : brace ∉ text := by
    intro member
    have accepted := List.all_eq_true.mp layout brace member
    rcases isBrace with rfl | rfl <;> cases accepted
  -- cleaning only leaves characters out
  have inStatement : brace ∉ clean (waitStatement parameter) := by
    intro member
    have member := (leaves_clean _).sublist.subset member
    simp only [waitStatement, List.mem_append, List.mem_cons, List.not_mem_nil, or_false, false_or,
      Text.notMem_of_isIdentifier isIdentifier_wait outside,
        Text.notMem_of_isIdentifier isParameter outside]
      at member
    rcases isBrace with rfl | rfl <;> rcases member with same | same | same <;> cases same
  simp only [List.mem_append, not_or]
  exact ⟨⟨inLayout layout, inStatement⟩, inLayout layout'⟩

/-- The definitions of a source with a new subroutine, which is among them. -/
theorem Delegates.find {text text' : List Char} (delegates : Delegates helper parameter text text')
    (isHelper : Text.isIdentifier helper = true) (isParameter : Text.isIdentifier parameter = true)
    {position : Position} {definitions : List Definition}
    (found : find position text = .ok definitions) (position' : Position) :
    ∃ front waiter back, find position' text' = .ok (front ++ waiter :: back) ∧
      waiter.Waits helper parameter ∧
        List.Forall₂ (Definition.Renamed helper) definitions (front ++ back) := by
  induction delegates generalizing position definitions position' with
  | @added text header inside text' waiter edited =>
      -- definitions are found from any position on, and here it is the one behind the subroutine
      obtain ⟨definitions', found', renamed⟩ := edited.find isHelper found
        (position'.after (header ++ '\x7b' :: (inside ++ ['\x7d'])))
      have balanced := foldlM_step?_of_notMem (waiter.body.notMem isParameter (.inl rfl))
        (waiter.body.notMem isParameter (.inr rfl)) 0
      rw [find_block waiter.opened (splitAtClosing_eq_some_iff.mpr balanced), found']
      obtain ⟨place, made⟩ := ofBlock?_eq_map position' header inside
      rw [made, waiter.function]
      exact ⟨[], _, definitions', rfl, ⟨rfl, rfl, waiter.body⟩, renamed⟩
  | block block _ ih =>
      rw [(block.find_eq isHelper _ _).1] at found
      rw [(block.find_eq isHelper _ _).2]
      obtain ⟨later, laterFound, rfl⟩ := exists_of_map_eq_ok found
      obtain ⟨front, waiter, back, laterFound', waits, renamed⟩ := ih laterFound _
      rw [laterFound']
      refine ⟨_, waiter, back, congrArg Except.ok (List.append_assoc _ _ _).symm, waits, ?_⟩
      rw [List.append_assoc]
      exact List.rel_append (block.renamed position position') renamed

end Source

/-! ## The entry function and the subroutines -/

namespace Definition

/-- No name is defined twice just if all names are different, and different from earlier ones. -/
theorem firstRepeated?_eq_none_iff {earlier : List String} {definitions : List Definition} :
    firstRepeated? earlier definitions = none ↔
      (definitions.map name).Nodup ∧ ∀ definition ∈ definitions, definition.name ∉ earlier := by
  induction definitions generalizing earlier with
  | nil => simp [firstRepeated?]
  | cons definition later ih =>
      rw [firstRepeated?, List.map_cons, List.nodup_cons, List.forall_mem_cons]
      by_cases before : earlier.contains definition.name = true
      · rw [if_pos before]
        exact iff_of_false nofun fun free => free.2.1 (List.contains_iff_mem.mp before)
      · rw [if_neg before, ih]
        have absent : definition.name ∉ earlier := fun member =>
          before (List.contains_iff_mem.mpr member)
        simp only [List.mem_cons, not_or, List.mem_map, not_exists, not_and]
        constructor
        · rintro ⟨different, apart⟩
          exact ⟨⟨fun other member => (apart other member).1, different⟩, absent,
            fun other member => (apart other member).2⟩
        · rintro ⟨⟨apart, different⟩, -, free⟩
          exact ⟨different, fun other member => ⟨apart other member, free other member⟩⟩

/-- Definitions are split if their names are different and the entry function is among them. -/
theorem split_eq_ok_iff {definitions others : List Definition} {entry : Definition} :
    split definitions = .ok (entry, others) ↔
      (definitions.map name).Nodup ∧
        definitions.find? (fun definition => definition.name = Vocabulary.entry) = some entry ∧
          others = definitions.filter fun definition => definition.name ≠ Vocabulary.entry := by
  have distinct : firstRepeated? [] definitions = none ↔ (definitions.map name).Nodup := by
    simp [firstRepeated?_eq_none_iff]
  rw [← distinct, split]
  cases firstRepeated? [] definitions with
  | some repeated => simp
  | none =>
      cases definitions.find? fun definition => definition.name = Vocabulary.entry with
      | none => simp
      | some found => simp [eq_comm]

/-- Renamed definitions have the same names. -/
theorem map_name_of_renamed {definitions others : List Definition}
    (renamed : List.Forall₂ (Renamed helper) definitions others) :
    others.map name = definitions.map name := by
  induction renamed with
  | nil => rfl
  | cons first _ ih => rw [List.map_cons, List.map_cons, first.name, ih]

/-- The first definition of a name is among renamed ones, too. -/
theorem exists_find?_of_renamed {definitions others : List Definition} {name : String}
    {definition : Definition} (renamed : List.Forall₂ (Renamed helper) definitions others)
    (found : definitions.find? (fun definition => definition.name = name) = some definition) :
    ∃ other, others.find? (fun definition => definition.name = name) = some other ∧
      definition.Renamed helper other := by
  induction renamed with
  | nil => cases found
  | @cons first first' _ _ renamed _ ih =>
      rw [List.find?_cons] at found ⊢
      rw [renamed.name]
      split at found
      · cases found
        exact ⟨first', rfl, renamed⟩
      · exact ih found

/-- **The subroutine is split off** together with the others: the entry function and the subroutines
are those of the definitions without it. -/
theorem exists_split {front back definitions others : List Definition} {waiter entry : Definition}
    (renamed : List.Forall₂ (Renamed helper) definitions (front ++ back))
    (named : waiter.name = helper) (fresh : helper ∉ definitions.map name)
    (done : split definitions = .ok (entry, others)) :
    ∃ entry' front' back', split (front ++ waiter :: back) =
      .ok (entry', front' ++ waiter :: back') ∧
      entry.Renamed helper entry' ∧ List.Forall₂ (Renamed helper) others (front' ++ back') := by
  obtain ⟨distinct, found, rfl⟩ := split_eq_ok_iff.mp done
  have names := map_name_of_renamed renamed
  obtain ⟨entry', found', entryRenamed⟩ := exists_find?_of_renamed renamed found
  -- a new subroutine is not the entry function, as that is there before
  have isOther : waiter.name ≠ Vocabulary.entry := by
    rw [named]
    rintro rfl
    have isEntry : entry.name = Vocabulary.entry := by simpa using List.find?_some found
    exact fresh (isEntry ▸ List.mem_map_of_mem (List.mem_of_find?_eq_some found))
  refine ⟨entry', front.filter fun definition => definition.name ≠ Vocabulary.entry,
    back.filter fun definition => definition.name ≠ Vocabulary.entry,
    split_eq_ok_iff.mpr ⟨?_, ?_, ?_⟩, entryRenamed, ?_⟩
  · rw [List.map_append, List.map_cons, List.nodup_middle, ← List.map_append, names, named]
    exact List.nodup_cons.mpr ⟨fresh, distinct⟩
  · rw [List.find?_append] at found' ⊢
    rwa [List.find?_cons_of_neg (by simpa using isOther)]
  · rw [List.filter_append, List.filter_cons_of_pos (by simpa using isOther)]
  · rw [← List.filter_append]
    refine List.rel_filter (fun definition other renamed => ?_) renamed
    dsimp only
    rw [renamed.name]

end Definition

/-! ## Parsed functions -/

/-- **A function with another name here and there** is read as one with delegated waits, if it has
code. -/
theorem ParsedFunction.exists_ofDefinition {definition other : Definition}
    {function : ParsedFunction} {functions : FunctionTable} {parameters : List String} {code : Code}
    (isHelper : Text.isIdentifier helper = true) (renamed : definition.Renamed helper other)
    (read : ofDefinition definition = .ok function)
    (emits : function.Emits functions parameters code) :
    ∃ function', ofDefinition other = .ok function' ∧ function.Delegates helper function' := by
  unfold ofDefinition Statement.ofText at read ⊢
  cases scanned : scan definition.bodyPosition definition.body with
  | error error =>
      rw [scanned] at read
      cases read
  | ok tokens =>
      rw [scanned] at read
      obtain ⟨tokens', scanned', alike⟩ := renamed.body.exists_scanned isIdentifier_wait (by decide)
        isHelper scanned other.bodyPosition
      cases parsed : Statement.parseBody tokens.stop tokens.tokens with
      | error error =>
          dsimp only at read
          rw [parsed] at read
          cases read
      | ok statements =>
          dsimp only at read
          rw [parsed] at read
          cases read
          obtain ⟨statements', parsed', written⟩ :=
            Statement.exists_parseBody_of_renamed tokens'.stop alike parsed
          rw [scanned']
          dsimp only
          rw [parsed']
          exact ⟨_, rfl, renamed.name, renamed.parameters, emits.delegates written⟩

/-- Functions with another name here and there are read as ones with delegated waits. -/
theorem ParsedFunction.exists_mapM {definitions others : List Definition}
    {parsed : List ParsedFunction} {functions : FunctionTable}
    (isHelper : Text.isIdentifier helper = true)
    (renamed : List.Forall₂ (Definition.Renamed helper) definitions others)
    (read : definitions.mapM ofDefinition = .ok parsed)
    (emits : ∀ function ∈ parsed, ∃ code, function.Emits functions function.parameters code) :
    ∃ parsed', others.mapM ofDefinition = .ok parsed' ∧
      List.Forall₂ (Delegates helper) parsed parsed' := by
  induction renamed generalizing parsed with
  | nil =>
      cases read
      exact ⟨[], rfl, .nil⟩
  | cons first _ ih =>
      simp only [List.mapM_cons, bind_eq_ok, pure_eq_ok] at read ⊢
      obtain ⟨function, firstRead, later, laterRead, rfl⟩ := read
      obtain ⟨code, firstEmits⟩ := emits function List.mem_cons_self
      obtain ⟨function', firstRead', delegates⟩ :=
        exists_ofDefinition isHelper first firstRead firstEmits
      obtain ⟨later', laterRead', delegate⟩ :=
        ih laterRead fun other member => emits other (List.mem_cons_of_mem _ member)
      exact ⟨_, ⟨function', firstRead', later', laterRead', rfl⟩, .cons delegates delegate⟩

/-- The new subroutine stands among functions whose waits are delegated. -/
theorem ParsedFunction.AllDelegate.of_append {functions front back : List ParsedFunction}
    {waiter : ParsedFunction} (waits : waiter.Waits helper parameter)
    (delegate : List.Forall₂ (Delegates helper) functions (front ++ back)) :
    AllDelegate helper parameter functions (front ++ waiter :: back) := by
  induction front generalizing functions with
  | nil => exact .added waits delegate
  | cons first front ih =>
      cases delegate with
      | cons delegates delegate => exact .cons delegates (ih delegate)

end LineRobot
