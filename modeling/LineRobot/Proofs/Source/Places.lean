import Mathlib.Data.List.Basic
import LineRobot.Proofs.Source.Blocks
import LineRobot.Proofs.Token.Fragments

/-! # Places are true positions

A place is carried along while a text is cut into definitions and a body into tokens. It is still
the place in the whole text: `Text.placeAfter` counts the line ends of all that stands before, and
the characters after the last of them, and `Definition.exists_site` says that the place of a name,
of a body, of each token of the body and of the closing brace are what is counted so. -/

namespace LineRobot

/-- The place of the character after a text: its line is counted by the line ends of the text, its
column by the characters after the last of them. -/
def Text.placeAfter (text : List Char) : Position :=
  ⟨text.count '\n' + 1, (text.reverse.takeWhile Source.isInLine).length + 1⟩

/-- One more character moves the counted place as it moves a place. -/
theorem Text.placeAfter_append_singleton (text : List Char) (character : Char) :
    placeAfter (text ++ [character]) = (placeAfter text).next character := by
  unfold placeAfter Position.next
  rw [List.count_append, List.reverse_append, List.reverse_singleton, List.singleton_append,
    List.takeWhile_cons]
  by_cases lineEnd : character = '\n'
  · subst lineEnd
    rfl
  · have inLine : Source.isInLine character = true := bne_iff_ne.mpr lineEnd
    rw [if_neg lineEnd, if_pos inLine, List.count_singleton, List.length_cons]
    simp [lineEnd]

/-- **Moving along a text counts its lines and columns.** -/
theorem Position.start_after (text : List Char) : start.after text = Text.placeAfter text := by
  induction text using List.reverseRecOn with
  | nil => rfl
  | append_singleton text character ih =>
      rw [Position.after_append, ih, Text.placeAfter_append_singleton]
      rfl

/-- From the place after a text one moves to the place after it and what follows it. -/
theorem Text.after_placeAfter (before text : List Char) :
    (placeAfter before).after text = placeAfter (before ++ text) := by
  rw [← Position.start_after, ← Position.after_append, Position.start_after]

/-- The tokens among fragments that stand after the given text, each at the place counted by all the
text before it. -/
def Fragment.tokensAfter (before : List Char) : List Fragment → List Token
  | [] => []
  | fragment :: later =>
    (fragment.kind.map fun kind => ⟨kind, Text.placeAfter before⟩).toList ++
      tokensAfter (before ++ fragment.text) later

/-- Tokens placed one after the other stand where counting finds them. -/
theorem Fragment.tokens_placeAfter (before : List Char) (fragments : List Fragment) :
    tokens (Text.placeAfter before) fragments = tokensAfter before fragments := by
  induction fragments generalizing before with
  | nil => rfl
  | cons fragment later ih =>
      rw [tokens, tokensAfter, ← ih, Text.after_placeAfter]

namespace Definition

/-- Where a definition stands in a text that begins at the given place, the given definitions before
it. -/
structure Site (position : Position) (text : List Char) (earlier : List Definition)
    (definition : Definition) where
  /-- The text of the blocks before. -/
  before : List Char
  /-- The header up to the name. -/
  lead : List Char
  /-- The header from the end of the name on. -/
  after : List Char
  /-- The text after the closing brace. -/
  rest : List Char
  /-- The parts make up the text. -/
  whole : text = before ++ (lead ++ definition.name.toList ++ after) ++
    '\x7b' :: (definition.body ++ '\x7d' :: rest)
  /-- The definitions before are those of the blocks before. -/
  earlier_eq : find position before = .ok earlier
  /-- The name is that of the header. -/
  header : ∃ parameters,
    Header.ofText? (lead ++ definition.name.toList ++ after) =
      some ⟨lead, definition.name.toList, parameters⟩
  /-- The name has a first character. -/
  named : definition.name.toList ≠ []

namespace Site

variable {position : Position} {text header body rest : List Char} {earlier : List Definition}
  {definition : Definition}

/-- The text before the name. -/
def upToName (site : Site position text earlier definition) : List Char :=
  site.before ++ site.lead

/-- The text before the body, the opening brace included. -/
def upToBody (site : Site position text earlier definition) : List Char :=
  site.before ++ (site.lead ++ definition.name.toList ++ site.after) ++ ['\x7b']

/-- A definition that a block gives stands in it. -/
theorem exists_of_ofBlock? (given : ofBlock? position header body = some definition)
    (rest : List Char) :
    ∃ site : Site position (header ++ '\x7b' :: (body ++ '\x7d' :: rest)) [] definition,
      definition.position = position.after site.upToName ∧
        definition.bodyPosition = position.after site.upToBody := by
  obtain ⟨found, fits, rfl⟩ := Option.map_eq_some_iff.mp given
  obtain ⟨nonempty, after, rfl⟩ := Header.exists_of_ofText? fits
  refine ⟨⟨[], found.lead, after, rest, ?_, find_of_notMem List.not_mem_nil position,
    ⟨found.parameters, ?_⟩, ?_⟩, ?_, ?_⟩
  all_goals simp only [upToName, upToBody, String.toList_ofList, List.nil_append]
  · exact fits
  · exact nonempty

/-- A definition that is found after a block stands after it. -/
theorem exists_behind (absent : '\x7b' ∉ header)
    (closed : splitAtClosing 0 (body ++ '\x7d' :: rest) = some (body, rest))
    (site : Site (position.after (header ++ '\x7b' :: (body ++ ['\x7d']))) rest
      earlier definition) :
    ∃ moved : Site position (header ++ '\x7b' :: (body ++ '\x7d' :: rest))
        ((ofBlock? position header body).toList ++ earlier) definition,
      moved.upToName = header ++ '\x7b' :: (body ++ ['\x7d']) ++ site.upToName ∧
        moved.upToBody = header ++ '\x7b' :: (body ++ ['\x7d']) ++ site.upToBody := by
  refine ⟨⟨header ++ '\x7b' :: (body ++ '\x7d' :: site.before), site.lead, site.after,
    site.rest, ?_, ?_, site.header, site.named⟩, ?_, ?_⟩
  · conv_lhs => rw [site.whole]
    simp only [List.append_assoc, List.cons_append]
  · rw [find_block absent (splitAtClosing_append closed site.before), site.earlier_eq]
    rfl
  all_goals simp only [upToName, upToBody, List.append_assoc, List.cons_append, List.nil_append]

end Site

/-- Each definition that is found stands in the text, at the places that are carried along. -/
theorem Found.exists_places {position : Position} {text : List Char}
    {definitions earlier later : List Definition} {definition : Definition}
    (found : Found position text definitions)
    (split : definitions = earlier ++ definition :: later) :
    ∃ site : Site position text earlier definition,
      definition.position = position.after site.upToName ∧
        definition.bodyPosition = position.after site.upToBody := by
  induction found generalizing earlier with
  | nothing => exact absurd split (by simp)
  | @block position header body rest definitions absent closed found ih =>
      have behind {others : List Definition} (split : definitions = others ++ definition :: later) :
          ∃ site : Site position (header ++ '\x7b' :: (body ++ '\x7d' :: rest))
              ((ofBlock? position header body).toList ++ others) definition,
            definition.position = position.after site.upToName ∧
              definition.bodyPosition = position.after site.upToBody := by
        obtain ⟨site, named, opened⟩ := ih split
        obtain ⟨moved, toName, toBody⟩ := site.exists_behind absent closed
        refine ⟨moved, ?_, ?_⟩
        · rw [named, toName, ← Position.after_append]
        · rw [opened, toBody, ← Position.after_append]
      cases given : ofBlock? position header body with
      | none =>
          rw [given] at split behind
          exact behind split
      | some first =>
          rw [given] at split behind
          cases earlier with
          | nil =>
              cases split
              exact Site.exists_of_ofBlock? given rest
          | cons other others =>
              cases split
              exact behind rfl

/-- **Places are true positions.** Each definition found in a text stands in it after the
definitions before it. Its place is that of the first character of its name, counted in the whole
text. If its body can be cut into tokens, each token stands where counting the text before it says,
up to its first character, and the body ends where the closing brace stands. -/
theorem exists_site {text : List Char} {earlier later : List Definition} {definition : Definition}
    (found : all text = .ok (earlier ++ definition :: later)) :
    ∃ site : Site .start text earlier definition,
      definition.position = Text.placeAfter site.upToName ∧
      definition.bodyPosition = Text.placeAfter site.upToBody ∧
      ∀ scanned, scan definition.bodyPosition definition.body = .ok scanned →
        scanned.stop = Text.placeAfter (site.upToBody ++ definition.body) ∧
        ∃ fragments, Fragment.join fragments = definition.body ∧ Fragment.Follow fragments ∧
          scanned.tokens = Fragment.tokensAfter site.upToBody fragments := by
  obtain ⟨site, named, opened⟩ := (find_eq_ok_iff.mp found).exists_places rfl
  rw [Position.start_after] at named opened
  refine ⟨site, named, opened, fun scanned done => ?_⟩
  obtain ⟨fragments, whole, follow, rfl⟩ := Fragment.scan_eq_ok_iff.mp done
  refine ⟨?_, fragments, whole, follow, ?_⟩
  · dsimp only
    rw [opened, Text.after_placeAfter]
  · dsimp only
    rw [opened, Fragment.tokens_placeAfter]

/-- A source with two functions, the second of which begins and goes on in the middle of a line. -/
def spreadSource : List Char :=
  ("#é\nint twice(int n) \x7b return n; \x7d\n/* ö\n*/ void\tuser_main (void) " ++
    "\x7b /* ß\n */ # '\n sum += 'ü'; // é\n \x7d").toList

/-- The first function of `spreadSource`. -/
def spreadTwice : Definition :=
  { name := "twice"
    parameters := ["n"]
    body := " return n; ".toList
    bodyPosition := ⟨2, 19⟩
    position := ⟨2, 5⟩ }

/-- The second function of `spreadSource`. -/
def spreadEntry : Definition :=
  { name := "user_main"
    parameters := []
    body := " /* ß\n */ # '\n sum += 'ü'; // é\n ".toList
    bodyPosition := ⟨4, 27⟩
    position := ⟨4, 9⟩ }

/-- The tokens of the second function of `spreadSource` and the place of its closing brace. -/
def spreadScanned : Scanned :=
  ⟨[⟨.name "sum", ⟨6, 2⟩⟩, ⟨.sign .plusEqual, ⟨6, 6⟩⟩, ⟨.character 'ü', ⟨6, 9⟩⟩,
    ⟨.sign .semicolon, ⟨6, 12⟩⟩], ⟨7, 2⟩⟩

/-- An instance of `exists_site`. -/
theorem exists_site_spread :
    all spreadSource = .ok ([spreadTwice] ++ spreadEntry :: []) ∧
      scan spreadEntry.bodyPosition spreadEntry.body = .ok spreadScanned ∧
      ∃ site : Site .start spreadSource [spreadTwice] spreadEntry,
        ⟨4, 9⟩ = Text.placeAfter site.upToName ∧
        ⟨7, 2⟩ = Text.placeAfter (site.upToBody ++ spreadEntry.body) ∧
        ∃ fragments, Fragment.join fragments = spreadEntry.body ∧ Fragment.Follow fragments ∧
          spreadScanned.tokens = Fragment.tokensAfter site.upToBody fragments := by
  have found : all spreadSource = .ok ([spreadTwice] ++ spreadEntry :: []) := by decide +kernel
  have done : scan spreadEntry.bodyPosition spreadEntry.body = .ok spreadScanned := by
    decide +kernel
  obtain ⟨site, named, -, ends⟩ := exists_site found
  exact ⟨found, done, site, named, ends spreadScanned done⟩

end Definition

end LineRobot
