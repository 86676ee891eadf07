import Mathlib.Data.List.TakeWhile
import LineRobot.Source.Header

/-! # What a header looks like

`Header.ofText?` searches a text from its end. A text is the header of a function just if it can be
cut into parts that look like one (`Header.Pattern`): a type, a name and a parameter list in
parentheses, with blanks between them, and anything in front. There can be several ways to cut it,
as parameters may contain opening parentheses. The header found is that of those whose parameter
list begins leftmost (`Header.ofText?_eq_some_iff`). -/

namespace LineRobot.Header

open Text

/-- The parts of a text that ends with a word, blanks, a word and perhaps blanks. -/
structure Named (text : List Char) where
  /-- What comes before the first of the two words, or rather before any end of it that is a
  word. -/
  before : List Char
  /-- The type. -/
  type : List Char
  /-- The blanks between the words. -/
  gap : List Char
  /-- The name. -/
  name : List Char
  /-- The blanks at the end. -/
  space : List Char
  /-- The parts make up the text. -/
  whole : text = before ++ type ++ gap ++ name ++ space
  /-- The type has a character. -/
  type_ne_nil : type ≠ []
  /-- The type is a word. -/
  type_isWord : ∀ character ∈ type, isWordCharacter character = true
  /-- There is a blank between the words. -/
  gap_ne_nil : gap ≠ []
  /-- There are only blanks between the words. -/
  gap_isBlank : ∀ character ∈ gap, isBlank character = true
  /-- The name has a character. -/
  name_ne_nil : name ≠ []
  /-- The name is a word. -/
  name_isWord : ∀ character ∈ name, isWordCharacter character = true
  /-- There are only blanks after the name. -/
  space_isBlank : ∀ character ∈ space, isBlank character = true

/-- The text before the name. -/
def Named.lead {text : List Char} (named : Named text) : List Char :=
  named.before ++ named.type ++ named.gap

/-- The parts of a text that ends like the header of a function. -/
structure Pattern (text : List Char) where
  /-- What comes before the parameter list. -/
  front : List Char
  /-- It ends with a type and a name. -/
  named : Named front
  /-- The parameters. -/
  parameters : List Char
  /-- The blanks after the parameter list. -/
  after : List Char
  /-- The parts make up the text. -/
  whole : text = front ++ '(' :: (parameters ++ ')' :: after)
  /-- The parameter list is not closed before its end. -/
  parameters_open : ')' ∉ parameters
  /-- There are only blanks after the parameter list. -/
  after_isBlank : ∀ character ∈ after, isBlank character = true

namespace Pattern

variable {text : List Char}

/-- The header with the given parts. -/
def header (pattern : Pattern text) : Header :=
  ⟨pattern.named.lead, pattern.named.name, pattern.parameters⟩

/-- No parameter list begins further to the left. -/
def IsLeftmost (pattern : Pattern text) : Prop :=
  ∀ other : Pattern text, pattern.front.length ≤ other.front.length

end Pattern

variable {accept : Char →
  Bool} {run rest reversed text inner after skipped parameters lead name : List Char}

/-! ## Runs of characters -/

/-- A run of accepted characters is taken, and no more. -/
theorem takeWhile_run (accepted : ∀ character ∈ run, accept character = true)
    (stops : rest.head?.any accept = false) : (run ++ rest).takeWhile accept = run := by
  rw [List.takeWhile_append_of_pos accepted]
  cases rest with
  | nil => simp
  | cons first rest => rw [List.takeWhile_cons_of_neg (by simpa using stops), List.append_nil]

/-- A run of accepted characters is dropped, and no more. -/
theorem dropWhile_run (accepted : ∀ character ∈ run, accept character = true)
    (stops : rest.head?.any accept = false) : (run ++ rest).dropWhile accept = rest := by
  rw [List.dropWhile_append_of_pos accepted]
  cases rest with
  | nil => rfl
  | cons first rest => exact List.dropWhile_cons_of_neg (by simpa using stops)

/-- Where a text begins with an accepted character, something is taken. -/
theorem takeWhile_ne_nil (starts : rest.head?.any accept = true) : rest.takeWhile accept ≠ [] := by
  cases rest with
  | nil => cases starts
  | cons first rest =>
      rw [List.takeWhile_cons_of_pos (by simpa using starts)]
      exact List.cons_ne_nil _ _

/-- A reversed run that is not empty begins with one of its characters. -/
theorem exists_head?_reverse_append (nonempty : run ≠ []) (rest : List Char) :
    ∃ character ∈ run, (run.reverse ++ rest).head? = some character := by
  cases reversed : run.reverse with
  | nil => exact absurd (List.reverse_eq_nil_iff.mp reversed) nonempty
  | cons first others =>
      refine ⟨first, List.mem_reverse.mp ?_, rfl⟩
      rw [reversed]
      exact List.mem_cons_self

/-- A blank is in no word. -/
theorem isWordCharacter_eq_false_of_isBlank {character : Char} (blank : isBlank character = true) :
    isWordCharacter character = false := by
  have apart : (blanks.all fun other => !isWordCharacter other) = true := by decide
  have inBlanks : character ∈ blanks := List.contains_iff_mem.mp blank
  simpa using List.all_eq_true.mp apart character inBlanks

/-- A character of a word is no blank. -/
theorem isBlank_eq_false_of_isWordCharacter {character : Char}
    (word : isWordCharacter character = true) :
    isBlank character = false := by
  by_contra blank
  rw [isWordCharacter_eq_false_of_isBlank (Bool.not_eq_false _ ▸ blank)] at word
  cases word

/-! ## The name -/

/-- A name at the end of a text is found. -/
theorem Named.nameAtEnd?_eq (named : Named text) :
    nameAtEnd? text.reverse = some (named.lead, named.name) := by
  obtain ⟨before, type, gap, name, space, rfl, typeNonempty, typeWord, gapNonempty,
    gapBlank, nameNonempty, nameWord, spaceBlank⟩ := named
  obtain ⟨letter, letterMember, beginsName⟩ :=
    exists_head?_reverse_append nameNonempty (gap.reverse ++ (type.reverse ++ before.reverse))
  obtain ⟨blank, blankMember, beginsGap⟩ :=
    exists_head?_reverse_append gapNonempty (type.reverse ++ before.reverse)
  obtain ⟨last, lastMember, beginsType⟩ := exists_head?_reverse_append typeNonempty before.reverse
  -- from its end the text is a run of blanks, a run of word
  -- characters, a run of blanks and a word character
  have trimmed : (before ++ type ++ gap ++ name ++ space).reverse.dropWhile isBlank =
      name.reverse ++ (gap.reverse ++ (type.reverse ++ before.reverse)) := by
    simp only [List.reverse_append, List.append_assoc]
    refine dropWhile_run (by simpa using spaceBlank) ?_
    rw [beginsName]
    exact isBlank_eq_false_of_isWordCharacter (nameWord letter letterMember)
  have stopsAtGap : (gap.reverse ++ (type.reverse ++ before.reverse)).head?.any isWordCharacter =
      false := by
    rw [beginsGap]
    exact isWordCharacter_eq_false_of_isBlank (gapBlank blank blankMember)
  have stopsAtType : (type.reverse ++ before.reverse).head?.any isBlank = false := by
    rw [beginsType]
    exact isBlank_eq_false_of_isWordCharacter (typeWord last lastMember)
  have nameReversed : ∀ character ∈ name.reverse, isWordCharacter character = true := by
    simpa using nameWord
  have gapReversed : ∀ character ∈ gap.reverse, isBlank character = true := by simpa using gapBlank
  have nameTaken := takeWhile_run nameReversed stopsAtGap
  have nameDropped := dropWhile_run nameReversed stopsAtGap
  have gapDropped := dropWhile_run gapReversed stopsAtType
  unfold nameAtEnd?
  dsimp only
  rw [trimmed, nameTaken, nameDropped, gapDropped, beginsGap, beginsType, if_pos]
  · simp [lead]
  · exact ⟨by simpa using nameNonempty, gapBlank blank blankMember, typeWord last lastMember⟩

/-- A name that is found stands at the end of the text. -/
theorem exists_named_of_nameAtEnd? (found : nameAtEnd? reversed = some (lead, name)) :
    ∃ named : Named reversed.reverse, named.lead = lead ∧ named.name = name := by
  -- from its end, the text is blanks, the name, blanks and the last word of the type
  have reversedWhole := List.takeWhile_append_dropWhile (p := isBlank) (l := reversed)
  unfold nameAtEnd? at found
  dsimp only at found
  generalize reversed.dropWhile isBlank = trimmed at found reversedWhole
  have trimmedWhole := List.takeWhile_append_dropWhile (p := isWordCharacter) (l := trimmed)
  have nameWord (character : Char) (member : character ∈ trimmed.takeWhile isWordCharacter) :
      isWordCharacter character = true := List.mem_takeWhile_imp member
  generalize trimmed.takeWhile isWordCharacter = nameReversed at found trimmedWhole nameWord
  generalize trimmed.dropWhile isWordCharacter = leadReversed at found trimmedWhole
  split at found
  case isFalse => cases found
  case isTrue fits =>
    cases found
    obtain ⟨nameNonempty, startsBlank, startsWord⟩ := fits
    have leadWhole := List.takeWhile_append_dropWhile (p := isBlank) (l := leadReversed)
    have typeWhole :=
      List.takeWhile_append_dropWhile (p := isWordCharacter) (l := leadReversed.dropWhile isBlank)
    have lead_eq : leadReversed.reverse =
        ((leadReversed.dropWhile isBlank).dropWhile isWordCharacter).reverse ++
          ((leadReversed.dropWhile isBlank).takeWhile isWordCharacter).reverse ++
          (leadReversed.takeWhile isBlank).reverse := by
      rw [← List.reverse_append, typeWhole, ← List.reverse_append, leadWhole]
    refine ⟨⟨((leadReversed.dropWhile isBlank).dropWhile isWordCharacter).reverse,
      ((leadReversed.dropWhile isBlank).takeWhile isWordCharacter).reverse,
      (leadReversed.takeWhile isBlank).reverse, nameReversed.reverse,
        (reversed.takeWhile isBlank).reverse,
      ?_, ?_, ?_, ?_, ?_, ?_, ?_, ?_⟩, lead_eq.symm, rfl⟩
    · rw [← lead_eq, ← List.reverse_append, trimmedWhole, ← List.reverse_append, reversedWhole]
    · simpa using takeWhile_ne_nil startsWord
    · intro character member
      exact List.mem_takeWhile_imp (List.mem_reverse.mp member)
    · simpa using takeWhile_ne_nil startsBlank
    · intro character member
      exact List.mem_takeWhile_imp (List.mem_reverse.mp member)
    · simpa using nameNonempty
    · simpa using nameWord
    · intro character member
      exact List.mem_takeWhile_imp (List.mem_reverse.mp member)

/-! ## The parameter list -/

/-- The parameter list of a header begins in a text, and the text before it ends with the name,
which no text before an opening parenthesis further to the left does. What comes before the text is
given in reverse. -/
def BeginsFirst (reversed text : List Char) (header : Header) : Prop :=
  ∃ skipped, text = skipped ++ '(' :: header.parameters ∧
    nameAtEnd? (skipped.reverse ++ reversed) = some (header.lead, header.name) ∧
    ∀ earlier later, text = earlier ++ '(' :: later → earlier.length < skipped.length →
      nameAtEnd? (earlier.reverse ++ reversed) = none

/-- If no parameter list can begin at a character, the first one begins behind it. -/
theorem beginsFirst_cons_iff {header : Header} {character : Char}
    (apart : character = '(' → nameAtEnd? reversed = none) :
    BeginsFirst (character :: reversed) rest header ↔
      BeginsFirst reversed (character :: rest) header := by
  constructor
  · rintro ⟨skipped, rfl, named, unnamed⟩
    refine ⟨character :: skipped, rfl, by simpa using named, ?_⟩
    intro earlier later whole shorter
    cases earlier with
    | nil => exact apart (List.cons.inj whole).1
    | cons first earlier =>
        obtain ⟨rfl, same⟩ := List.cons.inj whole
        simpa using unnamed earlier later same (by simpa using shorter)
  · rintro ⟨skipped, whole, named, unnamed⟩
    cases skipped with
    | nil =>
        rw [List.reverse_nil, List.nil_append, apart (List.cons.inj whole).1] at named
        cases named
    | cons first skipped =>
        obtain ⟨rfl, tail⟩ := List.cons.inj whole
        refine ⟨skipped, tail, by simpa using named, ?_⟩
        intro earlier later same shorter
        simpa using unnamed (character :: earlier) later (by rw [same]; rfl)
          (by simpa using shorter)

/-- Behind a name the first parameter list begins at once. -/
theorem beginsFirst_of_named {header : Header} (named : nameAtEnd? reversed = some (lead, name)) :
    BeginsFirst reversed ('(' :: rest) header ↔ ⟨lead, name, rest⟩ = header := by
  constructor
  · rintro ⟨skipped, whole, sameName, unnamed⟩
    cases skipped with
    | nil =>
        obtain ⟨-, rfl⟩ := List.cons.inj whole
        rw [List.reverse_nil, List.nil_append, named] at sameName
        cases sameName
        rfl
    | cons first skipped =>
        have none := unnamed [] rest rfl (by simp)
        rw [List.reverse_nil, List.nil_append, named] at none
        cases none
  · rintro rfl
    exact ⟨[], rfl, named, fun _ _ _ shorter => absurd shorter (Nat.not_lt_zero _)⟩

/-- The header searched for is the one whose parameter list begins leftmost, among those after a
name. -/
theorem search_eq_some_iff {header : Header} :
    search reversed text = some header ↔ BeginsFirst reversed text header := by
  induction text generalizing reversed with
  | nil =>
      constructor
      · intro found
        cases found
      · rintro ⟨skipped, whole, -⟩
        simp at whole
  | cons character rest ih =>
      simp only [search]
      by_cases opens : character = '('
      case neg =>
        rw [if_neg opens, ih]
        exact beginsFirst_cons_iff fun same => absurd same opens
      case pos =>
        rw [if_pos opens]
        cases named : nameAtEnd? reversed with
        | none =>
            dsimp only
            rw [ih]
            exact beginsFirst_cons_iff fun _ => named
        | some parts =>
            obtain ⟨lead, name⟩ := parts
            subst opens
            rw [beginsFirst_of_named named]
            exact Option.some_inj

/-! ## The whole header -/

/-- Whether a character does not close the parameter list. -/
def isOpen (character : Char) : Bool :=
  character != ')'

/-- The end of a text after its last closing parenthesis. -/
def openEnd (inner : List Char) : List Char :=
  (inner.reverse.takeWhile isOpen).reverse

/-- The rest of the text, in reverse. -/
def closedReversed (inner : List Char) : List Char :=
  inner.reverse.dropWhile isOpen

/-- The two parts make up the text. -/
theorem closedReversed_append_openEnd (inner : List Char) :
    (closedReversed inner).reverse ++ openEnd inner = inner := by
  rw [openEnd, closedReversed, ← List.reverse_append, List.takeWhile_append_dropWhile,
    List.reverse_reverse]

/-- At the end there is no closing parenthesis. -/
theorem notMem_openEnd (inner : List Char) : ')' ∉ openEnd inner := by
  intro member
  exact absurd (List.mem_takeWhile_imp (List.mem_reverse.mp member)) (by decide)

/-- The last closing parenthesis stands in front of the parameter list, if this has none. -/
theorem openEnd_append (parametersOpen : ')' ∉ parameters) (front : List Char) :
    openEnd (front ++ '(' :: parameters) = openEnd front ++ '(' :: parameters ∧
      closedReversed (front ++ '(' :: parameters) = closedReversed front := by
  have passed : ∀ character ∈ parameters.reverse, isOpen character = true := by
    intro character member
    refine bne_iff_ne.mpr ?_
    rintro rfl
    exact parametersOpen (List.mem_reverse.mp member)
  have turned : (front ++ '(' :: parameters).reverse = parameters.reverse ++
      '(' :: front.reverse := by simp
  constructor
  · rw [openEnd, turned, List.takeWhile_append_of_pos passed, List.takeWhile_cons_of_pos rfl,
      openEnd]
    simp
  · rw [closedReversed, turned, List.dropWhile_append_of_pos passed, List.dropWhile_cons_of_pos rfl,
      closedReversed]

/-- Blanks at the end are passed over up to the closing parenthesis. -/
theorem dropWhile_closing (blank : ∀ character ∈ after, isBlank character = true)
    (inner : List Char) :
    (inner ++ ')' :: after).reverse.dropWhile isBlank = ')' :: inner.reverse := by
  have turned : (inner ++ ')' :: after).reverse = after.reverse ++ ')' :: inner.reverse := by simp
  rw [turned]
  exact dropWhile_run (by simpa using blank) rfl

/-- A parameter list is searched for after the last closing parenthesis but one. -/
theorem ofText?_append (blank : ∀ character ∈ after, isBlank character = true) (inner : List Char) :
    ofText? (inner ++ ')' :: after) = search (closedReversed inner) (openEnd inner) := by
  unfold ofText?
  rw [dropWhile_closing blank]
  rfl

/-- A header ends with a closing parenthesis and perhaps blanks. -/
theorem exists_closing_of_ofText? {header : Header} (found : ofText? text = some header) :
    ∃ inner after, text = inner ++ ')' :: after ∧ ∀ character ∈ after,
      isBlank character = true := by
  have whole := List.takeWhile_append_dropWhile (p := isBlank) (l := text.reverse)
  unfold ofText? at found
  split at found
  case h_2 => cases found
  case h_1 reversed closes =>
    rw [closes] at whole
    refine ⟨reversed.reverse, (text.reverse.takeWhile isBlank).reverse, ?_, ?_⟩
    · have turned := congrArg List.reverse whole
      simpa using turned.symm
    · intro character member
      exact List.mem_takeWhile_imp (List.mem_reverse.mp member)

/-- A parameter list after a name makes a pattern. -/
theorem exists_pattern (whole : text = inner ++ ')' :: after)
    (blank : ∀ character ∈ after, isBlank character = true)
    (split : openEnd inner = skipped ++ '(' :: parameters)
    (found : nameAtEnd? (skipped.reverse ++ closedReversed inner) = some (lead, name)) :
    ∃ pattern : Pattern text, pattern.header = ⟨lead, name, parameters⟩ ∧
      pattern.front.length = skipped.length + (closedReversed inner).length := by
  obtain ⟨named, rfl, rfl⟩ := exists_named_of_nameAtEnd? found
  have parametersOpen : ')' ∉ parameters := by
    intro member
    refine notMem_openEnd inner ?_
    rw [split]
    exact List.mem_append_right _ (List.mem_cons_of_mem _ member)
  have inner_eq : inner = (skipped.reverse ++ closedReversed inner).reverse ++
      '(' :: parameters := by
    have parts := closedReversed_append_openEnd inner
    rw [split] at parts
    simpa using parts.symm
  refine ⟨⟨_, named, parameters, after, ?_, parametersOpen, blank⟩, rfl, by simp [Nat.add_comm]⟩
  rw [whole, ← List.cons_append, ← List.append_assoc, ← inner_eq]

/-- The text in front of a parameter list is as long as its two parts. -/
theorem length_openEnd_add (front : List Char) :
    (openEnd front).length + (closedReversed front).length = front.length := by
  have parts := congrArg List.length (closedReversed_append_openEnd front)
  rw [List.length_append, List.length_reverse] at parts
  omega

namespace Pattern

/-- A pattern has its parameter list after the last closing parenthesis but one. -/
theorem split (pattern : Pattern text) (whole : text = inner ++ ')' :: after)
    (blank : ∀ character ∈ after, isBlank character = true) :
    openEnd inner = openEnd pattern.front ++ '(' :: pattern.parameters ∧
      closedReversed inner = closedReversed pattern.front := by
  have ends := dropWhile_closing blank inner
  have same := dropWhile_closing pattern.after_isBlank (pattern.front ++ '(' :: pattern.parameters)
  rw [← whole] at ends
  rw [List.append_assoc, List.cons_append, ← pattern.whole, ends, List.cons.injEq] at same
  have inner_eq : inner = pattern.front ++ '(' :: pattern.parameters := List.reverse_inj.mp same.2
  have parts := openEnd_append pattern.parameters_open pattern.front
  rwa [← inner_eq] at parts

/-- The name of a pattern is found in front of its parameter list. -/
theorem nameAtEnd?_eq (pattern : Pattern text) :
    nameAtEnd? ((openEnd pattern.front).reverse ++ closedReversed pattern.front) =
      some (pattern.header.lead, pattern.header.name) := by
  have turned : (openEnd pattern.front).reverse ++ closedReversed pattern.front =
      pattern.front.reverse := by
    rw [← List.reverse_reverse (closedReversed pattern.front), ← List.reverse_append,
      closedReversed_append_openEnd]
  rw [turned]
  exact pattern.named.nameAtEnd?_eq

/-- If there is a pattern, one is leftmost. -/
theorem exists_leftmost (pattern : Pattern text) : ∃ first : Pattern text, first.IsLeftmost := by
  induction length : pattern.front.length using Nat.strong_induction_on generalizing pattern with
  | _ bound ih =>
      by_cases leftmost : pattern.IsLeftmost
      · exact ⟨pattern, leftmost⟩
      · obtain ⟨other, further⟩ := not_forall.mp leftmost
        exact ih other.front.length (by omega) other rfl

/-- The header of a leftmost pattern is found. -/
theorem IsLeftmost.ofText?_eq {pattern : Pattern text} (leftmost : pattern.IsLeftmost) :
    ofText? text = some pattern.header := by
  have whole : text = (pattern.front ++ '(' :: pattern.parameters) ++ ')' :: pattern.after := by
    rw [List.append_assoc]
    exact pattern.whole
  have searched := ofText?_append pattern.after_isBlank (pattern.front ++ '(' :: pattern.parameters)
  obtain ⟨split, rest⟩ := pattern.split whole pattern.after_isBlank
  rw [← whole] at searched
  rw [searched, search_eq_some_iff]
  refine ⟨openEnd pattern.front, split, ?_, ?_⟩
  · rw [rest]
    exact pattern.nameAtEnd?_eq
  · intro earlier later earlierSplit shorter
    cases named :
      nameAtEnd? (earlier.reverse ++
        closedReversed (pattern.front ++ '(' :: pattern.parameters)) with
    | none => rfl
    | some parts =>
        -- a name further to the left would make a pattern further to the left
        obtain ⟨lead, name⟩ := parts
        obtain ⟨other, -, length⟩ := exists_pattern whole pattern.after_isBlank earlierSplit named
        have further := leftmost other
        have total := length_openEnd_add pattern.front
        rw [rest] at length
        omega

end Pattern

/-- A header that is found is that of a leftmost pattern. -/
theorem exists_leftmost_of_ofText? {header : Header} (found : ofText? text = some header) :
    ∃ pattern : Pattern text, pattern.IsLeftmost ∧ pattern.header = header := by
  obtain ⟨inner, after, whole, blank⟩ := exists_closing_of_ofText? found
  rw [whole, ofText?_append blank, search_eq_some_iff] at found
  obtain ⟨skipped, split, named, unnamed⟩ := found
  obtain ⟨pattern, same, length⟩ := exists_pattern whole blank split named
  refine ⟨pattern, fun other => ?_, same⟩
  -- a pattern further to the left would have been found first
  by_contra further
  obtain ⟨otherSplit, otherRest⟩ := other.split whole blank
  have shorter : (openEnd other.front).length < skipped.length := by
    have total := length_openEnd_add other.front
    rw [otherRest] at length
    omega
  have none := unnamed _ _ otherSplit shorter
  rw [otherRest, other.nameAtEnd?_eq] at none
  cases none

/-- **A text is a header just if it looks like one**: just if it ends with a type, a name and a
parameter list. The header found is that of the ways to cut the text whose parameter list begins
leftmost. -/
theorem ofText?_eq_some_iff (text : List Char) :
    ((ofText? text).isSome = true ↔ Nonempty (Pattern text)) ∧
      ∀ header, ofText? text = some header ↔
        ∃ pattern : Pattern text, pattern.IsLeftmost ∧ pattern.header = header := by
  refine ⟨⟨fun some => ?_, ?_⟩, fun header => ⟨exists_leftmost_of_ofText?, ?_⟩⟩
  · obtain ⟨header, found⟩ := Option.isSome_iff_exists.mp some
    obtain ⟨pattern, -⟩ := exists_leftmost_of_ofText? found
    exact ⟨pattern⟩
  · rintro ⟨pattern⟩
    obtain ⟨first, leftmost⟩ := pattern.exists_leftmost
    rw [leftmost.ofText?_eq]
    rfl
  · rintro ⟨pattern, leftmost, rfl⟩
    exact leftmost.ofText?_eq

/-- Of two opening parentheses after a type and a name the first one begins the parameter list. -/
example : ofText? "f(); \x7d void\tgo (int f(int x)\n".toList =
    some ⟨"f(); \x7d void\t".toList, "go".toList, "int f(int x".toList⟩ := by
  decide +kernel

end LineRobot.Header
