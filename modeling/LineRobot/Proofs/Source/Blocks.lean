import LineRobot.Proofs.Source.Headers
import LineRobot.Source.Definition

/-! # The blocks of a source

`Definition.find` takes a source block by block: a header without braces, and then a pair of braces
with the text between them. `Definition.Found` says so without positions being carried along a text
that gets shorter: `find_eq_ok_iff`. A block gives a definition if its header fits
(`Definition.ofBlock?`); the header then is what comes before the name, the name and what comes
after it (`Header.exists_of_ofText?`). -/

namespace LineRobot

/-- A header is what comes before its name, the name, which is not empty, and what comes after
it. -/
theorem Header.exists_of_ofText? {text : List Char} {header : Header}
    (found : ofText? text = some header) :
    header.name ≠ [] ∧ ∃ after, text = header.lead ++ header.name ++ after := by
  obtain ⟨pattern, -, rfl⟩ := exists_leftmost_of_ofText? found
  have list := pattern.whole
  have front : pattern.front = pattern.header.lead ++ pattern.header.name ++ pattern.named.space :=
    pattern.named.whole
  rw [front, List.append_assoc] at list
  exact ⟨pattern.named.name_ne_nil, _, list⟩

namespace Definition

variable {position : Position} {text header body rest : List Char} {definitions : List Definition}

/-- How many more pairs are open after a character than the one that is closed last; none if the
character closes that one. -/
def step? (depth : Nat) (character : Char) : Option Nat :=
  if character = '\x7b' then some (depth + 1)
  else if character = '\x7d' then
    match depth with
    | 0 => none
    | outer + 1 => some outer
  else some depth

/-- Closing is looked for character by character. -/
theorem splitAtClosing_cons (depth : Nat) (character : Char) (text : List Char) :
    splitAtClosing depth (character :: text) =
      match step? depth character with
      | none => some ([], text)
      | some next =>
          (splitAtClosing next text).map fun (inside, after) => (character :: inside, after) := by
  rw [splitAtClosing.eq_def depth (character :: text), step?.eq_def]
  dsimp only
  split
  · rfl
  · split
    · cases depth <;> rfl
    · rfl

/-- **A closing brace closes what is open before it**: all pairs that are opened inside are closed
there. -/
theorem splitAtClosing_eq_some_iff {depth : Nat} {inside : List Char} :
    splitAtClosing depth (inside ++ '\x7d' :: rest) = some (inside, rest) ↔
      inside.foldlM step? depth = some 0 := by
  induction inside generalizing depth with
  | nil =>
      cases depth with
      | zero => exact iff_of_true rfl rfl
      | succ outer =>
          refine iff_of_false (fun closed => ?_) nofun
          change (splitAtClosing outer rest).map _ = _ at closed
          obtain ⟨⟨before, after⟩, -, same⟩ := Option.map_eq_some_iff.mp closed
          cases same
  | cons character inside ih =>
      rw [List.cons_append, splitAtClosing_cons, List.foldlM_cons]
      cases step? depth character with
      | none => exact iff_of_false nofun nofun
      | some next =>
          refine Iff.trans ⟨fun closed => ?_, fun closed => ?_⟩ (@ih next)
          · obtain ⟨⟨before, after⟩, closed, same⟩ := Option.map_eq_some_iff.mp closed
            cases same
            exact closed
          · exact Option.map_eq_some_iff.mpr ⟨_, closed, rfl⟩

/-- What closes a pair of braces does not depend on what comes after. -/
theorem splitAtClosing_append {depth : Nat} {inside : List Char}
    (closed : splitAtClosing depth (inside ++ '\x7d' :: rest) = some (inside, rest))
    (other : List Char) :
    splitAtClosing depth (inside ++ '\x7d' :: other) = some (inside, other) :=
  splitAtClosing_eq_some_iff.mpr (splitAtClosing_eq_some_iff.mp closed)

/-- Text without braces opens and closes nothing. -/
theorem foldlM_step?_of_notMem {inside : List Char} (noOpening : '\x7b' ∉ inside)
    (noClosing : '\x7d' ∉ inside) (depth : Nat) : inside.foldlM step? depth = some depth := by
  induction inside with
  | nil => rfl
  | cons character inside ih =>
      rw [List.mem_cons, not_or] at noOpening noClosing
      have stays : step? depth character = some depth := by
        rw [step?.eq_def, if_neg (Ne.symm noOpening.1), if_neg (Ne.symm noClosing.1)]
      rw [List.foldlM_cons, stays]
      exact ih noOpening.2 noClosing.2

/-- The definition that a block gives if its header, which begins at the given place, fits. -/
def ofBlock? (position : Position) (header body : List Char) : Option Definition :=
  (Header.ofText? header).map fun found => {
    name := String.ofList found.name
    parameters := Header.parameterNames found.parameters
    body := body
    bodyPosition := position.after (header ++ ['\x7b'])
    position := position.after found.lead }

/-- The definitions that are found in a text which begins at the given place. -/
inductive Found : Position → List Char → List Definition → Prop
  /-- A text without braces has no definitions. -/
  | nothing {position : Position} {text : List Char} : '\x7b' ∉ text → Found position text []
  /-- A block gives a definition if its header fits, and more are found after the block. -/
  | block {position : Position} {header body rest : List Char} {later : List Definition} :
      '\x7b' ∉ header → splitAtClosing 0 (body ++ '\x7d' :: rest) = some (body, rest) →
      Found (position.after (header ++ '\x7b' :: (body ++ ['\x7d']))) rest later →
      Found position (header ++ '\x7b' :: (body ++ '\x7d' :: rest))
        ((ofBlock? position header body).toList ++ later)

/-- A header without braces is passed over. -/
theorem dropWhile_header (absent : '\x7b' ∉ header) (rest : List Char) :
    (header ++ '\x7b' :: rest).dropWhile isBeforeBrace = '\x7b' :: rest ∧
      (header ++ '\x7b' :: rest).takeWhile isBeforeBrace = header := by
  have passed : ∀ character ∈ header, isBeforeBrace character = true :=
    fun character member => bne_iff_ne.mpr fun same => absent (same ▸ member)
  rw [List.dropWhile_append_of_pos passed, List.takeWhile_append_of_pos passed]
  exact ⟨rfl, List.append_nil header⟩

/-- Text without braces has no definitions. -/
theorem find_of_notMem (absent : '\x7b' ∉ text) (position : Position) :
    find position text = .ok [] := by
  have passed : text.dropWhile isBeforeBrace = [] := by
    rw [List.dropWhile_eq_nil_iff]
    exact fun character member => bne_iff_ne.mpr fun same => absent (same ▸ member)
  rw [find]
  split
  case h_1 => rfl
  case h_2 brace inner opened =>
    rw [passed] at opened
    cases opened

/-- After a block more definitions are looked for. -/
theorem find_block (absent : '\x7b' ∉ header)
    (closed : splitAtClosing 0 (body ++ '\x7d' :: rest) = some (body, rest)) (position : Position) :
    find position (header ++ '\x7b' :: (body ++ '\x7d' :: rest)) =
      (find (position.after (header ++ '\x7b' :: (body ++ ['\x7d']))) rest).map
        ((ofBlock? position header body).toList ++ ·) := by
  obtain ⟨left, taken⟩ := dropWhile_header absent (body ++ '\x7d' :: rest)
  rw [find, taken]
  split
  case h_1 opened =>
    rw [left] at opened
    cases opened
  case h_2 brace inner opened =>
    rw [left] at opened
    cases opened
    split
    case h_1 unclosed =>
      rw [closed] at unclosed
      cases unclosed
    case h_2 inside after split =>
      rw [closed] at split
      cases split
      dsimp only
      rw [← Position.after_append, List.append_assoc, List.singleton_append]
      unfold ofBlock?
      cases find (position.after (header ++ '\x7b' :: (body ++ ['\x7d']))) rest <;>
        cases Header.ofText? header <;> rfl

/-- A brace that is never closed rejects the text. -/
theorem find_unclosed {inner : List Char} (absent : '\x7b' ∉ header)
    (unclosed : splitAtClosing 0 inner = none) (position : Position) :
    find position (header ++ '\x7b' :: inner) =
      .error (.unclosedBrace (position.after header)) := by
  obtain ⟨left, taken⟩ := dropWhile_header absent inner
  rw [find, taken]
  split
  case h_1 opened =>
    rw [left] at opened
    cases opened
  case h_2 brace other opened =>
    rw [left] at opened
    cases opened
    split
    case h_1 => rfl
    case h_2 closed =>
      rw [unclosed] at closed
      cases closed

/-- The definitions found are those that are there. -/
theorem Found.find_eq (found : Found position text definitions) :
    find position text = .ok definitions := by
  induction found with
  | nothing absent => exact find_of_notMem absent _
  | block absent closed _ ih =>
      rw [find_block absent closed, ih]
      rfl

/-- Text that is not all passed over is a header, a brace and what follows it. -/
theorem exists_header {brace : Char} {inner : List Char}
    (opened : text.dropWhile isBeforeBrace = brace :: inner) :
    ∃ header, '\x7b' ∉ header ∧ text = header ++ '\x7b' :: inner := by
  have whole := List.takeWhile_append_dropWhile (p := isBeforeBrace) (l := text)
  have stops := List.head?_dropWhile_not isBeforeBrace text
  rw [opened] at whole stops
  obtain rfl : brace = '\x7b' := by simpa [isBeforeBrace] using stops
  refine ⟨text.takeWhile isBeforeBrace, fun member => ?_, whole.symm⟩
  exact absurd (List.mem_takeWhile_imp member) (by decide)

/-- **Definitions are found block by block**: those found in a text are those that its blocks
give. -/
theorem find_eq_ok_iff : find position text = .ok definitions ↔
    Found position text definitions := by
  refine ⟨fun done => ?_, Found.find_eq⟩
  induction length : text.length using Nat.strong_induction_on
    generalizing position text definitions with
  | _ _ ih =>
  cases opened : text.dropWhile isBeforeBrace with
  | nil =>
      have absent : '\x7b' ∉ text := fun member =>
        absurd (List.dropWhile_eq_nil_iff.mp opened _ member) (by decide)
      rw [find_of_notMem absent] at done
      cases done
      exact .nothing absent
  | cons brace inner =>
      obtain ⟨header, absent, rfl⟩ := exists_header opened
      cases closed : splitAtClosing 0 inner with
      | none =>
          rw [find_unclosed absent closed] at done
          cases done
      | some parts =>
          obtain ⟨body, rest⟩ := parts
          obtain rfl := eq_of_splitAtClosing closed
          rw [find_block absent closed] at done
          cases found : find (position.after (header ++ '\x7b' :: (body ++ ['\x7d']))) rest with
          | error rejection =>
              rw [found] at done
              cases done
          | ok later =>
              rw [found] at done
              cases done
              refine .block absent closed (ih rest.length ?_ found rfl)
              rw [← length, List.length_append, List.length_cons, List.length_append,
                List.length_cons]
              omega

end Definition

end LineRobot
