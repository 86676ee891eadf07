import Mathlib.Data.List.Forall2
import LineRobot.Source.Cleaning
import LineRobot.Proofs.Source.Comments
import LineRobot.Proofs.Source.Places

/-! # Cleaning keeps lines

Removing comments, removing casts and cleaning only delete characters, and no line end is among them
(`Leaves`). So the lines of what is left are those of the text, each with some of its characters
(`Leaves.lines`), and a character that is left stands on the line on which it stood
(`Leaves.exists_place`). Something is reported just if what is left is another text
(`withoutComments?_eq`, `withoutCasts?_eq`, `clean?_eq`). `KeepsLines` puts this together, and
`keepsLines_clean` says it of the three. -/

namespace LineRobot.Source

/-- The second text is what is left of the first one after characters have been deleted, none of
which ends a line. -/
inductive Leaves : (text left : List Char) → Prop
  /-- Of nothing, nothing is left. -/
  | nothing : Leaves [] []
  /-- A character stays. -/
  | keep (character : Char) {text left : List Char} :
      Leaves text left → Leaves (character :: text) (character :: left)
  /-- A character that does not end a line is deleted. -/
  | delete {character : Char} {text left : List Char} :
      isInLine character = true → Leaves text left → Leaves (character :: text) left

namespace Leaves

variable {text left further deleted : List Char}

/-- Nothing need be deleted. -/
theorem refl (text : List Char) : Leaves text text := by
  induction text with
  | nil => exact nothing
  | cons character text ih => exact ih.keep character

/-- More may be deleted of what is left. -/
theorem trans (first : Leaves text left) (second : Leaves left further) : Leaves text further := by
  induction first generalizing further with
  | nothing => exact second
  | delete inLine _ ih => exact (ih second).delete inLine
  | keep character _ ih =>
      cases second with
      | keep _ second => exact (ih second).keep character
      | delete inLine second => exact (ih second).delete inLine

/-- Two parts of a text are treated apart. -/
theorem append {rest leftRest : List Char} (first : Leaves text left)
    (second : Leaves rest leftRest) :
    Leaves (text ++ rest) (left ++ leftRest) := by
  induction first with
  | nothing => exact second
  | keep character _ ih => exact ih.keep character
  | delete inLine _ ih => exact ih.delete inLine

/-- Part of a line may be deleted as a whole. -/
theorem deleteAll (inLine : ∀ character ∈ deleted, isInLine character = true)
    (leaves : Leaves text left) :
    Leaves (deleted ++ text) left := by
  induction deleted with
  | nil => exact leaves
  | cons character deleted ih =>
      have rest : Leaves (deleted ++ text) left :=
        ih fun other member => inLine other (List.mem_cons_of_mem character member)
      exact rest.delete (inLine character List.mem_cons_self)

/-- All may be deleted but the line ends. -/
theorem filter (text : List Char) :
    Leaves text (text.filter fun character => !isInLine character) := by
  induction text with
  | nil => exact nothing
  | cons character text ih =>
      by_cases inLine : isInLine character = true
      · rw [List.filter_cons_of_neg (by simp [inLine])]
        exact ih.delete inLine
      · rw [List.filter_cons_of_pos (by simp [inLine])]
        exact ih.keep character

/-- Characters stay in order. -/
theorem sublist (leaves : Leaves text left) : left.Sublist text := by
  induction leaves with
  | nothing => exact List.Sublist.slnil
  | keep character _ ih => exact ih.cons_cons character
  | delete _ _ ih => exact ih.cons _

/-- Line ends stay. -/
theorem count_lineEnd (leaves : Leaves text left) : left.count '\n' = text.count '\n' := by
  induction leaves with
  | nothing => rfl
  | keep character _ ih => rw [List.count_cons, List.count_cons, ih]
  | @delete character text left inLine _ ih =>
      have different : character ≠ '\n' := bne_iff_ne.mp inLine
      rw [ih, List.count_cons_of_ne different]

/-- **Line by line, characters are deleted.** -/
theorem lines (leaves : Leaves text left) :
    List.Forall₂ List.Sublist (Text.splitAt '\n' left) (Text.splitAt '\n' text) := by
  -- a character that does not end a line belongs to the first line of what follows it
  have extend {character : Char} {rest part : List Char} {parts : List (List Char)}
      (inLine : character ≠ '\n')
      (split : Text.splitAt '\n' rest = part :: parts) :
      Text.splitAt '\n' (character :: rest) = (character :: part) :: parts := by
    simp [Text.splitAt, inLine, split]
  induction leaves with
  | nothing => exact .cons (List.Sublist.refl []) .nil
  | @keep character text left _ ih =>
      by_cases lineEnd : character = '\n'
      · subst lineEnd
        simpa [Text.splitAt] using ih
      · cases splitLeft : Text.splitAt '\n' left with
        | nil => exact absurd splitLeft (Text.splitAt_ne_nil '\n' left)
        | cons line lines =>
            cases splitText : Text.splitAt '\n' text with
            | nil => exact absurd splitText (Text.splitAt_ne_nil '\n' text)
            | cons full others =>
                rw [splitLeft, splitText, List.forall₂_cons] at ih
                rw [extend lineEnd splitLeft, extend lineEnd splitText]
                exact .cons (ih.1.cons_cons character) ih.2
  | @delete character text left inLine _ ih =>
      have different : character ≠ '\n' := bne_iff_ne.mp inLine
      cases splitText : Text.splitAt '\n' text with
      | nil => exact absurd splitText (Text.splitAt_ne_nil '\n' text)
      | cons full others =>
          rw [splitText, List.forall₂_cons_right_iff] at ih
          obtain ⟨line, lines, first, later, splitLeft⟩ := ih
          rw [extend different splitText, splitLeft]
          exact .cons (first.cons character) later

/-- What is left of a text in front of a character is left of what stood in front of it. -/
theorem exists_split {before rest : List Char} {character : Char}
    (leaves : Leaves text (before ++ character :: rest)) :
    ∃ earlier later, text = earlier ++ character :: later ∧ Leaves earlier before ∧
      Leaves later rest := by
  generalize same : before ++ character :: rest = left at leaves
  induction leaves generalizing before with
  | nothing => simp at same
  | @keep first text left leaves ih =>
      cases before with
      | nil =>
          obtain ⟨rfl, rfl⟩ := List.cons.inj same
          exact ⟨[], text, rfl, nothing, leaves⟩
      | cons other before =>
          obtain ⟨rfl, tail⟩ := List.cons.inj same
          obtain ⟨earlier, later, rfl, inFront, behind⟩ := ih tail
          exact ⟨other :: earlier, later, rfl, inFront.keep other, behind⟩
  | @delete first text left inLine _ ih =>
      obtain ⟨earlier, later, rfl, inFront, behind⟩ := ih same
      exact ⟨first :: earlier, later, rfl, inFront.delete inLine, behind⟩

/-- **What is left stays on its line**: a character that is left stood in the text, with what is
left in front of it and behind it in front of it and behind it, on the line on which it stands. -/
theorem exists_place {before rest : List Char} {character : Char}
    (leaves : Leaves text (before ++ character :: rest)) :
    ∃ earlier later, text = earlier ++ character :: later ∧ Leaves earlier before ∧
      Leaves later rest ∧
      (Text.placeAfter earlier).line = (Text.placeAfter before).line := by
  obtain ⟨earlier, later, whole, inFront, behind⟩ := leaves.exists_split
  refine ⟨earlier, later, whole, inFront, behind, ?_⟩
  unfold Text.placeAfter
  rw [inFront.count_lineEnd]

end Leaves

/-! ## What is deleted -/

variable {text after : List Char}

/-- A cast is a word of upper-case letters and a closing parenthesis, once its opening parenthesis
has been read. -/
theorem exists_of_afterCast? (cast : afterCast? text = some after) :
    ∃ word, text = word ++ ')' :: after ∧ ∀ character ∈ word, character.isUpper = true := by
  have whole := List.takeWhile_append_dropWhile (p := Char.isUpper) (l := text)
  simp only [afterCast?] at cast
  split at cast
  case h_2 => cases cast
  case h_1 rest closes =>
    split at cast
    case isTrue => cases cast
    case isFalse =>
      cases cast
      rw [closes] at whole
      exact ⟨text.takeWhile Char.isUpper, whole.symm, fun character => List.mem_takeWhile_imp⟩

/-- Removing comments deletes no line end. -/
theorem leaves_withoutComments (text : List Char) : Leaves text (withoutComments text) := by
  induction text using withoutComments.induct with
  | case1 =>
      rw [withoutComments.eq_1]
      exact .nothing
  | case2 rest ih =>
      rw [withoutComments.eq_2]
      have passed : Leaves rest (withoutComments (rest.dropWhile isInLine)) := by
        have inLine : ∀ character ∈ rest.takeWhile isInLine, isInLine character = true :=
          fun _ => List.mem_takeWhile_imp
        have deleted := ih.deleteAll inLine
        rwa [List.takeWhile_append_dropWhile] at deleted
      exact (passed.delete rfl).delete rfl
  | case3 rest inside after split _ ih =>
      rw [eq_of_splitAtCommentEnd split,
        withoutComments_block (not_infix_of_splitAtCommentEnd split)]
      have closed : Leaves ('*' :: '/' :: after) (withoutComments after) :=
        (ih.delete rfl).delete rfl
      exact (((Leaves.filter inside).append closed).delete rfl).delete rfl
  | case4 rest unsplit =>
      rw [withoutComments.eq_3]
      split
      case h_1 split =>
        rw [unsplit] at split
        cases split
      case h_2 => exact .refl _
  | case5 character rest noLine noBlock ih =>
      rw [withoutComments.eq_4 character rest noLine noBlock]
      exact ih.keep character

/-- A cast is passed over. -/
theorem withoutCasts_cast (cast : afterCast? text = some after) :
    withoutCasts ('(' :: text) = withoutCasts after := by
  rw [withoutCasts.eq_2, if_pos rfl]
  split
  case h_1 found =>
    rw [cast] at found
    cases found
    rfl
  case h_2 found =>
    rw [cast] at found
    cases found

/-- A character at which no cast begins stays. -/
theorem withoutCasts_cons {character : Char} (noCast : character = '(' → afterCast? text = none) :
    withoutCasts (character :: text) = character :: withoutCasts text := by
  rw [withoutCasts.eq_2]
  split
  case isFalse => rfl
  case isTrue opens =>
    split
    case h_1 found =>
      rw [noCast opens] at found
      cases found
    case h_2 => rfl

/-- Removing casts deletes no line end. -/
theorem leaves_withoutCasts (text : List Char) : Leaves text (withoutCasts text) := by
  induction text using withoutCasts.induct with
  | case1 =>
      rw [withoutCasts.eq_1]
      exact .nothing
  | case2 rest after cast _ ih =>
      obtain ⟨word, rfl, upper⟩ := exists_of_afterCast? cast
      have inLine : ∀ character ∈ word, isInLine character = true := by
        intro character member
        have letter := upper character member
        refine bne_iff_ne.mpr ?_
        rintro rfl
        cases letter
      rw [withoutCasts_cast cast]
      exact ((ih.delete rfl).deleteAll inLine).delete rfl
  | case3 rest noCast ih =>
      rw [withoutCasts_cons fun _ => noCast]
      exact ih.keep '('
  | case4 character rest noParenthesis ih =>
      rw [withoutCasts_cons fun opens => absurd opens noParenthesis]
      exact ih.keep character

/-! ## What is reported -/

/-- In a text that mentions no comment, none opens. -/
theorem uncommented_of_mentionsComment (none : mentionsComment text = false) :
    Uncommented text [] := by
  induction text with
  | nil => trivial
  | cons character text ih =>
      rw [mentionsComment, Bool.or_eq_false_iff] at none
      refine ⟨?_, ih none.2⟩
      rw [List.append_nil]
      exact none.1

/-- A text without comments is reported just if it is another one. -/
theorem withoutComments?_eq (text : List Char) :
    withoutComments? text = if withoutComments text = text then none
      else some (withoutComments text) := by
  unfold withoutComments?
  by_cases mentions : mentionsComment text = true
  · rw [if_pos mentions]
  · -- no comment opens, so nothing is removed
    have uncommented := uncommented_of_mentionsComment (Bool.eq_false_iff.mpr mentions)
    have same : withoutComments text = text := by
      have unchanged := withoutComments_append uncommented
      rwa [withoutComments.eq_1, List.append_nil] at unchanged
    rw [if_neg mentions, if_pos same]

/-- The copy made is extended at a cast. -/
theorem copyWithoutCasts_cast (cast : afterCast? text = some after) (copied : Option (List Char))
    (pending : List Char) :
    copyWithoutCasts copied pending ('(' :: text) =
      copyWithoutCasts (some (copied.getD [] ++ pending.reverse)) [] after := by
  rw [copyWithoutCasts.eq_2, if_pos rfl]
  split
  case h_1 found =>
    rw [cast] at found
    cases found
    rfl
  case h_2 found =>
    rw [cast] at found
    cases found

/-- Elsewhere the characters are kept for later. -/
theorem copyWithoutCasts_cons {character : Char} (noCast : character = '(' → afterCast? text = none)
    (copied : Option (List Char)) (pending : List Char) :
    copyWithoutCasts copied pending (character :: text) =
      copyWithoutCasts copied (character :: pending) text := by
  rw [copyWithoutCasts.eq_2]
  split
  case isFalse => rfl
  case isTrue opens =>
    split
    case h_1 found =>
      rw [noCast opens] at found
      cases found
    case h_2 => rfl

/-- A copy that has been begun goes on to the end of the text. -/
theorem copyWithoutCasts_some (copied pending text : List Char) :
    copyWithoutCasts (some copied) pending text =
      some (copied ++ pending.reverse ++ withoutCasts text) := by
  induction text using withoutCasts.induct generalizing copied pending with
  | case1 => rw [copyWithoutCasts.eq_1, withoutCasts.eq_1, List.append_nil, Option.map_some]
  | case2 rest after cast _ ih =>
      rw [copyWithoutCasts_cast cast, withoutCasts_cast cast, ih, Option.getD_some,
        List.reverse_nil, List.append_nil]
  | case3 rest noCast ih =>
      rw [copyWithoutCasts_cons fun _ => noCast, withoutCasts_cons fun _ => noCast, ih]
      simp
  | case4 character rest noParenthesis ih =>
      have noCast (opens : character = '(') : afterCast? rest = none := absurd opens noParenthesis
      rw [copyWithoutCasts_cons noCast, withoutCasts_cons noCast, ih]
      simp

/-- A copy is begun just if there is a cast. -/
theorem copyWithoutCasts_none (pending text : List Char) :
    copyWithoutCasts none pending text =
      if withoutCasts text = text then none else some (pending.reverse ++ withoutCasts text) := by
  induction text using withoutCasts.induct generalizing pending with
  | case1 => rw [copyWithoutCasts.eq_1, withoutCasts.eq_1, if_pos rfl, Option.map_none]
  | case2 rest after cast shorter _ =>
      -- without the cast the text is shorter
      have different : withoutCasts ('(' :: rest) ≠ '(' :: rest := by
        intro same
        have length := congrArg List.length same
        have most := (leaves_withoutCasts after).sublist.length_le
        rw [withoutCasts_cast cast, List.length_cons] at length
        omega
      rw [if_neg different, copyWithoutCasts_cast cast, copyWithoutCasts_some,
        withoutCasts_cast cast]
      simp
  | case3 rest noCast ih =>
      rw [copyWithoutCasts_cons fun _ => noCast, withoutCasts_cons fun _ => noCast, ih]
      simp
  | case4 character rest noParenthesis ih =>
      have noCast (opens : character = '(') : afterCast? rest = none := absurd opens noParenthesis
      rw [copyWithoutCasts_cons noCast, withoutCasts_cons noCast, ih]
      simp

/-- A text without casts is reported just if it is another one. -/
theorem withoutCasts?_eq (text : List Char) :
    withoutCasts? text = if withoutCasts text = text then none else some (withoutCasts text) := by
  rw [withoutCasts?, copyWithoutCasts_none, List.reverse_nil, List.nil_append]

/-- Cleaning deletes no line end. -/
theorem leaves_clean (text : List Char) : Leaves text (clean text) :=
  (leaves_withoutComments text).trans (leaves_withoutCasts (withoutComments text))

/-- A clean text is reported just if it is another one. -/
theorem clean?_eq (text : List Char) : clean? text = if clean text = text then none
    else some (clean text) := by
  have comments := leaves_withoutComments text
  have casts := leaves_withoutCasts (withoutComments text)
  have left : (withoutComments? text).getD text = withoutComments text := by
    rw [withoutComments?_eq]
    split <;> simp_all
  unfold clean? clean
  dsimp only
  rw [left, withoutCasts?_eq]
  by_cases noCast : withoutCasts (withoutComments text) = withoutComments text
  · rw [if_pos noCast, noCast]
    exact withoutComments?_eq text
  · -- what the casts leave is shorter than what the comments leave, and so than the text
    have different : withoutCasts (withoutComments text) ≠ text := by
      intro same
      have most := comments.sublist.length_le
      have length := congrArg List.length same
      exact noCast (casts.sublist.eq_of_length_le (by omega))
    rw [if_neg noCast, if_neg different]

/-! ## Keeping lines -/

/-- Only characters that do not end a line are deleted, and something is reported just if any
are. -/
structure KeepsLines (text left : List Char) (reported : Option (List Char)) : Prop where
  /-- Some characters are deleted, but no line end. -/
  leaves : Leaves text left
  /-- Each line is what is left of the line of the same number. -/
  lines : List.Forall₂ List.Sublist (Text.splitAt '\n' left) (Text.splitAt '\n' text)
  /-- Each character that is left stands on the line on which it stood. -/
  places : ∀ before character rest, left = before ++ character :: rest →
    ∃ earlier later, text = earlier ++ character :: later ∧ Leaves earlier before ∧
      Leaves later rest ∧
      (Text.placeAfter earlier).line = (Text.placeAfter before).line
  /-- What is left is reported just if it is another text. -/
  reported_eq : reported = if left = text then none else some left

/-- Whoever deletes no line end, and reports another text only, keeps the lines. -/
theorem Leaves.keepsLines {left : List Char} {reported : Option (List Char)}
    (leaves : Leaves text left) (reported_eq : reported = if left = text then none else some left) :
    KeepsLines text left reported where
  leaves := leaves
  lines := leaves.lines
  places := by
    rintro before character rest rfl
    exact leaves.exists_place
  reported_eq := reported_eq

/-- **Cleaning keeps lines**, and so do both its steps: each only deletes characters that do not end
a line, and what it reports tells whether the text has changed. -/
theorem keepsLines_clean (text : List Char) :
    KeepsLines text (clean text) (clean? text) ∧
      KeepsLines text (withoutComments text) (withoutComments? text) ∧
      KeepsLines text (withoutCasts text) (withoutCasts? text) :=
  ⟨(leaves_clean text).keepsLines (clean?_eq text),
    (leaves_withoutComments text).keepsLines (withoutComments?_eq text),
    (leaves_withoutCasts text).keepsLines (withoutCasts?_eq text)⟩

end LineRobot.Source
