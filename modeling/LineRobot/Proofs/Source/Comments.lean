import Mathlib.Data.List.Infix
import Mathlib.Data.List.TakeWhile
import LineRobot.Source.Comment

/-! # Where comments are

A comment opens at two slashes or at a slash and a star (`Source.opensComment`). Text in which no
comment opens stays when comments are removed (`withoutComments_append`), a line comment goes up to
its line end (`withoutComments_line`), and of a block comment only the line ends stay
(`withoutComments_block`). The end of a block comment is the first `*/` after its opening
(`splitAtCommentEnd_eq`, `not_infix_of_splitAtCommentEnd`). -/

namespace LineRobot.Source

/-- No comment opens at a character of the text, if the given rest follows it. -/
def Uncommented : (text rest : List Char) → Prop
  | [], _ => True
  | character :: text, rest =>
    opensComment (character :: (text ++ rest)) = false ∧ Uncommented text rest

variable {character : Char} {text inside rest : List Char}

/-- No comment opens at a character that is no slash. -/
theorem opensComment_of_ne (different : character ≠ '/') (rest : List Char) :
    opensComment (character :: rest) = false := by
  unfold opensComment
  split
  case h_1 | h_2 =>
    rename_i same
    exact absurd (List.cons.inj same).1 different
  case h_3 => rfl

/-- No comment opens at a character that neither a slash nor a star follows. -/
theorem opensComment_of_head?_ne (noSlash : rest.head? ≠ some '/') (noStar : rest.head? ≠ some '*')
    (character : Char) : opensComment (character :: rest) = false := by
  unfold opensComment
  split
  case h_1 | h_2 =>
    rename_i same
    obtain ⟨-, rfl⟩ := List.cons.inj same
    first | exact absurd rfl noSlash | exact absurd rfl noStar
  case h_3 => rfl

/-- Whether a comment opens depends on two characters. -/
theorem opensComment_cons_cons (first second : Char) (text other : List Char) :
    opensComment (first :: second :: text) = opensComment (first :: second :: other) := by
  unfold opensComment
  split <;> split <;> simp_all

/-- Where no comment opens in a text, none opens in a part of it from there on. -/
theorem opensComment_of_append (closed : opensComment (character :: (text ++ rest)) = false) :
    opensComment (character :: text) = false := by
  cases text with
  | nil => exact opensComment_of_head?_ne (by simp) (by simp) character
  | cons second text => exact (opensComment_cons_cons character second _ _).trans closed

/-- No comment opens in a text without slashes. -/
theorem uncommented_of_notMem (absent : '/' ∉ text) (rest : List Char) : Uncommented text rest := by
  induction text with
  | nil => trivial
  | cons character text ih =>
      rw [List.mem_cons, not_or] at absent
      exact ⟨opensComment_of_ne (Ne.symm absent.1) _, ih absent.2⟩

/-- A character at which no comment opens stays. -/
theorem withoutComments_cons (closed : opensComment (character :: text) = false) :
    withoutComments (character :: text) = character :: withoutComments text := by
  rw [withoutComments.eq_4]
  · rintro rest rfl rfl
    cases closed
  · rintro rest rfl rfl
    cases closed

/-- Text in which no comment opens stays. -/
theorem withoutComments_append (uncommented : Uncommented text rest) :
    withoutComments (text ++ rest) = text ++ withoutComments rest := by
  induction text with
  | nil => rfl
  | cons character text ih =>
      rw [List.cons_append, withoutComments_cons uncommented.1, ih uncommented.2, List.cons_append]

/-- Removing the comments behind a text does not let a comment open in it: what is left begins with
a slash only if no comment was removed there. -/
theorem opensComment_withoutComments (closed : opensComment (character :: (text ++ rest)) = false) :
    opensComment (character :: (text ++ withoutComments rest)) = false := by
  cases text with
  | cons second text => exact (opensComment_cons_cons character second _ _).trans closed
  | nil =>
      by_cases isSlash : character = '/'
      case neg => exact opensComment_of_ne isSlash _
      case pos =>
        subst isSlash
        cases rest with
        | nil =>
            rw [withoutComments.eq_1]
            rfl
        | cons second rest =>
            have different : second ≠ '/' := by
              rintro rfl
              cases closed
            rw [List.nil_append, withoutComments_cons (opensComment_of_ne different rest)]
            exact (opensComment_cons_cons '/' second _ _).trans closed

/-- A text without comments stays without when those behind it are removed. -/
theorem Uncommented.withoutComments (uncommented : Uncommented text rest) :
    Uncommented text (withoutComments rest) := by
  induction text with
  | nil => trivial
  | cons character text ih => exact ⟨opensComment_withoutComments uncommented.1, ih uncommented.2⟩

/-- A text without comments stays without in front of a text that begins with neither a slash nor a
star. -/
theorem Uncommented.append (uncommented : Uncommented text []) (noSlash : rest.head? ≠ some '/')
    (noStar : rest.head? ≠ some '*') : Uncommented text rest := by
  induction text with
  | nil => trivial
  | cons character text ih =>
      refine ⟨?_, ih uncommented.2⟩
      cases text with
      | nil => exact opensComment_of_head?_ne noSlash noStar character
      | cons second text => exact (opensComment_cons_cons character second _ _).trans uncommented.1

/-- Of a line comment the line end stays. -/
theorem withoutComments_line (inLine : '\n' ∉ inside) (rest : List Char) :
    withoutComments ('/' :: '/' :: (inside ++ '\n' :: rest)) = '\n' :: withoutComments rest := by
  have passed : (inside ++ '\n' :: rest).dropWhile isInLine = '\n' :: rest := by
    rw [List.dropWhile_append_of_pos]
    · rfl
    · intro character member
      exact bne_iff_ne.mpr fun same => inLine (same ▸ member)
  rw [withoutComments.eq_2, passed]
  exact withoutComments_cons (opensComment_of_ne (by decide) rest)

/-- Of a line comment in the last line nothing stays. -/
theorem withoutComments_lastLine (inLine : '\n' ∉ inside) :
    withoutComments ('/' :: '/' :: inside) = [] := by
  have passed : inside.dropWhile isInLine = [] := by
    rw [List.dropWhile_eq_nil_iff]
    intro character member
    exact bne_iff_ne.mpr fun same => inLine (same ▸ member)
  rw [withoutComments.eq_2, passed, withoutComments.eq_1]

/-- The first `*/` after a text that has none. -/
theorem splitAtCommentEnd_eq (unclosed : ¬ ['*', '/'] <:+: inside) (rest : List Char) :
    splitAtCommentEnd (inside ++ '*' :: '/' :: rest) = some (inside, rest) := by
  induction inside with
  | nil => rfl
  | cons character inside ih =>
      rw [List.infix_cons_iff, not_or] at unclosed
      rw [List.cons_append, splitAtCommentEnd.eq_3, ih unclosed.2]
      · rfl
      · -- a `*` at the end of the text is followed by another one, not by a slash
        rintro after rfl same
        cases inside with
        | nil => cases same
        | cons next inside =>
            cases same
            exact unclosed.1 (List.prefix_append ['*', '/'] inside)

/-- Before the first `*/` there is none. -/
theorem not_infix_of_splitAtCommentEnd (split : splitAtCommentEnd text = some (inside, rest)) :
    ¬ ['*', '/'] <:+: inside := by
  induction text using splitAtCommentEnd.induct generalizing inside rest with
  | case1 => cases split
  | case2 after =>
      cases split
      simp
  | case3 character text unclosed ih =>
      rw [splitAtCommentEnd.eq_3 character text unclosed, Option.map_eq_some_iff] at split
      obtain ⟨⟨before, after⟩, found, same⟩ := split
      cases same
      rw [List.infix_cons_iff, not_or]
      refine ⟨?_, ih found⟩
      rintro ⟨more, same⟩
      obtain ⟨rfl, rfl⟩ := List.cons.inj same
      exact unclosed _ rfl (eq_of_splitAtCommentEnd found)

/-- Of a block comment the line ends stay. -/
theorem withoutComments_block (unclosed : ¬ ['*', '/'] <:+: inside) (rest : List Char) :
    withoutComments ('/' :: '*' :: (inside ++ '*' :: '/' :: rest)) =
      inside.filter (fun character => !isInLine character) ++ withoutComments rest := by
  rw [withoutComments.eq_3]
  split
  case h_1 before after found =>
    rw [splitAtCommentEnd_eq unclosed, Option.some.injEq, Prod.mk.injEq] at found
    obtain ⟨rfl, rfl⟩ := found
    rfl
  case h_2 found =>
    rw [splitAtCommentEnd_eq unclosed] at found
    cases found

end LineRobot.Source
