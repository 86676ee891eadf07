import LineRobot.Proofs.Source.Comments

/-! # Comments are removed in one pass

Removing a comment brings together what stands before it and what stands after it. No comment opens
where they meet: a slash that stays has neither a slash nor a star behind it, and what comes behind
it stays too (`opensComment_withoutComments`). So what is left has no comment
(`commentFree_withoutComments`), and a text that has none is left as it is
(`CommentFree.withoutComments_eq`).

A block comment that is never closed is no comment. It stays, and so does all that stands in it, be
it a mark that would open a comment elsewhere. -/

namespace LineRobot.Source

/-- A block comment opens where the text begins, and is never closed. -/
def OpensUnclosed (text : List Char) : Prop :=
  ∃ inside, text = '/' :: '*' :: inside ∧ ¬ ['*', '/'] <:+: inside

/-- A text has no comment: wherever `//` or `/*` stands, a block comment that is never closed has
opened there or before. -/
def CommentFree (text : List Char) : Prop :=
  ∀ before opening, text = before ++ opening → opensComment opening = true →
    ∃ earlier between, before = earlier ++ between ∧ OpensUnclosed (between ++ opening)

variable {character : Char} {text rest : List Char}

/-- A text is not split at a `*/` just if it has none. -/
theorem splitAtCommentEnd_eq_none_iff : splitAtCommentEnd text = none ↔ ¬ ['*', '/'] <:+: text := by
  constructor
  · intro unclosed
    induction text using splitAtCommentEnd.induct with
    | case1 => simp
    | case2 after => cases unclosed
    | case3 character text different ih =>
        rw [splitAtCommentEnd.eq_3 character text different, Option.map_eq_none_iff] at unclosed
        rw [List.infix_cons_iff, not_or]
        refine ⟨?_, ih unclosed⟩
        rintro ⟨after, same⟩
        obtain ⟨rfl, rfl⟩ := List.cons.inj same
        exact different after rfl rfl
  · intro absent
    cases split : splitAtCommentEnd text with
    | none => rfl
    | some parts =>
        obtain ⟨inside, after⟩ := parts
        refine absurd ⟨inside, after, ?_⟩ absent
        rw [eq_of_splitAtCommentEnd split, List.append_assoc]
        rfl

/-- Where a block comment opens that is never closed, a comment opens. -/
theorem OpensUnclosed.opensComment (unclosed : OpensUnclosed text) : opensComment text = true := by
  obtain ⟨inside, rfl, -⟩ := unclosed
  rfl

/-- A block comment that is never closed stays as it is. -/
theorem OpensUnclosed.withoutComments_eq (unclosed : OpensUnclosed text) :
    withoutComments text = text := by
  obtain ⟨inside, rfl, absent⟩ := unclosed
  have unsplit := splitAtCommentEnd_eq_none_iff.mpr absent
  rw [withoutComments.eq_3]
  split
  case h_1 found =>
    rw [unsplit] at found
    cases found
  case h_2 => rfl

/-- In a block comment that is never closed there is no comment. -/
theorem OpensUnclosed.commentFree (unclosed : OpensUnclosed text) : CommentFree text := by
  intro before opening whole _
  exact ⟨[], before, rfl, whole ▸ unclosed⟩

/-- The empty text has no comment. -/
theorem commentFree_nil : CommentFree [] := by
  intro before opening whole opens
  obtain ⟨-, rfl⟩ := List.append_eq_nil_iff.mp whole.symm
  cases opens

/-- A character at which no comment opens does not matter. -/
theorem commentFree_cons (closed : opensComment (character :: text) = false) :
    CommentFree (character :: text) ↔ CommentFree text := by
  constructor
  · rintro free before opening rfl opens
    obtain ⟨earlier, between, same, unclosed⟩ := free (character :: before) opening rfl opens
    cases earlier with
    | nil =>
        -- the unclosed comment would open at the character
        rw [List.nil_append] at same
        subst same
        have opensHere := unclosed.opensComment
        rw [List.cons_append, closed] at opensHere
        cases opensHere
    | cons first earlier =>
        obtain ⟨-, rfl⟩ := List.cons.inj same
        exact ⟨earlier, between, rfl, unclosed⟩
  · intro free before opening whole opens
    cases before with
    | nil =>
        rw [List.nil_append] at whole
        rw [← whole, closed] at opens
        cases opens
    | cons first before =>
        obtain ⟨rfl, rfl⟩ := List.cons.inj whole
        obtain ⟨earlier, between, rfl, unclosed⟩ := free before opening rfl opens
        exact ⟨character :: earlier, between, rfl, unclosed⟩

/-- Text in which no comment opens does not matter. -/
theorem commentFree_append (uncommented : Uncommented text rest) :
    CommentFree (text ++ rest) ↔ CommentFree rest := by
  induction text with
  | nil => rfl
  | cons character text ih => exact (commentFree_cons uncommented.1).trans (ih uncommented.2)

/-- **What is left has no comment.** -/
theorem commentFree_withoutComments (text : List Char) : CommentFree (withoutComments text) := by
  induction text using withoutComments.induct with
  | case1 =>
      rw [withoutComments.eq_1]
      exact commentFree_nil
  | case2 rest ih =>
      rw [withoutComments.eq_2]
      exact ih
  | case3 rest inside after split _ ih =>
      rw [eq_of_splitAtCommentEnd split,
        withoutComments_block (not_infix_of_splitAtCommentEnd split)]
      refine (commentFree_append (uncommented_of_notMem ?_ _)).mpr ih
      simp [isInLine]
  | case4 rest unsplit =>
      have unclosed : OpensUnclosed ('/' :: '*' :: rest) :=
        ⟨rest, rfl, splitAtCommentEnd_eq_none_iff.mp unsplit⟩
      rw [unclosed.withoutComments_eq]
      exact unclosed.commentFree
  | case5 character rest noLine noBlock ih =>
      have closed : opensComment (character :: rest) = false := by
        unfold opensComment
        split
        case h_1 same =>
          obtain ⟨rfl, rfl⟩ := List.cons.inj same
          exact (noLine _ rfl rfl).elim
        case h_2 same =>
          obtain ⟨rfl, rfl⟩ := List.cons.inj same
          exact (noBlock _ rfl rfl).elim
        case h_3 => rfl
      have stays : opensComment (character :: ([] ++ withoutComments rest)) = false :=
        opensComment_withoutComments closed
      rw [withoutComments_cons closed]
      exact (commentFree_cons stays).mpr ih

/-- A text without comments is left as it is. -/
theorem CommentFree.withoutComments_eq (free : CommentFree text) : withoutComments text = text := by
  induction text with
  | nil => rw [withoutComments.eq_1]
  | cons character text ih =>
      by_cases opens : opensComment (character :: text) = true
      · obtain ⟨earlier, between, same, unclosed⟩ := free [] (character :: text) rfl opens
        obtain ⟨-, rfl⟩ := List.append_eq_nil_iff.mp same.symm
        exact unclosed.withoutComments_eq
      · have closed := Bool.eq_false_iff.mpr opens
        rw [withoutComments_cons closed, ih ((commentFree_cons closed).mp free)]

/-- **One pass removes all comments.** What is left has none: before the first block comment in it
that is never closed, no `//` and no `/*` stands. A text is left as it is just if it has no comment,
so that a second pass changes nothing. -/
theorem withoutComments_complete (text : List Char) :
    withoutComments (withoutComments text) = withoutComments text ∧
      CommentFree (withoutComments text) ∧ (withoutComments text = text ↔ CommentFree text) := by
  have free := commentFree_withoutComments text
  refine ⟨free.withoutComments_eq, free, fun same => ?_, CommentFree.withoutComments_eq⟩
  rw [← same]
  exact free

/-- Slashes and stars that only look like marks once comments are gone. -/
example : withoutComments "*/**// //*\n/*//*//*/*".toList = "*/ \n/*/*".toList := by decide +kernel

end LineRobot.Source
