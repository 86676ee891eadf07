import LineRobot.Proofs.Token.Locality

/-! # Tokens of a text without its comments

Comments are passed over when a text is scanned, and `Source.withoutComments` removes them
beforehand. The two do not always agree: where nothing of a comment stays, the tokens before and
after it come together, and may be read as others (`Fragment.tokens_withoutComments_glued`). They
agree just if each token is still read as it is in front of what stays of the text after it
(`Fragment.Apart`, `Fragment.apart_iff_spells`). -/

namespace LineRobot

open Source

namespace Piece

variable {kind : Option TokenKind} {token : TokenKind} {first : Char} {tail text rest : List Char}

/-- Where a layout character comes first, it is read. -/
theorem Reads.eq_of_isLayout {after : List Char} {character : Char} (reads : Reads kind text after)
    (layout : Text.isLayout character = true) (whole : text ++ after = character :: rest) :
    kind = none ∧ text = [character] ∧ after = rest := by
  cases text with
  | nil => exact reads.elim
  | cons first tail =>
      obtain ⟨rfl, rfl⟩ := List.cons.inj whole
      rw [Reads, read, if_pos layout, Except.ok.injEq, Piece.mk.injEq] at reads
      obtain ⟨rfl, length⟩ := reads
      obtain rfl := List.eq_nil_of_length_eq_zero length.symm
      exact ⟨rfl, rfl, rfl⟩

/-- What is passed over begins with a layout character, a comment or a `#`. -/
theorem Reads.passed (reads : Reads none (first :: tail) rest) :
    Text.isLayout first = true ∨ opensComment (first :: (tail ++ rest)) = true ∨ first = '#' := by
  cases reads.form with
  | layout layout => exact .inl layout
  | line | lastLine | block => exact .inr (.inl rfl)
  | directive => exact .inr (.inr rfl)

/-- No token begins with a layout character. -/
theorem Reads.not_isLayout (reads : Reads (some token) (first :: tail) rest) :
    ¬ Text.isLayout first = true := by
  intro layout
  obtain ⟨same, -⟩ := reads.eq_of_isLayout layout rfl
  cases same

/-- Of what is passed over, nothing but layout characters stays without comments. -/
theorem Reads.exists_withoutComments (reads : Reads none text rest) (noHash : '#' ∉ text) :
    ∃ left, (∀ character ∈ left, Text.isLayout character = true) ∧
      withoutComments (text ++ rest) = left ++ withoutComments rest := by
  cases reads.form with
  | @layout character _ layout =>
      have different : character ≠ '/' := by
        rintro rfl
        cases layout
      exact ⟨[character], by
        simpa using layout, withoutComments_cons (opensComment_of_ne different rest)⟩
  | @line inside _ inLine =>
      refine ⟨['\n'], by simp [Text.isLayout], ?_⟩
      simpa using withoutComments_line inLine rest
  | lastLine inLine =>
      refine ⟨[], by simp, ?_⟩
      rw [List.append_nil, withoutComments_lastLine inLine, withoutComments.eq_1]
      rfl
  | @block inside _ unclosed =>
      refine ⟨inside.filter fun character => !isInLine character, ?_, ?_⟩
      · intro character member
        have lineEnd := (List.mem_filter.mp member).2
        rw [Bool.not_eq_true', isInLine, bne_eq_false_iff_eq] at lineEnd
        subst lineEnd
        decide
      · simpa using withoutComments_block unclosed rest
  | directive => exact absurd List.mem_cons_self noHash

/-- What is passed over ends a token before it. -/
theorem Reads.breaks (reads : Reads none text rest) (noHash : '#' ∉ text) :
    Breaks (text ++ rest) := by
  cases text with
  | nil => exact reads.elim
  | cons first tail =>
      intro character isHead
      obtain rfl : first = character := by simpa using isHead
      cases reads.form with
      | layout layout => exact .inl layout
      | line | lastLine | block => exact .inr rfl
      | directive => exact absurd List.mem_cons_self noHash

end Piece

namespace Fragment

/-- The tokens among fragments, each with its spelling. -/
def spelled (fragments : List Fragment) : List (TokenKind × List Char) :=
  fragments.filterMap fun fragment => fragment.kind.map fun kind => (kind, fragment.text)

/-- The text can be cut into the given tokens, each with its spelling, and things to pass over. -/
def Spells (text : List Char) (lexemes : List (TokenKind × List Char)) : Prop :=
  ∃ fragments, join fragments = text ∧ Follow fragments ∧ spelled fragments = lexemes

/-- Each token is read as it is in front of what stays of the text after it without comments. -/
def Apart : List Fragment → Prop
  | [] => True
  | fragment :: later =>
    (fragment.kind.isSome = true →
      Piece.Reads fragment.kind fragment.text (withoutComments (join later))) ∧ Apart later

instance Apart.decidable : (fragments : List Fragment) → Decidable (Apart fragments)
  | [] => .isTrue trivial
  | fragment :: later =>
    have := Apart.decidable later
    inferInstanceAs (Decidable ((fragment.kind.isSome = true →
      Piece.Reads fragment.kind fragment.text (withoutComments (join later))) ∧ Apart later))

/-- The kinds of tokens with spellings. -/
theorem map_fst_spelled (fragments : List Fragment) :
    (spelled fragments).map Prod.fst = kinds fragments := by
  rw [spelled, kinds, List.map_filterMap]
  congr 1
  funext fragment
  rw [Option.map_map]
  exact Option.map_id'

variable {text rest : List Char} {lexemes : List (TokenKind × List Char)}

/-- A layout character in front does not matter. -/
theorem spells_cons {character : Char} (layout : Text.isLayout character = true) :
    Spells (character :: text) lexemes ↔ Spells text lexemes := by
  constructor
  · rintro ⟨fragments, whole, follow, same⟩
    cases fragments with
    | nil => cases whole
    | cons fragment later =>
        obtain ⟨reads, follow⟩ := follow
        obtain ⟨kind, spelling⟩ := fragment
        obtain ⟨rfl, -, rest⟩ := reads.eq_of_isLayout layout whole
        exact ⟨later, rest, follow, same⟩
  · rintro ⟨fragments, rfl, follow, same⟩
    exact ⟨⟨none, [character]⟩ :: fragments, rfl, ⟨Piece.reads_layout layout _, follow⟩, same⟩

/-- Layout characters in front do not matter. -/
theorem spells_append {left : List Char}
    (layout : ∀ character ∈ left, Text.isLayout character = true) :
    Spells (left ++ text) lexemes ↔ Spells text lexemes := by
  induction left with
  | nil => rfl
  | cons character left ih =>
      rw [List.cons_append, spells_cons (layout character List.mem_cons_self)]
      exact ih fun other member => layout other (List.mem_cons_of_mem character member)

/-- Nothing is passed over where a token is read, also without the comments after it. -/
theorem not_reads_none {kind : TokenKind} {spelling skipped after : List Char}
    (noHash : '#' ∉ spelling) (reads : Piece.Reads (some kind) spelling rest)
    (whole : skipped ++ after = spelling ++ withoutComments rest) :
    ¬ Piece.Reads none skipped after := by
  intro passed
  cases spelling with
  | nil => exact reads.elim
  | cons first tail =>
      cases skipped with
      | nil => exact passed.elim
      | cons other skipped =>
          obtain ⟨rfl, behind⟩ : other = first ∧ skipped ++ after = tail ++ withoutComments rest :=
            List.cons.inj whole
          -- a token begins with no layout, and no comment is opened that was not there before
          rcases passed.passed with layout | opens | rfl
          · exact reads.not_isLayout layout
          · cases reads.form with
            | token _ uncommented =>
                rw [behind, opensComment_withoutComments uncommented.1] at opens
                cases opens
          · exact noHash List.mem_cons_self

/-- A token comes first without the comments after it just if it is read as it is there. -/
theorem spells_token {kind : TokenKind} {spelling : List Char} (noHash : '#' ∉ spelling)
    (reads : Piece.Reads (some kind) spelling rest) :
    Spells (spelling ++ withoutComments rest) ((kind, spelling) :: lexemes) ↔
      Piece.Reads (some kind) spelling (withoutComments rest) ∧
        Spells (withoutComments rest) lexemes := by
  constructor
  · rintro ⟨fragments, whole, follow, same⟩
    cases fragments with
    | nil => cases same
    | cons fragment later =>
        obtain ⟨readsFirst, follow⟩ := follow
        obtain ⟨found, text⟩ := fragment
        cases found with
        | none => exact absurd readsFirst (not_reads_none noHash reads whole)
        | some found =>
            obtain ⟨head, others⟩ := List.cons.inj same
            cases head
            have left : join later = withoutComments rest := List.append_cancel_left whole
            rw [left] at readsFirst
            exact ⟨readsFirst, later, left, follow, others⟩
  · rintro ⟨reads, fragments, whole, follow, same⟩
    refine ⟨⟨some kind, spelling⟩ :: fragments, ?_, ⟨?_, follow⟩, ?_⟩
    · rw [join_cons, whole]
    · rwa [whole]
    · rw [← same]
      rfl

/-- **Removing comments keeps the tokens just if they stay apart.** -/
theorem apart_iff_spells {fragments : List Fragment} (noHash : '#' ∉ join fragments)
    (follow : Follow fragments) :
    Apart fragments ↔ Spells (withoutComments (join fragments)) (spelled fragments) := by
  induction fragments with
  | nil =>
      rw [join_nil, withoutComments.eq_1]
      exact ⟨fun _ => ⟨[], rfl, trivial, rfl⟩, fun _ => trivial⟩
  | cons fragment later ih =>
      obtain ⟨reads, follow⟩ := follow
      obtain ⟨kind, text⟩ := fragment
      rw [join_cons, List.mem_append, not_or] at noHash
      have later_iff := ih noHash.2 follow
      -- what is passed over leaves layout only, which both sides pass over
      cases kind with
      | none =>
          obtain ⟨left, layout, cleaned⟩ := reads.exists_withoutComments noHash.1
          rw [join_cons, cleaned, spells_append layout]
          refine (and_iff_right fun isToken => ?_).trans later_iff
          cases isToken
      | some kind =>
          cases reads.form with
          | token _ uncommented =>
              rw [join_cons, withoutComments_append uncommented]
              refine Iff.trans ?_ (spells_token noHash.1 reads).symm
              exact and_congr (forall_prop_of_true rfl) later_iff

/-- Where a comment follows a token directly, what stays of the text from there on is empty or
begins with something that ends the token. -/
def SetApart : List Fragment → Prop
  | [] => True
  | fragment :: later =>
    (fragment.kind.isSome = true → later.head?.any (fun next => next.kind.isNone) = true →
      Breaks (withoutComments (join later))) ∧ SetApart later

/-- Up to the first thing that ends a token, the text behind the token stays as it is. -/
theorem SetApart.exists_common {fragment : Fragment} {later : List Fragment}
    (set : SetApart (fragment :: later)) (isToken : fragment.kind.isSome = true)
    (noHash : '#' ∉ join later) (follow : Follow later) :
    ∃ next rest other, join later = next ++ rest ∧ withoutComments (join later) = next ++ other ∧
      Breaks rest ∧ Breaks other := by
  induction later generalizing fragment with
  | nil =>
      refine ⟨[], [], [], rfl, ?_, Breaks.nil, Breaks.nil⟩
      rw [join_nil, withoutComments.eq_1]
      rfl
  | cons second later ih =>
      obtain ⟨reads, follow⟩ := follow
      obtain ⟨kind, text⟩ := second
      rw [join_cons, List.mem_append, not_or] at noHash
      cases kind with
      | none => exact ⟨[], _, _, rfl, rfl, reads.breaks noHash.1, set.1 isToken rfl⟩
      | some kind =>
          obtain ⟨next, rest, other, whole, cleaned, breaks, otherBreaks⟩ :=
            ih set.2 rfl noHash.2 follow
          refine ⟨text ++ next, rest, other, ?_, ?_, breaks, otherBreaks⟩
          · rw [join_cons, whole, List.append_assoc]
          · cases reads.form with
            | token _ uncommented =>
                rw [join_cons, withoutComments_append uncommented, cleaned, List.append_assoc]

/-- Tokens that are set apart stay apart: what is read of a token depends only on what is the same
with and without comments. -/
theorem SetApart.apart {fragments : List Fragment} (set : SetApart fragments)
    (noHash : '#' ∉ join fragments) (follow : Follow fragments) : Apart fragments := by
  induction fragments with
  | nil => trivial
  | cons fragment later ih =>
      obtain ⟨reads, followLater⟩ := follow
      rw [join_cons, List.mem_append, not_or] at noHash
      refine ⟨fun isToken => ?_, ih set.2 noHash.2 followLater⟩
      obtain ⟨next, rest, other, whole, cleaned, breaks, otherBreaks⟩ :=
        set.exists_common isToken noHash.2 followLater
      obtain ⟨kind, text⟩ := fragment
      cases kind with
      | none => cases isToken
      | some kind =>
          cases reads.form with
          | token _ uncommented =>
              -- both texts begin with the same, up to where the token has ended
              have stillUncommented := uncommented.withoutComments
              rw [whole] at reads
              rw [cleaned] at stillUncommented ⊢
              exact reads.congr breaks otherBreaks stillUncommented

/-- A text can be cut into tokens that stay as they are without the comments between them. -/
def StaysApart (text : List Char) : Prop :=
  ∃ fragments, join fragments = text ∧ Follow fragments ∧ Apart fragments

/-- **What removing comments keeps.** Let a text without `#` be one that can be scanned. It has the
same tokens in the same spelling with and without its comments just if each of them is read as it is
in front of what stays of the text after it. The text without comments can then be scanned too, and
its tokens have the same kinds. This is so if the comments that follow a token directly are followed
by something that ends it. -/
theorem tokens_withoutComments {position : Position} {text : List Char} {scanned : Scanned}
    (noHash : '#' ∉ text) (done : scan position text = .ok scanned) :
    (StaysApart text ↔ ∃ lexemes, Spells text lexemes ∧ Spells (withoutComments text) lexemes) ∧
      (StaysApart text →
        ∃ cleaned, scan position (withoutComments text) = .ok cleaned ∧
          cleaned.tokens.map Token.kind = scanned.tokens.map Token.kind) ∧
      ∀ fragments, join fragments = text → Follow fragments → SetApart fragments →
        StaysApart text := by
  refine ⟨?_, ?_, ?_⟩
  · constructor
    · rintro ⟨fragments, rfl, follow, apart⟩
      exact ⟨spelled fragments, ⟨fragments, rfl, follow, rfl⟩,
        (apart_iff_spells noHash follow).mp apart⟩
    · rintro ⟨-, ⟨fragments, rfl, follow, rfl⟩, kept⟩
      exact ⟨fragments, rfl, follow, (apart_iff_spells noHash follow).mpr kept⟩
  · rintro ⟨fragments, rfl, follow, apart⟩
    obtain ⟨others, whole, followOthers, same⟩ := (apart_iff_spells noHash follow).mp apart
    refine ⟨_, scan_eq_ok_iff.mpr ⟨others, whole, followOthers, rfl⟩, ?_⟩
    rw [follow.scan_eq, Except.ok.injEq] at done
    rw [← done, map_kind_tokens, map_kind_tokens, ← map_fst_spelled, ← map_fst_spelled, same]
  · rintro fragments rfl follow set
    exact ⟨fragments, rfl, follow, set.apart noHash follow⟩

/-- A text with comments between signs, names and quotes. -/
def besideText : List Char :=
  "y/* + */+'/'// 'z\n/z".toList

/-- An instance of `tokens_withoutComments`. -/
theorem tokens_withoutComments_beside :
    '#' ∉ besideText ∧
      ∃ scanned cleaned, scan .start besideText = .ok scanned ∧
        scan .start (withoutComments besideText) = .ok cleaned ∧
        cleaned.tokens.map Token.kind = scanned.tokens.map Token.kind := by
  have noHash : '#' ∉ besideText := by decide
  have apart : StaysApart besideText :=
    ⟨[⟨some (.name "y"), ['y']⟩, ⟨none, "/* + */".toList⟩, ⟨some (.sign .plus), ['+']⟩,
      ⟨some (.character '/'), "'/'".toList⟩, ⟨none, "// 'z\n".toList⟩, ⟨some (.sign .slash), ['/']⟩,
      ⟨some (.name "z"), ['z']⟩], by decide +kernel, by decide +kernel, by decide +kernel⟩
  cases done : scan .start besideText with
  | error error =>
      have accepted : (scan .start besideText).isOk = true := by decide +kernel
      rw [done] at accepted
      cases accepted
  | ok scanned =>
      obtain ⟨cleaned, doneCleaned, same⟩ := (tokens_withoutComments noHash done).2.1 apart
      exact ⟨noHash, scanned, cleaned, rfl, doneCleaned, same⟩

/-- A text with a comment between two signs. -/
def gluedText : List Char :=
  "y+/**/++z".toList

/-- **Removing comments can change the tokens**: without the comment the signs are read as
others. -/
theorem tokens_withoutComments_glued :
    '#' ∉ gluedText ∧
      (scan .start gluedText).toOption.map (fun scanned => scanned.tokens.map Token.kind) =
        some [.name "y", .sign .plus, .sign .plusPlus, .name "z"] ∧
      (scan .start (withoutComments gluedText)).toOption.map (fun cleaned =>
        cleaned.tokens.map Token.kind) =
        some [.name "y", .sign .plusPlus, .sign .plus, .name "z"] := by
  decide +kernel

end Fragment

end LineRobot
