import LineRobot.Proofs.Token.Forms
import LineRobot.Token.Scan

/-! # The fragments of a text

A text that can be scanned is a row of fragments: tokens, and layout characters, comments and `#`
lines between them. `Piece.Reads` says that some characters are read as one piece in front of what
follows them, and `Fragment.Follow` that the fragments of a row are read one after the other.
`scan_eq_ok_iff` says that this is all there is to scanning: a text has a scan just if it is such a
row, and the scan holds its tokens, each at the place after the fragments before it. -/

namespace LineRobot

/-- A part of a text that is read as one piece. -/
structure Fragment where
  /-- The token, if the fragment is one. -/
  kind : Option TokenKind
  /-- The characters of the fragment. -/
  text : List Char
deriving DecidableEq, Repr

namespace Piece

/-- The text is read as one piece where the given rest follows it. -/
def Reads (kind : Option TokenKind) : (text rest : List Char) → Prop
  | [], _ => False
  | first :: tail, rest => read first (tail ++ rest) = .ok ⟨kind, tail.length⟩

instance Reads.decidable (kind : Option TokenKind) :
    (text rest : List Char) → Decidable (Reads kind text rest)
  | [], _ => .isFalse id
  | first :: tail, rest =>
      inferInstanceAs (Decidable (read first (tail ++ rest) = .ok ⟨kind, tail.length⟩))

variable {kind : Option TokenKind} {text rest : List Char}

/-- What is read is there to be read. -/
theorem exists_reads_of_read {first : Char} {piece : Piece} (done : read first rest = .ok piece) :
    ∃ tail after, rest = tail ++ after ∧ tail.length = piece.length ∧
      Reads piece.kind (first :: tail) after := by
  obtain ⟨tail, after, rfl, length, -⟩ := exists_form_of_read done
  refine ⟨tail, after, rfl, length, ?_⟩
  rw [Reads, done, length]

/-- A layout character is read as such. -/
theorem reads_layout {character : Char} (layout : Text.isLayout character = true)
    (rest : List Char) :
    Reads none [character] rest := by
  show read character rest = _
  rw [read, if_pos layout]
  rfl

/-- What is read has a form. -/
theorem Reads.form (reads : Reads kind text rest) : Form kind text rest := by
  cases text with
  | nil => exact reads.elim
  | cons first tail =>
      obtain ⟨other, after, same, length, form⟩ := exists_form_of_read reads
      obtain ⟨rfl, rfl⟩ := List.append_inj same length.symm
      exact form

end Piece

namespace Fragment

/-- The text that fragments make up. -/
def join (fragments : List Fragment) : List Char :=
  fragments.flatMap text

/-- The tokens among fragments. -/
def kinds (fragments : List Fragment) : List TokenKind :=
  fragments.filterMap kind

/-- The tokens among fragments, at their places; the first fragment stands at the given place. -/
def tokens (position : Position) : List Fragment → List Token
  | [] => []
  | fragment :: later =>
    (fragment.kind.map fun kind => ⟨kind, position⟩).toList ++
      tokens (position.after fragment.text) later

/-- Each of the fragments is read as it is, in front of the text of those after it. -/
def Follow : List Fragment → Prop
  | [] => True
  | fragment :: later => Piece.Reads fragment.kind fragment.text (join later) ∧ Follow later

instance Follow.decidable : (fragments : List Fragment) → Decidable (Follow fragments)
  | [] => .isTrue trivial
  | fragment :: later =>
    have := Follow.decidable later
    inferInstanceAs (Decidable (Piece.Reads fragment.kind fragment.text (join later) ∧
      Follow later))

@[simp] theorem join_nil : join [] = [] := rfl

@[simp] theorem join_cons (fragment : Fragment) (later : List Fragment) :
    join (fragment :: later) = fragment.text ++ join later := rfl

@[simp] theorem join_append (fragments later : List Fragment) :
    join (fragments ++ later) = join fragments ++ join later := List.flatMap_append

@[simp] theorem kinds_append (fragments later : List Fragment) :
    kinds (fragments ++ later) = kinds fragments ++ kinds later := List.filterMap_append

/-- The tokens have the kinds of the fragments, wherever they stand. -/
theorem map_kind_tokens (position : Position) (fragments : List Fragment) :
    (tokens position fragments).map Token.kind = kinds fragments := by
  induction fragments generalizing position with
  | nil => rfl
  | cons fragment later ih =>
      rw [tokens, List.map_append, ih]
      cases same : fragment.kind <;> simp [kinds, same]

/-- Fragments that follow each other are what is scanned in their text. -/
theorem Follow.scan_eq {fragments : List Fragment} (follow : Follow fragments)
    (position : Position) :
    scan position (join fragments) =
      .ok ⟨tokens position fragments, position.after (join fragments)⟩ := by
  induction fragments generalizing position with
  | nil => rw [join_nil, scan, tokens, Position.after_nil]
  | cons fragment later ih =>
      obtain ⟨reads, follow⟩ := follow
      obtain ⟨kind, text⟩ := fragment
      cases text with
      | nil => exact reads.elim
      | cons first tail =>
          rw [join_cons, List.cons_append, scan,
            show Piece.read first (tail ++ join later) = _ from reads]
          simp only [List.take_left, List.drop_left, ih follow, tokens, Position.after_cons,
            Position.after_append]

/-- What is scanned is a row of fragments. -/
theorem exists_of_scan {position : Position} {text : List Char} {scanned : Scanned}
    (done : scan position text = .ok scanned) :
    ∃ fragments, join fragments = text ∧ Follow fragments := by
  induction position, text using scan.induct generalizing scanned with
  | case1 => exact ⟨[], rfl, trivial⟩
  | case2 position first rest error failed =>
      rw [scan, failed] at done
      cases done
  | case3 position first rest piece read error failed ih =>
      rw [scan, read] at done
      dsimp only at done
      rw [failed] at done
      cases done
  | case4 position first rest piece read later scannedLater ih =>
      obtain ⟨fragments, whole, follow⟩ := ih scannedLater
      obtain ⟨tail, after, rfl, length, reads⟩ := Piece.exists_reads_of_read read
      rw [← length, List.drop_left] at whole
      subst whole
      exact ⟨⟨piece.kind, first :: tail⟩ :: fragments, rfl, reads, follow⟩

/-- **Scanning a text is cutting it into fragments**: it succeeds just if the text is a row of
fragments that follow each other, with their tokens. -/
theorem scan_eq_ok_iff {position : Position} {text : List Char} {scanned : Scanned} :
    scan position text = .ok scanned ↔
      ∃ fragments, join fragments = text ∧ Follow fragments ∧
        scanned = ⟨tokens position fragments, position.after text⟩ := by
  constructor
  · intro done
    obtain ⟨fragments, rfl, follow⟩ := exists_of_scan done
    refine ⟨fragments, rfl, follow, ?_⟩
    exact Except.ok.inj (done.symm.trans (follow.scan_eq position))
  · rintro ⟨fragments, rfl, follow, rfl⟩
    exact follow.scan_eq position

end Fragment

end LineRobot
