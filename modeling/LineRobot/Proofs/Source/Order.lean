import Mathlib.Data.List.Nodup
import LineRobot.Proofs.Meaning.Interpreter
import LineRobot.Proofs.Source.Blocks
import LineRobot.Proofs.Syntax.Subscripts
import LineRobot.Proofs.Token.Fragments

/-! # Tokens stand in order

Places are ordered as a text is read (`Position.Before`). The tokens of a text stand at places that
go up, and so do the accesses of a body, as each is at a token of its own, and those of all
definitions of a source, as their bodies follow each other. Hence the place of an access tells which
access it is (`ParsedProgram.eq_of_position_eq`). -/

namespace LineRobot

namespace Position

/-- A place comes before another one: it is on an earlier line, or on the same line in an earlier
column. -/
def Before (place other : Position) : Prop :=
  place.line < other.line ∨ place.line = other.line ∧ place.column < other.column

/-- A place is another one or comes before it. -/
def UpTo (place other : Position) : Prop :=
  place = other ∨ place.Before other

variable {first second third : Position}

/-- No place comes before itself. -/
theorem Before.irrefl (place : Position) : ¬ place.Before place := by
  unfold Before
  omega

/-- What comes before an earlier place comes before a later one. -/
theorem Before.trans (before : first.Before second) (then_ : second.Before third) :
    first.Before third := by
  unfold Before at *
  omega

/-- What comes before a place comes before one that this is up to. -/
theorem Before.trans_upTo (before : first.Before second) (upTo : second.UpTo third) :
    first.Before third := by
  rcases upTo with rfl | later
  · exact before
  · exact before.trans later

/-- What a place is up to that comes before another one comes before it. -/
theorem UpTo.trans_before (upTo : first.UpTo second) (before : second.Before third) :
    first.Before third := by
  rcases upTo with rfl | earlier
  · exact before
  · exact earlier.trans before

/-- Places that go up. -/
theorem UpTo.trans (upTo : first.UpTo second) (then_ : second.UpTo third) : first.UpTo third := by
  rcases then_ with rfl | later
  · exact upTo
  · exact .inr (upTo.trans_before later)

/-- A character moves a place on. -/
theorem before_next (place : Position) (character : Char) :
    place.Before (place.next character) := by
  unfold next Before
  split
  · exact .inl (Nat.lt_succ_self _)
  · exact .inr ⟨rfl, Nat.lt_succ_self _⟩

/-- A text moves a place on, or leaves it where it is. -/
theorem upTo_after (place : Position) (text : List Char) : place.UpTo (place.after text) := by
  induction text generalizing place with
  | nil => exact .inl rfl
  | cons character others ih => exact .inr ((place.before_next character).trans_upTo (ih _))

/-- A text that is not empty moves a place on. -/
theorem before_after (place : Position) {text : List Char} (nonempty : text ≠ []) :
    place.Before (place.after text) := by
  cases text with
  | nil => exact absurd rfl nonempty
  | cons character others => exact (place.before_next character).trans_upTo (upTo_after _ others)

/-- Places go up, from a place on and before another one. -/
structure Ascend (low high : Position) (places : List Position) : Prop where
  /-- Each place comes before those behind it. -/
  sorted : places.Pairwise Before
  /-- No place comes before the first one. -/
  above : ∀ place ∈ places, low.UpTo place
  /-- All places come before the last one. -/
  below : ∀ place ∈ places, place.Before high

namespace Ascend

variable {low middle high : Position} {places front back : List Position}

/-- No places go up. -/
theorem nil (low high : Position) : Ascend low high [] :=
  ⟨.nil, nofun, nofun⟩

/-- Fewer places go up, too. -/
theorem of_sublist (ascend : Ascend low high back) (fewer : front.Sublist back) :
    Ascend low high front :=
  ⟨ascend.sorted.sublist fewer, fun place member => ascend.above place (fewer.subset member),
    fun place member => ascend.below place (fewer.subset member)⟩

/-- The range can be wider. -/
theorem widen {lower higher : Position} (ascend : Ascend low high places)
    (fromLower : lower.UpTo low) (toHigher : high.UpTo higher) : Ascend lower higher places :=
  ⟨ascend.sorted, fun place member => fromLower.trans (ascend.above place member),
    fun place member => (ascend.below place member).trans_upTo toHigher⟩

/-- Places go up behind places that go up. -/
theorem append (first : Ascend low middle front) (second : Ascend middle high back)
    (lower : low.UpTo middle) (higher : middle.UpTo high) : Ascend low high (front ++ back) := by
  have firstWide := first.widen (.inl rfl) higher
  have secondWide := second.widen lower (.inl rfl)
  refine ⟨List.pairwise_append.mpr ⟨first.sorted, second.sorted,
    fun place member other otherMember => ?_⟩, fun place member => ?_, fun place member => ?_⟩
  · exact (first.below place member).trans_upTo (second.above other otherMember)
  · exact (List.mem_append.mp member).elim (firstWide.above place) (secondWide.above place)
  · exact (List.mem_append.mp member).elim (firstWide.below place) (secondWide.below place)

/-- Places that go up are all different. -/
theorem nodup (ascend : Ascend low high places) : places.Nodup := by
  refine ascend.sorted.imp fun {place other} before same => ?_
  rw [same] at before
  exact Before.irrefl other before

end Ascend

end Position

open Position

/-! ## Tokens and accesses -/

/-- The tokens among fragments go up, within the text of the fragments. -/
theorem Fragment.ascend_tokens {fragments : List Fragment} (follow : Follow fragments)
    (position : Position) :
    Ascend position (position.after (join fragments))
      ((tokens position fragments).map Token.position) := by
  induction fragments generalizing position with
  | nil => exact .nil _ _
  | cons fragment later ih =>
      obtain ⟨reads, follow⟩ := follow
      have nonempty : fragment.text ≠ [] := by
        intro empty
        rw [empty] at reads
        exact reads
      have moved := position.before_after nonempty
      have here : Ascend position (position.after fragment.text)
          ((fragment.kind.map fun kind =>
            (⟨kind, position⟩ : Token)).toList.map Token.position) := by
        cases fragment.kind with
        | none => exact .nil _ _
        | some kind =>
            refine ⟨List.pairwise_singleton _ _, fun place member => ?_, fun place member => ?_⟩ <;>
              rw [List.mem_singleton.mp member]
            · exact .inl rfl
            · exact moved
      rw [tokens, List.map_append, join_cons, Position.after_append]
      exact here.append (ih follow _) (.inr moved) (upTo_after _ _)

/-- The accesses of a body go up, within the text of the body. -/
theorem Statement.ascend_of_ofText {position : Position} {text : List Char}
    {statements : List Statement} (read : ofText position text = .ok statements) :
    Ascend position (position.after text) ((listAccesses statements).map Access.position) := by
  rw [ofText] at read
  cases done : scan position text with
  | error error =>
      rw [done] at read
      cases read
  | ok scanned =>
      rw [done] at read
      obtain ⟨fragments, rfl, follow, rfl⟩ := Fragment.scan_eq_ok_iff.mp done
      obtain ⟨passed, whole, fewer⟩ := spans_of_parseBody read
      rw [List.append_nil] at whole
      rw [whole] at fewer
      exact (Fragment.ascend_tokens follow position).of_sublist fewer

namespace Definition

/-- The accesses in the body of a definition. -/
def accesses (definition : Definition) : List Access :=
  match Statement.ofText definition.bodyPosition definition.body with
  | .ok statements => Statement.listAccesses statements
  | .error _ => []

/-- The accesses of a definition go up, within its body. -/
theorem ascend_accesses (definition : Definition) :
    Ascend definition.bodyPosition (definition.bodyPosition.after definition.body)
      (definition.accesses.map Access.position) := by
  unfold accesses
  split
  case h_1 statements read => exact Statement.ascend_of_ofText read
  case h_2 => exact .nil _ _

/-- The accesses of all definitions in a text go up. -/
theorem Found.ascend_accesses {position : Position} {text : List Char}
    {definitions : List Definition} (found : Found position text definitions) :
    Ascend position (position.after text) ((definitions.flatMap accesses).map Access.position) := by
  induction found with
  | nothing => exact .nil _ _
  | @block position header body rest later absent closed _ ih =>
      have inner : Ascend position (position.after (header ++ '\x7b' :: (body ++ ['\x7d'])))
          (((ofBlock? position header body).toList.flatMap accesses).map Access.position) := by
        cases given : ofBlock? position header body with
        | none => exact .nil _ _
        | some definition =>
            obtain ⟨found, -, rfl⟩ := Option.map_eq_some_iff.mp given
            rw [Option.toList_some, List.flatMap_singleton]
            refine (Definition.ascend_accesses _).widen (upTo_after _ _) ?_
            have closing : position.after (header ++ '\x7b' :: (body ++ ['\x7d'])) =
                ((position.after (header ++ ['\x7b'])).after body).after ['\x7d'] := by
              rw [← Position.after_append, ← Position.after_append]
              simp only [List.append_assoc, List.singleton_append]
            rw [closing]
            exact upTo_after _ _
      have split : header ++ '\x7b' :: (body ++ '\x7d' :: rest) =
          header ++ '\x7b' :: (body ++ ['\x7d']) ++ rest := by simp
      rw [List.flatMap_append, List.map_append, split, Position.after_append]
      exact inner.append ih (upTo_after _ _) (upTo_after _ _)

/-- What a text is split into are definitions of it. -/
theorem mem_of_split {definitions subroutines : List Definition} {entry : Definition}
    (given : split definitions = .ok (entry, subroutines)) :
    entry ∈ definitions ∧ ∀ definition ∈ subroutines, definition ∈ definitions := by
  rw [split] at given
  split at given
  case h_1 => cases given
  case h_2 =>
    split at given
    case h_1 => cases given
    case h_2 found =>
      cases given
      exact ⟨List.mem_of_find?_eq_some found, fun definition member =>
        (List.mem_filter.mp member).1⟩

end Definition

/-! ## Programs -/

/-- The accesses in the body of a function. -/
def ParsedFunction.accesses (function : ParsedFunction) : List Access :=
  Statement.listAccesses function.body

/-- A function has the accesses of the definition that it is parsed from. -/
theorem ParsedFunction.accesses_of_ofDefinition {definition : Definition}
    {function : ParsedFunction} (parsed : ofDefinition definition = .ok function) :
    function.accesses = definition.accesses := by
  rw [ofDefinition] at parsed
  rw [Definition.accesses]
  split at parsed
  case h_1 => cases parsed
  case h_2 statements read =>
    cases parsed
    rw [read]
    rfl

namespace ParsedProgram

/-- The accesses in the bodies of all functions. -/
def accesses (program : ParsedProgram) : List Access :=
  program.entry.accesses ++ program.subroutines.flatMap ParsedFunction.accesses

/-- Functions that are parsed from definitions have accesses of these. -/
theorem mem_of_mapM {definitions : List Definition} {functions : List ParsedFunction}
    {access : Access} (parsed : definitions.mapM ParsedFunction.ofDefinition = .ok functions)
    (member : access ∈ functions.flatMap ParsedFunction.accesses) :
    access ∈ definitions.flatMap Definition.accesses := by
  induction definitions generalizing functions with
  | nil =>
      cases parsed
      exact member
  | cons definition others ih =>
      rw [List.mapM_cons] at parsed
      obtain ⟨function, here, parsed⟩ := bind_eq_ok.mp parsed
      obtain ⟨later, there, done⟩ := bind_eq_ok.mp parsed
      cases pure_eq_ok.mp done
      rw [List.flatMap_cons, List.mem_append,
        ParsedFunction.accesses_of_ofDefinition here] at member
      rw [List.flatMap_cons, List.mem_append]
      exact member.imp_right (ih there)

/-- **The place of an access tells which one it is.** No two accesses of a program have the same
place. -/
theorem eq_of_position_eq {source : String} {program : ParsedProgram}
    (parsed : ofSource source = .ok program) {first second : Access}
    (member : first ∈ program.accesses) (otherMember : second ∈ program.accesses)
    (same : first.position = second.position) : first = second := by
  rw [ofSource] at parsed
  obtain ⟨definitions, found, parsed⟩ := bind_eq_ok.mp parsed
  obtain ⟨⟨entry, subroutines⟩, split, parsed⟩ := bind_eq_ok.mp parsed
  obtain ⟨function, entryParsed, parsed⟩ := bind_eq_ok.mp parsed
  obtain ⟨functions, subroutinesParsed, done⟩ := bind_eq_ok.mp parsed
  cases pure_eq_ok.mp done
  obtain ⟨entryMember, subroutinesMember⟩ := Definition.mem_of_split split
  have defined {access : Access} (member : access ∈ accesses ⟨function, functions⟩) :
      access ∈ definitions.flatMap Definition.accesses := by
    rcases List.mem_append.mp member with member | member
    · rw [ParsedFunction.accesses_of_ofDefinition entryParsed] at member
      exact List.mem_flatMap.mpr ⟨entry, entryMember, member⟩
    · obtain ⟨definition, isSubroutine, member⟩ :=
        List.mem_flatMap.mp (mem_of_mapM subroutinesParsed member)
      exact List.mem_flatMap.mpr ⟨definition, subroutinesMember definition isSubroutine, member⟩
  exact List.inj_on_of_nodup_map (Definition.find_eq_ok_iff.mp found).ascend_accesses.nodup
    (defined member) (defined otherMember) same

end ParsedProgram

end LineRobot
