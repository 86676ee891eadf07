import Mathlib.Data.List.Basic
import LineRobot.Source.Definition

/-! # Braces are matched as with a stack

`Braces.ofText` matches the braces of a whole text with a stack: an opening brace waits on it until
a closing brace takes it away, and a closing brace that finds nothing waiting is ignored. The pairs
made so are nested (`Braces.Nested`). `Definition.find` goes from one block to the next and only
counts inside a block. Both see the same: a block is an outermost pair
(`Braces.exists_readAll_block`), and a brace that counting does not find closed stays at the bottom
of the stack (`Braces.getLast?_readAll_of_unclosed`). -/

namespace LineRobot

/-- What has become of the braces of a text that is read from left to right. A brace is given by its
index. -/
structure Braces where
  /-- The opening braces that have not been closed, the latest first. -/
  waiting : List Nat
  /-- The opening and the closing brace of each pair, in the order of the closing braces. -/
  pairs : List (Nat × Nat)
  /-- The closing braces that came when nothing was waiting. -/
  ignored : List Nat
deriving DecidableEq, Repr

namespace Braces

/-- No brace has been read. -/
def none : Braces :=
  ⟨[], [], []⟩

/-- The braces after one more character, which stands at the given index. -/
def read (braces : Braces) (index : Nat) (character : Char) : Braces :=
  if character = '\x7b' then
    { braces with waiting := index :: braces.waiting }
  else if character = '\x7d' then
    match braces.waiting with
    | [] => { braces with ignored := braces.ignored ++ [index] }
    | opening :: outer =>
        { braces with waiting := outer, pairs := braces.pairs ++ [(opening, index)] }
  else
    braces

/-- The braces after further text, whose first character stands at the given index. -/
def readAll (braces : Braces) (index : Nat) : List Char → Braces
  | [] => braces
  | character :: rest => (braces.read index character).readAll (index + 1) rest

/-- The braces of a text. -/
def ofText (text : List Char) : Braces :=
  none.readAll 0 text

/-- The one pair stands around the other. -/
def Encloses (outer inner : Nat × Nat) : Prop :=
  outer.1 < inner.1 ∧ inner.2 < outer.2

/-- Two pairs are compared by their braces. -/
instance (outer inner : Nat × Nat) : Decidable (Encloses outer inner) :=
  inferInstanceAs (Decidable (outer.1 < inner.1 ∧ inner.2 < outer.2))

/-- The pairs that stand inside no other pair. -/
def outermost (pairs : List (Nat × Nat)) : List (Nat × Nat) :=
  pairs.filter fun pair => ∀ other ∈ pairs, ¬ Encloses other pair

/-- The first of the braces that have not been closed stands at the given index. -/
def IsFirstWaiting (braces : Braces) (first : Nat) : Prop :=
  first ∈ braces.waiting ∧ ∀ other ∈ braces.waiting, first ≤ other

/-- All braces of a text are in pairs. -/
def AllMatch (text : List Char) : Prop :=
  (ofText text).waiting = [] ∧ (ofText text).ignored = []

variable {braces : Braces} {start index depth : Nat} {text header body inside rest : List Char}

/-! ## Reading -/

/-- Texts in a row are read one after the other. -/
theorem readAll_append (braces : Braces) (index : Nat) (text rest : List Char) :
    braces.readAll index (text ++ rest) = (braces.readAll index text).readAll
      (index + text.length) rest := by
  induction text generalizing braces index with
  | nil => rfl
  | cons character text ih =>
      rw [List.cons_append, readAll, ih, readAll, List.length_cons,
        Nat.add_right_comm, Nat.add_assoc]

/-- An opening brace waits. -/
theorem read_opening (braces : Braces) (index : Nat) :
    braces.read index '\x7b' = { braces with waiting := index :: braces.waiting } := rfl

/-- A closing brace takes the latest opening brace. -/
theorem read_closing (opening index : Nat) (outer : List Nat) (pairs : List (Nat × Nat))
    (ignored : List Nat) :
    read ⟨opening :: outer, pairs, ignored⟩ index '\x7d' = ⟨outer, pairs ++ [(opening, index)],
      ignored⟩ := rfl

/-- A closing brace is ignored if nothing is waiting. -/
theorem read_ignored (index : Nat) (pairs : List (Nat × Nat)) (ignored : List Nat) :
    read ⟨[], pairs, ignored⟩ index '\x7d' = ⟨[], pairs, ignored ++ [index]⟩ := rfl

/-- Other characters do not matter. -/
theorem read_of_ne {character : Char} (noOpening : character ≠ '\x7b')
    (noClosing : character ≠ '\x7d') (braces : Braces) (index : Nat) :
    braces.read index character = braces := by
  rw [read, if_neg noOpening, if_neg noClosing]

/-- What has been matched and ignored before does not matter. -/
theorem readAll_eq (braces : Braces) (index : Nat) (text : List Char) :
    braces.readAll index text =
      { waiting := (readAll ⟨braces.waiting, [], []⟩ index text).waiting
        pairs := braces.pairs ++ (readAll ⟨braces.waiting, [], []⟩ index text).pairs
        ignored := braces.ignored ++ (readAll ⟨braces.waiting, [], []⟩ index text).ignored } := by
  induction text generalizing braces index with
  | nil => simp [readAll]
  | cons character text ih =>
      have step : braces.read index character =
          { waiting := (read ⟨braces.waiting, [], []⟩ index character).waiting
            pairs := braces.pairs ++ (read ⟨braces.waiting, [], []⟩ index character).pairs
            ignored :=
          braces.ignored ++ (read ⟨braces.waiting, [], []⟩ index character).ignored } := by
        obtain ⟨waiting, pairs, ignored⟩ := braces
        unfold read
        split
        · simp
        · split
          · cases waiting <;> simp
          · simp
      rw [readAll, ih, step]
      dsimp only
      rw [readAll, ih (read ⟨braces.waiting, [], []⟩ index character)]
      simp only [List.append_assoc]

/-! ## Pairs are nested -/

/-- The braces that have been read stand between two indices, and two pairs stand one after the
other or one inside the other. -/
structure Nested (start index : Nat) (braces : Braces) : Prop where
  /-- Of the braces waiting the latest stands last. -/
  sorted : braces.waiting.Pairwise (· > ·)
  /-- The braces waiting have been read. -/
  waiting_bounds : ∀ opening ∈ braces.waiting, start ≤ opening ∧ opening < index
  /-- A pair is opened before it is closed, and it has been read. -/
  pair_bounds : ∀ pair ∈ braces.pairs, start ≤ pair.1 ∧ pair.1 < pair.2 ∧ pair.2 < index
  /-- A brace that waits does not stand inside a pair. -/
  apart : ∀ opening ∈ braces.waiting, ∀ pair ∈ braces.pairs, pair.2 < opening ∨ opening < pair.1
  /-- A pair that is closed later is opened after the end of the other, or before its beginning. -/
  pairwise : braces.pairs.Pairwise fun earlier later =>
    earlier.2 < later.2 ∧ (earlier.2 < later.1 ∨ later.1 < earlier.1)

/-- Nothing has to be nested at first. -/
theorem nested_none (start : Nat) : Nested start start none :=
  ⟨.nil, nofun, nofun, nofun, .nil⟩

/-- A character that is read leaves the pairs nested. -/
theorem Nested.read (nested : Nested start index braces) (reached : start ≤ index)
    (character : Char) :
    Nested start (index + 1) (braces.read index character) := by
  obtain ⟨waiting, pairs, ignored⟩ := braces
  obtain ⟨sorted, waiting_bounds, pair_bounds, apart, pairwise⟩ := nested
  have waits (opening : Nat) (member : opening ∈ waiting) : start ≤ opening ∧ opening < index + 1 :=
    ⟨(waiting_bounds opening member).1, Nat.lt_succ_of_lt (waiting_bounds opening member).2⟩
  have paired (pair : Nat × Nat) (member : pair ∈ pairs) :
      start ≤ pair.1 ∧ pair.1 < pair.2 ∧ pair.2 < index + 1 := by
    obtain ⟨first, proper, last⟩ := pair_bounds pair member
    exact ⟨first, proper, Nat.lt_succ_of_lt last⟩
  by_cases opens : character = '\x7b'
  · subst opens
    refine ⟨List.pairwise_cons.mpr ⟨fun opening member =>
      (waiting_bounds opening member).2, sorted⟩,
      fun opening member => ?_, paired, fun opening member pair inPairs => ?_, pairwise⟩
    · rcases List.mem_cons.mp member with rfl | member
      · exact ⟨reached, Nat.lt_succ_self opening⟩
      · exact waits opening member
    · rcases List.mem_cons.mp member with rfl | member
      · exact .inl (pair_bounds pair inPairs).2.2
      · exact apart opening member pair inPairs
  by_cases closes : character = '\x7d'
  · subst closes
    cases waiting with
    | nil => exact ⟨.nil, nofun, paired, nofun, pairwise⟩
    | cons opening outer =>
        obtain ⟨below, sorted⟩ := List.pairwise_cons.mp sorted
        have outside (other : Nat) (member : other ∈ outer) : other ∈ opening :: outer :=
          List.mem_cons_of_mem opening member
        refine ⟨sorted, fun other member => waits other (outside other member),
          fun pair member => ?_,
          fun other waiting pair member =>
            ?_, List.pairwise_append.mpr ⟨pairwise, List.pairwise_singleton _ _,
            fun earlier member pair closed => ?_⟩⟩
        · rcases List.mem_append.mp member with member | closed
          · exact paired pair member
          · obtain rfl := List.mem_singleton.mp closed
            obtain ⟨first, proper⟩ := waiting_bounds opening List.mem_cons_self
            exact ⟨first, proper, Nat.lt_succ_self index⟩
        · rcases List.mem_append.mp member with member | closed
          · exact apart other (outside other waiting) pair member
          · -- what still waits was opened before the brace that is taken away
            obtain rfl := List.mem_singleton.mp closed
            exact .inr (below other waiting)
        · -- the brace taken away waited, so that it does not stand inside an earlier pair
          obtain rfl := List.mem_singleton.mp closed
          exact ⟨(pair_bounds earlier member).2.2, apart opening List.mem_cons_self earlier member⟩
  · rw [read_of_ne opens closes]
    exact ⟨sorted, waits, paired, apart, pairwise⟩

/-- Text that is read leaves the pairs nested. -/
theorem Nested.readAll (nested : Nested start index braces) (reached : start ≤ index)
    (text : List Char) :
    Nested start (index + text.length) (braces.readAll index text) := by
  induction text generalizing braces index with
  | nil => exact nested
  | cons character text ih =>
      rw [List.length_cons, ← Nat.add_assoc, Nat.add_right_comm]
      exact ih (nested.read reached character) (Nat.le_succ_of_le reached)

/-- The pairs of a text are nested. -/
theorem nested_ofText (text : List Char) : Nested 0 text.length (ofText text) := by
  have nested := (nested_none 0).readAll (Nat.le_refl 0) text
  rwa [Nat.zero_add] at nested

/-- Of nested braces the first that waits is at the bottom of the stack. -/
theorem Nested.getLast?_eq_some_iff (nested : Nested start index braces) {first : Nat} :
    braces.waiting.getLast? = some first ↔ braces.IsFirstWaiting first := by
  have sorted := nested.sorted
  unfold IsFirstWaiting
  rcases List.eq_nil_or_concat' braces.waiting with empty | ⟨more, last, whole⟩
  · rw [empty]
    exact ⟨nofun, fun waits => absurd waits.1 List.not_mem_nil⟩
  rw [whole, List.pairwise_append] at sorted
  have later (other : Nat) (member : other ∈ more) : last < other :=
    sorted.2.2 other member last (List.mem_singleton_self last)
  rw [whole, List.getLast?_concat, Option.some.injEq]
  constructor
  · rintro rfl
    refine ⟨List.mem_append_right more (List.mem_singleton_self last), fun other member => ?_⟩
    rcases List.mem_append.mp member with member | same
    · exact Nat.le_of_lt (later other member)
    · exact Nat.le_of_eq (List.mem_singleton.mp same).symm
  · rintro ⟨member, least⟩
    rcases List.mem_append.mp member with member | same
    · have below := least last (List.mem_append_right more (List.mem_singleton_self last))
      exact absurd (later first member) (Nat.not_lt.mpr below)
    · exact (List.mem_singleton.mp same).symm

/-- A pair is outermost if no pair encloses it. -/
theorem mem_outermost {pairs : List (Nat × Nat)} {pair : Nat × Nat} :
    pair ∈ outermost pairs ↔ pair ∈ pairs ∧ ∀ other ∈ pairs, ¬ Encloses other pair := by
  rw [outermost, List.mem_filter, decide_eq_true_eq]

/-- Outermost pairs stand one after the other. -/
theorem Nested.pairwise_outermost (nested : Nested start index braces) :
    (outermost braces.pairs).Pairwise fun earlier later => earlier.2 < later.1 := by
  refine (nested.pairwise.filter _).imp_of_mem fun {earlier later} inEarlier inLater apart => ?_
  obtain ⟨closed, behind | before⟩ := apart
  · exact behind
  · -- the later pair would enclose the earlier one
    exact absurd ⟨before,
      closed⟩ ((mem_outermost.mp inEarlier).2 later (mem_outermost.mp inLater).1)

/-- If the pairs inside a pair come before it, and those behind it after it, it is the first of the
outermost. -/
theorem outermost_append_cons {inner later : List (Nat × Nat)} {pair : Nat × Nat}
    (proper : pair.1 < pair.2) (inside : ∀ other ∈ inner, Encloses pair other)
    (behind : ∀ other ∈ later, pair.2 < other.1 ∧ pair.2 < other.2) :
    outermost (inner ++ pair :: later) = pair :: outermost later := by
  have passed (other : Nat × Nat) (member : other ∈ inner) :
      ¬ ∀ outer ∈ inner ++ pair :: later, ¬ Encloses outer other := fun outermost =>
    outermost pair (List.mem_append_right inner List.mem_cons_self) (inside other member)
  have kept : ∀ outer ∈ inner ++ pair :: later, ¬ Encloses outer pair := by
    intro outer member encloses
    rcases List.mem_append.mp member with member | member
    · exact Nat.lt_asymm encloses.1 (inside outer member).1
    rcases List.mem_cons.mp member with rfl | member
    · exact Nat.lt_irrefl _ encloses.1
    · exact Nat.lt_asymm encloses.1 (Nat.lt_trans proper (behind outer member).1)
  have same (other : Nat × Nat) (member : other ∈ later) :
      (∀ outer ∈ inner ++ pair :: later, ¬ Encloses outer other) ↔ ∀ outer ∈ later,
        ¬ Encloses outer other := by
    have ends := (behind other member).2
    refine ⟨fun outermost outer member => ?_, fun outermost outer member encloses => ?_⟩
    · exact outermost outer (List.mem_append_right inner (List.mem_cons_of_mem pair member))
    rcases List.mem_append.mp member with member | member
    · exact Nat.lt_asymm encloses.2 (Nat.lt_trans (inside outer member).2 ends)
    rcases List.mem_cons.mp member with rfl | member
    · exact Nat.lt_asymm encloses.2 ends
    · exact outermost outer member encloses
  unfold outermost
  rw [List.filter_append, List.filter_cons_of_pos, List.filter_eq_nil_iff.mpr, List.nil_append]
  · congr 1
    exact List.filter_congr fun other member => decide_eq_decide.mpr (same other member)
  · exact fun other member fits => passed other member (of_decide_eq_true fits)
  · exact decide_eq_true kept

/-! ## Counting

Counting goes with the braces that have been opened inside: they are at the top of the stack, and
there are as many of them as have been counted. -/

/-- Up to the brace that counting finds, the braces counted are closed, and all that are opened on
the way. -/
theorem exists_readAll_inside {top : List Nat}
    (closed : Definition.splitAtClosing top.length text = some (inside, rest)) (below : List Nat)
    (pairs : List (Nat × Nat)) (ignored : List Nat) (index : Nat) :
    ∃ matched, readAll ⟨top ++ below, pairs, ignored⟩ index inside = ⟨below, matched, ignored⟩ := by
  induction text generalizing inside top pairs index with
  | nil => cases closed
  | cons character text ih =>
      -- the character goes inside, and the given braces are counted after it
      have step (counted : List Nat) (matched : List (Nat × Nat))
          (closed : (Definition.splitAtClosing counted.length text).map
            (fun parts => (character :: parts.1, parts.2)) = some (inside, rest))
          (reading : read ⟨top ++ below, pairs, ignored⟩ index character = ⟨counted ++ below,
            matched, ignored⟩) :
          ∃ matched, readAll ⟨top ++ below, pairs, ignored⟩ index inside =
            ⟨below, matched, ignored⟩ := by
        obtain ⟨⟨before, after⟩, found, same⟩ := Option.map_eq_some_iff.mp closed
        cases same
        rw [readAll, reading]
        exact ih found matched (index + 1)
      unfold Definition.splitAtClosing at closed
      by_cases opens : character = '\x7b'
      · rw [if_pos opens] at closed
        subst opens
        exact step (index :: top) pairs closed (read_opening ⟨top ++ below, pairs, ignored⟩ index)
      rw [if_neg opens] at closed
      by_cases closes : character = '\x7d'
      · rw [if_pos closes] at closed
        subst closes
        cases top with
        | nil =>
            -- this is the brace that counting finds, and nothing is left to read
            cases closed
            exact ⟨pairs, rfl⟩
        | cons opening top =>
            exact step top (pairs ++ [(opening, index)]) closed
              (read_closing opening index (top ++ below) pairs ignored)
      rw [if_neg closes] at closed
      exact step top pairs closed (read_of_ne opens closes _ index)

/-- If counting does not find a closing brace, those that waited below the braces counted still
wait. -/
theorem exists_waiting_of_unclosed {top : List Nat}
    (unclosed : Definition.splitAtClosing top.length text = .none) (below : List Nat)
    (pairs : List (Nat × Nat)) (ignored : List Nat) (index : Nat) :
    ∃ more, (readAll ⟨top ++ below, pairs, ignored⟩ index text).waiting = more ++ below := by
  induction text generalizing top pairs index with
  | nil => exact ⟨top, rfl⟩
  | cons character text ih =>
      rw [readAll]
      unfold Definition.splitAtClosing at unclosed
      by_cases opens : character = '\x7b'
      · rw [if_pos opens, Option.map_eq_none_iff] at unclosed
        subst opens
        have counted : Definition.splitAtClosing (index :: top).length text = .none := unclosed
        exact ih counted pairs (index + 1)
      rw [if_neg opens] at unclosed
      by_cases closes : character = '\x7d'
      · rw [if_pos closes] at unclosed
        subst closes
        cases top with
        | nil => cases unclosed
        | cons opening top =>
            rw [List.cons_append, read_closing]
            exact ih (Option.map_eq_none_iff.mp unclosed) _ (index + 1)
      rw [if_neg closes, Option.map_eq_none_iff] at unclosed
      rw [read_of_ne opens closes]
      exact ih unclosed pairs (index + 1)

/-- Text without an opening brace leaves nothing waiting, if nothing waits before it. -/
theorem exists_readAll_of_notMem (absent : '\x7b' ∉ text) (index : Nat) (ignored : List Nat) :
    ∃ more, readAll ⟨[], [], ignored⟩ index text = ⟨[], [], more⟩ := by
  induction text generalizing index ignored with
  | nil => exact ⟨ignored, rfl⟩
  | cons character text ih =>
      have opens : character ≠ '\x7b' := fun same => absent (same ▸ List.mem_cons_self)
      have later : '\x7b' ∉ text := fun member => absent (List.mem_cons_of_mem character member)
      rw [readAll]
      by_cases closes : character = '\x7d'
      · subst closes
        rw [read_ignored]
        exact ih later (index + 1) (ignored ++ [index])
      · rw [read_of_ne opens closes]
        exact ih later (index + 1) ignored

/-- **A block is an outermost pair**, made of the braces at the given indices: the pairs of its body
come before it and stand inside it. Then the rest is read. -/
theorem exists_readAll_block {opening closing : Nat} (absent : '\x7b' ∉ header)
    (closed : Definition.splitAtClosing 0 (body ++ '\x7d' :: rest) = some (body, rest))
    (opens : index + header.length = opening) (closes : opening + 1 + body.length = closing) :
    ∃ inner ignored,
      none.readAll index (header ++ '\x7b' :: (body ++ '\x7d' :: rest)) =
        { waiting := (none.readAll (closing + 1) rest).waiting
          pairs := inner ++ (opening, closing) :: (none.readAll (closing + 1) rest).pairs
          ignored := ignored ++ (none.readAll (closing + 1) rest).ignored } ∧
      ∀ pair ∈ inner, Encloses (opening, closing) pair := by
  subst opens closes
  obtain ⟨ignored, before⟩ := exists_readAll_of_notMem absent index []
  have counted : Definition.splitAtClosing ([] : List Nat).length (body ++ '\x7d' :: rest) =
      some (body, rest) :=
    closed
  obtain ⟨inner, between⟩ := exists_readAll_inside counted [index + header.length] [] ignored
    (index + header.length + 1)
  refine ⟨inner, ignored, ?_, fun pair member => ?_⟩
  · rw [readAll_append, none, before, readAll, read_opening, readAll_append]
    rw [List.nil_append] at between
    rw [between, readAll, read_closing, readAll_eq]
    simp
  · -- a pair made in the body lies between the opening brace, which waits, and the closing one
    have opened : Nested (index + header.length) (index + header.length + 1)
        ⟨[index + header.length], [], ignored⟩ :=
      ⟨List.pairwise_singleton _ _, by simp, nofun, nofun, .nil⟩
    have nested := opened.readAll (Nat.le_succ _) body
    rw [List.nil_append] at between
    rw [between] at nested
    obtain ⟨first, proper, last⟩ := nested.pair_bounds pair member
    have apart := nested.apart _ (List.mem_singleton_self _) pair member
    unfold Encloses
    omega

/-- What waits after a block waits after the rest. -/
theorem waiting_readAll_block {opening closing : Nat} (absent : '\x7b' ∉ header)
    (closed : Definition.splitAtClosing 0 (body ++ '\x7d' :: rest) = some (body, rest))
    (opens : index + header.length = opening) (closes : opening + 1 + body.length = closing) :
    (none.readAll index (header ++ '\x7b' :: (body ++ '\x7d' :: rest))).waiting =
      (none.readAll (closing + 1) rest).waiting := by
  obtain ⟨inner, ignored, done, -⟩ := exists_readAll_block absent closed opens closes
  rw [done]

/-- The outermost pairs are that of the block and those of the rest. -/
theorem outermost_readAll_block {opening closing : Nat} (absent : '\x7b' ∉ header)
    (closed : Definition.splitAtClosing 0 (body ++ '\x7d' :: rest) = some (body, rest))
    (opens : index + header.length = opening) (closes : opening + 1 + body.length = closing) :
    outermost (none.readAll index (header ++ '\x7b' :: (body ++ '\x7d' :: rest))).pairs =
      (opening, closing) :: outermost (none.readAll (closing + 1) rest).pairs := by
  obtain ⟨inner, ignored, done, inside⟩ := exists_readAll_block absent closed opens closes
  have nested := (nested_none (closing + 1)).readAll (Nat.le_refl _) rest
  have proper : opening < closing := by omega
  rw [done]
  refine outermost_append_cons proper inside fun other member => ?_
  obtain ⟨first, proper, -⟩ := nested.pair_bounds other member
  exact ⟨first, Nat.lt_trans first proper⟩

/-- Of an ignored brace, two blocks and a brace that is never closed, the blocks are outermost. -/
example :
    ofText "\x7d\x7b\x7b\x7d\x7d\x7b\x7d\x7b".toList = ⟨[7], [(2, 3), (1, 4), (5, 6)], [0]⟩ ∧
      outermost [(2, 3), (1, 4), (5, 6)] = [(1, 4), (5, 6)] := by
  decide

/-- **A brace that counting does not find closed is the first to wait**, at the bottom of the
stack. -/
theorem getLast?_readAll_of_unclosed (absent : '\x7b' ∉ header)
    (unclosed : Definition.splitAtClosing 0 inside = .none) (index : Nat) :
    (none.readAll index (header ++ '\x7b' :: inside)).waiting.getLast? =
      some (index + header.length) := by
  obtain ⟨ignored, before⟩ := exists_readAll_of_notMem absent index []
  have counted : Definition.splitAtClosing ([] : List Nat).length inside = .none := unclosed
  obtain ⟨more, behind⟩ := exists_waiting_of_unclosed counted [index + header.length] [] ignored
    (index + header.length + 1)
  rw [List.nil_append] at behind
  rw [readAll_append, none, before, readAll, read_opening, behind, List.getLast?_concat]

/-- The braces of a body that counting finds are in pairs. -/
theorem allMatch_of_splitAtClosing (closed : Definition.splitAtClosing 0 text = some (body, rest)) :
    AllMatch body := by
  have counted : Definition.splitAtClosing ([] : List Nat).length text = some (body, rest) := closed
  obtain ⟨matched, done⟩ := exists_readAll_inside counted [] [] [] 0
  have whole : ofText body = ⟨[], matched, []⟩ := done
  rw [AllMatch, whole]
  exact ⟨rfl, rfl⟩

end Braces

end LineRobot
