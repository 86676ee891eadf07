import LineRobot.Toml.Value

/-! # Tables in the making

A document names its tables piece by piece: by headers `[a.b]`, by headers of elements `[[a.b]]` and
by dotted names `a.b = 1`. A `Draft` is what a name stands for so far, and says what may still be
added to it:

* a header may name a table once, unless a dotted name has made it; headers may pass through every
  table that is not written as one value,
* a dotted name may pass through tables without a header of their own, but writes its value only
  into the table that it is in or into one that dotted names have made,
* an element header adds a table to an array of such tables, and a name that passes through the
  array passes through its latest table.

Each operation has no result where this would be violated. -/

namespace LineRobot.Toml

/-- How a table has been made. -/
inductive Origin where
  /-- By its own header. -/
  | header
  /-- By a header that passes through it. -/
  | passage
  /-- By a dotted name. -/
  | dotted
deriving DecidableEq, Repr

/-- What a name stands for so far. -/
inductive Draft where
  /-- A value that nothing can be added to. -/
  | value (value : Value)
  /-- A table. -/
  | table (origin : Origin) (entries : List (String × Draft))
  /-- The tables of an array, the latest first. -/
  | tables (elements : List (List (String × Draft)))

/-- The entries of a table in the making. -/
abbrev Drafts : Type := List (String × Draft)

/-- A dotted name: the names of the tables on the way, and the name in the last of them. -/
structure Key where
  /-- The names of the tables on the way. -/
  parents : List String
  /-- The name in the last of these tables. -/
  name : String
deriving DecidableEq, Repr

/-- All parts of a dotted name. -/
def Key.path (key : Key) : List String :=
  key.parents ++ [key.name]

namespace Drafts

/-- The entries with what one name stands for changed; the name is added if there is no such
entry. -/
def alter (name : String) (change : Option Draft → Option Draft) : Drafts → Option Drafts
  | [] => (change none).map fun draft => [(name, draft)]
  | (other, draft) :: rest =>
    if other = name then
      (change (some draft)).map fun draft => (other, draft) :: rest
    else
      (alter name change rest).map fun rest => (other, draft) :: rest

/-- The entries with those of the table at a path changed, as a header reaches it. -/
def alterAt (change : Drafts → Option Drafts) : List String → Drafts → Option Drafts
  | [], entries => change entries
  | name :: path, entries =>
    alter name (fun
      | none => (alterAt change path []).map (.table .passage)
      | some (.table origin entries) => (alterAt change path entries).map (.table origin)
      | some (.tables (latest :: earlier)) =>
        (alterAt change path latest).map fun latest => .tables (latest :: earlier)
      | some _ => none) entries

/-- The entries after a value has been written under a dotted name. `receives` says whether the
innermost table on the way so far may receive a value. -/
def insert (name : String) (value : Value) (receives : Bool) :
    List String → Drafts → Option Drafts
  | [], entries =>
    if receives then
      alter name (fun
        | none => some (.value value)
        | some _ => none) entries
    else none
  | parent :: parents, entries =>
    alter parent (fun
      | none => (insert name value true parents []).map (.table .dotted)
      | some (.table .dotted entries) =>
        (insert name value true parents entries).map (.table .dotted)
      | some (.table .passage entries) =>
        (insert name value false parents entries).map (.table .passage)
      | some (.tables (latest :: earlier)) =>
        (insert name value false parents latest).map fun latest => .tables (latest :: earlier)
      | some _ => none) entries

/-- The entries after a value has been written under a dotted name in a table of its own. -/
def insertKey (key : Key) (value : Value) (entries : Drafts) : Option Drafts :=
  insert key.name value true key.parents entries

/-- The entries after the header of a table. -/
def openTable (key : Key) (entries : Drafts) : Option Drafts :=
  alterAt
    (alter key.name fun
      | none => some (.table .header [])
      | some (.table .passage entries) => some (.table .header entries)
      | some _ => none)
    key.parents entries

/-- The entries after the header of an element. -/
def openElement (key : Key) (entries : Drafts) : Option Drafts :=
  alterAt
    (alter key.name fun
      | none => some (.tables [[]])
      | some (.tables elements) => some (.tables ([] :: elements))
      | some _ => none)
    key.parents entries

end Drafts

mutual

/-- The value that a name stands for in the end. -/
def Draft.finish : Draft → Value
  | .value value => value
  | .table _ entries => .table (Drafts.finish entries)
  | .tables elements => .array (Drafts.finishAll elements).reverse

/-- The finished table. -/
def Drafts.finish : List (String × Draft) → List (String × Value)
  | [] => []
  | (name, draft) :: rest => (name, draft.finish) :: Drafts.finish rest

/-- The finished tables, in the given order. -/
def Drafts.finishAll : List (List (String × Draft)) → List Value
  | [] => []
  | entries :: rest => .table (Drafts.finish entries) :: Drafts.finishAll rest

end

/-- The table that values written under dotted names make up. -/
def Table.ofPairs? (pairs : List (Key × Value)) : Option Table :=
  (pairs.foldlM (fun entries pair => Drafts.insertKey pair.1 pair.2 entries) []).map
    Drafts.finish

end LineRobot.Toml
