import LineRobot.Code.Assembly
import LineRobot.Routine.Resolution
import LineRobot.Source.Cleaning

/-! # Programs

A program is the code of an entry function and of its subroutines. `Program.compile` makes one of a
source text: the text is cleaned, its definitions are found and split, their bodies become routines,
and the routines become code. Every stage goes through the entry function first and then through the
subroutines in the order of the source; the first failure is the one reported. -/

namespace LineRobot

/-- A compiled program. Its functions are numbered: zero is the entry function, and the subroutines
follow in the order of the source. -/
structure Program where
  /-- The entry function, which has no parameters. -/
  entry : Code
  /-- The other functions, in the order of the source. -/
  subroutines : Array Code
deriving DecidableEq, Repr

namespace Program

/-- The function with a given number. -/
def function? (program : Program) : Nat → Option Code
  | 0 => some program.entry
  | index + 1 => program.subroutines[index]?

/-- All functions in the order of their numbers. -/
def functions (program : Program) : List Code :=
  program.entry :: program.subroutines.toList

/-- The subroutine with a given name. -/
def subroutine? (program : Program) (name : String) : Option Code :=
  program.subroutines.find? fun code => code.name = name

/-- The table of the given subroutines, which must not have reserved names; the first one has the
given number. -/
def tableFrom (index : Nat) : List Routine → Except Rejection FunctionTable
  | [] => return []
  | routine :: others => do
    if Vocabulary.isReserved routine.name then
      throw (.located (.reserved routine.name) routine.position)
    let table ← tableFrom (index + 1) others
    return (routine.name, ⟨index, routine.parameters.length⟩) :: table

/-- The code of subroutines, in order. -/
def subroutineCodes (functions : FunctionTable) : List Routine → Except Rejection (List Code)
  | [] => return []
  | routine :: others => do
    let code ← routine.code functions routine.parameters
    let codes ← subroutineCodes functions others
    return code :: codes

/-- The program of an entry routine and its subroutines. Parameters of the entry routine have no
meaning, as it is started without arguments. -/
def ofRoutines (entry : Routine) (subroutines : List Routine) : Except Rejection Program := do
  let functions ← tableFrom 1 subroutines
  let entryCode ← entry.code functions []
  let codes ← subroutineCodes functions subroutines
  return ⟨entryCode, codes.toArray⟩

/-- The routines of definitions, in order. -/
def routines (names : List String) : List Definition → Except Rejection (List Routine)
  | [] => return []
  | definition :: others => do
    let routine ← Routine.ofDefinition names definition
    let routines ← routines names others
    return routine :: routines

/-- The program of a source text, in which the given names are taken for subroutines besides those
defined. -/
def compileWith (names : List String) (source : String) : Except Rejection Program := do
  let definitions ← Definition.all (Source.clean source.toList)
  let (entry, subroutines) ← Definition.split definitions
  let names := subroutines.map Definition.name ++ names
  let entryRoutine ← Routine.ofDefinition names entry
  let routines ← routines names subroutines
  ofRoutines entryRoutine routines

/-- The program of a source text. -/
def compile (source : String) : Except Rejection Program :=
  compileWith [] source

end Program

end LineRobot
