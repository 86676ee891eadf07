import LineRobot.Text.Position
import LineRobot.Number.Decimal

/-! # Tokens of a function body

The words and signs that a function body is made of. Keywords and signs have one spelling each
(`Keyword.spelling`, `Sign.spelling`); numbers, characters and names carry their value.
`TokenKind.text` is how a message quotes a token. -/

namespace LineRobot

/-- The base types of declarations. They have no meaning beyond the declaration: every value is a
double. -/
inductive BaseType where
  | int | float | double | long | short | char | bool
deriving DecidableEq, Repr

/-- The words that are not names. -/
inductive Keyword where
  /-- The name of a base type. -/
  | base (type : BaseType)
  /-- The word `unsigned`. -/
  | unsigned
  /-- The word `const`. -/
  | const
  /-- The word `void`. -/
  | void
  /-- The word `if`. -/
  | ifWord
  /-- The word `else`. -/
  | elseWord
  /-- The word `while`. -/
  | whileWord
  /-- The word `do`. -/
  | doWord
  /-- The word `for`. -/
  | forWord
  /-- The word `break`. -/
  | breakWord
  /-- The word `continue`. -/
  | continueWord
  /-- The word `return`. -/
  | returnWord
deriving DecidableEq, Repr

/-- The signs of operators and punctuation. -/
inductive Sign where
  | plus | minus | star | slash | percent
  | equalEqual | notEqual | less | lessEqual | greater | greaterEqual
  | andAnd | orOr | bang | ampersand | bar | caret | tilde | shiftLeft | shiftRight
  | equal | plusEqual | minusEqual | starEqual | slashEqual | percentEqual
  | plusPlus | minusMinus | question | colon
  | leftParenthesis | rightParenthesis | leftBrace | rightBrace | leftBracket | rightBracket
  | semicolon | comma
deriving DecidableEq, Repr

/-- What a token is, wherever it stands. -/
inductive TokenKind where
  /-- A number literal with its value. -/
  | number (value : Float)
  /-- A character literal. -/
  | character (value : Char)
  /-- A name. -/
  | name (text : String)
  /-- A keyword. -/
  | keyword (word : Keyword)
  /-- A sign. -/
  | sign (mark : Sign)
deriving DecidableEq, Repr

/-- A token and the place of its first character. -/
structure Token where
  /-- What the token is. -/
  kind : TokenKind
  /-- The place of its first character. -/
  position : Position
deriving DecidableEq, Repr

/-- The name of a base type. -/
def BaseType.spelling : BaseType → String
  | int => "int"
  | float => "float"
  | double => "double"
  | long => "long"
  | short => "short"
  | char => "char"
  | bool => "bool"

namespace Keyword

/-- How a keyword is written. -/
def spelling : Keyword → String
  | base type => type.spelling
  | unsigned => "unsigned"
  | const => "const"
  | void => "void"
  | ifWord => "if"
  | elseWord => "else"
  | whileWord => "while"
  | doWord => "do"
  | forWord => "for"
  | breakWord => "break"
  | continueWord => "continue"
  | returnWord => "return"

/-- All keywords. -/
def all : List Keyword :=
  [base .int, base .float, base .double, base .long, base .short, base .char, base .bool, unsigned,
    const, void, ifWord, elseWord, whileWord, doWord, forWord, breakWord, continueWord, returnWord]

/-- The keyword with a given spelling. -/
def ofSpelling? (word : String) : Option Keyword :=
  all.find? fun keyword => keyword.spelling = word

/-- No keyword is missing from the list of all keywords. -/
theorem mem_all (keyword : Keyword) : keyword ∈ all := by
  cases keyword with
  | base type => cases type <;> decide
  | _ => decide

/-- The spelling of a keyword stands for that keyword. -/
theorem ofSpelling?_spelling (keyword : Keyword) :
    ofSpelling? keyword.spelling = some keyword := by
  cases keyword with
  | base type => cases type <;> decide
  | _ => decide

end Keyword

namespace Sign

/-- The sign that two characters make together. -/
def ofPair? : Char → Char → Option Sign
  | '+', '+' => some plusPlus
  | '-', '-' => some minusMinus
  | '+', '=' => some plusEqual
  | '-', '=' => some minusEqual
  | '*', '=' => some starEqual
  | '/', '=' => some slashEqual
  | '%', '=' => some percentEqual
  | '=', '=' => some equalEqual
  | '!', '=' => some notEqual
  | '<', '=' => some lessEqual
  | '>', '=' => some greaterEqual
  | '<', '<' => some shiftLeft
  | '>', '>' => some shiftRight
  | '&', '&' => some andAnd
  | '|', '|' => some orOr
  | _, _ => none

/-- The sign that one character makes alone. -/
def ofCharacter? : Char → Option Sign
  | '+' => some plus
  | '-' => some minus
  | '*' => some star
  | '/' => some slash
  | '%' => some percent
  | '=' => some equal
  | '!' => some bang
  | '<' => some less
  | '>' => some greater
  | '&' => some ampersand
  | '|' => some bar
  | '^' => some caret
  | '~' => some tilde
  | '?' => some question
  | ':' => some colon
  | '(' => some leftParenthesis
  | ')' => some rightParenthesis
  | '\x7b' => some leftBrace
  | '\x7d' => some rightBrace
  | '[' => some leftBracket
  | ']' => some rightBracket
  | ';' => some semicolon
  | ',' => some comma
  | _ => none

/-- How a sign is written. -/
def spelling : Sign → String
  | plus => "+"
  | minus => "-"
  | star => "*"
  | slash => "/"
  | percent => "%"
  | equalEqual => "=="
  | notEqual => "!="
  | less => "<"
  | lessEqual => "<="
  | greater => ">"
  | greaterEqual => ">="
  | andAnd => "&&"
  | orOr => "||"
  | bang => "!"
  | ampersand => "&"
  | bar => "|"
  | caret => "^"
  | tilde => "~"
  | shiftLeft => "<<"
  | shiftRight => ">>"
  | equal => "="
  | plusEqual => "+="
  | minusEqual => "-="
  | starEqual => "*="
  | slashEqual => "/="
  | percentEqual => "%="
  | plusPlus => "++"
  | minusMinus => "--"
  | question => "?"
  | colon => ":"
  | leftParenthesis => "("
  | rightParenthesis => ")"
  | leftBrace => "\x7b"
  | rightBrace => "\x7d"
  | leftBracket => "["
  | rightBracket => "]"
  | semicolon => ";"
  | comma => ","

/-- The sign that a text begins with, the longest one possible, and the number of its characters
after the first. -/
def read? (first : Char) (rest : List Char) : Option (Sign × Nat) :=
  match rest.head?.bind (ofPair? first) with
  | some sign => some (sign, 1)
  | none => (ofCharacter? first).map fun sign => (sign, 0)

/-- The spelling of a sign is read as that sign. -/
theorem read?_spelling (sign : Sign) :
    ∃ first rest, sign.spelling.toList = first :: rest ∧
      read? first rest = some (sign, rest.length) := by
  cases sign <;> exact ⟨_, _, rfl, rfl⟩

end Sign

namespace TokenKind

/-- Whether a message can show a character as it is: a space or a visible ASCII character. -/
def isPlain (character : Char) : Bool :=
  decide (32 ≤ character.toNat ∧ character.toNat < 127)

/-- A code point in lower-case hexadecimal digits, at least two of them. -/
def codeText (character : Char) : String :=
  let digits := Nat.toDigits 16 character.toNat
  String.ofList (List.replicate (2 - digits.length) '0' ++ digits)

/-- How a message quotes a token. -/
def text : TokenKind → String
  | number value => "number " ++ Number.text value
  | character value =>
    if isPlain value then "char literal '" ++ String.singleton value ++ "'"
    else "char literal '\\x" ++ codeText value ++ "'"
  | name text => "identifier '" ++ text ++ "'"
  | keyword word => "'" ++ word.spelling ++ "'"
  | sign mark => "'" ++ mark.spelling ++ "'"

/-- How a message quotes the next token of a body, or its end. -/
def quote : Option TokenKind → String
  | some kind => kind.text
  | none => "end of function body"

end TokenKind

end LineRobot
