import LineRobot.Text.Parsed
import LineRobot.Token.Scan

/-! # Reading a list of tokens

Parsing reads a list of tokens from its front, in steps of `Parse`, each of which reads at least one
token or fails. The place where the text ends is kept aside, so that a message can point behind the
last token. -/

namespace LineRobot

/-- What a parser wanted to see next. -/
inductive Wanted where
  /-- A name. -/
  | identifier
  /-- A sign, at a place described in words. -/
  | sign (mark : Sign) (place : String)
  /-- The keyword `while` of a `do` loop. -/
  | whileAfterDo
deriving DecidableEq, Repr

/-- What was wanted, in words. -/
def Wanted.text : Wanted → String
  | identifier => "identifier"
  | sign mark place => "'" ++ mark.spelling ++ "' " ++ place
  | whileAfterDo => "'while' after do body"

/-- Why a function body cannot be read. -/
inductive ParseCause where
  /-- The text cannot be cut into tokens. -/
  | scan (cause : ScanCause)
  /-- Something else was wanted than the token found, or the end. -/
  | expected (wanted : Wanted) (found : Option TokenKind)
  /-- No expression begins with the token found, or the end. -/
  | unexpectedToken (found : Option TokenKind)
  /-- A closing brace without an opening one. -/
  | unexpectedBrace
  /-- Qualifiers without a type. -/
  | missingType (found : Option TokenKind)
  /-- A declared pointer. -/
  | pointer
  /-- A declared array. -/
  | array (name : String)
  /-- A call of something that is not a name. -/
  | callOfExpression
  /-- A type in parentheses. -/
  | cast (type : Option TokenKind)
deriving DecidableEq, Repr

/-- What is wrong with the body, in words. -/
def ParseCause.message : ParseCause → String
  | scan cause => cause.message
  | expected wanted found => "Expected " ++ wanted.text ++ ", found " ++ TokenKind.quote found
  | unexpectedToken found => "Unexpected token: " ++ TokenKind.quote found
  | unexpectedBrace => "Unexpected '\x7d' in function body"
  | missingType found => "Expected type after 'const', found " ++ TokenKind.quote found
  | pointer => "Pointer declarations are not supported"
  | array name => "Array declaration '" ++ name ++ "[]' is not supported"
  | callOfExpression => "Function call must be on identifier"
  | cast type => "Type casts are not supported: (" ++ TokenKind.quote type ++ " ...)"

/-- Why and where a function body cannot be read. -/
structure ParseError where
  /-- The reason. -/
  cause : ParseCause
  /-- The place the reason refers to. -/
  position : Position
deriving DecidableEq, Repr

/-- The whole text of a parse error. -/
def ParseError.message (error : ParseError) : String :=
  "Parse error at line " ++ toString error.position.line ++ ", column " ++
    toString error.position.column ++ ": " ++ error.cause.message

/-- Reading a value from the front of a list of tokens, or failing to. -/
abbrev Parse (α : Type) (input : List Token) : Type :=
  Except ParseError (Parsed α input)

namespace Tokens

/-- What the next token is, if there is one. -/
def peek? (input : List Token) : Option TokenKind :=
  input.head?.map Token.kind

/-- The place of the next token, or the place where the text ends. -/
def place (stop : Position) (input : List Token) : Position :=
  (input.head?.map Token.position).getD stop

/-- The failure that something else was wanted than the next token. -/
def expected (stop : Position) (wanted : Wanted) (input : List Token) : ParseError :=
  ⟨.expected wanted (peek? input), place stop input⟩

/-- The next token read as something of interest, with its place; `none` if it is of no interest. -/
def next? {α : Type} (interest : TokenKind → Option α) :
    (input : List Token) → Option (Parsed (α × Position) input)
  | [] => none
  | token :: rest =>
    (interest token.kind).map fun value => ⟨(value, token.position), rest, Nat.lt_succ_self _⟩

/-- The given sign, if it comes next. -/
def sign? (mark : Sign) (input : List Token) : Option (Parsed (Unit × Position) input) :=
  next? (fun kind => if kind = .sign mark then some () else none) input

/-- The given keyword, if it comes next. -/
def keyword? (word : Keyword) (input : List Token) : Option (Parsed (Unit × Position) input) :=
  next? (fun kind => if kind = .keyword word then some () else none) input

/-- The given sign, which must come next. -/
def expectSign (stop : Position) (mark : Sign) (context : String) (input : List Token) :
    Parse (Unit × Position) input :=
  match sign? mark input with
  | some parsed => .ok parsed
  | none => .error (expected stop (.sign mark context) input)

/-- A name, which must come next. -/
def expectName (stop : Position) (input : List Token) : Parse (String × Position) input :=
  match next? (fun | .name text => some text | _ => none) input with
  | some parsed => .ok parsed
  | none => .error (expected stop .identifier input)

/-- Whether a keyword begins a declaration. -/
def isTypeWord : Keyword → Bool
  | .base _ => true
  | .unsigned => true
  | .const => true
  | _ => false

/-- Whether a declaration comes next. -/
def atDeclaration (input : List Token) : Bool :=
  match peek? input with
  | some (.keyword word) => isTypeWord word
  | _ => false

end Tokens

end LineRobot
