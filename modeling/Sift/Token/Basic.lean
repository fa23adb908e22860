namespace Sift

/-- A place in a text. Lines and columns count from one, columns in characters. -/
structure Position where
  line : Nat
  column : Nat
  deriving DecidableEq, Repr

namespace Position

def start : Position := ⟨1, 1⟩

def advance (p : Position) (c : Char) : Position :=
  if c = '\n' then ⟨p.line + 1, 1⟩ else ⟨p.line, p.column + 1⟩

end Position

/-- What a token is to the grammar. -/
inductive Kind where
  | letter
  | digit
  | dash
  | colon
  | underscore
  | whitespace
  | equal
  | asterisk
  | bang
  | bar
  | comma
  | leftBracket
  | rightBracket
  | leftParenthesis
  | rightParenthesis
  | ampersand
  | dot
  | doubleQuote
  | escaped
  | other
  deriving DecidableEq, Repr

namespace Kind

def isLiteral : Kind → Bool
  | letter | digit | dash | colon | underscore | whitespace | dot | escaped | other => true
  | _ => false

def isStructural : Kind → Bool
  | equal | asterisk | bang | bar | comma | leftBracket | rightBracket | leftParenthesis
  | rightParenthesis | ampersand => true
  | _ => false

/-- Kinds that may stand in a character class or in the bound of an interval. -/
def isMember (kind : Kind) : Bool :=
  kind.isLiteral && kind != whitespace

def beginsName : Kind → Bool
  | letter | underscore => true
  | _ => false

def inName : Kind → Bool
  | letter | digit | underscore => true
  | _ => false

/-- What a name may begin with, it may also go on with. -/
theorem inName_of_beginsName {kind : Kind} (begins : kind.beginsName = true) : kind.inName = true := by
  cases kind with
  | letter | underscore => rfl
  | _ => cases begins

end Kind

/-- A character of the text with its kind and its place. An escaped character also stands for the backslash
before it. Every character of a text is a token, except that a backslash and the reserved character after it are
one together. -/
structure Token where
  kind : Kind
  /-- The character that the token adds to a value. -/
  char : Char
  /-- Whether a backslash is written before the character. -/
  escapes : Bool
  position : Position
  deriving DecidableEq, Repr

namespace Token

def written (t : Token) : List Char :=
  if t.escapes then ['\\', t.char] else [t.char]

def text (t : Token) : String :=
  String.ofList t.written

def after (t : Token) : Position :=
  t.written.foldl Position.advance t.position

end Token

end Sift
