namespace Sift.Yaml

/-- What is found where the text ends. A text ends at the first such character in it. -/
def endMark : Char := '\x00'

def isSpace (c : Char) : Bool :=
  c == ' ' || c == '\t'

def isBreak (c : Char) : Bool :=
  c == '\n' || c == '\r'

def endsLine (c : Char) : Bool :=
  isBreak c || c == endMark

def endsWord (c : Char) : Bool :=
  isSpace c || endsLine c

/-- Whether a character has a meaning of its own within flow collections. -/
def isFlowSign (c : Char) : Bool :=
  c == ',' || c == '[' || c == ']' || c == '\x7b' || c == '\x7d'

/-- Whether a character may stand in the name of a directive or of a tag handle. -/
def isNameChar (c : Char) : Bool :=
  c.isAlphanum || c == '_' || c == '-'

/-- A place in a text. Columns decide how a text is laid out, so every step keeps count of them. -/
structure Cursor where
  /-- The text from the place on. -/
  rest : List Char
  /-- How many characters come before. -/
  index : Nat
  line : Nat
  column : Nat
  /-- Whether only white space comes before on the line. -/
  isLeading : Bool
  deriving Repr

namespace Cursor

def start (text : String) : Cursor :=
  ⟨text.toList.takeWhile (· != endMark), 0, 0, 0, true⟩

def isDone (c : Cursor) : Bool :=
  c.rest.isEmpty

def peek (c : Cursor) : Char :=
  c.rest.headD endMark

def peekAt (c : Cursor) (n : Nat) : Char :=
  (c.rest.drop n).headD endMark

/-- The place after some characters of white space on one line. -/
def skipSpaces (c : Cursor) (n : Nat) : Cursor :=
  { c with rest := c.rest.drop n, index := c.index + n, column := c.column + n }

/-- The place after some characters on one line, not all of them white space. -/
def skip (c : Cursor) (n : Nat) : Cursor :=
  { c.skipSpaces n with isLeading := c.isLeading && n == 0 }

/-- The place after the end of a line. A carriage return and a line feed after it are one end. -/
def skipBreak (c : Cursor) : Cursor :=
  match c.rest with
  | [] => c
  | '\r' :: '\n' :: rest => ⟨rest, c.index + 2, c.line + 1, 0, true⟩
  | _ :: rest => ⟨rest, c.index + 1, c.line + 1, 0, true⟩

/-- The characters from a place on that satisfy a condition, all on one line, and the place after
them. -/
def takeRun (c : Cursor) (p : Char → Bool) : List Char × Cursor :=
  let run := c.rest.takeWhile p
  (run, c.skip run.length)

def skipLine (c : Cursor) : Cursor :=
  (c.takeRun (!isBreak ·)).2

def isAtDocumentMark (c : Cursor) : Bool :=
  (c.rest.take 3 == ['-', '-', '-'] || c.rest.take 3 == ['.', '.', '.']) && endsWord (c.peekAt 3)

/-- Whether a mark between documents stands at the beginning of a line. -/
def isAtBoundary (c : Cursor) : Bool :=
  c.column == 0 && c.isAtDocumentMark

end Cursor

/-- White space on one line, with a comment if there is one, and the place after it. -/
structure Gap where
  hasSpaces : Bool
  hasTabs : Bool
  after : Cursor

namespace Cursor

/-- The white space at a place. A comment must have white space in front. -/
def gap? (c : Cursor) : Option Gap :=
  let run := c.rest.takeWhile isSpace
  let after := c.skipSpaces run.length
  if after.peek = '#' then
    if run.isEmpty then none
    else some ⟨run.contains ' ', run.contains '\t', after.skipLine⟩
  else some ⟨run.contains ' ', run.contains '\t', after⟩

/-- The place of the next token, and whether a line has ended on the way. Where lines are laid out
by indentation, a tab is no part of it, unless the line is empty. -/
def skipToToken? (inBlock : Bool) (indent : Int) (steps : Nat) (brokeLine : Bool) (c : Cursor) :
    Option (Cursor × Bool) :=
  match steps with
  | 0 => some (c, brokeLine)
  | steps + 1 =>
    if c.peek = '\t' ∧ inBlock ∧ c.isLeading ∧ c.column < indent then do
      let gap ← c.gap?
      if endsLine gap.after.peek then gap.after.skipToToken? inBlock indent steps brokeLine
      else none
    else if isSpace c.peek then (c.skipSpaces 1).skipToToken? inBlock indent steps brokeLine
    else if isBreak c.peek then c.skipBreak.skipToToken? inBlock indent steps true
    else if c.peek = '#' then c.skipLine.skipToToken? inBlock indent steps brokeLine
    else some (c, brokeLine)

/-- Enough steps for every loop that takes a character of the text in each of them. -/
def steps (c : Cursor) : Nat :=
  c.rest.length + 1

end Cursor

end Sift.Yaml
