import Sift.Text.Alphabetic
import Sift.Text.Blank
import Sift.Token.Basic

namespace Sift

/-- Characters that keep a meaning of their own unless a backslash precedes them. -/
def reserved : List Char :=
  ['*', '|', ',', '!', '[', ']', '(', ')', '"', '\\']

def Kind.ofChar (c : Char) : Kind :=
  match c with
  | '*' => asterisk
  | '!' => bang
  | '|' => bar
  | ',' => comma
  | '[' => leftBracket
  | ']' => rightBracket
  | '(' => leftParenthesis
  | ')' => rightParenthesis
  | '"' => doubleQuote
  | '=' => equal
  | '&' => ampersand
  | '-' => dash
  | ':' => colon
  | '_' => underscore
  | '.' => dot
  | c =>
    if isBlank c then whitespace
    else if c.isDigit then digit
    else if isAlphabetic c then letter
    else other

/-- The kind of a character in its place: between quotes it has no structure. -/
def Kind.classify (quoted : Bool) (c : Char) : Kind :=
  let kind := ofChar c
  if quoted && kind.isStructural then escaped else kind

namespace Token

/-- The tokens of a text that begins at a place, inside quotes or outside. -/
def scanFrom (position : Position) (quoted : Bool) : List Char → List Token
  | [] => []
  | '\\' :: c :: cs =>
    if c ∈ reserved then
      let token : Token := ⟨.escaped, c, true, position⟩
      token :: scanFrom token.after quoted cs
    else
      let token : Token := ⟨.classify quoted '\\', '\\', false, position⟩
      token :: scanFrom token.after quoted (c :: cs)
  | c :: cs =>
    let token : Token := ⟨.classify quoted c, c, false, position⟩
    token :: scanFrom token.after (quoted != (token.kind == .doubleQuote)) cs

/-- The tokens of a text. Scanning never fails: a quote that is not closed and a backslash with nothing after it
are told apart afterwards, by `Token.ambiguity?`. -/
def scan (text : String) : List Token :=
  scanFrom .start false text.toList

/-- The quote that is open at the end, if one is. `opening` is the one open before the tokens. -/
def openQuote? (opening : Option Token) : List Token → Option Token
  | [] => opening
  | t :: ts =>
    if t.kind = .doubleQuote then
      openQuote? (if opening.isSome then none else some t) ts
    else
      openQuote? opening ts

/-- Where a text of these tokens ends. A newline written last begins a line of its own. -/
def endPosition (tokens : List Token) : Position :=
  match tokens.getLast? with
  | none => .start
  | some last => last.after

end Token

/-- Why tokens cannot be read in one way only. -/
inductive Ambiguity where
  | unterminatedQuote
  | danglingEscape
  deriving DecidableEq, Repr

/-- The first reason, with its place, why tokens cannot be read: a quote that is never closed, or a
backslash that ends the text. -/
def Token.ambiguity? (tokens : List Token) : Option (Ambiguity × Position) :=
  match openQuote? none tokens with
  | some quote => some (.unterminatedQuote, quote.position)
  | none =>
    match tokens.getLast? with
    | some last =>
      if last.kind = .other ∧ last.char = '\\' then some (.danglingEscape, last.position) else none
    | none => none

end Sift
