import Sift.Json.Reader
import Sift.Yaml.Cursor

namespace Sift.Yaml

/-- A token. Where collections begin and end by indentation there is a token too. -/
inductive Token where
  | versionDirective
  | tagDirective (handle : String) (meant : String)
  | documentStart
  | documentEnd
  | blockSequenceStart
  | blockMappingStart
  | blockEnd
  | flowSequenceStart
  | flowSequenceEnd
  | flowMappingStart
  | flowMappingEnd
  | blockEntry
  | flowEntry
  | key
  | value
  | alias (name : String)
  | anchor (name : String)
  | tag (handle : String) (suffix : String)
  | scalar (isPlain : Bool) (text : String)
  deriving DecidableEq, Repr

/-- Whether a character may stand in a tag that is written out. -/
def isUriChar (c : Char) : Bool :=
  c.isAlphanum || c ∈ "-#;/?:@&=+$,_.!~*'()[]%".toList

/-- Whether a character may stand in a tag after its handle. -/
def isTagChar (c : Char) : Bool :=
  isUriChar c && !isFlowSign c && c != '!'

def isAnchorChar (c : Char) : Bool :=
  !endsWord c && !isFlowSign c && c != '\ufeff'

namespace Cursor

/-- A byte that a percent sign and two hexadecimal digits stand for. -/
def escapedByte? (c : Cursor) : Option (Nat × Cursor) :=
  match c.rest with
  | '%' :: high :: low :: _ => do
    return ((← hexValue? high) * 16 + (← hexValue? low), c.skip 3)
  | _ => none

/-- Bytes that go on a character, so many of them, put after those that came before. -/
def escapedTail? (code : Nat) (c : Cursor) : Nat → Option (Nat × Cursor)
  | 0 => some (code, c)
  | count + 1 => do
    let (byte, c) ← c.escapedByte?
    if 128 ≤ byte ∧ byte < 192 then escapedTail? (code * 256 + byte) c count else none

/-- How many bytes go on a character that begins with a byte. -/
def tailLength? (byte : Nat) : Option Nat :=
  if byte < 128 then some 0
  else if byte < 192 then none
  else if byte < 224 then some 1
  else if byte < 240 then some 2
  else if byte < 248 then some 3
  else none

def escapedChar? (c : Cursor) : Option (Char × Cursor) := do
  let (byte, c) ← c.escapedByte?
  let (code, c) ← escapedTail? byte c (← tailLength? byte)
  if valid : code.isValidChar then return (Char.ofNatAux code valid, c) else none

def tagText? (p : Char → Bool) (steps : Nat) (text : List Char) (c : Cursor) :
    Option (List Char × Cursor) :=
  match steps with
  | 0 => some (text.reverse, c)
  | steps + 1 =>
    if !p c.peek then some (text.reverse, c)
    else if c.peek = '%' then do
      let (char, c) ← c.escapedChar?
      c.tagText? p steps (char :: text)
    else (c.skip 1).tagText? p steps (c.peek :: text)

/-- The handle of a tag: an exclamation mark, and perhaps a name and another one. -/
def tagHandle? (c : Cursor) : Option (List Char × Cursor) :=
  if c.peek = '!' then
    let (name, after) := (c.skip 1).takeRun isNameChar
    if after.peek = '!' then some ('!' :: name ++ ['!'], after.skip 1)
    else some ('!' :: name, after)
  else none

def tagParts? (c : Cursor) : Option (String × String × Cursor) :=
  if c.peekAt 1 = '<' then do
    let (uri, c) ← (c.skip 2).tagText? isUriChar c.steps []
    if c.peek = '>' then return ("", String.ofList uri, c.skip 1) else none
  else do
    let (handle, c) ← c.tagHandle?
    let (suffix, c) ← c.tagText? isTagChar c.steps []
    if 2 ≤ handle.length ∧ handle.getLast? = some '!' then
      if suffix.isEmpty then none else return (String.ofList handle, String.ofList suffix, c)
    else
      let suffix := handle.drop 1 ++ suffix
      if suffix.isEmpty then return ("", "!", c) else return ("!", String.ofList suffix, c)

/-- A tag. A word ends after it. -/
def tag? (inFlow : Bool) (c : Cursor) : Option (Token × Cursor) := do
  let (handle, suffix, c) ← c.tagParts?
  if endsWord c.peek || (inFlow && isFlowSign c.peek) then return (.tag handle suffix, c) else none

def anchorName? (c : Cursor) : Option (String × Cursor) :=
  let (name, after) := (c.skip 1).takeRun isAnchorChar
  if name.isEmpty then none else some (String.ofList name, after)

def skipBlanks (c : Cursor) : Cursor :=
  c.skipSpaces (c.rest.takeWhile isSpace).length

def versionNumber? (c : Cursor) : Option Cursor :=
  let (digits, after) := c.takeRun Char.isDigit
  if digits.isEmpty || 9 < digits.length then none else some after

def version? (c : Cursor) : Option (Token × Cursor) := do
  let c ← c.skipBlanks.versionNumber?
  if c.peek = '.' then return (.versionDirective, ← (c.skip 1).versionNumber?) else none

/-- The text that a handle is to mean, as its directive gives it. -/
def tagMeaning? (c : Cursor) : Option (Token × Cursor) := do
  let (handle, c) ← c.skipBlanks.tagHandle?
  if handle.length ≠ 1 ∧ handle.getLast? ≠ some '!' then none
  else
    let c := c.skipBlanks
    if c.peek ≠ '!' ∧ !isTagChar c.peek then none
    else
      let (first, c) ←
        if c.peek = '%' then c.escapedChar? else some (c.peek, c.skip 1)
      let (others, c) ← c.tagText? isUriChar c.steps []
      if endsWord c.peek then
        return (.tagDirective (String.ofList handle) (String.ofList (first :: others)), c)
      else none

/-- A directive, up to the end of its line. One that is not known is passed over. -/
def directive? (c : Cursor) : Option (Token × Cursor) := do
  let (name, c) := (c.skip 1).takeRun isNameChar
  if name.isEmpty || !endsWord c.peek then none
  else
    let (token, c) ←
      match String.ofList name with
      | "YAML" => c.version?
      | "TAG" => c.tagMeaning?
      | _ => some (.tagDirective "" "", c.skipLine)
    let gap ← c.gap?
    if endsLine gap.after.peek then return (token, gap.after.skipBreak) else none

end Cursor

end Sift.Yaml
