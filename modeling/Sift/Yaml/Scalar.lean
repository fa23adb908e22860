import Sift.Yaml.Token

namespace Sift.Yaml

/-- A scalar as far as it has been read, with the last character first. Where a scalar goes on over several
lines, a single line end within it stands for a space, and each empty line for a line end. -/
structure Folding where
  text : List Char
  /-- The white space after the text, with the last character first. -/
  spaces : List Char
  /-- How many lines have ended after the text. -/
  breaks : Nat
  deriving Repr

namespace Folding

def empty : Folding :=
  ⟨[], [], 0⟩

def foldedBreaks : Nat → List Char
  | 0 => []
  | 1 => [' ']
  | n + 2 => List.replicate (n + 1) '\n'

def add (t : Folding) (text : List Char) : Folding :=
  let between := if t.breaks = 0 then t.spaces else foldedBreaks t.breaks
  ⟨text.reverse ++ between ++ t.text, [], 0⟩

def out (t : Folding) : String :=
  String.ofList t.text.reverse

end Folding

/-- Whether a plain scalar goes on with a character, given the text after it. -/
def continuesPlain (inFlow : Bool) (c : Char) (rest : List Char) : Bool :=
  if c = ':' then
    let next := rest.headD endMark
    !(endsWord next || (inFlow && isFlowSign next))
  else !(inFlow && isFlowSign c)

def plainWord (inFlow : Bool) : List Char → List Char
  | [] => []
  | c :: cs => if endsWord c || !continuesPlain inFlow c cs then [] else c :: plainWord inFlow cs

namespace Cursor

/-- The white space after a word of a plain scalar. A tab is no indentation. -/
def plainGap? (indent : Int) (steps : Nat) (t : Folding) (c : Cursor) :
    Option (Folding × Cursor) :=
  match steps with
  | 0 => some (t, c)
  | steps + 1 =>
    if isSpace c.peek then
      if !c.isLeading then
        (c.skipSpaces 1).plainGap? indent steps { t with spaces := c.peek :: t.spaces }
      else if c.peek = '\t' ∧ c.column < indent then do
        let gap ← c.gap?
        if endsLine gap.after.peek then gap.after.plainGap? indent steps t else none
      else (c.skipSpaces 1).plainGap? indent steps t
    else if isBreak c.peek then
      c.skipBreak.plainGap? indent steps
        (if c.isLeading then { t with breaks := t.breaks + 1 } else ⟨t.text, [], 1⟩)
    else some (t, c)

/-- A plain scalar after what has been read of it. It ends before a comment and at a mark between
documents, and outside of flow collections where a line is not indented enough. -/
def plainFrom? (inFlow : Bool) (indent : Int) (steps : Nat) (t : Folding) (c : Cursor) :
    Option (Folding × Cursor) :=
  match steps with
  | 0 => some (t, c)
  | steps + 1 =>
    if c.isAtBoundary || c.peek == '#' then some (t, c)
    else if inFlow && c.peek == '-' && isFlowSign (c.peekAt 1) then none
    else
      let word := plainWord inFlow c.rest
      let t := if word.isEmpty then t else t.add word
      let c := c.skip word.length
      if !isSpace c.peek && !isBreak c.peek then some (t, c)
      else do
        let (t, c) ← c.plainGap? indent c.steps t
        if !inFlow && c.column < indent then return (t, c)
        else c.plainFrom? inFlow indent steps t

/-- A plain scalar within what is indented by `outer`. -/
def plain? (inFlow : Bool) (outer : Int) (c : Cursor) : Option (String × Cursor) :=
  if inFlow && c.column < outer + 1 then none
  else do
    let (t, after) ← c.plainFrom? inFlow (outer + 1) c.steps .empty
    if t.text.isEmpty then none else return (t.out, after)

/-- The character of a code in hexadecimal of so many digits. -/
def hexChar? (digits : Nat) (c : Cursor) : Option (Char × Cursor) := do
  let written := c.rest.take digits
  if written.length < digits then none
  else
    let values ← written.mapM hexValue?
    let code := values.foldl (fun total value => total * 16 + value) 0
    if valid : code.isValidChar then return (Char.ofNatAux code valid, c.skip digits) else none

/-- The character that a backslash and what follows it stand for. -/
def escape? (c : Cursor) : Option (Char × Cursor) :=
  let after := c.skip 2
  match c.peekAt 1 with
  | '0' => some ('\x00', after)
  | 'a' => some ('\x07', after)
  | 'b' => some ('\x08', after)
  | 't' | '\t' => some ('\t', after)
  | 'n' => some ('\n', after)
  | 'v' => some ('\x0b', after)
  | 'f' => some ('\x0c', after)
  | 'r' => some ('\r', after)
  | 'e' => some ('\x1b', after)
  | ' ' => some (' ', after)
  | '"' => some ('"', after)
  | '/' => some ('/', after)
  | '\\' => some ('\\', after)
  | 'N' => some ('\u0085', after)
  | '_' => some ('\u00a0', after)
  | 'L' => some ('\u2028', after)
  | 'P' => some ('\u2029', after)
  | 'x' => after.hexChar? 2
  | 'u' => after.hexChar? 4
  | 'U' => after.hexChar? 8
  | _ => none

/-- The characters of a quoted scalar up to white space or the closing quote, with the last one
first, and whether a backslash before the end of a line took that away. -/
def quotedWord? (single : Bool) (steps : Nat) (word : List Char) (c : Cursor) :
    Option (List Char × Bool × Cursor) :=
  match steps with
  | 0 => some (word, false, c)
  | steps + 1 =>
    if endsWord c.peek then some (word, false, c)
    else if single then
      if c.peek ≠ '\'' then (c.skip 1).quotedWord? single steps (c.peek :: word)
      else if c.peekAt 1 = '\'' then (c.skip 2).quotedWord? single steps ('\'' :: word)
      else some (word, false, c)
    else if c.peek = '"' then some (word, false, c)
    else if c.peek = '\\' then
      if isBreak (c.peekAt 1) then some (word, true, (c.skip 1).skipBreak)
      else do
        let (char, c) ← c.escape?
        c.quotedWord? single steps (char :: word)
    else (c.skip 1).quotedWord? single steps (c.peek :: word)

/-- The white space after a word of a quoted scalar, and whether it goes on from another line. -/
def quotedGap? (indent : Int) (steps : Nat) (onNewLine : Bool) (t : Folding) (c : Cursor) :
    Option (Folding × Bool × Cursor) :=
  match steps with
  | 0 => some (t, onNewLine, c)
  | steps + 1 =>
    if isSpace c.peek then
      if !onNewLine then
        (c.skipSpaces 1).quotedGap? indent steps onNewLine { t with spaces := c.peek :: t.spaces }
      else if c.peek = '\t' ∧ c.column < indent then none
      else (c.skipSpaces 1).quotedGap? indent steps onNewLine t
    else if isBreak c.peek then
      c.skipBreak.quotedGap? indent steps true ⟨t.text, [], t.breaks + 1⟩
    else some (t, onNewLine, c)

/-- A quoted scalar after what has been read of it, up to its closing quote. -/
def quotedFrom? (single : Bool) (indent : Int) (steps : Nat) (text : List Char) (c : Cursor) :
    Option (List Char × Cursor) :=
  match steps with
  | 0 => none
  | steps + 1 =>
    if c.isAtBoundary || c.isDone || c.column < indent then none
    else do
      let (word, joined, c) ← c.quotedWord? single c.steps []
      let text := word ++ text
      if c.peek = (if single then '\'' else '"') then return (text, c)
      else
        let (t, onNewLine, c) ← c.quotedGap? indent c.steps joined ⟨text, [], 0⟩
        let between :=
          if joined then List.replicate t.breaks '\n'
          else if onNewLine then Folding.foldedBreaks t.breaks
          else t.spaces
        c.quotedFrom? single indent steps (between ++ t.text)

/-- A quoted scalar. Only the end of its line, or what goes on with the collection that it stands
in, may follow it. -/
def quoted? (inFlow : Bool) (indent : Int) (single : Bool) (c : Cursor) :
    Option (String × Cursor) := do
  let (text, closing) ← (c.skip 1).quotedFrom? single indent c.steps []
  let gap ← (closing.skip 1).gap?
  let next := gap.after.peek
  let mayFollow :=
    endsLine next || (inFlow && (next == ',' || next == '\x7d' || next == ']' || next == ':')) ||
      (!inFlow && next == ':' && c.line == gap.after.line)
  if mayFollow then return (String.ofList text.reverse, gap.after) else none

end Cursor

/-- What becomes of the line ends at the end of a block scalar. -/
inductive Chomping where
  | strip
  | clip
  | keep
  deriving DecidableEq, Repr

namespace Chomping

def ofSign? : Char → Option Chomping
  | '+' => some keep
  | '-' => some strip
  | _ => none

end Chomping

namespace Cursor

/-- An indentation that the head of a block scalar gives, zero where it gives none. -/
def blockIndentation? (c : Cursor) : Option (Nat × Cursor) :=
  if c.peek = '0' then none
  else if c.peek.isDigit then some (c.peek.toNat - '0'.toNat, c.skip 1)
  else some (0, c)

/-- The head of a block scalar after its sign: chomping and indentation in either order. -/
def blockHead? (c : Cursor) : Option (Chomping × Nat × Cursor) :=
  match Chomping.ofSign? c.peek with
  | some chomping => do
    let (increment, c) ← (c.skip 1).blockIndentation?
    return (chomping, increment, c)
  | none => do
    let (increment, c) ← c.blockIndentation?
    match Chomping.ofSign? c.peek with
    | some chomping => return (chomping, increment, c.skip 1)
    | none => return (.clip, increment, c)

/-- The place where the content of the next line that has any begins, no further in than the
indentation, and how many lines have ended before it. -/
def skipIndentation (indent : Nat) (steps : Nat) (breaks : Nat) (c : Cursor) : Nat × Cursor :=
  match steps with
  | 0 => (breaks, c)
  | steps + 1 =>
    let spaces := (c.rest.takeWhile (· == ' ')).length
    let c := c.skipSpaces (min spaces (indent - c.column))
    if isBreak c.peek then c.skipBreak.skipIndentation indent steps (breaks + 1) else (breaks, c)

/-- The most spaces that a line has in front, up to the first line with content. -/
def findIndentation (steps : Nat) (most : Nat) (breaks : Nat) (c : Cursor) :
    Nat × Nat × Cursor :=
  match steps with
  | 0 => (most, breaks, c)
  | steps + 1 =>
    let c := c.skipSpaces (c.rest.takeWhile (· == ' ')).length
    let most := max most c.column
    if isBreak c.peek then c.skipBreak.findIndentation steps most (breaks + 1)
    else (most, breaks, c)

/-- The content of a block scalar as far as it has been read. -/
structure BlockText where
  /-- The text, with the last character first. -/
  text : List Char
  /-- Whether a line has ended after the text. -/
  isBroken : Bool
  /-- How many empty lines come after that. -/
  emptyLines : Nat
  /-- Whether the last line with content begins with white space. -/
  isIndented : Bool

/-- The lines of a block scalar. Where they are folded, a line end between two lines that are not
indented further stands for a space. -/
def blockLines (literal : Bool) (indent : Nat) (steps : Nat) (t : BlockText) (c : Cursor) :
    BlockText × Cursor :=
  match steps with
  | 0 => (t, c)
  | steps + 1 =>
    if c.column ≠ indent || c.isDone then (t, c)
    else
      let isIndented := isSpace c.peek
      let emptyLines := List.replicate t.emptyLines '\n'
      let between :=
        if !literal && t.isBroken && !t.isIndented && !isIndented then
          if t.emptyLines = 0 then [' '] else emptyLines
        else if t.isBroken then '\n' :: emptyLines
        else emptyLines
      let (line, c) := c.takeRun (!isBreak ·)
      let text := line.reverse ++ between ++ t.text
      if c.isDone then (⟨text, false, 0, isIndented⟩, c)
      else
        let (emptyLines, c) := c.skipBreak.skipIndentation indent c.steps 0
        c.blockLines literal indent steps ⟨text, true, emptyLines, isIndented⟩

/-- The line ends that stay at the end of a block scalar, where its text ends with the last line. -/
def blockTail (chomping : Chomping) (indent : Nat) (t : BlockText) (after : Cursor) : List Char :=
  let lastBreak := if t.isBroken then ['\n'] else []
  let missingBreak := if after.isDone && max indent 1 ≤ after.column then ['\n'] else []
  match chomping with
  | .strip => []
  | .clip => missingBreak ++ lastBreak
  | .keep => List.replicate t.emptyLines '\n' ++ missingBreak ++ lastBreak

/-- The text of a block scalar without content, by the line ends in it. -/
def emptyBlock (chomping : Chomping) (brokeLine : Bool) (emptyLines : Nat) : String :=
  match chomping with
  | .strip => ""
  | .clip => if brokeLine then "\n" else ""
  | .keep => String.ofList (List.replicate (if brokeLine then max emptyLines 1 else 0) '\n')

/-- A block scalar within what is indented by `outer`. -/
def blockScalar? (literal : Bool) (outer : Int) (c : Cursor) : Option (String × Cursor) := do
  let (chomping, increment, c) ← (c.skip 1).blockHead?
  let gap ← c.gap?
  let head := gap.after
  if !endsLine head.peek then none
  else
    let c := head.skipBreak
    if c.peek = '\t' then none
    else
      let (indent, emptyLines, c) :=
        if increment = 0 then
          let (most, emptyLines, c) := c.findIndentation c.steps 0 0
          (max most (outer + 1).toNat, emptyLines, c)
        else
          let indent := outer.toNat + increment
          let (emptyLines, c) := c.skipIndentation indent c.steps 0
          (indent, emptyLines, c)
      if c.isDone then return (emptyBlock chomping (isBreak head.peek) emptyLines, c)
      else if c.column < indent ∧ outer < c.column then none
      else
        let (t, after) := c.blockLines literal indent c.steps ⟨[], false, emptyLines, false⟩
        return (String.ofList (blockTail chomping indent t after ++ t.text).reverse, after)

end Cursor

end Sift.Yaml
