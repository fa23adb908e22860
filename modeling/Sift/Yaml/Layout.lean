import Sift.Yaml.Scalar

namespace Sift.Yaml

/-- A level of indentation that is left when a line is indented less. -/
structure Indent where
  /-- The indentation of what is around it. -/
  outer : Int
  /-- Whether a block collection begins with the level. Other levels only ask that a value is
  indented more than its key. -/
  isBlock : Bool
  deriving Repr

/-- A token that is a key if a colon follows. -/
structure PossibleKey where
  /-- How many tokens come before it. -/
  place : Nat
  index : Nat
  line : Nat
  column : Nat
  /-- Whether nothing but a key may stand there. -/
  isRequired : Bool
  deriving Repr

/-- A text as far as it has been cut into tokens. -/
structure Layout where
  cursor : Cursor
  tokens : Array Token
  /-- The indentation of the innermost block, minus one outside of all blocks. -/
  indent : Int
  indents : List Indent
  /-- Whether a key may begin here. -/
  allowsKey : Bool
  possibleKey : Option PossibleKey
  /-- For each flow collection that is open, what was a possible key when it began. -/
  flows : List (Option PossibleKey)
  /-- Whether a flow mapping has begun. Colons then belong to it, or to keys that are marked. -/
  sawMapping : Bool
  /-- Whether the last colon made an item of a flow sequence a pair, so that a mapping is open. -/
  inPair : Bool
  /-- Where a colon ends a key without white space after it, as after a quoted key. -/
  adjacentAt : Nat
  deriving Repr

namespace Layout

def start (text : String) : Layout :=
  ⟨Cursor.start text, #[], -1, [], true, none, [], false, false, 0⟩

def inFlow (s : Layout) : Bool :=
  !s.flows.isEmpty

def push (s : Layout) (token : Token) : Layout :=
  { s with tokens := s.tokens.push token }

def insert (s : Layout) (place : Nat) (token : Token) : Layout :=
  { s with tokens := s.tokens.insertIdxIfInBounds place token }

def moveTo (s : Layout) (cursor : Cursor) : Layout :=
  { s with cursor }

def allow (s : Layout) (allowsKey : Bool) : Layout :=
  { s with allowsKey }

/-- The levels that are left at a column, with the tokens that end their blocks. -/
def leave (column : Int) (indent : Int) (tokens : Array Token) :
    List Indent → Int × Array Token × List Indent
  | [] => (indent, tokens, [])
  | level :: levels =>
    if column < indent then
      leave column level.outer (if level.isBlock then tokens.push .blockEnd else tokens) levels
    else (indent, tokens, level :: levels)

/-- The text with the levels left that are indented more than a column. -/
def leaveTo (s : Layout) (column : Int) : Layout :=
  if s.inFlow then s
  else
    let (indent, tokens, indents) := leave column s.indent s.tokens s.indents
    { s with indent, tokens, indents }

def dropLoose (indent : Int) : List Indent → Int × List Indent
  | [] => (indent, [])
  | level :: levels =>
    if level.isBlock then (indent, level :: levels) else dropLoose level.outer levels

/-- The text without the levels on top that begin no block. -/
def leaveLoose (s : Layout) : Layout :=
  let (indent, indents) := dropLoose s.indent s.indents
  { s with indent, indents }

/-- The text with what follows required to be indented by one more than the block it is in. -/
def enterLoose (s : Layout) : Layout :=
  match s.indents with
  | level :: _ =>
    if !s.inFlow && level.isBlock then
      { s with indents := ⟨s.indent, false⟩ :: s.indents, indent := s.indent + 1 }
    else s
  | [] => s

/-- The text without the level on top, if that begins no block and a block is to begin in it. -/
def makeRoom (s : Layout) (column : Nat) : Layout :=
  match s.indents with
  | level :: levels =>
    if s.indent ≤ column ∧ !level.isBlock then
      { s with indent := level.outer, indents := levels }
    else s
  | [] => s

/-- The text with a block begun at a column, unless it is in one there. Its token comes after so
many others. -/
def enter (s : Layout) (column : Nat) (place : Nat) (token : Token) : Layout :=
  if s.inFlow then s
  else
    let s := s.makeRoom column
    if s.indent < column then
      let level : Indent := ⟨s.indent, true⟩
      { s with indents := level :: s.indents, indent := (column : Int) }.insert place token
    else s

/-- The text with the next token as a possible key, where a key may begin. -/
def saveKey (s : Layout) : Layout :=
  if s.allowsKey then
    let isRequired := !s.inFlow && s.indent == s.cursor.column &&
      (s.indents.head?.map Indent.isBlock).getD false
    { s with
      possibleKey := some ⟨s.tokens.size, s.cursor.index, s.cursor.line, s.cursor.column,
        isRequired⟩ }
  else s

/-- The text without a possible key. There must be none where a key is required. -/
def removeKey? (s : Layout) : Option Layout :=
  match s.possibleKey with
  | some key => if key.isRequired then none else some { s with possibleKey := none }
  | none => some s

/-- The text without a possible key that is too far back: on a line before, or too long. -/
def expireKey? (s : Layout) : Option Layout :=
  match s.possibleKey with
  | some key =>
    if !s.inFlow && (key.line < s.cursor.line || key.index + 1024 < s.cursor.index) then
      s.removeKey?
    else some s
  | none => some s

def skip (s : Layout) (n : Nat) : Layout :=
  s.moveTo (s.cursor.skip n)

def skipGap? (s : Layout) : Option Layout := do
  let gap ← s.cursor.gap?
  return s.moveTo gap.after

/-- The text at its next token. A key may begin on a new line outside of flow collections. -/
def skipToToken? (s : Layout) : Option Layout := do
  let (cursor, brokeLine) ←
    s.cursor.skipToToken? (!s.indents.isEmpty) s.indent s.cursor.steps false
  return (s.moveTo cursor).allow (s.allowsKey || (brokeLine && !s.inFlow))

def directive? (s : Layout) : Option Layout := do
  let s ← (s.leaveTo (-1)).removeKey?
  let (token, cursor) ← s.cursor.directive?
  return ((s.allow false).push token).moveTo cursor

def boundary? (s : Layout) : Option Layout := do
  let isStart := s.cursor.peek == '-'
  let s ← (s.leaveTo (-1)).removeKey?
  let s := (s.allow false).skip 3
  if isStart then return s.push .documentStart
  else
    let s ← (s.push .documentEnd).skipGap?
    if endsLine s.cursor.peek then return s else none

/-- The beginning of a flow collection. Not more than 255 may be open at once. -/
def openFlow? (s : Layout) (isMapping : Bool) : Option Layout := do
  let s := s.saveKey.enterLoose
  if 255 ≤ s.flows.length then none
  else
    let flows := s.possibleKey :: s.flows
    let sawMapping := s.sawMapping || isMapping
    let s := ({ s with flows, sawMapping, possibleKey := none }.allow true).skip 1
    (s.push (if isMapping then .flowMappingStart else .flowSequenceStart)).skipGap?

/-- The text with the mapping of a pair ended, if one is open. -/
def endPair (s : Layout) : Layout :=
  if s.inPair then { s with inPair := false, sawMapping := false }.push .flowMappingEnd else s

def leaveFlow (s : Layout) : Layout :=
  match s.flows with
  | outerKey :: flows => { s with flows, possibleKey := outerKey }
  | [] => s

/-- The end of a flow collection. A colon may stand right after it, where it is a key. -/
def closeFlow? (s : Layout) (isMapping : Bool) : Option Layout := do
  let s := (← s.removeKey?).leaveFlow.endPair
  let s ← ((s.allow false).skip 1).skipGap?
  let s := if s.inFlow then { s with adjacentAt := s.cursor.index } else s
  return s.push (if isMapping then .flowMappingEnd else .flowSequenceEnd)

def flowEntry? (s : Layout) : Option Layout := do
  let s ← s.removeKey?
  (((s.allow true).endPair.skip 1).push .flowEntry).skipGap?

def blockEntry? (s : Layout) : Option Layout := do
  if s.inFlow || !s.allowsKey then none
  else
    let s := (s.enter s.cursor.column s.tokens.size .blockSequenceStart).skip 1
    let gap ← s.cursor.gap?
    let after := gap.after
    if gap.hasTabs && after.peek == '-' && endsWord (after.peekAt 1) then none
    else
      let s := s.moveTo after
      let s := if isBreak after.peek || isFlowSign after.peek then s.enterLoose else s
      return ((← s.removeKey?).allow true).push .blockEntry

/-- The place after the white space that follows a question mark, and whether a line has ended
there. There must be some, and no tab. -/
def skipAfterMark (steps : Nat) (found brokeLine : Bool) (c : Cursor) : Bool × Bool × Cursor :=
  match steps with
  | 0 => (found, brokeLine, c)
  | steps + 1 =>
    if c.peek = ' ' then skipAfterMark steps true brokeLine (c.skipSpaces 1)
    else if isBreak c.peek then skipAfterMark steps true true c.skipBreak
    else if c.peek = '#' then skipAfterMark steps found brokeLine c.skipLine
    else (found, brokeLine, c)

def key? (s : Layout) : Option Layout := do
  if !s.inFlow && !s.allowsKey then none
  else
    let s := s.enter s.cursor.column s.tokens.size .blockMappingStart
    let sawMapping := s.sawMapping || s.inFlow
    let s := { (← s.removeKey?) with allowsKey := !s.inFlow, sawMapping }
    let (found, brokeLine, after) := skipAfterMark s.cursor.steps false false (s.cursor.skip 1)
    if !found || after.peek == '\t' then none
    else return ((s.moveTo after).allow (s.allowsKey || (brokeLine && !s.inFlow))).push .key

/-- Whether the white space after a colon is a tab where a space is needed. -/
def hasTabOnly (gap : Gap) : Bool :=
  gap.hasTabs && !gap.hasSpaces && isNameChar gap.after.peek

def skipColon? (s : Layout) : Option Layout := do
  let s := s.skip 1
  if s.cursor.peek = '\t' then
    let gap ← s.cursor.gap?
    if hasTabOnly gap then none else return s.moveTo gap.after
  else return s

/-- The colon between a key and its value. In a flow sequence it makes a pair of the item, whose key
must stand on the same line. -/
def value? (s : Layout) : Option Layout := do
  let colon := s.cursor
  let inPair := s.inFlow && !s.sawMapping
  let s := { (← s.skipColon?) with inPair }
  match s.possibleKey with
  | some key =>
    if inPair && key.line < colon.line then none
    else
      let s := s.insert key.place .key
      let s := if inPair then s.insert key.place .flowMappingStart else s
      let s := (s.enter key.column key.place .blockMappingStart).enterLoose
      return ({ s with possibleKey := none }.allow false).push .value
  | none =>
    let s := if inPair then s.push .flowMappingStart else s
    if s.inFlow then return (s.allow false).push .value
    else if !s.allowsKey then none
    else
      let s := (s.enter colon.column s.tokens.size .blockMappingStart).enterLoose
      return (s.allow true).push .value

def name? (s : Layout) (isAlias : Bool) : Option Layout := do
  let s := s.saveKey.allow false
  let (name, cursor) ← s.cursor.anchorName?
  return (s.push (if isAlias then .alias name else .anchor name)).moveTo cursor

def tag? (s : Layout) : Option Layout := do
  let s := s.saveKey.allow false
  let (token, cursor) ← s.cursor.tag? s.inFlow
  return (s.push token).moveTo cursor

def blockScalar? (s : Layout) (literal : Bool) : Option Layout := do
  let s := (s.saveKey.allow true).leaveLoose
  let (text, cursor) ← s.cursor.blockScalar? literal s.indent
  return (s.push (.scalar false text)).moveTo cursor

/-- A quoted scalar. A colon may stand right after it, where it is a key. -/
def quoted? (s : Layout) (single : Bool) : Option Layout := do
  let s := s.saveKey.allow false
  let (text, cursor) ← s.cursor.quoted? s.inFlow s.indent single
  let s ← (s.moveTo cursor).skipToToken?
  return { s with adjacentAt := s.cursor.index }.push (.scalar false text)

def plain? (s : Layout) : Option Layout := do
  let s := (s.saveKey.allow false).leaveLoose
  let (text, cursor) ← s.cursor.plain? s.inFlow s.indent
  return ((s.push (.scalar true text)).moveTo cursor).allow cursor.isLeading

/-- The next token, which is not indented less than its block, by its first characters. -/
def token? (s : Layout) : Option Layout :=
  let next := s.cursor.peekAt 1
  match s.cursor.peek with
  | '[' => s.openFlow? false
  | '\x7b' => s.openFlow? true
  | ']' => s.closeFlow? false
  | '\x7d' => s.closeFlow? true
  | ',' => s.flowEntry?
  | '-' => if endsWord next then s.blockEntry? else s.plain?
  | '?' => if endsWord next then s.key? else s.plain?
  | ':' =>
    if endsWord next then s.value?
    else if s.inFlow && (isFlowSign next || s.cursor.index == s.adjacentAt) then s.value?
    else s.plain?
  | '*' => s.name? true
  | '&' => s.name? false
  | '!' => s.tag?
  | '|' => if s.inFlow then s.plain? else s.blockScalar? true
  | '>' => if s.inFlow then s.plain? else s.blockScalar? false
  | '\'' => s.quoted? true
  | '"' => s.quoted? false
  | '%' | '@' | '\x60' => none
  | _ => s.plain?

def next? (s : Layout) : Option Layout :=
  if s.cursor.column = 0 ∧ s.cursor.peek = '%' then s.directive?
  else if s.cursor.isAtBoundary then s.boundary?
  else if s.cursor.column < s.indent then none
  else s.token?

def tokensFrom? (steps : Nat) (s : Layout) : Option (Array Token) :=
  match steps with
  | 0 => none
  | steps + 1 => do
    let s ← (← s.skipToToken?).expireKey?
    let s := s.leaveTo s.cursor.column
    if s.cursor.isDone then return (← (s.leaveTo (-1)).removeKey?).tokens
    else (← s.next?).tokensFrom? steps

end Layout

/-- The tokens of a text. Block collections are told by indentation, and a key is known as one only by the colon
after it: the tokens that open its mapping are then put in front of it. -/
def tokens? (text : String) : Option (List Token) :=
  let start := Layout.start text
  (start.tokensFrom? (start.cursor.steps + 1)).map Array.toList

end Sift.Yaml
