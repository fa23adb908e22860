import Sift.Binary64.Reader
import Sift.Text.Digits
import Sift.Yaml.Layout

namespace Sift.Yaml

/-- A value. -/
inductive Node where
  | null
  | bool (value : Bool)
  | integer (value : Int)
  /-- A number that is no integer, as it is written. -/
  | real (text : String)
  | text (value : String)
  | list (items : List Node)
  | table (entries : List (Node × Node))
  /-- A scalar that is not of the type that its tag asks for. -/
  | misfit
  deriving Inhabited, Repr

def readDigits? (base : Nat) (cs : List Char) : Option Nat :=
  if cs.isEmpty then none
  else
    cs.foldl (fun total c => do
      let total ← total
      let digit ← hexValue? c
      if digit < base then some (total * base + digit) else none) (some 0)

/-- The integer of 64 bits that digits of a base spell, after a sign or not. -/
def readInteger? (base : Nat) (cs : List Char) : Option Int := do
  let n : Int ←
    match cs with
    | '-' :: ds => (readDigits? base ds).map fun n => -(n : Int)
    | '+' :: ds => (readDigits? base ds).map Int.ofNat
    | ds => (readDigits? base ds).map Int.ofNat
  if -9223372036854775808 ≤ n ∧ n < 9223372036854775808 then some n else none

/-- The integer that a plain scalar spells. Digits of another base come after a mark, and a plus
sign may stand before a number that has a sign of its own. -/
def integer? (cs : List Char) : Option Int :=
  let marked :=
    match cs with
    | '0' :: 'x' :: ds => readInteger? 16 ds
    | '0' :: 'o' :: ds => readInteger? 8 ds
    | '+' :: ds => readInteger? 10 ds
    | _ => none
  marked.or (readInteger? 10 cs)

def specialReals : List String :=
  [".inf", ".Inf", ".INF", "+.inf", "+.Inf", "+.INF", "-.inf", "-.Inf", "-.INF", ".nan", ".NaN",
    ".NAN"]

/-- Whether a plain scalar is a number that is no integer. -/
def isReal (s : String) : Bool :=
  s ∈ specialReals || (s.toList.any Char.isDigit && (Binary64.read? s.toList).isSome)

namespace Node

/-- A plain scalar is read as what it looks like. A quoted one is always text. -/
def ofPlain (s : String) : Node :=
  match integer? s.toList with
  | some n => integer n
  | none =>
    if s ∈ ["", "~", "null"] then null
    else if s = "true" then bool true
    else if s = "false" then bool false
    else if isReal s then real s
    else text s

/-- The value of a plain scalar with a tag of the standard types. -/
def ofTagged (type s : String) : Node :=
  match type with
  | "bool" => if s = "true" then bool true else if s = "false" then bool false else misfit
  | "int" =>
    match readInteger? 10 s.toList with
    | some n => integer n
    | none => misfit
  | "float" =>
    if isReal s then real s else misfit
  | "null" => if s ∈ ["~", "null"] then null else misfit
  | _ => text s

def isSameScalar : Node → Node → Bool
  | null, null => true
  | bool a, bool b => a == b
  | integer a, integer b => a == b
  | real a, real b => a == b
  | text a, text b => a == b
  | _, _ => false

/-- Whether a value is a scalar that its tag does not fit. -/
def isMisfit : Node → Bool
  | misfit => true
  | _ => false

end Node

def standardTypes : String :=
  "tag:yaml.org,2002:"

abbrev Handles :=
  List (String × String)

/-- A tag with its handle replaced by what that means. A handle with a name must have been given a
meaning. -/
def resolveTag? (handles : Handles) (handle suffix : String) : Option (String × String) :=
  if handle = "!!" then some ((handles.lookup handle).getD standardTypes, suffix)
  else
    match handles.lookup handle with
    | some meant => some (meant, suffix)
    | none =>
      if 2 ≤ handle.length ∧ handle.toList.getLast? = some '!' then none
      else some (handle, suffix)

def scalarNode (tag : Option (String × String)) (isPlain : Bool) (text : String) : Node :=
  match isPlain, tag with
  | false, _ => .text text
  | true, none => .ofPlain text
  | true, some (meant, suffix) =>
    if meant = standardTypes then .ofTagged suffix text else .text text

/-- The tokens of a document that are still to be read, with what names and handles stand for. -/
structure Source where
  tokens : List Token
  handles : Handles
  /-- The names that have been given, the last one first, each with a number. -/
  names : List (String × Nat)
  /-- The values that have been read, by the numbers of their names. -/
  values : List (Nat × Node)

namespace Source

def drop (s : Source) : Source :=
  { s with tokens := s.tokens.tail }

def isAt (s : Source) (tokens : List Token) : Bool :=
  s.tokens.head?.any (· ∈ tokens)

/-- The number of a name that is given at the next token, if that is an anchor. -/
def anchor (s : Source) : Option Nat × Source :=
  match s.tokens with
  | .anchor name :: rest =>
    (some s.names.length, { s with tokens := rest, names := (name, s.names.length) :: s.names })
  | _ => (none, s)

def tag? (s : Source) : Option (Option (String × String) × Source) :=
  match s.tokens with
  | .tag handle suffix :: rest => do
    return (some (← resolveTag? s.handles handle suffix), { s with tokens := rest })
  | _ => some (none, s)

def properties? (s : Source) : Option (Option Nat × Option (String × String) × Source) := do
  match s.anchor with
  | (some number, s) =>
    let (tag, s) ← s.tag?
    return (some number, tag, s)
  | (none, s) =>
    match ← s.tag? with
    | (some tag, s) =>
      let (number, s) := s.anchor
      return (number, some tag, s)
    | (none, s) => return (none, none, s)

/-- The tokens after a value that a name may have been given to. -/
def keep (s : Source) (number : Option Nat) (node : Node) : Source :=
  match number with
  | some number => { s with values := (number, node) :: s.values }
  | none => s

/-- The value that a name stands for. Within the value that it is given to it stands for none. -/
def named? (s : Source) (name : String) : Option Node :=
  (s.names.lookup name).map fun number => (s.values.lookup number).getD .misfit

end Source

/-- A mapping as far as it has been read. -/
structure Pairs where
  /-- The entries, the last one first. -/
  entries : List (Node × Node)
  /-- A key whose value is to come. -/
  pending : Option Node

namespace Pairs

def empty : Pairs :=
  ⟨[], none⟩

/-- The mapping with a value more, which is a key or what a key is mapped to. A value that does not
fit its tag is no key, and no key may come twice. -/
def add? (pairs : Pairs) (node : Node) : Option Pairs :=
  match pairs.pending with
  | none => some (if node.isMisfit then pairs else { pairs with pending := some node })
  | some key =>
    if pairs.entries.any fun entry => entry.1.isSameScalar key then none
    else some ⟨(key, node) :: pairs.entries, none⟩

def node (pairs : Pairs) : Node :=
  .table pairs.entries.reverse

end Pairs

mutual

/-- The next value, in a block or in a flow collection. The items of a sequence may be indented as
much as the key that it is the value of. -/
def node? (steps : Nat) (inBlock indentless : Bool) (s : Source) : Option (Node × Source) :=
  match steps with
  | 0 => none
  | steps + 1 =>
    match s.tokens with
    | .alias name :: _ => (s.named? name).map fun node => (node, s.drop)
    | _ => do
      let (number, tag, s) ← s.properties?
      let (node, s) ← content? steps inBlock indentless tag (number.isSome || tag.isSome) s
      return (node, s.keep number node)

/-- A value after its anchor and its tag. Where these stand, the value may be missing. -/
def content? (steps : Nat) (inBlock indentless : Bool) (tag : Option (String × String))
    (mayLack : Bool) (s : Source) : Option (Node × Source) :=
  match steps with
  | 0 => none
  | steps + 1 =>
    match s.tokens, inBlock, indentless with
    | .blockEntry :: _, _, true => indentlessItems? steps [] s
    | .scalar isPlain text :: _, _, _ => some (scalarNode tag isPlain text, s.drop)
    | .flowSequenceStart :: _, _, _ => flowItems? steps true [] s.drop
    | .flowMappingStart :: _, _, _ => flowPairs? steps true .empty s.drop
    | .blockSequenceStart :: _, true, _ => blockItems? steps [] s.drop
    | .blockMappingStart :: _, true, _ => blockPairs? steps .empty s.drop
    | _, _, _ => if mayLack then some (scalarNode tag true "", s) else none

/-- A value, or null where the next token is one that comes after values. -/
def nodeUnless? (steps : Nat) (inBlock indentless : Bool) (ends : List Token) (s : Source) :
    Option (Node × Source) :=
  match steps with
  | 0 => none
  | steps + 1 =>
    if s.isAt ends then some (.null, s) else node? steps inBlock indentless s

def blockItems? (steps : Nat) (items : List Node) (s : Source) : Option (Node × Source) :=
  match steps with
  | 0 => none
  | steps + 1 =>
    match s.tokens with
    | .blockEnd :: _ => some (.list items.reverse, s.drop)
    | .blockEntry :: _ => do
      let (item, s) ← nodeUnless? steps true false [.blockEntry, .blockEnd] s.drop
      blockItems? steps (item :: items) s
    | _ => none

def indentlessItems? (steps : Nat) (items : List Node) (s : Source) : Option (Node × Source) :=
  match steps with
  | 0 => none
  | steps + 1 =>
    match s.tokens with
    | .blockEntry :: _ => do
      let (item, s) ← nodeUnless? steps true false [.blockEntry, .key, .value, .blockEnd] s.drop
      indentlessItems? steps (item :: items) s
    | _ => some (.list items.reverse, s)

def blockPairs? (steps : Nat) (pairs : Pairs) (s : Source) : Option (Node × Source) :=
  match steps with
  | 0 => none
  | steps + 1 =>
    match s.tokens with
    | .blockEnd :: _ => some (pairs.node, s.drop)
    | .key :: _ => do
      let (key, s) ← nodeUnless? steps true true [.key, .value, .blockEnd] s.drop
      blockValue? steps (← pairs.add? key) s
    | .value :: _ => do blockValue? steps (← pairs.add? .null) s
    | _ => none

/-- The value of a block mapping after its key, and the entries after it. -/
def blockValue? (steps : Nat) (pairs : Pairs) (s : Source) : Option (Node × Source) :=
  match steps with
  | 0 => none
  | steps + 1 =>
    match s.tokens with
    | .value :: _ => do
      let (value, s) ← nodeUnless? steps true true [.key, .value, .blockEnd] s.drop
      blockPairs? steps (← pairs.add? value) s
    | _ => do blockPairs? steps (← pairs.add? .null) s

def flowItems? (steps : Nat) (first : Bool) (items : List Node) (s : Source) :
    Option (Node × Source) :=
  match steps with
  | 0 => none
  | steps + 1 =>
    match s.tokens, first with
    | .flowSequenceEnd :: _, _ => some (.list items.reverse, s.drop)
    | .flowEntry :: .flowSequenceEnd :: _, false => some (.list items.reverse, s.drop.drop)
    | .flowEntry :: _, false => flowItem? steps items s.drop
    | _, true => flowItem? steps items s
    | _, false => none

/-- An item of a flow sequence, and those after it. A key marks a pair. -/
def flowItem? (steps : Nat) (items : List Node) (s : Source) : Option (Node × Source) :=
  match steps with
  | 0 => none
  | steps + 1 =>
    match s.tokens with
    | .key :: _ => do
      let (pair, s) ← pair? steps s.drop
      flowItems? steps false (pair :: items) s
    | _ => do
      let (item, s) ← node? steps false false s
      flowItems? steps false (item :: items) s

/-- A pair in a flow sequence: a mapping with one entry. -/
def pair? (steps : Nat) (s : Source) : Option (Node × Source) :=
  match steps with
  | 0 => none
  | steps + 1 => do
    let (key, s) ←
      if s.isAt [.value, .flowEntry, .flowSequenceEnd] then some (.null, s.drop)
      else node? steps false false s
    let (value, s) ←
      match s.tokens with
      | .value :: _ => nodeUnless? steps false false [.flowEntry, .flowSequenceEnd] s.drop
      | _ => some (.null, s)
    return ((← (← Pairs.empty.add? key).add? value).node, s)

def flowPairs? (steps : Nat) (first : Bool) (pairs : Pairs) (s : Source) :
    Option (Node × Source) :=
  match steps with
  | 0 => none
  | steps + 1 =>
    match s.tokens, first with
    | .flowMappingEnd :: _, _ => some (pairs.node, s.drop)
    | .flowEntry :: .flowMappingEnd :: _, false => some (pairs.node, s.drop.drop)
    | .flowEntry :: _, false => flowPair? steps pairs s.drop
    | _, true => flowPair? steps pairs s
    | _, false => none

def flowPair? (steps : Nat) (pairs : Pairs) (s : Source) : Option (Node × Source) :=
  match steps with
  | 0 => none
  | steps + 1 =>
    match s.tokens with
    | .key :: _ => do
      let (key, s) ← nodeUnless? steps false false [.value, .flowEntry, .flowMappingEnd] s.drop
      flowValue? steps (← pairs.add? key) s
    | .value :: _ => do flowValue? steps (← pairs.add? .null) s
    | _ => do
      let (key, s) ← node? steps false false s
      flowPairs? steps false (← (← pairs.add? key).add? .null) s

/-- The value of a flow mapping after its key, and the entries after it. -/
def flowValue? (steps : Nat) (pairs : Pairs) (s : Source) : Option (Node × Source) :=
  match steps with
  | 0 => none
  | steps + 1 =>
    match s.tokens with
    | .value :: _ => do
      let (value, s) ← nodeUnless? steps false false [.flowEntry, .flowMappingEnd] s.drop
      flowPairs? steps false (← pairs.add? value) s
    | _ => do flowPairs? steps false (← pairs.add? .null) s

end

def Token.isDirective : Token → Bool
  | versionDirective | tagDirective _ _ => true
  | _ => false

/-- The handles that directives give a meaning, and the tokens after them. The version may be given
once. -/
def directives? (versioned : Bool) (handles : Handles) : List Token → Option (Handles × List Token)
  | .versionDirective :: rest => if versioned then none else directives? true [] rest
  | .tagDirective handle meant :: rest => directives? versioned [(handle, meant)] rest
  | tokens => some (handles, tokens)

/-- The value that the content of a document is, and the tokens after it. -/
def documentNode? (handles : Handles) (tokens : List Token) : Option (Node × List Token) :=
  (node? (8 * tokens.length + 8) true false ⟨tokens, handles, [], []⟩).map fun (node, s) =>
    (node, s.tokens)

/-- The next document. One that is not marked may come first, or after the mark of an end. -/
def document? (mayBegin : Bool) (tokens : List Token) : Option (Node × List Token) := do
  let (handles, rest) ← directives? false [] tokens
  match rest with
  | .documentStart :: rest =>
    match rest with
    | [] => return (.null, [])
    | token :: _ =>
      if token.isDirective || token == .documentStart || token == .documentEnd then
        return (.null, rest)
      else documentNode? handles rest
  | _ =>
    if mayBegin && !(tokens.head?.any Token.isDirective) then documentNode? [] tokens else none

/-- The documents of some tokens. A directive may come only at the beginning or after the mark of
an end. -/
def documents? (steps : Nat) (mayBegin : Bool) (tokens : List Token) : Option (List Node) :=
  match steps with
  | 0 => none
  | steps + 1 =>
    match tokens.dropWhile (· == .documentEnd) with
    | [] => some []
    | tokens => do
      let (node, rest) ← document? mayBegin tokens
      match rest with
      | .documentEnd :: rest => return node :: (← documents? steps true rest)
      | _ =>
        if rest.head?.any Token.isDirective then none
        else return node :: (← documents? steps false rest)

/-- What a text in YAML spells: one value per document. -/
def read? (text : String) : Option (List Node) := do
  let tokens ← tokens? text
  documents? (tokens.length + 1) true tokens

end Sift.Yaml
