import Sift.Grammar.Criteria

namespace Sift

/-- A part of a class: a character that stands alone, or a range. -/
inductive ClassPart where
  | single (c : Char)
  | range (first last : Char)

namespace ClassPart

/-- A range names the characters whose numbers are not outside those of its ends. -/
def Names : ClassPart → Char → Prop
  | single c, d => d = c
  | range first last, d => first ≤ d ∧ d ≤ last

def Ascends : ClassPart → Prop
  | single _ => True
  | range first last => first ≤ last

/-- The first part that names either of two characters names one of them, and the other one only behind it. -/
def NamedBefore : List ClassPart → Char → Char → Prop
  | [], _, _ => False
  | part :: parts, c, d =>
    part.Names c ∧ (part.Names d → c < d) ∨ ¬part.Names c ∧ ¬part.Names d ∧ NamedBefore parts c d

end ClassPart

/-- The parts of a class, from left to right. A member before a dash and another member begins a range, and any other
one stands alone. -/
inductive ClassDivides : List Token → List ClassPart → Prop
  | done : ClassDivides [] []
  | range {first dash last ts parts} : first.kind.isMember → dash.kind = .dash → last.kind.isMember →
      ClassDivides ts parts →
      ClassDivides (first :: dash :: last :: ts) (.range first.char last.char :: parts)
  | single {t ts parts} : t.kind.isMember →
      (∀ dash last others, ts = dash :: last :: others → ¬(dash.kind = .dash ∧ last.kind.isMember)) →
      ClassDivides ts parts → ClassDivides (t :: ts) (.single t.char :: parts)

/-- What the tokens between the brackets of a class read as. -/
structure ClassReads (ts : List Token) (parts : List ClassPart) (members : List Char) : Prop where
  inside : ∀ t ∈ ts, t.kind.isLiteral = true ∧ t.kind ≠ .whitespace ∧ t.kind ≠ .rightBracket
  divides : ClassDivides ts parts
  ascending : ∀ part ∈ parts, part.Ascends
  nonempty : members ≠ []
  distinct : members.Nodup
  named : ∀ c, c ∈ members ↔ ∃ part ∈ parts, part.Names c
  order : members.Pairwise (ClassPart.NamedBefore parts)

/-- A character of a text, a quoted part of it, which may be empty, or a class. -/
inductive PieceSpells : List Token → Segment → Prop
  | plain {t} : t.kind.isLiteral → PieceSpells [t] (.literal [t.char])
  | quoted {opening ts closing} : opening.kind = .doubleQuote → (∀ t ∈ ts, t.kind ≠ .doubleQuote) →
      closing.kind = .doubleQuote → PieceSpells (opening :: ts ++ [closing]) (.literal (ts.map Token.char))
  | choice {opening ts closing parts members} : opening.kind = .leftBracket → ClassReads ts parts members →
      closing.kind = .rightBracket → PieceSpells (opening :: ts ++ [closing]) (.choice members)

/-- A text between stars: one piece or more. -/
inductive TextSpells : List Token → List Segment → Prop
  | last {ts segment} : PieceSpells ts segment → TextSpells ts [segment]
  | next {ts us segment segments} : PieceSpells ts segment → TextSpells us segments →
      TextSpells (ts ++ us) (segment :: segments)

/-- What a text stands for as a condition. One without classes stands for the condition on its characters, and any
other one for as many variants as its first class has members. In each of them a member takes the place of the class. -/
inductive TextMeans (build : String → Expression) : List Segment → Expression → Prop
  | whole {pieces : List (List Char)} :
      TextMeans build (pieces.map .literal) (build (String.ofList pieces.flatten))
  | variants {before : List (List Char)} {members rest} {variant : Char → Expression} :
      (∀ c ∈ members, TextMeans build (before.map .literal ++ .literal [c] :: rest) (variant c)) →
      TextMeans build (before.map .literal ++ .choice members :: rest) (.oneOf (members.map variant))

/-- A term: a star, or a text with stars at its ends or one star within. -/
inductive TermSpells : List Token → Expression → Prop
  | anything {star} : star.kind = .asterisk → TermSpells [star] .anything
  | constant {ts text e} : TextSpells ts text → TextMeans .constant text e → TermSpells ts e
  | startsWith {ts text star e} : TextSpells ts text → star.kind = .asterisk →
      TextMeans .startsWith text e → TermSpells (ts ++ [star]) e
  | endsWith {star ts text e} : star.kind = .asterisk → TextSpells ts text →
      TextMeans .endsWith text e → TermSpells (star :: ts) e
  | contains {star ts text star' e} : star.kind = .asterisk → TextSpells ts text →
      star'.kind = .asterisk → TextMeans .contains text e → TermSpells (star :: ts ++ [star']) e
  | around {ts before star us after first second} : TextSpells ts before → star.kind = .asterisk →
      TextSpells us after → TextMeans .startsWith before first → TextMeans .endsWith after second →
      TermSpells (ts ++ star :: us) (.and first second)

/-- The text of a bound: members of a class in a row. -/
def RunSpells (ts : List Token) (text : String) : Prop :=
  ts ≠ [] ∧ (∀ t ∈ ts, t.kind.isMember) ∧ text = String.ofList (ts.map Token.char)

/-- A bound of an interval: a star, a word, a date, a time, or a date and a time. -/
inductive BoundSpells : List Token → Boundary → Prop
  | unbounded {star} : star.kind = .asterisk → BoundSpells [star] .unbounded
  | constant {ts text} : RunSpells ts text → isWord text → BoundSpells ts (.constant text)
  | date {ts text d} : RunSpells ts text → Date.read text = .ok (some d) → BoundSpells ts (.date d)
  | time {ts text t} : RunSpells ts text → Time.read text = .ok (some t) → BoundSpells ts (.time t)
  | dateTime {ts text d t} : RunSpells ts text → readDateTime text = .ok (some (d, t)) →
      BoundSpells ts (.dateTime d t)

/-- White space, at least one character of it. -/
def IsGap (ts : List Token) : Prop :=
  ts ≠ [] ∧ ∀ t ∈ ts, t.kind = .whitespace

/-- A token that is a certain letter. -/
def Token.IsLetter (t : Token) (c : Char) : Prop :=
  t.kind = .letter ∧ t.char = c

/-- Two bounds in brackets with `TO` between them. -/
inductive IntervalSpells : List Token → Expression → Prop
  | mk {opening lower gap t o gap' upper closing min max} : opening.kind = .leftBracket →
      BoundSpells lower min → IsGap gap → t.IsLetter 'T' → o.IsLetter 'O' → IsGap gap' →
      BoundSpells upper max → closing.kind = .rightBracket →
      IntervalSpells (opening :: (lower ++ gap ++ t :: o :: gap' ++ upper ++ [closing]))
        (.interval min max)

/-- The two kinds of chains in an expression. -/
inductive Chain where
  | alternatives
  | conditions

/-- The layers of an expression: chains of operands, and single conditions. -/
inductive Layer where
  | chain (chain : Chain)
  | unary

namespace Chain

/-- What stands between two operands. -/
def separator : Chain → Kind
  | alternatives => .bar
  | conditions => .comma

/-- What two operands make. -/
def join : Chain → Expression → Expression → Expression
  | alternatives => .or
  | conditions => .and

/-- What the operands are: alternatives are chains of conditions themselves. -/
def operands : Chain → Layer
  | alternatives => .chain conditions
  | conditions => .unary

end Chain

/-- The expressions that tokens spell on a layer. Chains lean to the left. -/
inductive Derives : Layer → List Token → Expression → Prop
  | term {ts e} : TermSpells ts e → Derives .unary ts e
  | interval {ts e} : IntervalSpells ts e → Derives .unary ts e
  | group {opening ts closing e} : opening.kind = .leftParenthesis →
      Derives (.chain .alternatives) ts e → closing.kind = .rightParenthesis →
      Derives .unary (opening :: ts ++ [closing]) (.group e)
  | not {bang ts e} : bang.kind = .bang → Derives .unary ts e → Derives .unary (bang :: ts) (.not e)
  | first {chain ts e} : Derives chain.operands ts e → Derives (.chain chain) ts e
  | next {chain ts left separator us right} : Derives (.chain chain) ts left →
      separator.kind = chain.separator → Derives chain.operands us right →
      Derives (.chain chain) (ts ++ separator :: us) (chain.join left right)

/-- The name of a property. -/
inductive NameSpells : List Token → String → Prop
  | mk {first ts} : first.kind.beginsName → (∀ t ∈ ts, t.kind.inName) →
      NameSpells (first :: ts) (String.ofList ((first :: ts).map Token.char))

/-- Names with dots between them. -/
inductive NamesSpell : List Token → List String → Prop
  | last {ts name} : NameSpells ts name → NamesSpell ts [name]
  | next {ts name dot us names} : NameSpells ts name → dot.kind = .dot → NamesSpell us names →
      NamesSpell (ts ++ dot :: us) (name :: names)

/-- A property path, `=` and an expression. -/
inductive CriterionSpells : List Token → Criterion → Prop
  | mk {ts names equal us e} : NamesSpell ts names → equal.kind = .equal →
      Derives (.chain .alternatives) us e → CriterionSpells (ts ++ equal :: us) ⟨⟨names⟩, e⟩

/-- Criteria with `&` between them. -/
inductive CriteriaSpell : List Token → List Criterion → Prop
  | last {ts criterion} : CriterionSpells ts criterion → CriteriaSpell ts [criterion]
  | next {ts criterion ampersand us criteria} : CriterionSpells ts criterion →
      ampersand.kind = .ampersand → CriteriaSpell us criteria →
      CriteriaSpell (ts ++ ampersand :: us) (criterion :: criteria)

end Sift
