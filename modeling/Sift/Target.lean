import Sift.Filter.Lowering
import Sift.Grammar.Criteria
import Sift.Sorting.Reader

namespace Sift

/-- What a kind of document calls the property that a path leads to, if it has that property. -/
abbrev Resolver := PropertyPath → Option String

namespace Resolver

/-- The path by which a kind of document names the property that a path leads to. -/
def resolve (resolver : Resolver) (path : PropertyPath) : Except QueryError PropertyPath :=
  match resolver path with
  | some name => .ok (.ofDotted name)
  | none => .error (.unknownProperty path.dotted)

/-- Criteria with the properties by the names of a kind of document. -/
def resolveCriteria (resolver : Resolver) : List Criterion → Except QueryError (List Criterion)
  | [] => .ok []
  | criterion :: others =>
    match resolve resolver criterion.property with
    | .error error => .error error
    | .ok path => (resolveCriteria resolver others).map ({ criterion with property := path } :: ·)

def resolveKeys (resolver : Resolver) : List SortKey → Except QueryError (List SortKey)
  | [] => .ok []
  | key :: others =>
    match resolve resolver key.property with
    | .error error => .error error
    | .ok path => (resolveKeys resolver others).map ({ key with property := path } :: ·)

/-- The filter that a query is for a kind of document. A blank query is met by every document. -/
def compile (resolver : Resolver) (text : String) : Except QueryError Filter :=
  if isBlankText text then .ok .always
  else
    match Criterion.readList text with
    | .error error => .error error
    | .ok criteria => (resolveCriteria resolver criteria).map Criterion.filterAll

def compileSorting (resolver : Resolver) (text : String) : Except QueryError Sorting :=
  match Sorting.read text with
  | .error error => .error error
  | .ok (.single key) =>
    (resolve resolver key.property).map fun path => .single { key with property := path }
  | .ok (.several keys) => (resolveKeys resolver keys).map Sorting.several

end Resolver

/-- Which properties a kind of document has. -/
inductive Properties where
  /-- Any property, under the name by which a query calls it. -/
  | any
  /-- The properties of a list. Their names are found in any case. -/
  | listed (names : List String)
  deriving DecidableEq, Hashable, Repr

/-- A kind of document. Kinds of different names are different, whatever properties they have. A query is
compiled for a target, and every property in the result has the name that the target gives it. -/
structure Target where
  name : String
  properties : Properties
  deriving DecidableEq, Hashable, Repr

/-- Whether two texts are equal but for the case of ASCII letters. -/
def sameIgnoringCase (a b : String) : Bool :=
  a.toList.map Char.toLower == b.toList.map Char.toLower

namespace Target

/-- The name that a target gives a property. A listed one is found in any case and gets the case of the list. -/
def resolve? (target : Target) : Resolver := fun path =>
  match target.properties with
  | .any => some path.dotted
  | .listed names => names.find? (sameIgnoringCase · path.dotted)

def compile (target : Target) (text : String) : Except QueryError Filter :=
  Resolver.compile target.resolve? text

def compileSorting (target : Target) (text : String) : Except QueryError Sorting :=
  Resolver.compileSorting target.resolve? text

def anything : Target :=
  ⟨"any", .any⟩

end Target

/-- Types whose values are kinds of documents. Which names these have for properties is free. -/
class Targets (τ : Type) where
  resolver : τ → Resolver

instance : Targets Target :=
  ⟨Target.resolve?⟩

end Sift
