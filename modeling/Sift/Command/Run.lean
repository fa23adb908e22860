import Sift.Cache.Basic
import Sift.Command.Arguments
import Sift.Filter.Matching
import Sift.Filter.Wire
import Sift.Json.View

namespace Sift

/-- Why a command fails. -/
inductive CommandError where
  | criteria (cause : QueryError)
  | filter (cause : QueryError)
  | sorting (cause : QueryError)
  | unreadable (path : String)
  | notJson (path : String)
  deriving DecidableEq, Repr

namespace CommandError

def message : CommandError → String
  | criteria _ => "Parser: Failed to parse criteria"
  | filter _ => "Compiler: Failed to compile filter"
  | sorting _ => "Parser: Failed to parse sort"
  | unreadable path => "IO: Failed to read " ++ path
  | notJson path => "IO: Invalid JSON in " ++ path

/-- The refusal that the failure comes from, if it is one of the text's. -/
def cause? : CommandError → Option QueryError
  | criteria cause => some cause
  | filter cause => some cause
  | sorting cause => some cause
  | unreadable _ => none
  | notJson _ => none

end CommandError

namespace Command

def document? : Command → Option String
  | filter _ document => document
  | _ => none

def tryOn (filter : Filter) (path : String) (contents : Option String) :
    Except CommandError Json :=
  match contents with
  | none => .error (.unreadable path)
  | some text =>
    match Json.read? text with
    | none => .error (.notJson path)
    | some document =>
      .ok (.ofFields [("filter", filter.toJson), ("matches", .bool (filter.accepts document))])

/-- The output of a command, given the capacity of its cache and what the file it looks at holds. Only one of
the commands looks at a file, the document that a filter is tried on. -/
def run (command : Command) (capacity : Nat) (contents : Option String) :
    Except CommandError Json :=
  match command with
  | tokens text => .ok (.array ((Token.scan text).map Token.toJson))
  | ast text =>
    match Criterion.readList text with
    | .error error => .error (.criteria error)
    | .ok criteria => .ok (.array (criteria.map Criterion.toJson))
  | filter text document =>
    match ((Cache.empty capacity).compile Target.anything text).1 with
    | .error error => .error (.filter error)
    | .ok compiled =>
      match document with
      | none => .ok compiled.filter.toJson
      | some path => tryOn compiled.filter path contents
  | sort text =>
    match Target.anything.compileSorting text with
    | .error error => .error (.sorting error)
    | .ok sorting => .ok sorting.toJson

end Command

end Sift
