import Sift.Json.Reader
import Sift.Settings.Path

namespace Sift

/-- The notation of a file of settings. -/
inductive SettingsFormat where
  | yaml
  | json
  deriving DecidableEq, Repr

namespace SettingsFormat

def ofExtension? : String → Option SettingsFormat
  | "yaml" | "yml" => some yaml
  | "json" => some json
  | _ => none

/-- The value that a text in YAML spells. One without documents is an empty table, and there may be
no more than one. -/
def readYaml? (text : String) : Option Setting := do
  match ← Yaml.read? text with
  | [] => return .table []
  | [node] => Setting.ofNode? node
  | _ => none

def read? (format : SettingsFormat) (text : String) : Option Setting :=
  match format with
  | yaml => readYaml? text
  | json => (Json.read? text).map Setting.ofJson

end SettingsFormat

/-- What can be set. -/
structure Settings where
  /-- How many compiled queries are kept. -/
  capacity : Nat
  deriving DecidableEq, Repr

namespace Settings

def defaultCapacity : Nat := 256

def default : Settings :=
  ⟨defaultCapacity⟩

/-- A text without the mark of its byte order, if it begins with that. -/
def withoutMark (text : String) : String :=
  match text.toList with
  | '\ufeff' :: cs => String.ofList cs
  | _ => text

/-- The values of a file, those at the top under their paths. The file must hold a table. -/
def ofFile? (format : SettingsFormat) (text : String) : Option Setting :=
  match format.read? (withoutMark text) with
  | some (.table entries) =>
    some (entries.foldl (fun all (name, value) => value.place (SettingStep.readPath name) all)
      (.table []))
  | _ => none

def variableMark : List Char :=
  "qsfilter_".toList

def dotted : List Char → List Char
  | [] => []
  | '_' :: '_' :: cs => '.' :: dotted cs
  | c :: cs => c :: dotted cs

/-- The path that a variable sets, by its name in any case, if it sets one. -/
def pathOfVariable? (name : String) : Option (List SettingStep) :=
  let cs := name.toList.map Char.toLower
  if variableMark.isPrefixOf cs then
    some (SettingStep.readPath (String.ofList (dotted (cs.drop variableMark.length))))
  else none

def withVariable (values : Setting) (name text : String) : Setting :=
  match pathOfVariable? name with
  | some path => (Setting.ofVariable text).place path values
  | none => values

/-- The capacity that the section on the cache sets. A section may also be a list of its values. -/
def capacityOf? : Setting → Option Nat
  | .table entries =>
    match Setting.lookup? "capacity" entries with
    | none => some defaultCapacity
    | some value => value.toNat?
  | .list [] => some defaultCapacity
  | .list (value :: _) => value.toNat?
  | _ => none

def ofValues? (values : Setting) : Option Settings :=
  match Setting.lookup? "cache" values.entries with
  | none => some default
  | some value => (capacityOf? value).map fun capacity => ⟨capacity⟩

/-- The settings from a file, if there is one, and from the variables of the environment, which go before the
file. -/
def load? (file : Option (SettingsFormat × String)) (environment : List (String × String)) :
    Option Settings := do
  let values ←
    match file with
    | none => some (.table [])
    | some (format, text) => ofFile? format text
  ofValues? (environment.foldl (fun all (name, text) => withVariable all name text) values)

end Settings

end Sift
