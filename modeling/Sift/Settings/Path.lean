import Sift.Settings.Value

namespace Sift

/-- A step of a path. -/
inductive SettingStep where
  | key (name : String)
  /-- An item of a list. Below zero, items count from the end. -/
  | item (index : Int)
  deriving DecidableEq, Repr

namespace SettingStep

def isKeyChar (c : Char) : Bool :=
  c.isAlphanum || c == '_' || c == '-'

/-- The key at the front of a text, and the text after it. -/
def readKey? (cs : List Char) : Option (SettingStep × List Char) :=
  let name := cs.takeWhile isKeyChar
  if name.isEmpty then none else some (key (String.ofList name), cs.dropWhile isKeyChar)

def skipSpace (cs : List Char) : List Char :=
  cs.dropWhile fun c => c == ' ' || c == '\t'

/-- The index after an opening bracket, up to the closing one, and the text after it. -/
def readItem? (cs : List Char) : Option (SettingStep × List Char) := do
  let cs := skipSpace cs
  let (negative, cs) :=
    match cs with
    | '-' :: cs => (true, cs)
    | cs => (false, cs)
  let ds := cs.takeWhile Char.isDigit
  match skipSpace (cs.dropWhile Char.isDigit) with
  | ']' :: rest =>
    let index : Int := if negative then -(numberOf ds : Int) else numberOf ds
    if ds.isEmpty || 9223372036854775807 < index || index < -9223372036854775808 then none
    else return (item index, rest)
  | _ => none

/-- The steps after those that have been read, the last of which comes first. -/
def readFurther? (fuel : Nat) (path : List SettingStep) (cs : List Char) :
    Option (List SettingStep) :=
  match fuel, cs with
  | _, [] => some path.reverse
  | 0, _ => none
  | fuel + 1, '.' :: cs => do
    let (step, rest) ← readKey? cs
    readFurther? fuel (step :: path) rest
  | fuel + 1, '[' :: cs => do
    let (step, rest) ← readItem? cs
    readFurther? fuel (step :: path) rest
  | _, _ => none

/-- The path that a text spells, as in `section.key` and `list[0]`. A text that spells none is itself a key. -/
def readPath (name : String) : List SettingStep :=
  let path? := do
    let (first, rest) ← readKey? name.toList
    readFurther? name.length [first] rest
  path?.getD [key name]

end SettingStep

namespace Setting

/-- The entries of a table. Other values have none. -/
def entries : Setting → List (String × Setting)
  | table entries => entries
  | _ => []

/-- The items of a list. Other values have none. -/
def items : Setting → List Setting
  | list items => items
  | _ => []

def isNull : Setting → Bool
  | null => true
  | _ => false

mutual

/-- A value that is set in place of another one. A table is merged with the other, entry by entry.
-/
def merge (old : Setting) : Setting → Setting
  | table new => mergeEntries (if old.isNull then table [] else old) new
  | new => new

def mergeEntries (old : Setting) : List (String × Setting) → Setting
  | [] => old
  | (key, new) :: rest =>
    let inner := ((lookup? key old.entries).getD null).merge new
    mergeEntries (table (put key inner old.entries)) rest

end

/-- Items with one of them changed, counted from the end below zero. Where there is no such item,
nulls are put at that end until there is one. -/
def changeItem (items : List Setting) (index : Int) (change : Setting → Setting) : List Setting :=
  let place := if index < 0 then index + items.length else index
  let items :=
    if place < 0 then List.replicate (-place).toNat null ++ items
    else items ++ List.replicate (place.toNat + 1 - items.length) null
  items.modify place.toNat change

/-- A value with what a path leads to set to another. What is missing on the way is made, and what is no table
or no list gives way to one, so that a value can be set anywhere. -/
def place (new : Setting) : List SettingStep → Setting → Setting
  | [], old => old.merge new
  | .key name :: path, old =>
    table (put name (new.place path ((lookup? name old.entries).getD null)) old.entries)
  | .item index :: path, old => list (changeItem old.items index (new.place path))

end Setting

end Sift
