namespace Sift

/-- The names of the subcommands. -/
inductive Subcommand where
  | tokens
  | ast
  | filter
  | sort
  | help
  deriving DecidableEq, Repr

namespace Subcommand

def ofName? : String → Option Subcommand
  | "tokens" => some tokens
  | "ast" => some ast
  | "filter" => some filter
  | "sort" => some sort
  | "help" => some help
  | _ => none

end Subcommand

/-- Why arguments are not run. Asking for help or for the version is among the reasons. -/
inductive UsageError where
  | displayHelp
  | displayHelpOnMissing
  | displayVersion
  | missingSubcommand
  | invalidSubcommand
  | unknownArgument
  | missingRequiredArgument
  | argumentConflict
  | tooManyValues
  | invalidValue
  deriving DecidableEq, Repr

namespace UsageError

def name : UsageError → String
  | displayHelp => "DisplayHelp"
  | displayHelpOnMissing => "DisplayHelpOnMissingArgumentOrSubcommand"
  | displayVersion => "DisplayVersion"
  | missingSubcommand => "MissingSubcommand"
  | invalidSubcommand => "InvalidSubcommand"
  | unknownArgument => "UnknownArgument"
  | missingRequiredArgument => "MissingRequiredArgument"
  | argumentConflict => "ArgumentConflict"
  | tooManyValues => "TooManyValues"
  | invalidValue => "InvalidValue"

end UsageError

/-- Options that take a value. -/
inductive ValueOption where
  | config
  | document
  deriving DecidableEq, Repr

/-- What may follow the dashes of an argument. -/
inductive Switch where
  | verbose
  | pretty
  | help
  | version
  | valued (option : ValueOption)
  deriving DecidableEq, Repr

/-- The place in the arguments: before the subcommand or after it. -/
abbrev Level :=
  Option Subcommand

namespace Switch

def long? (level : Level) : String → Option Switch
  | "config" => some (valued .config)
  | "verbose" => some verbose
  | "pretty" => some pretty
  | "help" => some help
  | "version" => if level.isNone then some version else none
  | "document" => if level = some .filter then some (valued .document) else none
  | _ => none

def short? (level : Level) : Char → Option Switch
  | 'c' => some (valued .config)
  | 'v' => some verbose
  | 'h' => some help
  | 'V' => if level.isNone then some version else none
  | 'd' => if level = some .filter then some (valued .document) else none
  | _ => none

end Switch

/-- What the arguments of one level have given so far. -/
structure Given where
  verbose : Bool
  pretty : Bool
  config : Option String
  document : Option String
  text : Option String
  /-- The option that was named last, with its value if that has come. It counts only once another
  argument is recognised. -/
  pending : Option (ValueOption × Option String)
  deriving DecidableEq, Repr

namespace Given

def nothing : Given :=
  ⟨false, false, none, none, none, none⟩

def has (given : Given) : ValueOption → Bool
  | .config => given.config.isSome
  | .document => given.document.isSome

def set (given : Given) (value : String) : ValueOption → Given
  | .config => { given with config := some value }
  | .document => { given with document := some value }

/-- An option with a value: given once, and not empty. -/
def take (given : Given) (option : ValueOption) (value : String) : Except UsageError Given :=
  if given.has option then .error .argumentConflict
  else if value = "" then .error .invalidValue
  else .ok (given.set value option)

/-- What is given when no more arguments come. An option that still awaits its value is an error. -/
def settle (given : Given) : Except UsageError Given :=
  match given.pending with
  | none => .ok given
  | some (_, none) => .error .invalidValue
  | some (option, some value) => { given with pending := none }.take option value

def isSome (given : Given) : Bool :=
  given.verbose || given.pretty || given.config.isSome

def turnOn (given : Given) : Switch → Except UsageError Given
  | .verbose =>
    if given.verbose then .error .argumentConflict else .ok { given with verbose := true }
  | .pretty =>
    if given.pretty then .error .argumentConflict else .ok { given with pretty := true }
  | .help => .error .displayHelp
  | .version => .error .displayVersion
  | .valued _ => .ok given

/-- A switch, once the option before it is settled. Its value may be attached to it. -/
def switch (given : Given) (item : Switch) (attached : Option String) :
    Except UsageError Given := do
  let given ← given.settle
  match item, attached with
  | .valued option, some value => given.take option value
  | .valued option, none => return { given with pending := some (option, none) }
  | item, _ => given.turnOn item

def awaits (given : Given) : Bool :=
  match given.pending with
  | some (_, none) => true
  | _ => false

def fill (given : Given) (value : String) : Given :=
  match given.pending with
  | some (option, none) => { given with pending := some (option, some value) }
  | _ => given

/-- An argument that is neither an option nor the value of one. Before the subcommand it is taken
for a wrong one. -/
def positional (given : Given) (level : Level) (argument : String) : Except UsageError Given :=
  if level.isNone then .error .invalidSubcommand
  else if given.text.isSome then .error .unknownArgument
  else do
    let given ← given.settle
    return { given with text := some argument }

end Given

/-- What an argument is at its place. -/
inductive Reading where
  | taken (given : Given)
  /-- It has dashes in front but may be text. -/
  | plain
  | refused (error : UsageError)

namespace Reading

def ofExcept : Except UsageError Given → Reading
  | .ok given => .taken given
  | .error error => .refused error

end Reading

/-- Whether the text that is still to come may have dashes in front. -/
def allowsDashes (level : Level) (given : Given) : Bool :=
  level = some .sort && given.text.isNone

/-- An argument with two dashes in front, read as a name and an attached value. -/
def readLong (level : Level) (given : Given) (body : List Char) : Reading :=
  let name := String.ofList (body.takeWhile (· != '='))
  let attached :=
    match body.dropWhile (· != '=') with
    | [] => none
    | _ :: value => some (String.ofList value)
  match Switch.long? level name, attached with
  | some (.valued option), _ => .ofExcept (given.switch (.valued option) attached)
  | some _, some _ => .refused .tooManyValues
  | some item, none => .ofExcept (given.switch item none)
  | none, _ => if allowsDashes level given then .plain else .refused .unknownArgument

/-- Letters after one dash, each a switch. What follows the letter of an option is its value. -/
def readLetters (level : Level) (given : Given) : List Char → Reading
  | [] => .taken given
  | c :: cs =>
    match Switch.short? level c with
    | none => .refused .unknownArgument
    | some (.valued option) =>
      let attached :=
        match cs with
        | [] => none
        | '=' :: value => some (String.ofList value)
        | value => some (String.ofList value)
      .ofExcept (given.switch (.valued option) attached)
    | some item =>
      match given.switch item none with
      | .error error => .refused error
      | .ok given => readLetters level given cs

/-- An argument with one dash in front. It may be text if one of its letters is no switch. -/
def readShort (level : Level) (given : Given) (letters : List Char) : Reading :=
  if allowsDashes level given && letters.any fun c => (Switch.short? level c).isNone then .plain
  else readLetters level given letters

/-- An argument before any `--`, read by the dashes in front of it. -/
def readArgument (level : Level) (given : Given) (argument : String) : Reading :=
  match argument.toList with
  | '-' :: '-' :: body => readLong level given body
  | '-' :: c :: cs => readShort level given (c :: cs)
  | _ => .plain

/-- The arguments after `--`, all of them text. -/
def readTrailing (level : Level) (given : Given) : List String → Except UsageError Given
  | [] => .ok given
  | argument :: rest =>
    if level.isNone && (Subcommand.ofName? argument).isSome then .error .unknownArgument
    else do readTrailing level (← given.positional level argument) rest

/-- The arguments of a level up to the subcommand, if one is to come, with those after it. -/
def readLevel (level : Level) (given : Given) :
    List String → Except UsageError (Given × Option (Subcommand × List String))
  | [] => .ok (given, none)
  | argument :: rest =>
    match level.isNone && !given.awaits, Subcommand.ofName? argument with
    | true, some subcommand => .ok (given, some (subcommand, rest))
    | _, _ =>
      if argument = "--" then (readTrailing level given rest).map fun given => (given, none)
      else
        match readArgument level given argument with
        | .refused error => .error error
        | .taken given => readLevel level given rest
        | .plain =>
          if given.awaits then readLevel level (given.fill argument) rest
          else
            match given.positional level argument with
            | .error error => .error error
            | .ok given => readLevel level given rest

/-- What the program is asked to do. -/
inductive Command where
  | tokens (text : String)
  | ast (text : String)
  | filter (text : String) (document : Option String)
  | sort (text : String)
  deriving DecidableEq, Repr

/-- A command with the options that go with any command. -/
structure Invocation where
  command : Command
  config : Option String
  verbose : Bool
  pretty : Bool
  deriving DecidableEq, Repr

/-- The outcome of asking for help on subcommands: help, if there are such. -/
def helpOn : List String → UsageError
  | [] => .displayHelp
  | [name] => if (Subcommand.ofName? name).isSome then .displayHelp else .invalidSubcommand
  | _ :: _ :: _ => .invalidSubcommand

namespace Command

/-- The command of a subcommand with its text. Help is no command. -/
def of? (subcommand : Subcommand) (text : String) (document : Option String) : Option Command :=
  match subcommand with
  | .tokens => some (tokens text)
  | .ast => some (ast text)
  | .filter => some (filter text document)
  | .sort => some (sort text)
  | .help => none

end Command

namespace Invocation

/-- The command that the arguments after a subcommand complete. -/
def readCommand (subcommand : Subcommand) (arguments : List String) :
    Except UsageError (Command × Given) := do
  let (given, _) ← readLevel (some subcommand) .nothing arguments
  let given ← given.settle
  match given.text with
  | none => .error .missingRequiredArgument
  | some text =>
    match Command.of? subcommand text given.document with
    | some command => return (command, given)
    | none => .error .displayHelp

/-- The command of a command line. A subcommand comes with the text that it works on; options may stand before
it and after it. An option that awaits its value takes the next argument, and after `--` every argument is text.
-/
def read (arguments : List String) : Except UsageError Invocation := do
  let (given, found) ← readLevel none .nothing arguments
  match found with
  | some (.help, rest) => .error (helpOn rest)
  | some (subcommand, rest) =>
    let (command, inner) ← readCommand subcommand rest
    let outer ← given.settle
    return ⟨command, inner.config.or outer.config, inner.verbose || outer.verbose,
      inner.pretty || outer.pretty⟩
  | none =>
    let given ← given.settle
    .error (if given.isSome then .missingSubcommand else .displayHelpOnMissing)

end Invocation

end Sift
