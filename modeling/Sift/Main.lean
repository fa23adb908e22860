import Sift.Command.Run
import Sift.Json.Pretty
import Sift.Settings.Basic

namespace Sift

def contents? (path : String) : IO (Option String) := do
  try
    return some (← IO.FS.readFile path)
  catch _ =>
    return none

def variableNames : List String :=
  ["QSFILTER_CACHE", "QSFILTER_CACHE__CAPACITY"]

/-- The settings from a file, if one is named, and from the environment. -/
def loadSettings? (path : Option String) : IO (Option Settings) := do
  let environment ← variableNames.filterMapM fun name => do
    return (← IO.getEnv name).map fun text => (name, text)
  match path with
  | none => return Settings.load? none environment
  | some path =>
    let ending := String.ofList (path.toList.reverse.takeWhile (· != '.')).reverse
    match SettingsFormat.ofExtension? ending, ← contents? path with
    | some format, some text => return Settings.load? (some (format, text)) environment
    | _, _ => return none

/-- A message on the error output, and the code of a failure. -/
def failWith (message : String) (code : UInt32) : IO UInt32 := do
  IO.eprintln message
  return code

/-- The program itself: arguments, settings and files come in, the output of a command goes out. -/
def runInvocation (invocation : Invocation) : IO UInt32 := do
  let config ←
    match invocation.config with
    | some path => pure (some path)
    | none => IO.getEnv "QSFILTER_CONFIG"
  match ← loadSettings? config with
  | none => failWith "Error: Config: Failed to load settings" 1
  | some settings =>
    let contents ←
      match invocation.command.document? with
      | some path => contents? path
      | none => pure none
    match invocation.command.run settings.capacity contents with
    | .ok output =>
      IO.println (if invocation.pretty then output.pretty else output.text)
      return 0
    | .error error =>
      let cause := (error.cause?.map fun cause => "\n\nCaused by:\n    " ++ cause.message).getD ""
      failWith ("Error: " ++ error.message ++ cause) 1

end Sift

def main (arguments : List String) : IO UInt32 :=
  match Sift.Invocation.read arguments with
  | .error error => Sift.failWith error.name 2
  | .ok invocation => Sift.runInvocation invocation
