import DocSearch.CommandLine.Explain

/-!
# The command line program

Reads the arguments, the files, the settings and the standard input, and prints what `explain` says. An
error goes to the standard error stream with the exit code 1, a misuse of the command line with 2.
-/

namespace DocSearch.CommandLine

def usageText : String :=
  "Usage: docsearch explain [--config <CONFIG>] [--query <QUERY>] [--operation <search|flush>]"

def versionText : String := "docsearch 0.1.0"

/-- What is printed when no command is run. -/
def usageTextOf : Usage → String
  | .help | .noCommand => usageText
  | .version => versionText
  | .invalidCommand => "error: unrecognized subcommand\n\n" ++ usageText
  | .unknownArgument => "error: unexpected argument\n\n" ++ usageText
  | .invalidValue => "error: invalid value for an option\n\n" ++ usageText
  | .repeatedOption => "error: an option cannot be used multiple times\n\n" ++ usageText
  | .unneededValue => "error: unexpected value for an option\n\n" ++ usageText

/-- The text that bytes encode. -/
def textOfBytes (bytes : ByteArray) : Except String String :=
  (String.fromUTF8? bytes).elim (.error "stream did not contain valid UTF-8") .ok

/-- The text of a file, or why it cannot be read. -/
def readText (path : String) : IO (Except String String) := do
  try return textOfBytes (← IO.FS.readBinFile path)
  catch e => return .error (toString e)

/-- Reads a file when one is named. -/
def readNamed (path : Option String) : IO (Except String String) :=
  match path with
  | some path => readText path
  | none => return .error ""

/-- Reads a stream to its end. -/
partial def readAll (stream : IO.FS.Stream) (read : ByteArray := ByteArray.empty) :
    IO ByteArray := do
  let chunk ← stream.read 65536
  if chunk.isEmpty then return read else readAll stream (read ++ chunk)

/-- The standard input of an invocation, which is read only when no file is named. -/
def readInput (invocation : Invocation) : IO (Except String String) := do
  if invocation.query.isSome then return .error ""
  return textOfBytes (← readAll (← IO.getStdin))

end DocSearch.CommandLine

open DocSearch DocSearch.CommandLine

def main (args : List String) : IO UInt32 := do
  match arguments args with
  | .error usage =>
    if usage.isAsked then
      IO.println (usageTextOf usage)
      return 0
    else
      IO.eprintln (usageTextOf usage)
      return 2
  | .ok invocation =>
    let config ← readNamed invocation.config
    let query ← readNamed invocation.query
    let input ← readInput invocation
    let names := [Config.hostVariable, Config.retriesVariable, Config.indexVariable]
    let settings ← names.filterMapM fun name => do
      return (← IO.getEnv name).map (name, ·)
    let around : Surroundings :=
      { file := fun path => if some path = invocation.config then config else query
        input := input
        setting := fun name => settings.lookup name }
    match explain around invocation with
    | .ok text =>
      IO.print text
      return 0
    | .error e =>
      IO.eprintln e.display
      return 1
