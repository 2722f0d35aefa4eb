/-!
# Arguments

The arguments of the command line: the one command `explain` with its options, each followed by its
value or joined to it by an equals sign. An option that stands alone is only completed when the next
option, or the end, is reached; until then its value is not looked at.
-/

namespace DocSearch.CommandLine

/-- What a description is compiled for. -/
inductive Purpose where
  | search
  | flush
  deriving DecidableEq

namespace Purpose

def all : List Purpose := [search, flush]

def name : Purpose → String
  | search => "search"
  | flush => "flush"

def ofName? (name : String) : Option Purpose := all.find? (fun purpose => purpose.name = name)

end Purpose

/-- What is asked of the command `explain`. -/
structure Invocation where
  /-- The file of the configuration; without one the environment configures. -/
  config : Option String := none
  /-- The file of the description; without one it is read from the standard input. -/
  query : Option String := none
  purpose : Purpose := .search
  deriving DecidableEq

/-- Why no command is run. -/
inductive Usage where
  | help
  | version
  | noCommand
  | invalidCommand
  | unknownArgument
  | invalidValue
  | repeatedOption
  | unneededValue
  deriving DecidableEq

/-- Whether the text about the usage was asked for. -/
def Usage.isAsked : Usage → Bool
  | help | version => true
  | _ => false

inductive Flag where
  | config
  | query
  | operation
  deriving DecidableEq

namespace Flag

def all : List Flag := [config, query, operation]

def name : Flag → String
  | config => "config"
  | query => "query"
  | operation => "operation"

def ofName? (name : String) : Option Flag := all.find? (fun flag => flag.name = name)

end Flag

/-- An argument as it is spelled. -/
inductive Spelling where
  /-- Two dashes alone, after which no option follows. -/
  | separator
  /-- Two dashes and a name, perhaps with a value. -/
  | long (name : String) (value : Option String)
  /-- A dash and letters, of which the first counts. -/
  | short (letter : Char)
  | word (text : String)
  deriving DecidableEq

/-- A name, and what follows its first equals sign. -/
def splitValue (cs : List Char) : String × Option String :=
  let name := cs.takeWhile (· ≠ '=')
  let value := match cs.dropWhile (· ≠ '=') with
    | [] => none
    | _ :: rest => some (String.ofList rest)
  (String.ofList name, value)

def Spelling.of (arg : String) : Spelling :=
  match arg.toList with
  | ['-', '-'] => separator
  | '-' :: '-' :: rest => let (name, value) := splitValue rest; long name value
  | '-' :: letter :: _ => short letter
  | _ => word arg

structure Options where
  config : Option String := none
  query : Option String := none
  purpose : Option Purpose := none
  /-- The option that is not yet completed, and its value if it is there. -/
  pending : Option (Flag × Option String) := none

namespace Options

def pathOf (value : String) : Except Usage (Option String) :=
  if value = "" then .error .invalidValue else .ok (some value)

def purposeOf (value : String) : Except Usage (Option Purpose) :=
  (Purpose.ofName? value).elim (.error .invalidValue) (.ok ∘ some)

/-- Gives an option its value; none is given twice. -/
def assign (options : Options) (flag : Flag) (value : String) : Except Usage Options :=
  match flag with
  | .config => do
    if options.config.isSome then throw .repeatedOption
    return { options with config := ← pathOf value }
  | .query => do
    if options.query.isSome then throw .repeatedOption
    return { options with query := ← pathOf value }
  | .operation => do
    if options.purpose.isSome then throw .repeatedOption
    return { options with purpose := ← purposeOf value }

/-- Completes the pending option, if there is one. -/
def complete (options : Options) : Except Usage Options :=
  match options.pending with
  | none => .ok options
  | some (_, none) => .error .invalidValue
  | some (flag, some value) => { options with pending := none }.assign flag value

def invocation (options : Options) : Except Usage Invocation := do
  let options ← options.complete
  return ⟨options.config, options.query, options.purpose.getD .search⟩

end Options

def explainArguments (options : Options) : List String → Except Usage Invocation
  | [] => options.invocation
  | arg :: rest =>
    match Spelling.of arg with
    | .separator => if rest.isEmpty then options.invocation else .error .unknownArgument
    | .long name value =>
      match Flag.ofName? name, value with
      | some flag, some value => do
        explainArguments (← (← options.complete).assign flag value) rest
      | some flag, none => do
        explainArguments { ← options.complete with pending := some (flag, none) } rest
      | none, value =>
        if name = "help" then
          if value.isSome then .error .unneededValue else options.complete.bind fun _ => .error .help
        else .error .unknownArgument
    | .short letter =>
      if letter = 'h' then options.complete.bind fun _ => .error .help
      else .error .unknownArgument
    | .word text =>
      match options.pending with
      | some (flag, none) =>
        explainArguments { options with pending := some (flag, some text) } rest
      | _ => .error .unknownArgument

def commands : List String := ["explain", "help"]

/-- What the command `help` is asked about: nothing or a command. -/
def helpArguments : List String → Usage
  | [] => .help
  | [command] => if command ∈ commands then .help else .invalidCommand
  | _ => .invalidCommand

/-- Reads the arguments that follow the name of the program. -/
def arguments : List String → Except Usage Invocation
  | [] => .error .noCommand
  | "explain" :: rest => explainArguments {} rest
  | "help" :: rest => .error (helpArguments rest)
  | arg :: rest =>
    match Spelling.of arg with
    | .separator =>
      match rest with
      | [] => .error .noCommand
      | next :: _ => .error (if next ∈ commands then .unknownArgument else .invalidCommand)
    | .long name value =>
      if name = "help" ∨ name = "version" then
        .error (if value.isSome then .unneededValue else if name = "help" then .help else .version)
      else .error .unknownArgument
    | .short letter =>
      .error (if letter = 'h' then .help else if letter = 'V' then .version else .unknownArgument)
    | .word _ => .error .invalidCommand

end DocSearch.CommandLine
