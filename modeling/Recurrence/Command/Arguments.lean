import Recurrence.Command.Invocation

/-!
# Arguments

How a command line is read, from left to right. An option may have its value attached,
`--count=5`, `-n5` or `-n=5`; such a value is checked on the spot. A value that stands
apart is only taken down, and so is the rule file: both stay pending until the next
option or operand is recognised, or the arguments end. Hence an unknown argument is
reported before a wrong value in front of it.

An argument that begins with a dash is never the value of an option. Behind `--` every
argument is an operand.

Options in front of the command belong to the program, those behind it to the command.
-/

namespace Recurrence.Command

/-- The options. -/
inductive Flag where
  | config
  | count
  | lower
  | upper
  | format
  | help
  | version
deriving DecidableEq, Repr

namespace Flag

/-- The long name of an option. -/
def long : Flag → List Char
  | config => "config".toList
  | count => "count".toList
  | lower => "from".toList
  | upper => "to".toList
  | format => "output-format".toList
  | help => "help".toList
  | version => "version".toList

/-- The letter of an option, if it has one. -/
def short? : Flag → Option Char
  | config => some 'c'
  | count => some 'n'
  | help => some 'h'
  | version => some 'V'
  | lower | upper | format => none

/-- Whether an option has a value. -/
def takesValue : Flag → Bool
  | help | version => false
  | _ => true

/-- Whether an option may also be given without its value. -/
def valueOptional : Flag → Bool
  | config => true
  | _ => false

end Flag

/-- The commands by name. -/
inductive CommandName where
  | list
  | check
deriving DecidableEq, Repr

namespace CommandName

/-- Finds a command by its name or by its other name. -/
def ofText? (text : String) : Option CommandName :=
  if text = "list" ∨ text = "ls" then some list
  else if text = "check" then some check
  else none

/-- The options of a command. -/
def flags : CommandName → List Flag
  | list => [.count, .lower, .upper, .format, .help]
  | check => [.format, .help]

end CommandName

/-- The options of the program itself. -/
def programFlags : List Flag :=
  [.config, .help, .version]

/-- What the arguments have given so far, checked. -/
structure Given where
  /-- The configuration file, or that the option was given without one. -/
  config : Option (Option String)
  /-- The most occurrences. -/
  count : Option Nat
  /-- The lower end of the window. -/
  lower : Option DateTime
  /-- The upper end of the window. -/
  upper : Option DateTime
  /-- The output format. -/
  format : Option OutputFormat
  /-- The rule file. -/
  rule : Option String

/-- What has been taken down but not checked. -/
inductive Pending where
  /-- Nothing. -/
  | nothing
  /-- An option, with its value if that has come. -/
  | flag (flag : Flag) (value : Option String)
  /-- The rule file. -/
  | rule (path : String)

/-- A command line of which some arguments have been read. -/
structure Progress where
  /-- What has been checked. -/
  given : Given
  /-- What has not. -/
  pending : Pending
  /-- Whether the rule file has been taken down. -/
  hasRule : Bool
  /-- Whether all further arguments are operands. -/
  operandsOnly : Bool

namespace Given

/-- Nothing yet. -/
def empty : Given :=
  ⟨none, none, none, none, none, none⟩

/-- Whether an option has been given. -/
def has (given : Given) : Flag → Bool
  | .config => given.config.isSome
  | .count => given.count.isSome
  | .lower => given.lower.isSome
  | .upper => given.upper.isSome
  | .format => given.format.isSome
  | .help | .version => false

/-- Checks the value of an option and takes it over. -/
def put (given : Given) (flag : Flag) (value : String) : Except UsageError Given := do
  match flag with
  | .config => do
      let path ← readPath value
      return { given with config := some (some path) }
  | .count => do
      let count ← readSize value
      return { given with count := some count }
  | .lower => do
      let t ← readDateTime value
      return { given with lower := some t }
  | .upper => do
      let t ← readDateTime value
      return { given with upper := some t }
  | .format => do
      let format ← readFormat value
      return { given with format := some format }
  | .help => .error .help
  | .version => .error .version

/-- Takes over an option. A missing value comes first, then repetition, then the value. -/
def add (given : Given) (flag : Flag) (value : Option String) : Except UsageError Given :=
  match value with
  | none =>
      if !flag.valueOptional then .error .invalidValue
      else if given.has flag then .error .repeatedOption
      else .ok { given with config := some none }
  | some value => if given.has flag then .error .repeatedOption else given.put flag value

end Given

namespace Progress

/-- Nothing read yet. -/
def start : Progress :=
  ⟨.empty, .nothing, false, false⟩

/-- Checks what is pending. -/
def settle (progress : Progress) : Except UsageError Progress :=
  match progress.pending with
  | .nothing => .ok progress
  | .flag flag value => do
      let given ← progress.given.add flag value
      return { progress with given := given, pending := .nothing }
  | .rule path => do
      let path ← readPath path
      let given := { progress.given with rule := some path }
      return { progress with given := given, pending := .nothing }

/-- The option that waits for its value. -/
def awaiting? (progress : Progress) : Option Flag :=
  match progress.pending with
  | .flag flag none => if progress.operandsOnly then none else some flag
  | _ => none

/-- Takes an option with the value attached to it, if any. -/
def takeFlag (progress : Progress) (flag : Flag) (attached : Option String) :
    Except UsageError Progress := do
  let progress ← progress.settle
  match flag, attached with
  | .help, _ => .error .help
  | .version, _ => .error .version
  | flag, some value => do
      let given ← progress.given.add flag (some value)
      return { progress with given := given }
  | flag, none => return { progress with pending := .flag flag none }

/-- Takes an argument that begins with two dashes, given without them. -/
def takeLong (flags : List Flag) (progress : Progress) (text : List Char) :
    Except UsageError Progress :=
  let name := text.takeWhile fun c => c ≠ '='
  let attached := match text.drop name.length with
    | _ :: value => some (String.ofList value)
    | [] => none
  match flags.find? fun flag => flag.long = name with
  | none => .error .unknownArgument
  | some flag =>
      if attached.isSome && !flag.takesValue then .error .superfluousValue
      else progress.takeFlag flag attached

/-- Takes an argument that begins with one dash, given without it. -/
def takeShort (flags : List Flag) (progress : Progress) (letter : Char) (text : List Char) :
    Except UsageError Progress :=
  match flags.find? fun flag => flag.short? = some letter with
  | none => .error .unknownArgument
  | some flag =>
      let attached := match text with
        | [] => none
        | '=' :: value => some (String.ofList value)
        | value => some (String.ofList value)
      progress.takeFlag flag attached

/-- Takes an argument for the value of the option that waits for one, or as an operand. -/
def takeWord (operand : Progress → String → Except UsageError Progress) (progress : Progress)
    (argument : String) : Except UsageError Progress :=
  match progress.awaiting? with
  | some flag => .ok { progress with pending := .flag flag (some argument) }
  | none => operand progress argument

/-- Takes one argument. -/
def take (flags : List Flag) (operand : Progress → String → Except UsageError Progress)
    (progress : Progress) (argument : String) : Except UsageError Progress :=
  if progress.operandsOnly then operand progress argument
  else
    match argument.toList with
    | ['-', '-'] => .ok { progress with operandsOnly := true }
    | '-' :: '-' :: text => progress.takeLong flags text
    | '-' :: letter :: text => progress.takeShort flags letter text
    | _ => progress.takeWord operand argument

/-- Takes an operand of a command: the rule file, once. -/
def takeRule (progress : Progress) (argument : String) : Except UsageError Progress :=
  if progress.hasRule then .error .unknownArgument
  else do
    let progress ← progress.settle
    return { progress with pending := .rule argument, hasRule := true }

end Progress

/-- Reads the arguments of a command. -/
def readCommand (name : CommandName) (arguments : List String) : Except UsageError Request := do
  let progress ← arguments.foldlM (Progress.take name.flags Progress.takeRule) Progress.start
  let progress ← progress.settle
  match progress.given.rule with
  | none => .error .missingRule
  | some path =>
      match name with
      | .list =>
          return .list ⟨path, progress.given.count, progress.given.lower, progress.given.upper,
            progress.given.format⟩
      | .check => return .check ⟨path, progress.given.format⟩

/-- What a request for help about something is answered with. -/
def readHelp : List String → UsageError
  | [] => .help
  | topic :: topics =>
      if ((CommandName.ofText? topic).isSome || topic = "help") && topics.isEmpty then .help
      else .unknownCommand

/-- Refuses an operand of the program. The name of a command gets here only from behind `--`. -/
def refuseOperand (progress : Progress) (argument : String) : Except UsageError Progress :=
  if progress.operandsOnly && ((CommandName.ofText? argument).isSome || argument = "help") then
    .error .unknownArgument
  else
    .error .unknownCommand

/-- Reads the arguments of the program up to the command and, behind it, those of the command. -/
def readProgram (progress : Progress) : List String → Except UsageError Invocation
  | [] => do
      let progress ← progress.settle
      if progress.given.config.isSome then .error .missingCommand else .error .empty
  | argument :: arguments =>
      let isCommand := !progress.operandsOnly && progress.awaiting?.isNone
      match if isCommand then CommandName.ofText? argument else none with
      | some name => do
          let request ← readCommand name arguments
          let progress ← progress.settle
          return ⟨progress.given.config.join, request⟩
      | none =>
          if isCommand && argument = "help" then .error (readHelp arguments)
          else do
            let progress ← progress.take programFlags refuseOperand argument
            readProgram progress arguments

/-- Reads a command line, given without the name of the program. -/
def Invocation.ofArguments (arguments : List String) : Except UsageError Invocation :=
  readProgram Progress.start arguments

end Recurrence.Command
