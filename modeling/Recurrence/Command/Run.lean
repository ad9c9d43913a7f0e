import Recurrence.Command.Arguments
import Recurrence.Command.Folder
import Recurrence.Command.Report

/-!
# Running

From a command line to what is printed. The configuration is looked for in the file that
the command line names, then in the one that the environment names, then in the user's
configuration folder. A file that is named must be there; the one in the user's folder
need not be, and the standard settings hold without it. The configuration is read before
the rule.

Reading files is a parameter, so that a run is a function of what the files hold.
-/

namespace Recurrence.Command

/-- What a run depends on besides its arguments. -/
structure Surroundings where
  /-- The configuration file that the environment names. -/
  configFile : Option String
  /-- The configuration folder that the environment names. -/
  configFolder : Option String
  /-- The user's home folder. -/
  home : String
  /-- Reads a file. -/
  read : String → Except FileError String
  /-- Whether results are colored. -/
  painted : Bool

/-- Why a command fails. -/
inductive CommandError where
  /-- The configuration cannot be read. -/
  | readConfig (path : String) (error : FileError)
  /-- The configuration is wrong. -/
  | parseConfig (path : String) (error : SettingsError)
  /-- The rule file cannot be read. -/
  | readRule (path : String) (error : FileError)
  /-- The rule file holds no draft. -/
  | parseRule (path : String) (error : DocumentError)
  /-- The draft is no rule. -/
  | invalidRule (path : String) (error : RuleError)
  /-- A question to the calendar had no answer. -/
  | calendar (fault : Fault)
deriving DecidableEq

namespace CommandError

/-- What failed, without the reason. -/
def summary : CommandError → String
  | readConfig path _ => s!"Failed to read config file at {path}"
  | parseConfig path _ => s!"Failed to parse config file at {path}"
  | readRule path _ => s!"Failed to read rule file at {path}"
  | parseRule path _ => s!"Failed to parse rule file at {path}"
  | invalidRule path _ => s!"Invalid rule in {path}"
  | calendar _ => "Calendar fault"

/-- Why it failed. -/
def reason : CommandError → String
  | readConfig _ error | readRule _ error => error.message
  | parseConfig _ error => error.message
  | parseRule _ (.weekday error) | invalidRule _ error => error.message
  | parseRule _ .malformed => "malformed document"
  | calendar fault => fault.message?.getD "no such date"

/-- The whole message. -/
def message (error : CommandError) : String :=
  error.summary ++ ": " ++ error.reason

end CommandError

/-- The path of something in a folder. -/
def joinPath (folder file : String) : String :=
  if folder = "" then file
  else if folder.toList.getLast? = some '/' then folder ++ file
  else folder ++ "/" ++ file

/-- The configuration file in the user's folder. A relative folder counts for nothing. -/
def Surroundings.userConfig (surroundings : Surroundings) : String :=
  let folder := match surroundings.configFolder with
    | some folder =>
        if folder.toList.head? = some '/' then folder else joinPath surroundings.home ".config"
    | none => joinPath surroundings.home ".config"
  joinPath folder "cadence/config.toml"

/-- Reads a configuration that must be there. -/
def Surroundings.readSettings (surroundings : Surroundings) (path : String) :
    Except CommandError Settings :=
  match surroundings.read path with
  | .error error => .error (.readConfig path error)
  | .ok text =>
      match Settings.ofText text with
      | .error error => .error (.parseConfig path error)
      | .ok settings => .ok settings

/-- The settings of a run. -/
def Surroundings.settings (surroundings : Surroundings) (config : Option String) :
    Except CommandError Settings :=
  match config <|> surroundings.configFile with
  | some path => surroundings.readSettings path
  | none =>
      let path := surroundings.userConfig
      match surroundings.read path with
      | .error error =>
          if error.isFound then .error (.readConfig path error) else .ok Settings.standard
      | .ok _ => surroundings.readSettings path

/-- Reads and validates a rule file. -/
def Surroundings.readRule (surroundings : Surroundings) (path : String) :
    Except CommandError Rule :=
  match surroundings.read path with
  | .error error => .error (.readRule path error)
  | .ok text =>
      match (Toml.read? text).map (Draft.ofValue .toml) with
      | none => .error (.parseRule path .malformed)
      | some (.error error) => .error (.parseRule path error)
      | some (.ok draft) =>
          match draft.build with
          | .error error => .error (.invalidRule path error)
          | .ok rule => .ok rule

/-- What a command prints. -/
def Invocation.run (invocation : Invocation) (surroundings : Surroundings) :
    Except CommandError String := do
  let settings ← surroundings.settings invocation.config
  let rule ← surroundings.readRule invocation.request.path
  let report := match invocation.request with
    | .list listing => listReport surroundings.painted settings listing rule
    | .check checking => checkReport surroundings.painted settings checking rule
  match report with
  | .ok text => return text
  | .error fault => .error (.calendar fault)

/-- How a run of the program ends. -/
structure Outcome where
  /-- The exit code. -/
  code : Nat
  /-- What has been printed. -/
  printed : String
deriving DecidableEq

/-- How the program is called. -/
def usage : String :=
  "Usage: cadence [--config [CONFIG]] COMMAND RULE [OPTIONS]\n\n" ++
  "Commands:\n" ++
  "  list   List the occurrences of a rule\n" ++
  "         [--count N] [--from DATETIME] [--to DATETIME] [--output-format FORMAT]\n" ++
  "  check  Validate a rule file and summarize the rule\n" ++
  "         [--output-format FORMAT]\n"

/-- The name of the program and its version. -/
def version : String :=
  "cadence 0.1.0\n"

/--
A run of the program. The failure of a command is printed like a result; only a wrong
command line makes the program itself fail, and then it prints nothing here.
-/
def runProgram (arguments : List String) (surroundings : Surroundings) : Outcome :=
  match Invocation.ofArguments arguments with
  | .error .help => ⟨0, usage⟩
  | .error .version => ⟨0, version⟩
  | .error _ => ⟨2, ""⟩
  | .ok invocation =>
      match invocation.run surroundings with
      | .ok text => ⟨0, text⟩
      | .error error =>
          let label := String.ofList (Paint.red.apply surroundings.painted "Error:".toList)
          ⟨0, label ++ " " ++ error.message ++ "\n"⟩

end Recurrence.Command
