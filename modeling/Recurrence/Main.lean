import Recurrence.Command.Run

/-!
# The program

Gathers what a run depends on, runs it, and prints what it has to say. At most two files
are read, the configuration and the rule.
-/

namespace Recurrence.Command

/--
The reason for a failure to read a file. What is of the wrong type is either the path's
end, which is a folder, or a part on the way. An argument of a system call is wrong here
only if it is too long, for no other path can be handed over.
-/
def fileErrorOf : IO.Error → FileError
  | .noFileOrDirectory .. => .missing
  | .inappropriateType _ 21 _ => .folder
  | .inappropriateType .. => .notFolder
  | .invalidArgument .. => .nameTooLong
  | error => .other true (toString error)

/-- Reads a file, or finds out why it cannot be read. -/
def readText (path : String) : IO (Except FileError String) := do
  try
    return .ok (← IO.FS.readFile path)
  catch error =>
    return .error (fileErrorOf error)

/-- Everything a run depends on, with the files that it will read. -/
def gather (invocation : Option Invocation) : IO Surroundings := do
  let configFile ← IO.getEnv "CADENCE_CONFIG"
  let configFolder ← IO.getEnv "XDG_CONFIG_HOME"
  let home ← IO.getEnv "HOME"
  let painted := (← (← IO.getStdout).isTty) && (← IO.getEnv "NO_COLOR").isNone
  let blank : Surroundings :=
    ⟨configFile, configFolder, home.getD "", fun _ => .error .missing, painted⟩
  match invocation with
  | none => return blank
  | some invocation =>
      let config := (invocation.config <|> configFile).getD blank.userConfig
      let configText ← readText config
      let ruleText ← readText invocation.request.path
      return { blank with
        read := fun path =>
          if path = config then configText
          else if path = invocation.request.path then ruleText
          else .error .missing }

end Recurrence.Command

open Recurrence.Command

/-- Lists the occurrences of a rule or checks it, as the arguments say. -/
def main (arguments : List String) : IO UInt32 := do
  let understood := Invocation.ofArguments arguments
  let surroundings ← gather understood.toOption
  let outcome := runProgram arguments surroundings
  IO.print outcome.printed
  if outcome.code ≠ 0 then
    IO.eprint usage
  return UInt32.ofNat outcome.code
