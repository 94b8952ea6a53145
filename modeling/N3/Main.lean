import N3.Cli.Run

/-!
# The command line

Reads the words and the settings file, runs the command and prints what it answers. Help goes to standard output,
errors go to standard error, and the exit code tells a wrong usage from a failed command.
-/

set_option autoImplicit false

namespace N3.Cli

def programName : String := "neo-script"

def programVersion : String := "0.4.0"

def usage : String :=
  lines (["Usage: " ++ programName ++ " [OPTIONS] <COMMAND>", "", "Commands:"] ++
    CommandName.all.map (fun c => "  " ++ c.word) ++ ["", "Options:"] ++
    OptionName.general.map (fun o => "  --" ++ o.long ++ " <VALUE>"))

def UsageError.text : UsageError → String
  | .help | .nothing => usage
  | .version => lines [programName ++ " " ++ programVersion]
  | .invalidValue => "error: invalid value for an option\n\n" ++ usage
  | .unknownArgument => "error: unexpected argument\n\n" ++ usage
  | .invalidSubcommand => "error: unrecognized subcommand\n\n" ++ usage
  | .missingSubcommand => "error: a subcommand is required\n\n" ++ usage
  | .missingArgument => "error: a required argument was not provided\n\n" ++ usage
  | .badNumber => "error: invalid number for an option\n\n" ++ usage
  | .repeatedOption => "error: an option cannot be used multiple times\n\n" ++ usage
  | .superfluousValue => "error: unexpected value for a flag\n\n" ++ usage

end N3.Cli

def readFile? (path : String) : IO (Option String) := do
  try
    return some (← IO.FS.readFile path)
  catch _ =>
    return none

open N3.Cli in
def main (words : List String) : IO UInt32 := do
  match Arguments.parse words with
  | .error e =>
    if e = .help ∨ e = .version then
      IO.print e.text
      return 0
    IO.eprint e.text
    return 2
  | .ok arguments =>
    let file ← match arguments.config with
      | some path => readFile? path
      | none => pure none
    match run arguments fun _ => file with
    | .ok output =>
      IO.print output
      return 0
    | .error e =>
      IO.eprintln ("Error: " ++ e.message)
      return 1
