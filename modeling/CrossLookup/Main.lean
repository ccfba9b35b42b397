import CrossLookup.Demo
import CrossLookup.Text.JsonReader

/-!
# Command line

Reads the arguments, the environment and the configuration file, runs the
demonstration and prints its report with the time taken.
-/

namespace CrossLookup.Main

/-- The machine assumed: two threads, and room for every list that can be addressed. -/
def machine : Demo.Machine where
  hardwareThreads := 2
  allocate bytes := if bytes < 0x8000000000000000 then .ok () else .error "vector::reserve"

/-- The parsed JSON text of a file, if the file can be read. -/
def readJson? (path : String) : IO (Option (Except String JsonValue)) :=
  try
    return some (JsonValue.ofText (← IO.FS.readFile path))
  catch _ =>
    return none

/-- The environment variables of a run. -/
def environment : IO Demo.Environment := do
  return {
    challenges := ← IO.getEnv Config.challengesVariable
    workers := ← IO.getEnv Config.workersVariable }

/-- Run the demonstration and print its report. -/
def run (options : Demo.Options) : IO UInt32 := do
  let parsed ← readJson? options.configPath
  let start ← IO.monoMsNow
  let report := Demo.report machine options (← environment) parsed
  IO.print report.output
  IO.eprint report.errors
  if report.code = 0 then
    let finish ← IO.monoMsNow
    IO.println (" (" ++ toString (finish - start) ++ " ms)")
  return report.code

/-- Print why a command line is refused. -/
def refuse : Demo.OptionError → IO UInt32
  | .usage => do
      IO.eprint (Demo.usage "starkctl_demo")
      return 1
  | .notNumber => do
      IO.eprintln "not a number"
      return 134
  | .tooLarge => do
      IO.eprintln "number out of range"
      return 134

end CrossLookup.Main

def main (args : List String) : IO UInt32 :=
  match CrossLookup.Demo.Options.standard.read args with
  | .ok options => CrossLookup.Main.run options
  | .error e => CrossLookup.Main.refuse e
