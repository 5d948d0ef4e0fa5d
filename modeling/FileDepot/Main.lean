import FileDepot.Startup
import Std.Time

/-!
# The command line

Starts the program with the settings of the document that the first argument names, and writes the log to
the standard output.
-/

namespace FileDepot

/-- The content of a file, if it can be read. -/
def readFile? (path : String) : IO (Option Bytes) := do
  match ← (IO.FS.readBinFile path).toBaseIO with
  | .ok bytes => return some bytes.data.toList
  | .error _ => return none

/-- The values of environment variables. -/
def environment (names : List String) : IO (List (String × String)) := do
  let values ← names.mapM fun name => do return (name, ← IO.getEnv name)
  return values.filterMap fun (name, value) => value.map fun v => (name, v)

/-- The present time, as the lines of the log show it. -/
def presentTime : IO String := do
  let now := Std.Time.DateTime.ofTimestampWithZone (← Std.Time.Timestamp.now) .UTC
  return now.format "uuuu-MM-dd'T'HH:mm:ss.SSSSSS'Z'"

end FileDepot

open FileDepot in
/-- Runs the program: the exit code is 0 if the web interface can listen. -/
def main (args : List String) : IO UInt32 := do
  let path := args.headD "config.toml"
  let files := match ← readFile? path with
    | some content => [(path, content)]
    | none => []
  let env ← environment [Config.secretVariable, Config.sizeVariable]
  let (address, s) := Startup.run (← presentTime) (.ofFiles files) args fun name => env.lookup name
  for line in s.complaints do IO.eprintln line
  for line in s.lines do IO.println (line.text s.time)
  return if address.isSome then 0 else 1
