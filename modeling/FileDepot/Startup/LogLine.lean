import FileDepot.Text.Quoted

/-!
# Log lines

What the program tells while it starts, and how a line of the log is written.
-/

namespace FileDepot

/-- How important a line of the log is. -/
inductive LogLevel where
  | trace
  | debug
  | info
  | warn
  | error
  deriving DecidableEq, Repr

namespace LogLevel

/-- The level that a setting names; any text that names none stands for `info` (`parse_level`). -/
def ofText (text : String) : LogLevel :=
  match Text.lower text with
  | "trace" => trace
  | "debug" => debug
  | "warn" => warn
  | "warning" => warn
  | "error" => error
  | _ => info

/-- The place of a level in their order. -/
def rank : LogLevel → Nat
  | trace => 0
  | debug => 1
  | info => 2
  | warn => 3
  | error => 4

/-- The level as lines of the log show it, with five characters. -/
def text : LogLevel → String
  | trace => "TRACE"
  | debug => "DEBUG"
  | info => " INFO"
  | warn => " WARN"
  | error => "ERROR"

end LogLevel

/-- A line of the log: how important it is, the part of the program that tells it, what it tells, and values with
    names. -/
structure LogLine where
  level : LogLevel
  source : String
  message : String
  values : List (String × String)
  deriving DecidableEq, Repr

namespace LogLine

/-- A character of a message as it is written. Those that a terminal would act upon are escaped; tabs and line
    ends are not. -/
def shownChar (c : Char) : List Char :=
  let n := c.toNat
  if n == 0x07 || n == 0x08 || n == 0x0C || n == 0x1B || n == 0x7F then
    ['\\', 'x'] ++ Text.hexPair "0123456789abcdef" n.toUInt8
  else if 0x80 ≤ n && n ≤ 0x9F then ['\\', 'u', '\x7b'] ++ Text.hexDigits n ++ ['\x7d']
  else [c]

/-- A message as it is written. -/
def shown (message : String) : String := String.ofList (message.toList.flatMap shownChar)

/-- The line as it is written at the given time. Values are written as they are. -/
def text (time : String) (line : LogLine) : String :=
  let values := line.values.map fun value => " " ++ value.1 ++ "=" ++ value.2
  time ++ " " ++ line.level.text ++ " " ++ line.source ++ ": " ++ shown line.message ++ String.join values

end LogLine

end FileDepot
