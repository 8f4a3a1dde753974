import CssSieve.CommandLine.Basic

/-!
# The program

Reads what the command line asks for, and writes what it answers.
-/

open CssSieve.CommandLine

/-- The text of a source, or nothing if it cannot be read. -/
def CssSieve.CommandLine.Source.read : Source → IO (Option String)
  | file path => do
    try return some (← IO.FS.readFile path) catch _ => return none
  | standardInput => do
    try
      let bytes ← (← IO.getStdin).readBinToEnd
      return String.fromUTF8? bytes
    catch _ => return none

def main (args : List String) : IO UInt32 := do
  let text ← match source? args with
    | some source => source.read
    | none => pure none
  let result := run args fun _ => text
  (← IO.getStdout).putStr result.stdout
  (← IO.getStderr).putStr result.stderr
  return UInt32.ofNat result.exitCode
