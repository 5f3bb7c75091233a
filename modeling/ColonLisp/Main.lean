/-
# Main -- the program

Reads the input that the arguments name, and prints the report of the command.
-/
import ColonLisp.Command

set_option autoImplicit false

namespace ColonLisp.Command

/-- Why the system could not read an input.  An input of the wrong type is a directory
that was to be read, or a file that was to be entered. -/
def Unread.ofError : IO.Error → Unread
  | .noFileOrDirectory .. => .missing
  | .inappropriateType _ code _ =>
      if code = 21 ∨ -code = 21 then .isDirectory else .notDirectory
  | error => .other (toString error)

/-- The bytes of the input that the options name. -/
def readInput (options : Options) : IO (Except Unread ByteArray) := do
  try
    match options.file with
    | some name => return .ok (← IO.FS.readBinFile name)
    | none => return .ok (← (← IO.getStdin).readBinToEnd)
  catch error => return .error (Unread.ofError error)

end ColonLisp.Command

open ColonLisp.Command in
/-- Runs the command with the arguments of the process. -/
def main (args : List String) : IO UInt32 := do
  let request := Request.ofArgs args
  let input ← match request with
    | .run options => readInput options
    | _ => pure (.error .missing)
  let report := answer request fun _ => input
  IO.print report.out
  IO.eprint report.err
  return report.exit.toUInt32
