import Fabula.Program
import Std.Time.DateTime.Timestamp

/-!
# The command

The program on a real system: files are files of the disk, and the time is
the time of day.
-/

namespace Fabula

/-- The system on which the command runs. -/
def systemHost : Host IO where
  read path := do
    try
      return String.fromUTF8? (← IO.FS.readBinFile path)
    catch _ =>
      return none
  write path text := do
    try
      IO.FS.writeFile path text
      return true
    catch _ =>
      return false
  now := do
    return (← Std.Time.Timestamp.now).toSecondsSinceUnixEpoch.val.toNat

end Fabula

/-- Run the program with the arguments of the command. -/
def main (arguments : List String) : IO UInt32 := do
  let outcome ← Fabula.Program.run Fabula.systemHost arguments
  IO.print outcome.output
  match outcome.complaint with
  | some complaint => IO.eprintln complaint
  | none => pure ()
  return outcome.status.toUInt32
