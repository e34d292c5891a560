import Famicom.Session

/-!
# The program

Reads the command line and runs a session on the files of the system.
-/

namespace Famicom

def systemFiles : Files IO where
  read path := do
    try
      return some (← IO.FS.readBinFile path)
    catch _ =>
      return none
  write path artifact := do
    try
      IO.FS.withFile path .write fun file => do
        file.write artifact.bytes
        file.flush
      return true
    catch _ =>
      return false

end Famicom

open Famicom in
/-- Run a session. The exit code is 0 for success and for help, 1 for a session
that failed and 2 for arguments that make no sense. -/
def main (args : List String) : IO UInt32 := do
  match CommandLine.parse args with
  | .error refusal =>
    match refusal with
    | .help => IO.print CommandLine.helpText
    | .usage => IO.eprint CommandLine.helpText
    return refusal.exitCode.toUInt32
  | .ok options =>
    match ← (Session.run systemFiles options).run with
    | .ok _ => return 0
    | .error failure =>
      IO.eprintln failure.message
      return 1
