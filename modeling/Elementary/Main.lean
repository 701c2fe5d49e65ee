import Elementary.Program

/-!
# The command

Runs the program on the arguments of the command line and writes its files.
-/

open Elementary

/-- Writes files one after another; gives the exit code. -/
def writeFiles : List (String × Except Failure String) → IO UInt32
  | [] => return 0
  | (name, .ok text) :: rest => do
    IO.FS.writeFile name text
    writeFiles rest
  | (_, .error f) :: _ => do
    IO.eprintln f.message
    return 1

/-- Runs the program. -/
def main (arguments : List String) : IO UInt32 := do
  let (outcome, _, shown) := (Program.generate .standard arguments).start Program.console
  for line in shown.output do
    IO.println line
  match shown.complaint with
  | some text =>
    for line in CommandLine.usageText do
      IO.eprintln line
    IO.eprintln text
  | none => pure ()
  match outcome with
  | .ok output => writeFiles output.files
  | .error (.exit code) => return UInt32.ofNat code.toNat
  | .error f =>
    IO.eprintln f.message
    return 1
