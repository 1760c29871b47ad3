import Fibers.Program.Demo
/-!
# The command line

Runs the demonstration program with the command line's arguments, on a machine of one
cpu with pages of 4096 bytes, and prints what it shows: its standard output, its standard
error, and its status as the exit code.
-/

/-- The machine the program runs on: pages of 4096 bytes; it grants a mapping of up to
15 GiB, at one address on a 4 MiB boundary, and protects every guard page. -/
def host : Fibers.Kernel where
  pageSize := 4096
  map len := if 0 < len ∧ len ≤ 15 * Nat.pow 2 30 then some 0x7f0000000000 else none
  protect _ := true

/-- Prints the demonstration's lines and exits with its status. -/
def main (args : List String) : IO UInt32 := do
  let out := Fibers.Demo.run host args 1
  let stdout ← IO.getStdout
  for line in out.stdout do
    stdout.putStrLn line
  stdout.flush
  let stderr ← IO.getStderr
  for line in out.stderr do
    stderr.putStrLn line
  return out.status.toUInt32
