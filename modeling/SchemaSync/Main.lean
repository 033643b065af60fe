import SchemaSync.CommandLine
import SchemaSync.Connection.Rehearsal
import SchemaSync.Model.Sample

/-!
# The program

The command line over a rehearsed connection to an empty database: it shows which statements a push of the
declared tables would run. Reading the arguments and printing what the run recorded is all that happens
here.
-/

namespace SchemaSync.Program

def modules : List (String × Registry) := [("lending", Sample.lending)]

def emptyDatabase : Rehearsal :=
  { columns := .empty, foreignKeys := .empty, indexes := .empty, enforcement := some 0, rules := [] }

/-- The digits of suffix number `d`: those of `seed` in base 16, moved on by one place per suffix. -/
def draw (seed d : Nat) : Sql.Shadow.Draw := fun i => Fin.ofNat 16 (seed / Nat.pow 16 (i + d))

/-- The surroundings of a call, given the environment and a number to draw suffixes from. -/
def host (environment : String → Option String) (seed : Nat) : CommandLine.Host Rehearsal where
  load name r := (modules.lookup name).map fun declared => pure (r ++ declared)
  environment := environment
  connection := Rehearsal.connection true
  suffixes d := Sql.Shadow.suffix (draw seed d) Sql.Shadow.suffixLength

end SchemaSync.Program

open SchemaSync in
/-- Run a command and print what it recorded; the result is the exit code. -/
def main (arguments : List String) : IO UInt32 := do
  let database ← IO.getEnv "LITEPUSH_DATABASE"
  let start ← IO.getEnv "LITEPUSH_PREFIX"
  let environment := fun name =>
    if name == "LITEPUSH_DATABASE" then database
    else if name == "LITEPUSH_PREFIX" then start
    else none
  let seed ← IO.rand 0 (Nat.pow 16 32)
  let run := CommandLine.run (Program.host environment seed) arguments
  let (code, world) := run.run ⟨Program.emptyDatabase, []⟩
  for event in world.trace do
    match event with
    | .printed text => (← IO.getStdout).putStr text
    | .complained text => (← IO.getStderr).putStr text
    | _ => pure ()
  match code with
  | .ok n => pure n.toUInt32
  | .error e =>
    (← IO.getStderr).putStrLn e.message
    pure 1
