import HybridHeap.CommandLine

/-!
# The program

Reads the arguments and the environment, runs the command line, and writes what it has to say.
-/

open HybridHeap

/-- The variables of the environment that are set, with their values. -/
def readEnvironment : IO (List (String × String)) :=
  Settings.variableNames.filterMapM fun name => do
    return (← IO.getEnv name).map fun value => (name, value)

/-- Run the program. -/
def main (args : List String) : IO UInt32 := do
  let environment ← readEnvironment
  let outcome := CommandLine.run args (List.lookup · environment)
  outcome.output.forM IO.println
  outcome.errors.forM IO.eprintln
  return outcome.status.toUInt32
