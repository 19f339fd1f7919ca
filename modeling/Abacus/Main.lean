import Abacus.CommandLine.Program

/-
  The command line.

  The program is called with the arguments and those
  variables of the environment that it knows.
-/

open Abacus

/- The variables that the program looks up. -/
def knownVariables : List String :=
  [ Config.traceVariable, Config.stepLimitVariable,
    Program.filterVariable ]

def main
    (arguments : List String) : IO UInt32 := do
  let values ← knownVariables.mapM fun name => do
    return (name, ← IO.getEnv name)
  let output :=
    Program.perform arguments fun name =>
      (values.lookup name).join
  IO.eprint output.err
  IO.print output.out
  return output.status.code.toUInt32
