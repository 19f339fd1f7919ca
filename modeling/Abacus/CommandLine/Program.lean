import Abacus.Chunk.Demo
import Abacus.CommandLine.Options
import Abacus.Log.Filter
import Abacus.Machine.Run
import Abacus.Sink.Bytes
import Abacus.Text.Pieces
import Abacus.Text.Terminal

/-
  The program.

  It runs the demonstration chunk and writes the value on
  top of the stack, after the listing and the trace if those
  are asked for. Options of the command line override the
  environment. The exit status tells misuse, faults and
  failures of the output apart.

  Key definitions include:
    * `Abacus.Options.config`
    * `Abacus.Status`
    * `Abacus.Program.run`
    * `Abacus.Program.nameOf`
    * `Abacus.Program.perform`
-/

------------------------------------------------------------
-- Reports
------------------------------------------------------------

namespace Abacus

/- How the program ends. -/
inductive Status where
| success
| usage
| data
| software
| output
deriving DecidableEq

/- The exit code of a status. -/
def Status.code :
    Status → UInt8
| .success => 0
| .usage => 64
| .data => 65
| .software => 70
| .output => 74

/-
  What a run of the program gives: its status, the sink, the
  log, and a notice for the user.
-/
structure Report (σ : Type) where
  status : Status
  sink : σ
  log : List Event
  notice : String

end Abacus

------------------------------------------------------------
-- Running
------------------------------------------------------------

namespace Abacus

/- The settings for the options and the environment. -/
def Options.config
    (options : Options)
    (base : Config) : Config where
  trace := options.trace || base.trace
  stepLimit := options.stepLimit.or base.stepLimit

namespace Program

variable {σ : Type}
variable [Sink σ]

/- The report on output that was written, or was not. -/
def reportOutput
    (log : List Event) :
    σ × Option String → Report σ
| (sink, none) =>
    { status := .success
      sink := sink
      log := log
      notice := "" }
| (sink, some reason) =>
    { status := .output
      sink := sink
      log := log
      notice := "Error writing output: " ++ reason ++ "\n" }

/- The line that shows the result of a run. -/
def resultLine :
    Option Number → String
| some value => Number.text value ++ "\n"
| none => "(empty stack)\n"

/- The notice of a fault. -/
def faultNotice :
    Option Fault → String
| some fault => "Runtime error: " ++ fault.text ++ "\n"
| none => "Runtime error.\n"

/- The report on a run of the machine. -/
def conclude
    (log : List Event)
    (i : Interpretation σ) : Report σ :=
  match i.verdict with
  | .ok =>
      reportOutput (log ++ i.log)
        (Sink.write i.sink
          (resultLine i.machine.stack.top?))
  | .runtimeError =>
      { status := .software
        sink := i.sink
        log := log ++ i.log
        notice := faultNotice i.machine.fault }
  | .compileError =>
      { status := .data
        sink := i.sink
        log := log ++ i.log
        notice := "Compilation error.\n" }

/- Write the listing, if it is asked for. -/
def list
    (options : Options)
    (sink : σ) : σ × Option String :=
  if options.disassemble then
    Sink.write sink (Chunk.demo.listing "demo")
  else
    (sink, none)

/- List and run the demonstration chunk. -/
def run
    (options : Options)
    (lookup : String → Option String)
    (sink : σ) : Report σ :=
  let (base, log) := Config.ofVariables lookup
  match list options sink with
  | (sink, some reason) =>
      reportOutput log (sink, some reason)
  | (sink, none) =>
      conclude log
        ((Machine.new (options.config base)).interpret
          Chunk.demo sink)

end Program

end Abacus

------------------------------------------------------------
-- The Whole Program
------------------------------------------------------------

namespace Abacus

namespace Program

/- The name of the program. -/
def name : String :=
  "yon"

/-
  The name by which a command line calls the program: the
  last part of a path, or its own name if the path does not
  end with the name of a file.
-/
def nameOf
    (words : List String) : String :=
  let path := (words.head?.getD "").toList
  let parts :=
    (Text.pieces '/' path).filter fun part =>
      part != [] && part != ['.']
  match parts.getLast? with
  | none | some ['.', '.'] => name
  | some part => String.ofList part

/- The text that explains the options. -/
def help
    (name : String) : String :=
  String.join
    [ "Run the demonstration chunk on the yon VM\n",
      "\n",
      "Usage: " ++ Text.plain .ends name ++ " [OPTIONS]\n",
      "\n",
      "Options:\n",
      "      --trace           ",
      "Print the stack and each instruction before it runs\n",
      "      --disassemble     ",
      "Print the chunk listing before running it\n",
      "      --step-limit <N>  ",
      "Abort after this many instructions\n",
      "  -v, --verbose...      ",
      "Raise log verbosity (-v info, -vv debug, -vvv trace)\n",
      "  -h, --help            ",
      "Print help\n",
      "  -V, --version         ",
      "Print version\n" ]

/- The text that tells the version. -/
def version : String :=
  "yon 0.1.0\n"

/- The variable that chooses a log filter. -/
def filterVariable : String :=
  "RUST_LOG"

/- What the program leaves behind. -/
structure Output where
  status : Status
  out : String
  err : String
deriving DecidableEq

/- The output when the options were not read to the end. -/
def outputOfHalt :
    Options.Halt → Output
| .help => ⟨.success, help name, ""⟩
| .version => ⟨.success, version, ""⟩
| .misuse misuse => ⟨.usage, "", misuse.notice⟩

/- The output of a report, with the lines that are shown. -/
def outputOfReport
    (filter : Filter)
    (report : Report ByteSink) : Output where
  status := report.status
  out := report.sink.text?.getD ""
  err := filter.lines report.log ++ report.notice

/- The program, from its arguments and its environment. -/
def perform
    (arguments : List String)
    (lookup : String → Option String) : Output :=
  match Options.read arguments with
  | .error halt => outputOfHalt halt
  | .ok options =>
      outputOfReport
        (Filter.choose
          options.verbosity (lookup filterVariable))
        (run options lookup ({} : ByteSink))

end Program

end Abacus
