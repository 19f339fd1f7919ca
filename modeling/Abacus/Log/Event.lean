import Abacus.Fault
import Abacus.Number.Text

/-
  The log.

  What is worth telling beside the results is an event. An
  event has a level, a target that names the part it comes
  from, a message, and named fields.

  Key definitions include:
    * `Abacus.Level`
    * `Abacus.Event`
    * `Abacus.Event.message`
    * `Abacus.Event.fields`
    * `Abacus.Event.fieldNames`
    * `Abacus.Event.line`
-/

------------------------------------------------------------
-- Levels
------------------------------------------------------------

namespace Abacus

/- How much an event matters, most important first. -/
inductive Level where
| error
| warn
| info
| debug
| trace
deriving DecidableEq

namespace Level

/- The name of a level. -/
def name :
    Level → String
| .error => "ERROR"
| .warn => "WARN"
| .info => "INFO"
| .debug => "DEBUG"
| .trace => "TRACE"

/- The detail that a reader of this level wants. -/
def detail :
    Level → Nat
| .error => 1
| .warn => 2
| .info => 3
| .debug => 4
| .trace => 5

end Level

end Abacus

------------------------------------------------------------
-- Events
------------------------------------------------------------

namespace Abacus

/- What the library reports. -/
inductive Event where
/- A constant was refused because the pool is full. -/
| poolFull (value : Number)
/- A run starts. -/
| interpreting (codeSize poolSize : Nat) (trace : Bool)
/- A run ended with a return. -/
| returned (steps depth : Nat)
/- A run ended with a fault. -/
| faulted (fault : Fault) (steps : Nat)
/- The sink of the trace failed. -/
| traceDisabled (reason : String)
/- The step limit of the environment is no numeral. -/
| invalidStepLimit (raw : String)
deriving DecidableEq

namespace Event

/- The value of a field. -/
inductive Datum where
| count (n : Nat)
| flag (b : Bool)
| number (x : Number)
| text (s : String)
deriving DecidableEq

/- The text of a field's value. -/
def Datum.render :
    Datum → String
| .count n => Nat.repr n
| .flag true => "true"
| .flag false => "false"
| .number x => Number.text x
| .text s => s

/- The level of an event. -/
def level :
    Event → Level
| .poolFull _ => .debug
| .interpreting _ _ _ => .debug
| .returned _ _ => .debug
| .faulted _ _ => .error
| .traceDisabled _ => .warn
| .invalidStepLimit _ => .warn

/- The part of the program that an event comes from. -/
def target :
    Event → String
| .poolFull _ => "yon::chunk"
| .interpreting _ _ _ => "yon::vm"
| .returned _ _ => "yon::vm"
| .faulted _ _ => "yon::vm"
| .traceDisabled _ => "yon::vm"
| .invalidStepLimit _ => "yon::config"

/- The message of an event. -/
def message :
    Event → String
| .poolFull _ => "constant pool full"
| .interpreting _ _ _ => "interpreting chunk"
| .returned _ _ => "chunk returned"
| .faulted fault _ => "runtime error: " ++ fault.text
| .traceDisabled reason =>
    "disabling execution trace: " ++ reason
| .invalidStepLimit _ => "ignoring invalid YON_STEP_LIMIT"

/- The fields of an event, in their order. -/
def fields :
    Event → List (String × Datum)
| .poolFull value => [("value", .number value)]
| .interpreting codeSize poolSize trace =>
    [ ("code_len", .count codeSize),
      ("constants", .count poolSize),
      ("trace", .flag trace) ]
| .returned steps depth =>
    [("steps", .count steps), ("depth", .count depth)]
| .faulted _ steps => [("steps", .count steps)]
| .traceDisabled _ => []
| .invalidStepLimit raw => [("value", .text raw)]

/- The names of the fields. The message is a field too. -/
def fieldNames
    (e : Event) : List String :=
  "message" :: e.fields.map Prod.fst

/- The level in five columns, the target and the message. -/
def heading
    (e : Event) : String :=
  let name := e.level.name
  String.ofList (List.replicate (5 - name.length) ' ') ++
    name ++ " " ++ e.target ++ ": " ++ e.message

/- The line of the log that tells an event. -/
def line
    (e : Event) : String :=
  e.fields.foldl
      (fun text (name, datum) =>
        text ++ " " ++ name ++ "=" ++ datum.render)
      e.heading ++
    "\n"

end Event

end Abacus
