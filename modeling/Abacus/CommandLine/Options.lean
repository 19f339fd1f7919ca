import Abacus.Text.Numeral
import Abacus.Text.Terminal

/-
  Options of the command line.

  The options are `--trace`, `--disassemble`,
  `--step-limit N` or `--step-limit=N`, and `-v` or
  `--verbose`, which counts. `-h`, `--help`, `-V` and
  `--version` end the reading.

  Arguments are read from left to right. The value of a
  detached `--step-limit` is checked when the next known
  option is read, or at the end, so an argument that is not
  known at all is reported first.

  Key definitions include:
    * `Abacus.Options`
    * `Abacus.Options.Misuse`
    * `Abacus.Options.Misuse.wording`
    * `Abacus.Options.Halt`
    * `Abacus.Options.Reader.take`
    * `Abacus.Options.read`
-/

------------------------------------------------------------
-- Options
------------------------------------------------------------

namespace Abacus

/- What the command line asks for. -/
structure Options where
  trace : Bool := false
  disassemble : Bool := false
  stepLimit : Option Nat := none
  verbosity : Nat := 0
deriving DecidableEq

namespace Options

/- The options that take no value. -/
inductive Flag where
| trace
| disassemble
| verbose
| help
| version
deriving DecidableEq

/- How messages show a flag. -/
def Flag.shown :
    Flag → String
| .trace => "--trace"
| .disassemble => "--disassemble"
| .verbose => "--verbose..."
| .help => "--help"
| .version => "--version"

/- A flag, or the option with a value. -/
inductive Key where
| flag (flag : Flag)
| stepLimit
deriving DecidableEq

/- How messages show an option. -/
def Key.shown :
    Key → String
| .flag f => f.shown
| .stepLimit => "--step-limit <N>"

/- The option of a long name. -/
def Key.ofName? :
    String → Option Key
| "trace" => some (.flag .trace)
| "disassemble" => some (.flag .disassemble)
| "verbose" => some (.flag .verbose)
| "help" => some (.flag .help)
| "version" => some (.flag .version)
| "step-limit" => some .stepLimit
| _ => none

/- The flag of a letter. -/
def Flag.ofLetter? :
    Char → Option Flag
| 'v' => some .verbose
| 'h' => some .help
| 'V' => some .version
| _ => none

end Options

end Abacus

------------------------------------------------------------
-- Misuse
------------------------------------------------------------

namespace Abacus

namespace Options

/- Why a command line cannot be read. -/
inductive Misuse where
| unknown (argument : String)
| unwantedValue (flag : Flag) (value : String)
| repeated (key : Key)
| missingValue
| invalidValue (value : String) (error : Text.NumeralError)
deriving DecidableEq

/- A text between quotes, without what terminals obey. -/
def quoted
    (spacing : Text.Spacing)
    (text : String) : String :=
  "'" ++ Text.plain spacing text ++ "'"

/- The wording of a misuse. -/
def Misuse.wording
    (spacing : Text.Spacing) :
    Misuse → String
| .unknown argument =>
    "error: unexpected argument " ++
      quoted spacing argument ++ " found"
| .unwantedValue flag value =>
    "error: unexpected value " ++ quoted spacing value ++
      " for '" ++ flag.shown ++
      "' found; no more were expected"
| .repeated key =>
    "error: the argument '" ++ key.shown ++
      "' cannot be used multiple times"
| .missingValue =>
    "error: a value is required for '" ++
      Key.stepLimit.shown ++ "' but none was supplied"
| .invalidValue value error =>
    "error: invalid value " ++ quoted spacing value ++
      " for '" ++ Key.stepLimit.shown ++ "': " ++
      error.message

/- The message of a misuse. -/
def Misuse.message
    (m : Misuse) : String :=
  m.wording .ends

/- What the program writes about a misuse. -/
def Misuse.notice
    (m : Misuse) : String :=
  m.wording .suspends ++ "\n"

/- Why the reading of a command line ends early. -/
inductive Halt where
| help
| version
| misuse (misuse : Misuse)
deriving DecidableEq

end Options

end Abacus

------------------------------------------------------------
-- Arguments
------------------------------------------------------------

namespace Abacus

namespace Options

/- The forms of an argument. -/
inductive Argument where
/- The argument `--`. -/
| separator
/- A long option, with what is behind an equals sign. -/
| long (name : String) (value : Option String)
/- Letters behind a single dash. -/
| letters (letters : List Char)
/- Anything else, also a single dash and the empty text. -/
| plain (text : String)
deriving DecidableEq

/- What is behind the first equals sign. -/
def valueOf :
    List Char → Option String
| [] => none
| '=' :: value => some (String.ofList value)
| _ :: cs => valueOf cs

/- The form of an argument. -/
def Argument.ofString
    (text : String) : Argument :=
  match text.toList with
  | ['-', '-'] => .separator
  | '-' :: '-' :: cs =>
      .long
        (String.ofList (cs.takeWhile (· != '=')))
        (valueOf cs)
  | '-' :: c :: cs => .letters (c :: cs)
  | _ => .plain text

end Options

end Abacus

------------------------------------------------------------
-- Reading
------------------------------------------------------------

namespace Abacus

namespace Options

/- What is still open of a detached `--step-limit`. -/
inductive Pending where
| nothing
| expected
| given (value : String)
deriving DecidableEq

/-
  The options read so far. Behind a separator nothing more
  may follow.
-/
structure Reader where
  options : Options := {}
  pending : Pending := .nothing
  closed : Bool := false
deriving DecidableEq

namespace Reader

/- Set the step limit, once. -/
def setStepLimit
    (r : Reader)
    (value : String) : Except Halt Reader :=
  if r.options.stepLimit.isSome then
    .error (.misuse (.repeated .stepLimit))
  else
    match Text.readNumeral value.toList with
    | .error error =>
        .error (.misuse (.invalidValue value error))
    | .ok limit =>
        .ok
          { r with
            options :=
              { r.options with stepLimit := some limit } }

/- Check what is still open. -/
def settle
    (r : Reader) : Except Halt Reader :=
  match r.pending with
  | .nothing => .ok r
  | .expected => .error (.misuse .missingValue)
  | .given value =>
      setStepLimit { r with pending := .nothing } value

/- The options after a flag. -/
def raise
    (options : Options) :
    Flag → Except Halt Options
| .trace =>
    if options.trace then
      .error (.misuse (.repeated (.flag .trace)))
    else
      .ok { options with trace := true }
| .disassemble =>
    if options.disassemble then
      .error (.misuse (.repeated (.flag .disassemble)))
    else
      .ok { options with disassemble := true }
| .verbose =>
    .ok
      { options with
        verbosity := min 255 (options.verbosity + 1) }
| .help => .error .help
| .version => .error .version

/- Read a flag. -/
def takeFlag
    (r : Reader)
    (flag : Flag) : Except Halt Reader := do
  let r ← r.settle
  let options ← raise r.options flag
  return { r with options := options }

/- Read one letter of an argument. -/
def takeLetter
    (r : Reader)
    (letter : Char) : Except Halt Reader :=
  match Flag.ofLetter? letter with
  | some flag => r.takeFlag flag
  | none =>
      .error
        (.misuse (.unknown (String.ofList ['-', letter])))

/- Read a long option. -/
def takeLong
    (r : Reader)
    (name : String)
    (value : Option String) : Except Halt Reader :=
  match Key.ofName? name, value with
  | none, _ => .error (.misuse (.unknown ("--" ++ name)))
  | some (.flag flag), some value =>
      .error (.misuse (.unwantedValue flag value))
  | some (.flag flag), none => r.takeFlag flag
  | some .stepLimit, some value => do
      let r ← r.settle
      r.setStepLimit value
  | some .stepLimit, none => do
      let r ← r.settle
      return { r with pending := .expected }

/- Read an argument that is no option. -/
def takePlain
    (r : Reader)
    (text : String) : Except Halt Reader :=
  match r.pending with
  | .expected => .ok { r with pending := .given text }
  | _ => .error (.misuse (.unknown text))

/- Read one argument. -/
def take
    (r : Reader)
    (text : String) : Except Halt Reader :=
  if r.closed then
    .error (.misuse (.unknown text))
  else
    match Argument.ofString text with
    | .separator => .ok { r with closed := true }
    | .long name value => r.takeLong name value
    | .letters letters => letters.foldlM takeLetter r
    | .plain text => r.takePlain text

end Reader

/- Read the arguments behind the name of the program. -/
def read
    (arguments : List String) : Except Halt Options := do
  let r ← arguments.foldlM Reader.take {}
  let r ← r.settle
  return r.options

/- Read a command line that starts with a program name. -/
def ofCommandLine
    (words : List String) : Except Halt Options :=
  read (words.drop 1)

end Options

end Abacus
