import Abacus.Sink.Basic

/-
  Byte sinks.

  A byte sink holds the bytes that were written to it. It
  may have a limit; of a write that does not fit it keeps
  the part that does, and fails. Filling it exactly is no
  failure.

  Key definitions include:
    * `Abacus.ByteSink`
    * `Abacus.ByteSink.write`
-/

------------------------------------------------------------
-- Byte Sinks
------------------------------------------------------------

namespace Abacus

/- How a full byte sink fails. -/
inductive SinkFailure where
| closed
| incomplete
deriving DecidableEq

/- The wording of a failure. -/
def SinkFailure.message :
    SinkFailure → String
| .closed => "closed"
| .incomplete => "failed to write whole buffer"

/- A sink that holds bytes, up to a limit if it has one. -/
structure ByteSink where
  limit : Option Nat := none
  failure : SinkFailure := .closed
  held : Array UInt8 := #[]
deriving DecidableEq

namespace ByteSink

/- The bytes of a text. -/
def bytesOf
    (text : String) : Array UInt8 :=
  text.toUTF8.data

/- How many of `wanted` bytes still fit. -/
def room
    (sink : ByteSink)
    (wanted : Nat) : Nat :=
  match sink.limit with
  | none => wanted
  | some limit => min wanted (limit - sink.held.size)

/- Keep what fits, and fail if something is left over. -/
def write
    (sink : ByteSink)
    (text : String) :
    ByteSink × Option String :=
  let bytes := bytesOf text
  let room := sink.room bytes.size
  ( { sink with held := sink.held ++ bytes.take room },
    if room < bytes.size then
      some sink.failure.message
    else
      none )

instance : Sink ByteSink where
  write := write

/- The text that a sink holds, if the bytes are one. -/
def text?
    (sink : ByteSink) : Option String :=
  String.fromUTF8? ⟨sink.held⟩

end ByteSink

end Abacus
