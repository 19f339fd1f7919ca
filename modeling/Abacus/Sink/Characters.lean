import Abacus.Sink.Basic

/-
  Character sinks.

  A character sink accepts whole characters while the text
  that it holds stays within a number of bytes. The first
  character that does not fit fails the write. A text sink
  takes every text.

  Key definitions include:
    * `Abacus.CharSink`
    * `Abacus.CharSink.accept`
    * `Abacus.TextSink`
-/

------------------------------------------------------------
-- Character Sinks
------------------------------------------------------------

namespace Abacus

/- A sink for a text of at most `limit` UTF-8 bytes. -/
structure CharSink where
  limit : Nat
  held : String := ""
deriving DecidableEq

namespace CharSink

/- Accept characters up to the first that does not fit. -/
def accept
    (sink : CharSink) :
    List Char → CharSink × Option String
| [] => (sink, none)
| c :: cs =>
    if sink.held.utf8ByteSize + c.utf8Size ≤ sink.limit then
      accept { sink with held := sink.held.push c } cs
    else
      (sink, some "out of space")

/- Write a text character by character. -/
def write
    (sink : CharSink)
    (text : String) :
    CharSink × Option String :=
  sink.accept text.toList

instance : Sink CharSink where
  write := write

end CharSink

/- A sink for a text of any size. -/
structure TextSink where
  held : String := ""
deriving DecidableEq

instance : Sink TextSink where
  write sink text := (⟨sink.held ++ text⟩, none)

end Abacus
