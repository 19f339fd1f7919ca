/-
  Sinks.

  Text is written to a sink. A sink has a state, and a write
  changes the state and may fail, with a reason.

  Key definitions include:
    * `Abacus.Sink`
    * `Abacus.Sink.writeAll`
-/

------------------------------------------------------------
-- Sinks
------------------------------------------------------------

namespace Abacus

/-
  States that text can be written to. A write gives the new
  state, and the reason if it failed.
-/
class Sink (σ : Type) where
  write : σ → String → σ × Option String

namespace Sink

variable {σ : Type}
variable [Sink σ]

/- Write texts in order, up to the first failure. -/
def writeAll
    (sink : σ) :
    List String → σ × Option String
| [] => (sink, none)
| text :: texts =>
    match write sink text with
    | (sink, none) => writeAll sink texts
    | (sink, some reason) => (sink, some reason)

end Sink

end Abacus
