import Abacus.Log.Directive
import Abacus.Text.Pieces

/-
  Log filters.

  A filter is a list of directives. The most specific one
  that is for an event decides whether it is shown. The
  filter is chosen by the verbosity of the command line, or
  else by a variable that holds directives between commas.

  Key definitions include:
    * `Abacus.Filter`
    * `Abacus.Filter.decisive?`
    * `Abacus.Filter.shows`
    * `Abacus.Filter.read?`
    * `Abacus.Filter.choose`
-/

------------------------------------------------------------
-- Filters
------------------------------------------------------------

namespace Abacus

/- Which events of the log are shown. -/
structure Filter where
  directives : List Directive
deriving DecidableEq

namespace Filter

/- Show the events of all targets up to a level. -/
def upTo
    (level : Level) : Filter where
  directives := [{ detail := level.detail }]

/- The decisive of two directives for the same event. -/
def settle
    (earlier : Option Directive)
    (later : Directive) : Option Directive :=
  match earlier with
  | none => some later
  | some d =>
      if d.givesWay later then
        some later
      else
        some d

/- The directive that decides about an event, if any. -/
def decisive?
    (f : Filter)
    (e : Event) : Option Directive :=
  (f.directives.filter (·.concerns e)).foldl settle none

/- Whether an event is shown. -/
def shows
    (f : Filter)
    (e : Event) : Bool :=
  (f.decisive? e).any fun d => e.level.detail ≤ d.detail

/- The lines of the events that are shown. -/
def lines
    (f : Filter)
    (events : List Event) : String :=
  String.join ((events.filter f.shows).map Event.line)

end Filter

end Abacus

------------------------------------------------------------
-- Choosing a Filter
------------------------------------------------------------

namespace Abacus

namespace Filter

/-
  Read a filter. Empty pieces between the commas are
  skipped, and every other piece has to be a directive.
-/
def read?
    (text : String) : Option Filter := do
  let pieces :=
    (Text.pieces ',' text.toList).filter (!·.isEmpty)
  let directives ← pieces.mapM Directive.read?
  return ⟨directives⟩

/-
  The filter for a verbosity and a variable. Any verbosity
  overrides the variable; without either, or if the variable
  cannot be read, warnings and errors are shown.
-/
def choose
    (verbosity : Nat)
    (setting : Option String) : Filter :=
  match verbosity with
  | 0 => (setting.bind read?).getD (upTo .warn)
  | 1 => upTo .info
  | 2 => upTo .debug
  | _ => upTo .trace

end Filter

end Abacus
