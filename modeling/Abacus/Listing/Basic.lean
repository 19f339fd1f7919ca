import Abacus.Listing.Row
import Abacus.Sink.Basic

/-
  Listings.

  A listing has a heading and one row for each instruction
  of a chunk, from the first byte to the last. A row shows
  its line unless the row above is of the same line.

  Key definitions include:
    * `Abacus.Chunk.rows`
    * `Abacus.Chunk.listing`
    * `Abacus.Chunk.writeRowsFrom`
    * `Abacus.Chunk.writeListing`
    * `Abacus.Chunk.writeRow`
    * `Abacus.Chunk.walk`
-/

------------------------------------------------------------
-- Listings
------------------------------------------------------------

namespace Abacus

namespace Chunk

/- The rows from `offset` on, after a row of some line. -/
def rowsFrom
    (c : Chunk)
    (previous : Option Nat)
    (offset : Nat) : List Row :=
  if offset < c.size then
    let row := c.rowAfter previous offset
    row :: c.rowsFrom (c.line? offset) row.next
  else
    []
termination_by c.size - offset
decreasing_by
  have h := c.lt_next_rowAfter previous offset
  omega

/- The rows of a chunk. -/
def rows
    (c : Chunk) : List Row :=
  c.rowsFrom none 0

/- The lines above the rows. -/
def heading
    (name : String) : List String :=
  [ "chunk: " ++ name ++ "\n",
    "------------------------------------------------\n",
    "offset\tline\tcol\tinstruction\tvalue\n" ]

/- The lines of a listing, each with its line break. -/
def listingLines
    (c : Chunk)
    (name : String) : List String :=
  heading name ++ c.rows.map Row.text

/- The listing of a chunk under a name. -/
def listing
    (c : Chunk)
    (name : String) : String :=
  String.join (c.listingLines name)

/- The rows of a chunk, each by itself, from `offset` on. -/
def walkFrom
    (c : Chunk)
    (offset : Nat) : List Row :=
  if offset < c.size then
    let row := c.rowAt offset
    row :: c.walkFrom row.next
  else
    []
termination_by c.size - offset
decreasing_by
  have h := c.lt_next_rowAfter (c.lineBefore? offset) offset
  unfold rowAt
  omega

/- The rows of a chunk, each by itself. -/
def walk
    (c : Chunk) : List Row :=
  c.walkFrom 0

end Chunk

end Abacus

------------------------------------------------------------
-- Writing To Sinks
------------------------------------------------------------

namespace Abacus

namespace Chunk

variable {σ : Type}
variable [Sink σ]

/-
  Write the row at `offset`, after a row of some line, part
  by part up to a failure, and give the offset behind it.
-/
def writeRowAfter
    (c : Chunk)
    (previous : Option Nat)
    (offset : Nat)
    (sink : σ) : σ × Except String Nat :=
  let row := c.rowAfter previous offset
  match Sink.writeAll sink row.parts with
  | (sink, none) => (sink, .ok row.next)
  | (sink, some reason) => (sink, .error reason)

/- The offset behind a row does not depend on the sink. -/
theorem next_of_writeRowAfter
    {c : Chunk}
    {previous : Option Nat}
    {offset next : Nat}
    {sink written : σ}
    (h :
      c.writeRowAfter previous offset sink =
        (written, .ok next)) :
    next = (c.rowAfter previous offset).next := by
  unfold writeRowAfter at h
  dsimp only at h
  split at h
  · cases h
    rfl
  · cases h

/- Write the rows from `offset` on, up to a failure. -/
def writeRowsFrom
    (c : Chunk)
    (previous : Option Nat)
    (offset : Nat)
    (sink : σ) : σ × Option String :=
  if offset < c.size then
    match _h : c.writeRowAfter previous offset sink with
    | (sink, .ok next) =>
        c.writeRowsFrom (c.line? offset) next sink
    | (sink, .error reason) => (sink, some reason)
  else
    (sink, none)
termination_by c.size - offset
decreasing_by
  have hNext := next_of_writeRowAfter _h
  have hForward := c.lt_next_rowAfter previous offset
  omega

/- Write a listing, up to a failure. -/
def writeListing
    (c : Chunk)
    (name : String)
    (sink : σ) : σ × Option String :=
  match Sink.writeAll sink (heading name) with
  | (sink, none) => c.writeRowsFrom none 0 sink
  | (sink, some reason) => (sink, some reason)

/- Write a single row, and give the offset behind it. -/
def writeRow
    (c : Chunk)
    (offset : Nat)
    (sink : σ) : σ × Except String Nat :=
  c.writeRowAfter (c.lineBefore? offset) offset sink

end Chunk

end Abacus
