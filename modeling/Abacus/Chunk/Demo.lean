import Abacus.Chunk.Edit

/-
  The demonstration chunk.

  It computes `-1.2 + 3` beside a spare `1.2`.

  Key definitions include:
    * `Abacus.Chunk.demo`
-/

------------------------------------------------------------
-- Demonstration
------------------------------------------------------------

namespace Abacus

namespace Chunk

/- The edits that build the demonstration chunk. -/
def demoEdits : List Edit :=
  [ .push 1.2 ⟨1, 23⟩,
    .push 1.2 ⟨2, 23⟩,
    .op .negate ⟨2, 23⟩,
    .push 3.0 ⟨2, 23⟩,
    .op (.binary .add) ⟨10, 10⟩,
    .op .ret ⟨5, 23⟩ ]

/- The demonstration chunk. -/
def demo : Chunk :=
  ofEdits demoEdits

end Chunk

end Abacus
