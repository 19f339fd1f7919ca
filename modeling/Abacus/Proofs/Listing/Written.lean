import Abacus.Proofs.Listing.Table
import Abacus.Proofs.Listing.Agreement
import Abacus.Sink.Characters

/-
  Listings on sinks that become full.

  A listing is written in many parts, three for the heading
  and up to three for each row, and the first part that
  fails ends the writing. A character sink does not notice
  how a text is divided into parts. So it is left with all
  of the text, or with the longest part of it, in whole
  characters, that it has room for, and the failure is
  passed on exactly in the second case.

  Main declarations:
    * `Chunk.writeRowsFrom_eq` and `Chunk.writeListing_eq`
    * `TextSink.writeAll_eq`
    * `CharSink.writeAll_eq_write`
    * `CharSink.Receives` and `CharSink.receives_write`
    * `Chunk.written_up_to_limit`
-/

------------------------------------------------------------
-- Parts
------------------------------------------------------------

namespace Abacus

namespace Sink

variable {σ : Type}
variable [Sink σ]
variable {sink written : σ}
variable {texts : List String}

/- Texts behind others are written if those do not fail. -/
theorem writeAll_append_of_ok
    (hTexts : writeAll sink texts = (written, none))
    (more : List String) :
    writeAll sink (texts ++ more) =
      writeAll written more := by
  induction texts generalizing sink with
  | nil =>
      cases hTexts
      rfl
  | cons text texts ih =>
      rw [List.cons_append, writeAll]
      rw [writeAll] at hTexts
      cases hWrite : write sink text with
      | mk next failure =>
          rw [hWrite] at hTexts
          cases failure with
          | none => exact ih hTexts
          | some reason => cases hTexts

/- Nothing is written behind a failure. -/
theorem writeAll_append_of_failed
    {reason : String}
    (hTexts : writeAll sink texts = (written, some reason))
    (more : List String) :
    writeAll sink (texts ++ more) =
      (written, some reason) := by
  induction texts generalizing sink with
  | nil => cases hTexts
  | cons text texts ih =>
      rw [List.cons_append, writeAll]
      rw [writeAll] at hTexts
      cases hWrite : write sink text with
      | mk next failure =>
          rw [hWrite] at hTexts
          cases failure with
          | none => exact ih hTexts
          | some reason => exact hTexts

end Sink

namespace Chunk

variable {σ : Type}
variable [Sink σ]
variable {c : Chunk}
variable {previous : Option Nat}
variable {offset : Nat}
variable {sink written : σ}

theorem writeRowAfter_of_ok
    (hParts :
      Sink.writeAll sink (c.rowAfter previous offset).parts =
        (written, none)) :
    c.writeRowAfter previous offset sink =
      (written, .ok (c.rowAfter previous offset).next) := by
  simp only [writeRowAfter, hParts]

theorem writeRowAfter_of_failed
    {reason : String}
    (hParts :
      Sink.writeAll sink (c.rowAfter previous offset).parts =
        (written, some reason)) :
    c.writeRowAfter previous offset sink =
      (written, .error reason) := by
  simp only [writeRowAfter, hParts]

/-
  Writing rows is writing their parts, up to the first
  failure. The induction is on the code that is left.
-/
theorem writeRowsFrom_eq
    (c : Chunk)
    (previous : Option Nat)
    (offset : Nat)
    (sink : σ) :
    c.writeRowsFrom previous offset sink =
      Sink.writeAll sink
        ((c.rowsFrom previous offset).flatMap Row.parts) := by
  induction hRest : c.size - offset using Nat.strongRecOn
    generalizing previous offset sink with
  | ind rest ih =>
      rw [writeRowsFrom]
      by_cases hLt : offset < c.size
      · rw [if_pos hLt, rowsFrom_of_lt hLt,
          List.flatMap_cons]
        have hForward := c.lt_next_rowAfter previous offset
        cases hParts :
            Sink.writeAll sink
              (c.rowAfter previous offset).parts with
        | mk written failure =>
            cases failure with
            | none =>
                rw [Sink.writeAll_append_of_ok hParts,
                  writeRowAfter_of_ok hParts]
                exact ih _ (by omega) _ _ _ rfl
            | some reason =>
                rw [Sink.writeAll_append_of_failed hParts,
                  writeRowAfter_of_failed hParts]
      · rw [if_neg hLt,
          rowsFrom_of_le (Nat.le_of_not_lt hLt)]
        rfl

/- All that is written of a listing, part by part. -/
def listingParts
    (c : Chunk)
    (name : String) : List String :=
  heading name ++ c.rows.flatMap Row.parts

/- The parts of rows make up their texts. -/
theorem join_flatMap_parts
    (rows : List Row) :
    String.join (rows.flatMap Row.parts) =
      String.join (rows.map Row.text) := by
  induction rows with
  | nil => rfl
  | cons row rows ih =>
      rw [List.flatMap_cons, String.join_append, ih,
        Row.join_parts, List.map_cons, String.join_cons]

theorem join_listingParts
    (c : Chunk)
    (name : String) :
    String.join (c.listingParts name) = c.listing name := by
  rw [listingParts, String.join_append, join_flatMap_parts,
    listing_eq_append]

/- Writing a listing is writing its parts. -/
theorem writeListing_eq
    (c : Chunk)
    (name : String)
    (sink : σ) :
    c.writeListing name sink =
      Sink.writeAll sink (c.listingParts name) := by
  unfold writeListing listingParts
  cases hHeading : Sink.writeAll sink (heading name) with
  | mk written failure =>
      cases failure with
      | none =>
          rw [Sink.writeAll_append_of_ok hHeading]
          exact c.writeRowsFrom_eq none 0 written
      | some reason =>
          rw [Sink.writeAll_append_of_failed hHeading]

end Chunk

namespace TextSink

/- A text sink takes all texts. -/
theorem writeAll_eq
    (sink : TextSink)
    (texts : List String) :
    Sink.writeAll sink texts =
      (⟨sink.held ++ String.join texts⟩, none) := by
  induction texts generalizing sink with
  | nil => simp [Sink.writeAll]
  | cons text texts ih =>
      have hRest := ih ⟨sink.held ++ text⟩
      rw [String.append_assoc, ← String.join_cons] at hRest
      exact hRest

end TextSink

end Abacus

------------------------------------------------------------
-- Character Sinks
------------------------------------------------------------

namespace Abacus

namespace CharSink

variable {sink written : CharSink}
variable {cs : List Char}

/- Characters behind others are offered if those fit. -/
theorem accept_append_of_ok
    (hAccept : sink.accept cs = (written, none))
    (more : List Char) :
    sink.accept (cs ++ more) = written.accept more := by
  induction cs generalizing sink with
  | nil =>
      cases hAccept
      rfl
  | cons c cs ih =>
      rw [List.cons_append, accept]
      rw [accept] at hAccept
      split at hAccept
      · rename_i hFits
        rw [if_pos hFits]
        exact ih hAccept
      · cases hAccept

/- No character is accepted behind one that does not fit. -/
theorem accept_append_of_failed
    {reason : String}
    (hAccept : sink.accept cs = (written, some reason))
    (more : List Char) :
    sink.accept (cs ++ more) = (written, some reason) := by
  induction cs generalizing sink with
  | nil => cases hAccept
  | cons c cs ih =>
      rw [List.cons_append, accept]
      rw [accept] at hAccept
      split at hAccept
      · rename_i hFits
        rw [if_pos hFits]
        exact ih hAccept
      · rename_i hFull
        rw [if_neg hFull]
        exact hAccept

/- It does not matter how a text is divided into writes. -/
theorem writeAll_eq_write
    (sink : CharSink)
    (texts : List String) :
    Sink.writeAll sink texts =
      sink.write (String.join texts) := by
  induction texts generalizing sink with
  | nil => rfl
  | cons text texts ih =>
      have hWrite :
          Sink.write sink text = sink.accept text.toList :=
        rfl
      rw [Sink.writeAll, hWrite, String.join_cons, write,
        String.toList_append]
      cases hAccept : sink.accept text.toList with
      | mk written failure =>
          cases failure with
          | none =>
              rw [accept_append_of_ok hAccept]
              exact ih written
          | some reason =>
              rw [accept_append_of_failed hAccept]

/-
  A sink accepts the characters in front of the first one
  that does not fit, and fails if there is such a one.
-/
theorem accept_spec
    (sink : CharSink)
    (cs : List Char) :
    ∃ taken rest,
      cs = taken ++ rest ∧
        (sink.accept cs).1.held =
          sink.held ++ String.ofList taken ∧
        ((rest = [] ∧ (sink.accept cs).2 = none) ∨
          ∃ c more,
            rest = c :: more ∧
              (sink.accept cs).2.isSome ∧
              sink.limit <
                (sink.accept cs).1.held.utf8ByteSize +
                  c.utf8Size) := by
  induction cs generalizing sink with
  | nil =>
      refine ⟨[], [], rfl, ?_, .inl ⟨rfl, rfl⟩⟩
      simp [accept]
  | cons c cs ih =>
      rw [accept]
      by_cases hFits :
          sink.held.utf8ByteSize + c.utf8Size ≤ sink.limit
      · rw [if_pos hFits]
        rcases ih { sink with held := sink.held.push c } with
          ⟨taken, rest, hSplit, hHeld, hEnd⟩
        refine ⟨c :: taken, rest, ?_, ?_, hEnd⟩
        · rw [hSplit, List.cons_append]
        · rw [hHeld, String.ofList_cons,
            ← String.append_assoc, String.push_eq_append]
      · rw [if_neg hFits]
        refine ⟨[], c :: cs, rfl, by simp, .inr ?_⟩
        exact ⟨c, cs, rfl, rfl, Nat.lt_of_not_le hFits⟩

/- What fitted before and what is accepted fits together. -/
theorem size_accept_le
    (hFits : sink.held.utf8ByteSize ≤ sink.limit)
    (cs : List Char) :
    (sink.accept cs).1.held.utf8ByteSize ≤ sink.limit := by
  induction cs generalizing sink with
  | nil => exact hFits
  | cons c cs ih =>
      rw [accept]
      split
      · rename_i hNext
        apply ih
        rw [String.utf8ByteSize_push]
        exact hNext
      · exact hFits

/- A text has at least the bytes of each of its starts. -/
theorem size_le_of_prefix
    {s t : String}
    (hPrefix : s.toList <+: t.toList) :
    s.utf8ByteSize ≤ t.utf8ByteSize := by
  rcases hPrefix with ⟨rest, hSplit⟩
  have hText : s ++ String.ofList rest = t := by
    apply String.toList_inj.mp
    rw [String.toList_append, String.toList_ofList, hSplit]
  rw [← hText, String.utf8ByteSize_append]
  exact Nat.le_add_right _ _

/-
  What is left in a sink with room for some bytes to which a
  text was written. It is all of the text if that fits, and
  only then is the write done. Otherwise it is the longest
  part from the start, in whole characters, that fits.
-/
structure Receives
    (limit : Nat)
    (text held : String)
    (done : Bool) : Prop where
  done_iff : done = true ↔ text.utf8ByteSize ≤ limit
  whole : done = true → held = text
  start : held.toList <+: text.toList
  fits : held.utf8ByteSize ≤ limit
  longest :
    ∀ other : String,
      other.toList <+: text.toList →
        other.utf8ByteSize ≤ limit →
          other.toList <+: held.toList

variable {limit : Nat}
variable {text held : String}

/- A sink that took the whole text was large enough. -/
theorem receives_of_whole
    (hHeld : held = text)
    (hFits : held.utf8ByteSize ≤ limit) :
    Receives limit text held true := by
  subst hHeld
  refine ⟨?_, fun _ => rfl, List.prefix_refl _, hFits, ?_⟩
  · simp [hFits]
  · intro other hStart _
    exact hStart

/-
  If one more character than the sink holds is too much for
  it, then so is every longer part of the text.
-/
theorem receives_of_cut
    {c : Char}
    (hNext : (held.push c).toList <+: text.toList)
    (hFits : held.utf8ByteSize ≤ limit)
    (hOver : limit < (held.push c).utf8ByteSize) :
    Receives limit text held false := by
  have hPush : (held.push c).toList = held.toList ++ [c] :=
    String.toList_push c
  refine ⟨?_, by simp, ?_, hFits, ?_⟩
  · have hText := size_le_of_prefix hNext
    simp only [Bool.false_eq_true, false_iff]
    omega
  · rw [hPush] at hNext
    exact (List.prefix_append _ _).trans hNext
  · intro other hStart hSmall
    have hShort :
        ¬(held.push c).toList <+: other.toList := by
      intro hLonger
      have hSize := size_le_of_prefix hLonger
      omega
    rcases List.prefix_or_prefix_of_prefix hStart hNext with
      hWithin | hLonger
    · rw [hPush, List.prefix_concat_iff, ← hPush] at hWithin
      rcases hWithin with hSame | hHeld
      · rw [hSame] at hShort
        exact absurd (List.prefix_refl _) hShort
      · exact hHeld
    · exact absurd hLonger hShort

/- A new sink receives the text that is written to it. -/
theorem receives_write
    (limit : Nat)
    (text : String) :
    Receives limit text
      (write { limit } text).1.held
      (write { limit } text).2.isNone := by
  have hEmpty :
      ({ limit } : CharSink).held.utf8ByteSize ≤ limit :=
    Nat.zero_le limit
  have hFits := size_accept_le hEmpty text.toList
  rcases accept_spec { limit } text.toList with
    ⟨taken, rest, hSplit, hHeld, hEnd⟩
  rw [String.empty_append] at hHeld
  unfold write
  rcases hEnd with
    ⟨hRest, hDone⟩ | ⟨c, more, hRest, hFull, hOver⟩
  · rw [hDone]
    apply receives_of_whole _ hFits
    apply String.toList_inj.mp
    rw [hHeld, String.toList_ofList, hSplit, hRest,
      List.append_nil]
  · have hFailed :
        (accept { limit } text.toList).2.isNone = false := by
      simpa using hFull
    rw [hFailed]
    apply receives_of_cut _ hFits _ (c := c)
    · rw [hHeld, String.toList_push, String.toList_ofList,
        hSplit, hRest, List.prefix_append_right_inj]
      simp
    · rw [String.utf8ByteSize_push]
      exact hOver

end CharSink

end Abacus

------------------------------------------------------------
-- Writing Up To A Limit
------------------------------------------------------------

namespace Abacus

namespace Chunk

/- A row is received as a text, and leads on if it fits. -/
theorem receives_writeRow
    (c : Chunk)
    (offset limit : Nat) :
    CharSink.Receives limit (c.rowAt offset).text
        (c.writeRow offset ({ limit } : CharSink)).1.held
        (c.writeRow offset ({ limit } : CharSink)).2.isOk ∧
      ∀ next,
        (c.writeRow offset ({ limit } : CharSink)).2 =
            .ok next →
          next = (c.rowAt offset).next := by
  have hReceives :=
    CharSink.receives_write limit (c.rowAt offset).text
  rw [← Row.join_parts, ← CharSink.writeAll_eq_write,
    Row.join_parts] at hReceives
  cases hParts :
      Sink.writeAll ({ limit } : CharSink)
        (c.rowAt offset).parts with
  | mk written failure =>
      rw [hParts] at hReceives
      cases failure with
      | none =>
          rw [writeRow, writeRowAfter_of_ok hParts]
          refine ⟨hReceives, ?_⟩
          intro next hNext
          cases hNext
          rfl
      | some reason =>
          rw [writeRow, writeRowAfter_of_failed hParts]
          refine ⟨hReceives, ?_⟩
          intro next hNext
          cases hNext

/-
  A sink for every text gets the listing, and a single row,
  as a whole. A sink for some bytes, whatever their number,
  gets as much of the same text as it has room for, and
  fails exactly if that is not all of it. A row that fits
  leads to the same offset on both.
-/
theorem written_up_to_limit
    (c : Chunk)
    (name : String)
    (limit : Nat) :
    c.writeListing name ({} : TextSink) =
        (⟨c.listing name⟩, none) ∧
      CharSink.Receives limit (c.listing name)
        (c.writeListing name ({ limit } : CharSink)).1.held
        (c.writeListing name
          ({ limit } : CharSink)).2.isNone ∧
      ∀ offset,
        c.writeRow offset ({} : TextSink) =
            (⟨(c.rowAt offset).text⟩,
              .ok (c.rowAt offset).next) ∧
          CharSink.Receives limit (c.rowAt offset).text
            (c.writeRow offset ({ limit } : CharSink)).1.held
            (c.writeRow offset
              ({ limit } : CharSink)).2.isOk ∧
          ∀ next,
            (c.writeRow offset ({ limit } : CharSink)).2 =
                .ok next →
              next = (c.rowAt offset).next := by
  refine ⟨?_, ?_, ?_⟩
  · rw [writeListing_eq, TextSink.writeAll_eq,
      join_listingParts, String.empty_append]
  · rw [writeListing_eq, CharSink.writeAll_eq_write,
      join_listingParts]
    exact CharSink.receives_write limit (c.listing name)
  · intro offset
    refine ⟨?_, c.receives_writeRow offset limit⟩
    apply writeRowAfter_of_ok
    rw [TextSink.writeAll_eq, Row.join_parts,
      String.empty_append]
    rfl

end Chunk

end Abacus
