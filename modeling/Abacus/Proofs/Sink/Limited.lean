import Abacus.Proofs.Machine.StepLimit

/-
  Byte sinks with a limit.

  A sink of limited size holds the first bytes of all that
  was offered to it, however the bytes were divided into
  writes. A write fails if it brings bytes that do not fit;
  filling a sink exactly is no failure, and neither is an
  empty write to a full sink.

  Main declarations:
    * `ByteSink.filled`
    * `ByteSink.writeAll_filled`
    * `Machine.sink_interpret_filled`
-/

------------------------------------------------------------
-- Filled Sinks
------------------------------------------------------------

namespace Abacus

namespace ByteSink

/- A limited sink after bytes were offered to it. -/
def filled
    (limit : Nat)
    (failure : SinkFailure)
    (offered : Array UInt8) : ByteSink where
  limit := some limit
  failure := failure
  held := offered.take limit

variable {limit : Nat}
variable {failure : SinkFailure}
variable {offered more : Array UInt8}

/- A new sink is one to which nothing was offered. -/
theorem filled_empty
    (limit : Nat)
    (failure : SinkFailure) :
    filled limit failure #[] =
      { limit := some limit, failure := failure } := by
  simp [filled]

/- More bytes are held as far as there is room for them. -/
theorem take_append_eq
    (limit : Nat)
    (offered more : Array UInt8) :
    (offered ++ more).take limit =
      offered.take limit ++
        more.take (limit - offered.size) := by
  rw [Array.take_eq_extract, Array.extract_append,
    Nat.zero_sub]

/- A full sink takes no more. -/
theorem filled_of_full
    (hFull : limit ≤ offered.size) :
    filled limit failure (offered ++ more) =
      filled limit failure offered := by
  have hNone : limit - offered.size = 0 :=
    Nat.sub_eq_zero_of_le hFull
  unfold filled
  rw [take_append_eq, hNone]
  simp

/- A filled sink has room for what is below its limit. -/
theorem room_filled
    (wanted : Nat) :
    (filled limit failure offered).room wanted =
      min wanted (limit - offered.size) := by
  have hHeld :
      (offered.take limit).size =
        min limit offered.size := by
    simp
  change min wanted (limit - (offered.take limit).size) = _
  rw [hHeld]
  omega

/- The reason why a filled sink refuses some bytes. -/
def leftOver?
    (limit : Nat)
    (failure : SinkFailure)
    (offered more : Array UInt8) : Option String :=
  if 0 < more.size ∧ limit < offered.size + more.size then
    some failure.message
  else
    none

/- Bytes are left over only if there are too many. -/
theorem leftOver?_eq_none_iff :
    leftOver? limit failure offered more = none ↔
      ¬(0 < more.size ∧
        limit < offered.size + more.size) := by
  simp [leftOver?]

/- With bytes to write this is a matter of their number. -/
theorem leftOver?_eq_none_iff_of_pos
    (hPos : 0 < more.size) :
    leftOver? limit failure offered more = none ↔
      (offered ++ more).size ≤ limit := by
  rw [leftOver?_eq_none_iff, Array.size_append]
  omega

theorem leftOver?_of_rest
    (hRest :
      0 < more.size ∧ limit < offered.size + more.size) :
    leftOver? limit failure offered more =
      some failure.message :=
  if_pos hRest

/- Bytes that follow others that fit are refused alone. -/
theorem leftOver?_append_of_none
    {first second : Array UInt8}
    (hFirst : leftOver? limit failure offered first = none) :
    leftOver? limit failure offered (first ++ second) =
      leftOver? limit failure (offered ++ first) second := by
  rw [leftOver?_eq_none_iff] at hFirst
  have hSame :
      (0 < first.size + second.size ∧
          limit <
            offered.size + (first.size + second.size)) ↔
        0 < second.size ∧
          limit <
            offered.size + first.size + second.size := by
    omega
  simp only [leftOver?, Array.size_append, hSame]

/- Bytes that follow a failure do not change it. -/
theorem leftOver?_append_of_rest
    {first second : Array UInt8}
    (hFirst :
      0 < first.size ∧ limit < offered.size + first.size) :
    leftOver? limit failure offered (first ++ second) =
      some failure.message := by
  apply leftOver?_of_rest
  rw [Array.size_append]
  omega

/- A write keeps what fits, and fails if there is a rest. -/
theorem write_filled
    (limit : Nat)
    (failure : SinkFailure)
    (offered : Array UInt8)
    (text : String) :
    Sink.write (filled limit failure offered) text =
      (filled limit failure (offered ++ bytesOf text),
        leftOver? limit failure offered
          (bytesOf text)) := by
  change (filled limit failure offered).write text = _
  unfold write
  simp only [room_filled]
  refine Prod.ext ?_ ?_
  · have hKept :
        (bytesOf text).take
            (min (bytesOf text).size
              (limit - offered.size)) =
          (bytesOf text).take (limit - offered.size) := by
      grind
    simp only [filled, take_append_eq, hKept]
  · have hRest :
        min (bytesOf text).size (limit - offered.size) <
            (bytesOf text).size ↔
          0 < (bytesOf text).size ∧
            limit < offered.size + (bytesOf text).size := by
      omega
    simp only [leftOver?, hRest]
    rfl

/-
  So does a sequence of writes, taken as a whole. After a
  failure the sink is full, so that the texts that are not
  written any more make no difference to what it holds.
-/
theorem writeAll_filled
    (limit : Nat)
    (failure : SinkFailure)
    (offered : Array UInt8)
    (texts : List String) :
    Sink.writeAll (filled limit failure offered) texts =
      (filled limit failure
          (offered ++ bytesOf (String.join texts)),
        leftOver? limit failure offered
          (bytesOf (String.join texts))) := by
  induction texts generalizing offered with
  | nil => simp [Sink.writeAll, bytesOf, leftOver?]
  | cons text texts ih =>
      rw [Sink.writeAll, write_filled, String.join_cons,
        bytesOf_append, ← Array.append_assoc]
      by_cases hRest :
          0 < (bytesOf text).size ∧
            limit < offered.size + (bytesOf text).size
      · have hFull :
            limit ≤ (offered ++ bytesOf text).size := by
          rw [Array.size_append]
          omega
        rw [leftOver?_of_rest hRest, filled_of_full hFull,
          leftOver?_append_of_rest hRest]
      · have hTaken :
            leftOver? limit failure offered (bytesOf text) =
              none :=
          leftOver?_eq_none_iff.mpr hRest
        rw [leftOver?_append_of_none hTaken, hTaken]
        exact ih (offered ++ bytesOf text)

end ByteSink

end Abacus

------------------------------------------------------------
-- Traces On Filled Sinks
------------------------------------------------------------

namespace Abacus

namespace Machine

/-
  A run offers to a limited sink what it writes to one that
  takes everything.
-/
theorem sink_interpret_filled
    (m : Machine)
    (c : Chunk)
    (limit : Nat)
    (failure : SinkFailure)
    (offered : Array UInt8) :
    (m.interpret c
        (ByteSink.filled limit failure offered)).sink =
      ByteSink.filled limit failure
        (offered ++
          (m.interpret c ({} : ByteSink)).sink.held) := by
  rw [interpret_sink, ByteSink.writeAll_filled,
    held_interpret_texts]

end Machine

end Abacus
