import Abacus.Proofs.Sink.Limited

/-
  Traces that are cut off.

  A sink of limited size cuts a trace at a byte, which may
  lie anywhere: within an entry, between two entries, or
  behind the last one. The sink holds the bytes in front of
  the cut. The run notices it exactly if something is behind
  it, since each entry has bytes and is handed over until
  none of them is left.

  Main declarations:
    * `ByteSink.call` and `ByteSink.callAll`
    * `ByteSink.write_eq_callAll`
    * `Machine.entries`
    * `Machine.interpret_cuts_trace`
-/

------------------------------------------------------------
-- Calls To A Sink
------------------------------------------------------------

namespace Abacus

namespace ByteSink

/-
  Hand bytes over once. The sink keeps those that fit, and
  tells how many these are. If none of them fits, a closed
  sink fails, and another one tells that it took nothing.
-/
def call
    (sink : ByteSink)
    (bytes : List UInt8) :
    ByteSink × Except String Nat :=
  let room := sink.room bytes.length
  if room = 0 ∧ sink.failure = .closed then
    (sink, .error SinkFailure.closed.message)
  else
    ( { sink with
        held := sink.held ++ (bytes.take room).toArray },
      .ok room )

/-
  Hand over what is left, again and again. A call that takes
  nothing is a failure.
-/
def callAll
    (sink : ByteSink)
    (bytes : List UInt8) :
    ByteSink × Option String :=
  if _hNone : bytes = [] then
    (sink, none)
  else
    match sink.call bytes with
    | (sink, .error reason) => (sink, some reason)
    | (sink, .ok 0) =>
        (sink, some SinkFailure.incomplete.message)
    | (sink, .ok (n + 1)) =>
        callAll sink (bytes.drop (n + 1))
termination_by bytes.length
decreasing_by
  have hSome := List.length_pos_iff.mpr _hNone
  rw [List.length_drop]
  omega

variable {sink : ByteSink}
variable {bytes : List UInt8}

/- Nothing has no bytes that could be left over. -/
theorem callAll_nil
    (sink : ByteSink) :
    sink.callAll [] = (sink, none) := by
  rw [callAll, dif_pos rfl]

/- There is never room for more than what is handed over. -/
theorem room_le
    (sink : ByteSink)
    (wanted : Nat) :
    sink.room wanted ≤ wanted := by
  unfold room
  split
  · exact Nat.le_refl wanted
  · exact Nat.min_le_left _ _

/- A sink without room for bytes fails in its own way. -/
theorem callAll_of_no_room
    (hSome : bytes ≠ [])
    (hRoom : sink.room bytes.length = 0) :
    sink.callAll bytes =
      (sink, some sink.failure.message) := by
  rw [callAll, dif_neg hSome]
  unfold call
  rw [hRoom]
  by_cases hClosed : sink.failure = .closed
  · simp [hClosed]
  · have hMessage :
        sink.failure.message =
          SinkFailure.incomplete.message := by
      cases hKind : sink.failure with
      | closed => exact absurd hKind hClosed
      | incomplete => rfl
    simp [hClosed, hMessage]

/- Otherwise it keeps a part, and is asked for the rest. -/
theorem callAll_of_room
    (hRoom : 0 < sink.room bytes.length) :
    sink.callAll bytes =
      callAll
        { sink with
          held :=
            sink.held ++
              (bytes.take
                (sink.room bytes.length)).toArray }
        (bytes.drop (sink.room bytes.length)) := by
  have hSome : bytes ≠ [] := by
    intro hNone
    have hLe := sink.room_le bytes.length
    rw [hNone, List.length_nil] at hLe hRoom
    omega
  have hOpen :
      ¬(sink.room bytes.length = 0 ∧
        sink.failure = .closed) := by
    intro hBoth
    omega
  rcases Nat.exists_eq_add_of_lt hRoom with ⟨n, hSize⟩
  rw [Nat.zero_add] at hSize
  rw [callAll, dif_neg hSome]
  unfold call
  simp only [if_neg hOpen]
  rw [hSize]

/- A sink that kept a part only has no room for the rest. -/
theorem room_of_kept
    (hRest : sink.room bytes.length < bytes.length)
    (wanted : Nat) :
    room
        { sink with
          held :=
            sink.held ++
              (bytes.take
                (sink.room bytes.length)).toArray }
        wanted =
      0 := by
  unfold room at hRest ⊢
  cases hLimit : sink.limit with
  | none =>
      rw [hLimit] at hRest
      exact absurd hRest (Nat.lt_irrefl _)
  | some limit =>
      rw [hLimit] at hRest
      have hKept :
          (sink.held ++
              (bytes.take
                (min bytes.length
                  (limit - sink.held.size))).toArray).size =
            sink.held.size +
              min bytes.length
                (limit - sink.held.size) := by
        simp
      dsimp only at hRest ⊢
      rw [hKept]
      omega

/-
  All calls together keep what fits, and fail if something
  is left over. At most two are needed: after one that did
  not take everything the sink is full.
-/
theorem callAll_eq
    (sink : ByteSink)
    (bytes : List UInt8) :
    sink.callAll bytes =
      ( { sink with
          held :=
            sink.held ++
              (bytes.take
                (sink.room bytes.length)).toArray },
        if sink.room bytes.length < bytes.length then
          some sink.failure.message
        else
          none ) := by
  by_cases hRoom : 0 < sink.room bytes.length
  · rw [callAll_of_room hRoom]
    by_cases hRest : sink.room bytes.length < bytes.length
    · have hLeft :
          bytes.drop (sink.room bytes.length) ≠ [] := by
        intro hNone
        have hAll := List.drop_eq_nil_iff.mp hNone
        omega
      rw [callAll_of_no_room hLeft (room_of_kept hRest _),
        if_pos hRest]
    · have hAll :
          bytes.drop (sink.room bytes.length) = [] := by
        apply List.drop_eq_nil_iff.mpr
        omega
      rw [hAll, callAll_nil, if_neg hRest]
  · have hNone : sink.room bytes.length = 0 := by omega
    by_cases hEmpty : bytes = []
    · subst hEmpty
      rw [callAll_nil]
      simp
    · have hLength := List.length_pos_iff.mpr hEmpty
      rw [callAll_of_no_room hEmpty hNone, hNone,
        if_pos hLength]
      simp

/- A text is written by handing over its bytes. -/
theorem write_eq_callAll
    (sink : ByteSink)
    (text : String) :
    Sink.write sink text =
      sink.callAll (bytesOf text).toList := by
  have hKept :
      ∀ n,
        ((bytesOf text).toList.take n).toArray =
          (bytesOf text).take n := by
    intro n
    apply Array.ext'
    simp
  rw [callAll_eq, Array.length_toList, hKept]
  rfl

end ByteSink

end Abacus

------------------------------------------------------------
-- Entries
------------------------------------------------------------

namespace Abacus

namespace Machine

/-
  The entries of the trace of a run, if it is on: one for
  each step that begins within the code.
-/
def entries
    (m : Machine)
    (c : Chunk) : List String :=
  if m.config.trace then
    ((m.reset.history c).filter fun s =>
      s.offset < c.size).map (entry c)
  else
    []

theorem entries_eq_texts
    (m : Machine)
    (c : Chunk) :
    m.entries c = c.texts m.config := by
  unfold entries Chunk.texts
  rw [map_entry_filter, snapshots_history_reset]

/- An entry has at least its line breaks. -/
theorem size_entry_pos
    (c : Chunk)
    (m : Machine) :
    0 < (ByteSink.bytesOf (m.entry c)).size := by
  unfold entry stackLine
  rw [ByteSink.bytesOf_append, ByteSink.bytesOf_append,
    Array.size_append, Array.size_append]
  have hBreak : 0 < (ByteSink.bytesOf "\n").size := by
    decide
  omega

theorem size_pos_of_mem_entries
    {m : Machine}
    {c : Chunk}
    {text : String}
    (hEntry : text ∈ m.entries c) :
    0 < (ByteSink.bytesOf text).size := by
  unfold entries at hEntry
  split at hEntry
  · rcases List.mem_map.mp hEntry with ⟨s, _, hText⟩
    rw [← hText]
    exact size_entry_pos c s
  · cases hEntry

end Machine

end Abacus

------------------------------------------------------------
-- Cut Traces
------------------------------------------------------------

namespace Abacus

namespace Event

/- Whether an event is a warning. -/
def isWarning
    (e : Event) : Bool :=
  e.level = .warn

end Event

namespace Machine

variable {σ : Type}
variable [Sink σ]

/- A run warns of nothing but of a sink that failed. -/
theorem warnings_interpret
    (m : Machine)
    (c : Chunk)
    (sink : σ) :
    (m.interpret c sink).log.filter Event.isWarning =
      (Sink.writeAll sink (m.entries c)).2.toList.map
        .traceDisabled := by
  have hOpening :
      Event.isWarning
          (.interpreting c.size c.constants.size
            m.config.trace) =
        false :=
    rfl
  have hClosing :
      Event.isWarning
          (c.outcome m.config.stepLimit).closing =
        false := by
    unfold Outcome.closing
    split <;> rfl
  rw [interpret_log, entries_eq_texts]
  unfold Chunk.account
  rw [List.filter_cons_of_neg (by simp [hOpening]),
    List.filter_append]
  cases (Sink.writeAll sink (c.texts m.config)).2 with
  | none => simp [hClosing]
  | some reason =>
      have hWarning :
          Event.isWarning (.traceDisabled reason) = true :=
        rfl
      simp [hClosing, hWarning]

/- A sink without a limit holds all entries. -/
theorem held_interpret_entries
    (m : Machine)
    (c : Chunk) :
    (m.interpret c ({} : ByteSink)).sink.held =
      ByteSink.bytesOf (String.join (m.entries c)) := by
  rw [held_interpret_texts, entries_eq_texts]

/- One with a limit holds the bytes that are within it. -/
theorem held_interpret_limited
    (m : Machine)
    (c : Chunk)
    (limit : Nat)
    (failure : SinkFailure) :
    (m.interpret c
        ({ limit := some limit
           failure := failure } : ByteSink)).sink.held =
      (m.interpret c
        ({} : ByteSink)).sink.held.take limit := by
  rw [← ByteSink.filled_empty, sink_interpret_filled,
    Array.empty_append]
  rfl

/- The run warns if there are more than these. -/
theorem warnings_interpret_limited
    (m : Machine)
    (c : Chunk)
    (limit : Nat)
    (failure : SinkFailure) :
    (m.interpret c
        ({ limit := some limit
           failure := failure } : ByteSink)).log.filter
        Event.isWarning =
      if limit <
          (m.interpret c ({} : ByteSink)).sink.held.size then
        [.traceDisabled failure.message]
      else
        [] := by
  rw [warnings_interpret, ← ByteSink.filled_empty,
    ByteSink.writeAll_filled, held_interpret_entries]
  unfold ByteSink.leftOver?
  rw [Array.size_empty, Nat.zero_add]
  by_cases hShort :
      limit <
        (ByteSink.bytesOf
          (String.join (m.entries c))).size
  · have hSome := Nat.zero_lt_of_lt hShort
    rw [if_pos ⟨hSome, hShort⟩, if_pos hShort]
    rfl
  · have hFits :
        ¬(0 <
            (ByteSink.bytesOf
              (String.join (m.entries c))).size ∧
          limit <
            (ByteSink.bytesOf
              (String.join (m.entries c))).size) := by
      intro hBoth
      exact hShort hBoth.2
    rw [if_neg hFits, if_neg hShort]
    rfl

/- In front of an entry there is only a part of the trace. -/
theorem exists_rest_of_entries
    {m : Machine}
    {c : Chunk}
    {before after : List String}
    {entry : String}
    (hEntries : m.entries c = before ++ entry :: after) :
    ∃ rest : Array UInt8,
      0 < rest.size ∧
        ByteSink.bytesOf (String.join (m.entries c)) =
          ByteSink.bytesOf (String.join before) ++ rest := by
  have hMem : entry ∈ m.entries c := by
    rw [hEntries]
    simp
  refine ⟨ByteSink.bytesOf
    (String.join (entry :: after)), ?_, ?_⟩
  · have hPos := size_pos_of_mem_entries hMem
    rw [String.join_cons, ByteSink.bytesOf_append,
      Array.size_append]
    omega
  · rw [hEntries, String.join_append,
      ByteSink.bytesOf_append]

/-
  A run on a sink of limited size leaves the first bytes of
  the whole trace. It warns once, for the reason that the
  sink gives, exactly if the whole trace does not fit. So it
  warns if the sink is full behind an entry that is not the
  last one, and does not if it is full behind the last.
-/
theorem interpret_cuts_trace
    (m : Machine)
    (c : Chunk)
    (limit : Nat)
    (failure : SinkFailure) :
    let full := (m.interpret c ({} : ByteSink)).sink.held
    let cut :=
      m.interpret c
        ({ limit := some limit
           failure := failure } : ByteSink)
    (∀ (sink : ByteSink) (text : String),
      Sink.write sink text =
        sink.callAll (ByteSink.bytesOf text).toList) ∧
      full = ByteSink.bytesOf (String.join (m.entries c)) ∧
      cut.sink.held = full.take limit ∧
      cut.log.filter Event.isWarning =
        (if limit < full.size then
          [.traceDisabled failure.message]
        else
          []) ∧
      ∀ before entry after,
        m.entries c = before ++ entry :: after →
        limit =
          (ByteSink.bytesOf (String.join before)).size →
        cut.sink.held =
            ByteSink.bytesOf (String.join before) ∧
          .traceDisabled failure.message ∈ cut.log := by
  intro full cut
  have hFull := held_interpret_entries m c
  have hHeld := held_interpret_limited m c limit failure
  have hWarns :=
    warnings_interpret_limited m c limit failure
  refine ⟨ByteSink.write_eq_callAll, hFull, hHeld, hWarns,
    ?_⟩
  intro before entry after hEntries hLimit
  rcases exists_rest_of_entries hEntries with
    ⟨rest, hRest, hBytes⟩
  rw [hFull, hBytes] at hHeld hWarns
  refine ⟨?_, ?_⟩
  · have hCut : cut.sink.held = _ := hHeld
    rw [hCut, hLimit]
    simp
  · have hShort :
        limit <
          (ByteSink.bytesOf (String.join before) ++
            rest).size := by
      rw [Array.size_append]
      omega
    have hMem :
        .traceDisabled failure.message ∈
          cut.log.filter Event.isWarning := by
      rw [hWarns, if_pos hShort]
      simp
    exact (List.mem_filter.mp hMem).1

/-
  The first entry of this trace has 38 bytes, the second has
  35. A sink that is full behind the first one is too small,
  and one that is full behind the second one is not.
-/
theorem interpret_cuts_trace_boundary :
    let m := Machine.new { trace := true }
    let c : Chunk :=
      { code := #[0, 0, 6]
        positions := #[⟨1, 1⟩, ⟨1, 1⟩, ⟨1, 1⟩]
        constants := #[1.5] }
    let first :=
      "stack:\n0000\t0001\t0001\tOP_CONSTANT\t1.5\n"
    let second := "stack: [1.5]\n0002\t|\t0001\tOP_RETURN\n"
    m.entries c = [first, second] ∧
      (m.interpret c
          ({ limit := some 38 } : ByteSink)).sink.held =
        ByteSink.bytesOf first ∧
      .traceDisabled "closed" ∈
        (m.interpret c
          ({ limit := some 38 } : ByteSink)).log ∧
      (m.interpret c
          ({ limit := some 73
             failure := .incomplete } :
            ByteSink)).log.filter Event.isWarning =
        [] := by
  intro m c first second
  have hEntries : m.entries c = [first, second] := by
    rw [entries_eq_texts]
    decide +kernel
  have hFirst : (ByteSink.bytesOf first).size = 38 := by
    decide +kernel
  have hBoth :
      (ByteSink.bytesOf
        (String.join [first, second])).size = 73 := by
    decide +kernel
  rcases interpret_cuts_trace m c 38 .closed with
    ⟨_, _, _, _, hBoundary⟩
  rcases hBoundary [first] second [] hEntries
      (by simpa using hFirst.symm) with
    ⟨hHeld, hWarned⟩
  rcases interpret_cuts_trace m c 73 .incomplete with
    ⟨_, hFull, _, hWarnings, _⟩
  rw [hFull, hEntries, hBoth] at hWarnings
  exact ⟨hEntries, by simpa using hHeld, hWarned, hWarnings⟩

end Machine

end Abacus
