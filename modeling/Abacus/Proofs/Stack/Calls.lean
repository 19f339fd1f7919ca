import Abacus.Proofs.Program.Values

/-
  Calls on a stack.

  A call on a stack has a reply and leaves a stack, or it
  fails. Seen from its top, a stack does with each call what
  a plain list of bounded length does with it. Whether a call
  fails depends on the number of values only.

  Main declarations:
    * `Stack.Call` and `Stack.Reply`
    * `Stack.Call.refusal?`
    * `Stack.Call.onList` and `Stack.Call.onStack`
    * `Stack.Call.onStack_values`
    * `Stack.Call.onStack_eq_error_iff`
-/

------------------------------------------------------------
-- Calls
------------------------------------------------------------

namespace Abacus

namespace Stack

/- What a stack can be told to do. -/
inductive Call where
| push (value : Number)
| pop
| popPair
| peek (distance : UInt64)
| setTop (value : Number)
| negate
| combine (f : Number → Number → Number)
| reset

/- What a call gives. Of a pair the lower value is first. -/
inductive Reply where
| done
| single (value : Number)
| pair (a b : Number)
deriving DecidableEq

namespace Reply

variable {σ τ : Type}

/- The result of a call that gives nothing. -/
def ofChange
    (result : Except Cause σ) :
    Except Cause (Reply × σ) :=
  result.map fun s => (.done, s)

/- The result of a call that gives a value. -/
def ofValue
    (result : Except Cause (Number × σ)) :
    Except Cause (Reply × σ) :=
  result.map fun (value, s) => (.single value, s)

/- The result of a call that gives a pair. -/
def ofPair
    (result : Except Cause (Number × Number × σ)) :
    Except Cause (Reply × σ) :=
  result.map fun (a, b, s) => (.pair a b, s)

/- The same result, as it looks from another side. -/
def seen
    (view : σ → τ)
    (result : Except Cause (Reply × σ)) :
    Except Cause (Reply × τ) :=
  result.map fun (reply, s) => (reply, view s)

theorem seen_ofChange
    (view : σ → τ)
    (result : Except Cause σ) :
    seen view (ofChange result) =
      ofChange (result.map view) := by
  cases result <;> rfl

theorem seen_ofValue
    (view : σ → τ)
    (result : Except Cause (Number × σ)) :
    seen view (ofValue result) =
      ofValue
        (result.map fun (value, s) => (value, view s)) := by
  cases result <;> rfl

theorem seen_ofPair
    (view : σ → τ)
    (result : Except Cause (Number × Number × σ)) :
    seen view (ofPair result) =
      ofPair
        (result.map fun (a, b, s) => (a, b, view s)) := by
  cases result <;> rfl

/- A call fails if what it does fails. -/
@[simp] theorem ofChange_eq_error_iff
    {result : Except Cause σ}
    {cause : Cause} :
    ofChange result = .error cause ↔
      result = .error cause := by
  cases result <;> simp [ofChange, Except.map]

@[simp] theorem ofValue_eq_error_iff
    {result : Except Cause (Number × σ)}
    {cause : Cause} :
    ofValue result = .error cause ↔
      result = .error cause := by
  cases result <;> simp [ofValue, Except.map]

@[simp] theorem ofPair_eq_error_iff
    {result : Except Cause (Number × Number × σ)}
    {cause : Cause} :
    ofPair result = .error cause ↔
      result = .error cause := by
  cases result <;> simp [ofPair, Except.map]

/- A failure looks the same from all sides. -/
theorem seen_eq_error_iff
    {view : σ → τ}
    {result : Except Cause (Reply × σ)}
    {cause : Cause} :
    seen view result = .error cause ↔
      result = .error cause := by
  cases result with
  | error found => simp [seen, Except.map]
  | ok given => simp [seen, Except.map]

end Reply

namespace Call

/- The number of values that have to be there for a call. -/
def needs :
    Call → Nat
| .push _ => 0
| .pop => 1
| .popPair => 2
| .peek distance => distance.toNat + 1
| .setTop _ => 1
| .negate => 1
| .combine _ => 2
| .reset => 0

/- The cause of a failure on some number of values. -/
def refusal?
    (call : Call)
    (size : Nat) : Option Cause :=
  if size < call.needs then
    some .stackUnderflow
  else
    match call with
    | .push _ =>
        if size = capacity then
          some (.stackOverflow capacity)
        else
          none
    | _ => none

/- What a call does to a list, the top value first. -/
def onList
    (call : Call)
    (values : List Number) :
    Except Cause (Reply × List Number) :=
  match call with
  | .push value =>
      Reply.ofChange
        (if values.length < capacity then
          .ok (value :: values)
        else
          .error (.stackOverflow capacity))
  | .pop =>
      Reply.ofValue
        (match values with
        | [] => .error .stackUnderflow
        | value :: rest => .ok (value, rest))
  | .popPair =>
      Reply.ofPair
        (match values with
        | b :: a :: rest => .ok (a, b, rest)
        | _ => .error .stackUnderflow)
  | .peek distance =>
      Reply.ofValue
        (match values[distance.toNat]? with
        | some value => .ok (value, values)
        | none => .error .stackUnderflow)
  | .setTop value =>
      Reply.ofChange
        (match values with
        | [] => .error .stackUnderflow
        | _ :: rest => .ok (value :: rest))
  | .negate =>
      Reply.ofChange
        (match values with
        | [] => .error .stackUnderflow
        | value :: rest => .ok (value.opposite :: rest))
  | .combine f =>
      Reply.ofChange
        (match values with
        | b :: a :: rest => .ok (f a b :: rest)
        | _ => .error .stackUnderflow)
  | .reset => Reply.ofChange (.ok [])

/- What a call does to a stack. -/
def onStack
    (call : Call)
    (s : Stack) : Except Cause (Reply × Stack) :=
  match call with
  | .push value => Reply.ofChange (s.push value)
  | .pop => Reply.ofValue s.pop
  | .popPair => Reply.ofPair s.popPair
  | .peek distance =>
      Reply.ofValue
        ((s.peek distance.toNat).map fun value =>
          (value, s))
  | .setTop value => Reply.ofChange (s.setTop value)
  | .negate => Reply.ofChange s.negate
  | .combine f => Reply.ofChange (s.combine f)
  | .reset => Reply.ofChange (.ok s.reset)

end Call

end Stack

end Abacus

------------------------------------------------------------
-- Stacks And Lists
------------------------------------------------------------

namespace Abacus

namespace Stack

namespace Call

/- From its top, a stack does what a list does. -/
theorem onStack_values
    (call : Call)
    (s : Stack) :
    Reply.seen values (call.onStack s) =
      call.onList s.values := by
  cases call with
  | push value =>
      exact (Reply.seen_ofChange _ _).trans
        (congrArg _ (s.push_values value))
  | pop =>
      exact (Reply.seen_ofValue _ _).trans
        (congrArg _ s.pop_values)
  | popPair =>
      exact (Reply.seen_ofPair _ _).trans
        (congrArg _ s.popPair_values)
  | peek distance =>
      refine (Reply.seen_ofValue _ _).trans (congrArg _ ?_)
      rw [Stack.peek_eq]
      change
        _ =
          match s.toList.reverse[distance.toNat]? with
          | some value => Except.ok (value, s.values)
          | none => Except.error Cause.stackUnderflow
      cases s.toList.reverse[distance.toNat]? <;> rfl
  | setTop value =>
      exact (Reply.seen_ofChange _ _).trans
        (congrArg _ (s.setTop_values value))
  | negate =>
      exact (Reply.seen_ofChange _ _).trans
        (congrArg _ s.negate_values)
  | combine f =>
      exact (Reply.seen_ofChange _ _).trans
        (congrArg _ (s.combine_values f))
  | reset =>
      refine (Reply.seen_ofChange _ _).trans (congrArg _ ?_)
      exact congrArg Except.ok s.values_reset

/- Whether a call fails is a matter of how many there are. -/
theorem onList_eq_error_iff
    {call : Call}
    {values : List Number}
    {cause : Cause}
    (hBound : values.length ≤ capacity) :
    call.onList values = .error cause ↔
      call.refusal? values.length = some cause := by
  cases call with
  | push value =>
      by_cases hFull : values.length = capacity
      · simp [onList, refusal?, needs, hFull]
      · have hRoom : values.length < capacity := by omega
        simp [onList, refusal?, needs, hFull, hRoom]
  | pop =>
      cases values <;> simp [onList, refusal?, needs]
  | popPair =>
      rcases values with _ | ⟨b, _ | ⟨a, rest⟩⟩
      · simp [onList, refusal?, needs]
      · simp [onList, refusal?, needs]
      · have hTwo : ¬rest.length + 1 + 1 < 2 := by omega
        simp [onList, refusal?, needs, hTwo]
  | peek distance =>
      by_cases hIn : distance.toNat < values.length
      · have hEnough : ¬values.length < distance.toNat + 1 := by
          omega
        simp [onList, refusal?, needs, hIn, hEnough]
      · have hFew : values.length < distance.toNat + 1 := by
          omega
        simp [onList, refusal?, needs, hIn, hFew]
  | setTop value =>
      cases values <;> simp [onList, refusal?, needs]
  | negate =>
      cases values <;> simp [onList, refusal?, needs]
  | combine f =>
      rcases values with _ | ⟨b, _ | ⟨a, rest⟩⟩
      · simp [onList, refusal?, needs]
      · simp [onList, refusal?, needs]
      · have hTwo : ¬rest.length + 1 + 1 < 2 := by omega
        simp [onList, refusal?, needs, hTwo]
  | reset => simp [onList, refusal?, needs]

/- So it is on a stack. -/
theorem onStack_eq_error_iff
    {call : Call}
    {s : Stack}
    {cause : Cause} :
    call.onStack s = .error cause ↔
      call.refusal? s.size = some cause := by
  have hBound : s.values.length ≤ capacity := by
    rw [length_values]
    exact s.size_le_capacity
  rw [← Reply.seen_eq_error_iff, onStack_values,
    onList_eq_error_iff hBound, length_values]

end Call

end Stack

end Abacus
