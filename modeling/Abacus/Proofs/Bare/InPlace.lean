import Abacus.Proofs.Bare.Stack
import Abacus.Proofs.Stack.Calls

/-
  Calls on a stack in place.

  Whatever sequence of calls a new stack is given, it answers
  as a plain list of bounded length does, and shows the same
  values after every call. So does an array of slots and a
  word, on which the calls are done in place. There, values
  that were taken off stay in their slots, and what a call
  did before it fails stays done; neither is ever seen.

  Main declarations:
    * `BareStack.InPlace` and `Stack.Call.inPlace`
    * `Stack.Call.inPlace_bare`
    * `Stack.Representation` and `Stack.Refines`
    * `Stack.sights_as_list`
-/

------------------------------------------------------------
-- Calls In Place
------------------------------------------------------------

namespace Abacus

namespace BareStack

/- A bare stack without values. -/
def new : BareStack where
  slots := Array.replicate Stack.capacity 0
  top := 0

/-
  Calls that change a bare stack in place. A trap ends all;
  a failure does not undo what was done before.
-/
abbrev InPlace : Type → Type :=
  ExceptT Cause (StateT BareStack Option)

namespace InPlace

def push
    (value : Number) : InPlace Unit := do
  let s ← get
  if s.top = .ofNat Stack.capacity then
    throw (.stackOverflow Stack.capacity)
  else
    let slots ← s.store s.top value
    modify fun s => { s with slots }
    let top ← Word.plus? s.top 1
    modify fun s => { s with top }

def pop : InPlace Number := do
  let s ← get
  if s.top = 0 then
    throw .stackUnderflow
  else
    let top ← Word.minus? s.top 1
    modify fun s => { s with top }
    s.load top

def popPair : InPlace (Number × Number) := do
  let s ← get
  if s.top < 2 then
    throw .stackUnderflow
  else
    let top ← Word.minus? s.top 2
    modify fun s => { s with top }
    let a ← s.load top
    let upper ← Word.plus? top 1
    let b ← s.load upper
    return (a, b)

def peek
    (distance : UInt64) : InPlace Number := do
  let s ← get
  if s.top ≤ distance then
    throw .stackUnderflow
  else
    let last ← Word.minus? s.top 1
    let i ← Word.minus? last distance
    s.load i

def setTop
    (value : Number) : InPlace Unit := do
  let s ← get
  if s.top = 0 then
    throw .stackUnderflow
  else
    let last ← Word.minus? s.top 1
    let slots ← s.store last value
    modify fun s => { s with slots }

def negate : InPlace Unit := do
  let value ← peek 0
  setTop (-value)

/- The pair is off the stack before the result is put on. -/
def combine
    (f : Number → Number → Number) : InPlace Unit := do
  let (a, b) ← popPair
  push (f a b)

def reset : InPlace Unit :=
  modify fun s => { s with top := 0 }

end InPlace

end BareStack

namespace Stack

namespace Call

/- A call in place, with its reply. -/
def inPlace :
    Call → BareStack.InPlace Reply
| .push value => do
    BareStack.InPlace.push value
    return .done
| .pop => do
    let value ← BareStack.InPlace.pop
    return .single value
| .popPair => do
    let (a, b) ← BareStack.InPlace.popPair
    return .pair a b
| .peek distance => do
    let value ← BareStack.InPlace.peek distance
    return .single value
| .setTop value => do
    BareStack.InPlace.setTop value
    return .done
| .negate => do
    BareStack.InPlace.negate
    return .done
| .combine f => do
    BareStack.InPlace.combine f
    return .done
| .reset => do
    BareStack.InPlace.reset
    return .done

end Call

end Stack

end Abacus

------------------------------------------------------------
-- Nothing Half Done
------------------------------------------------------------

namespace Abacus

/-
  The reply of a call and what it leaves, if a call that
  fails leaves everything as it was.
-/
def Stack.settle
    {α σ : Type}
    (s : σ) :
    Except Cause (α × σ) → Except Cause α × σ
| .ok (reply, t) => (.ok reply, t)
| .error cause => (.error cause, s)

namespace BareStack

namespace InPlace

variable {α β : Type}

/- One part after another, as long as nothing fails. -/
theorem bind_apply
    (x : InPlace α)
    (f : α → InPlace β)
    (s : BareStack) :
    (x >>= f) s =
      (x s).bind fun
        | (.ok a, t) => f a t
        | (.error cause, t) => some (.error cause, t) := by
  change (x s).bind _ = _
  congr 1
  funext result
  rcases result with ⟨result, t⟩
  cases result <;> rfl

/- How a part runs in front of the rest. -/
theorem get_bind_apply
    (f : BareStack → InPlace β)
    (s : BareStack) :
    (get >>= f) s = f s s :=
  rfl

theorem modify_bind_apply
    (change : BareStack → BareStack)
    (f : PUnit → InPlace β)
    (s : BareStack) :
    (modify change >>= f) s = f ⟨⟩ (change s) := by
  rw [bind_apply]
  rfl

theorem lift_bind_apply
    (x : Option α)
    (f : α → InPlace β)
    (s : BareStack) :
    (liftM x >>= f) s = x.bind fun a => f a s := by
  cases x <;> rfl

theorem lift_apply
    (x : Option α)
    (s : BareStack) :
    (liftM x : InPlace α) s =
      x.bind fun a => some (.ok a, s) := by
  cases x <;> rfl

/- A check in front leaves the stack to what comes next. -/
theorem guard_apply
    {γ : Type}
    {p : Prop}
    [Decidable p]
    {cause : Cause}
    {x : InPlace α}
    {y : Option (Except Cause γ)}
    {f : Except Cause γ → Except Cause α × BareStack}
    {s : BareStack}
    (hCause : f (.error cause) = (.error cause, s))
    (hRest : x s = y.map f) :
    (if p then throw cause else x) s =
      (if p then some (.error cause) else y).map f := by
  by_cases hCheck : p
  · rw [if_pos hCheck, if_pos hCheck, Option.map_some,
      hCause]
    rfl
  · rw [if_neg hCheck, if_neg hCheck]
    exact hRest

theorem push_eq
    (value : Number)
    (s : BareStack) :
    push value s =
      (s.push value).map fun result =>
        Stack.settle s (result.map fun t => ((), t)) := by
  unfold push BareStack.push
  rw [get_bind_apply]
  apply guard_apply rfl
  simp only [lift_bind_apply, modify_bind_apply,
    Option.bind_eq_bind, Option.map_bind,
    Function.comp_def]
  rfl

theorem pop_eq
    (s : BareStack) :
    pop s = s.pop.map (Stack.settle s) := by
  unfold pop BareStack.pop
  rw [get_bind_apply]
  apply guard_apply rfl
  simp only [lift_bind_apply, modify_bind_apply, lift_apply,
    Option.bind_eq_bind, Option.map_bind,
    Function.comp_def]
  rfl

theorem popPair_eq
    (s : BareStack) :
    popPair s =
      s.popPair.map fun result =>
        Stack.settle s
          (result.map fun (a, b, t) => ((a, b), t)) := by
  unfold popPair BareStack.popPair
  rw [get_bind_apply]
  apply guard_apply rfl
  simp only [lift_bind_apply, modify_bind_apply,
    Option.bind_eq_bind, Option.map_bind,
    Function.comp_def]
  rfl

theorem peek_eq
    (distance : UInt64)
    (s : BareStack) :
    peek distance s =
      (s.peek distance).map fun result =>
        Stack.settle s
          (result.map fun value => (value, s)) := by
  unfold peek BareStack.peek
  rw [get_bind_apply]
  apply guard_apply rfl
  simp only [lift_bind_apply, lift_apply,
    Option.bind_eq_bind, Option.map_bind,
    Function.comp_def]
  rfl

theorem setTop_eq
    (value : Number)
    (s : BareStack) :
    setTop value s =
      (s.setTop value).map fun result =>
        Stack.settle s (result.map fun t => ((), t)) := by
  unfold setTop BareStack.setTop
  rw [get_bind_apply]
  apply guard_apply rfl
  simp only [lift_bind_apply, Option.bind_eq_bind,
    Option.map_bind, Function.comp_def]
  rfl

end InPlace

end BareStack

namespace Stack

open BareStack (InPlace)

theorem inPlace_push
    (s : Stack)
    (value : Number) :
    InPlace.push value s.bare =
      some
        (settle s.bare
          ((s.push value).map fun t => ((), t.bare))) := by
  rw [InPlace.push_eq, bare_push, Option.map_some]
  cases s.push value <;> rfl

theorem inPlace_pop
    (s : Stack) :
    InPlace.pop s.bare =
      some
        (settle s.bare
          (s.pop.map fun (value, t) => (value, t.bare))) := by
  rw [InPlace.pop_eq, bare_pop, Option.map_some]

theorem inPlace_popPair
    (s : Stack) :
    InPlace.popPair s.bare =
      some
        (settle s.bare
          (s.popPair.map fun (a, b, t) =>
            ((a, b), t.bare))) := by
  rw [InPlace.popPair_eq, bare_popPair, Option.map_some]
  cases s.popPair <;> rfl

theorem inPlace_peek
    (s : Stack)
    (distance : UInt64) :
    InPlace.peek distance s.bare =
      some
        (settle s.bare
          ((s.peek distance.toNat).map fun value =>
            (value, s.bare))) := by
  rw [InPlace.peek_eq, bare_peek, Option.map_some]

theorem inPlace_setTop
    (s : Stack)
    (value : Number) :
    InPlace.setTop value s.bare =
      some
        (settle s.bare
          ((s.setTop value).map fun t => ((), t.bare))) := by
  rw [InPlace.setTop_eq, bare_setTop, Option.map_some]
  cases s.setTop value <;> rfl

/- The top is looked at first, which changes nothing. -/
theorem inPlace_negate
    (s : Stack) :
    InPlace.negate s.bare =
      some
        (settle s.bare
          (s.negate.map fun t => ((), t.bare))) := by
  have hTop : (0 : UInt64).toNat = 0 := rfl
  unfold InPlace.negate negate
  rw [InPlace.bind_apply, inPlace_peek, hTop]
  cases s.peek 0 with
  | error cause => rfl
  | ok value => exact s.inPlace_setTop (-value)

/-
  The pair is gone when the result is put on top. There is
  room for it, so the call does not fail from here on.
-/
theorem inPlace_combine
    (s : Stack)
    (f : Number → Number → Number) :
    InPlace.combine f s.bare =
      some
        (settle s.bare
          ((s.combine f).map fun t => ((), t.bare))) := by
  unfold InPlace.combine combine
  rw [InPlace.bind_apply, inPlace_popPair]
  cases hPair : s.popPair with
  | error cause => rfl
  | ok popped =>
      rcases popped with ⟨a, b, rest⟩
      rcases exists_push_of_popPair hPair (f a b) with
        ⟨t, hPush⟩
      have hCall := rest.inPlace_push (f a b)
      rw [hPush] at hCall
      simp only [hPush]
      exact hCall

/- A call that gives nothing, followed by its reply. -/
theorem inPlace_ofChange
    {x : InPlace Unit}
    {s : Stack}
    {result : Except Cause Stack}
    (hCall :
      x s.bare =
        some
          (settle s.bare
            (result.map fun t => ((), t.bare)))) :
    (do x; return .done : InPlace Reply) s.bare =
      some
        (settle s.bare
          (Reply.seen bare (Reply.ofChange result))) := by
  rw [InPlace.bind_apply, hCall]
  cases result <;> rfl

/- A call that gives a value, followed by its reply. -/
theorem inPlace_ofValue
    {x : InPlace Number}
    {s : Stack}
    {result : Except Cause (Number × Stack)}
    (hCall :
      x s.bare =
        some
          (settle s.bare
            (result.map fun (value, t) =>
              (value, t.bare)))) :
    (do return .single (← x) : InPlace Reply) s.bare =
      some
        (settle s.bare
          (Reply.seen bare (Reply.ofValue result))) := by
  rw [InPlace.bind_apply, hCall]
  cases result <;> rfl

/-
  On the slots of a stack, every call in place gives what it
  gives on the stack, and never traps. A call that fails has
  changed no slot.
-/
theorem Call.inPlace_bare
    (call : Call)
    (s : Stack) :
    call.inPlace s.bare =
      some
        (settle s.bare
          (Reply.seen bare (call.onStack s))) := by
  cases call with
  | push value =>
      exact inPlace_ofChange (s.inPlace_push value)
  | pop => exact inPlace_ofValue s.inPlace_pop
  | popPair =>
      rw [inPlace, InPlace.bind_apply, inPlace_popPair]
      change
        _ =
          some
            (settle s.bare
              (Reply.seen bare (Reply.ofPair s.popPair)))
      cases s.popPair <;> rfl
  | peek distance =>
      apply inPlace_ofValue
      rw [inPlace_peek]
      cases s.peek distance.toNat <;> rfl
  | setTop value =>
      exact inPlace_ofChange (s.inPlace_setTop value)
  | negate => exact inPlace_ofChange s.inPlace_negate
  | combine f =>
      exact inPlace_ofChange (s.inPlace_combine f)
  | reset => rfl

end Stack

end Abacus

------------------------------------------------------------
-- Sequences Of Calls
------------------------------------------------------------

namespace Abacus

namespace Stack

/- What a caller sees of a call, and of the stack after it. -/
structure Sight where
  reply : Except Cause Reply
  contents : List Number
  size : Nat
  isEmpty : Bool

/- The cause of a failure that a caller sees. -/
def Sight.cause?
    (sight : Sight) : Option Cause :=
  match sight.reply with
  | .ok _ => none
  | .error cause => some cause

/-
  A way to keep the values of a stack: what a call does, and
  what can be seen in between. A trap is `none`.
-/
structure Representation (σ : Type) where
  perform :
    Call → σ → Option (Except Cause Reply × σ)
  contents : σ → Option (List Number)
  size : σ → Nat
  isEmpty : σ → Bool

/- A plain list, the top value first. -/
def plain : Representation (List Number) where
  perform call values :=
    some (settle values (call.onList values))
  contents values := some values.reverse
  size := List.length
  isEmpty := List.isEmpty

/- The stack of the machine. -/
def slotted : Representation Stack where
  perform call s := some (settle s (call.onStack s))
  contents s := some s.toList
  size := Stack.size
  isEmpty := Stack.isEmpty

/- An array of slots and a word. -/
def bared : Representation BareStack where
  perform call s := call.inPlace s
  contents := BareStack.values
  size s := s.top.toNat
  isEmpty s := s.top == 0

variable {σ τ : Type}

/- What a caller sees of some calls, one after the other. -/
def Representation.sights
    (r : Representation σ)
    (s : σ) :
    List Call → Option (List Sight)
| [] => some []
| call :: calls => do
    let (reply, t) ← r.perform call s
    let contents ← r.contents t
    let rest ← r.sights t calls
    return ⟨reply, contents, r.size t, r.isEmpty t⟩ :: rest

/- One way gives what another one gives, seen from a side. -/
structure Refines
    (r : Representation σ)
    (r' : Representation τ)
    (view : σ → τ) : Prop where
  perform :
    ∀ call s,
      r'.perform call (view s) =
        (r.perform call s).map fun (reply, t) =>
          (reply, view t)
  contents : ∀ s, r'.contents (view s) = r.contents s
  size : ∀ s, r'.size (view s) = r.size s
  isEmpty : ∀ s, r'.isEmpty (view s) = r.isEmpty s

/- Then no sequence of calls tells one from the other. -/
theorem Refines.sights_eq
    {r : Representation σ}
    {r' : Representation τ}
    {view : σ → τ}
    (hRefines : Refines r r' view)
    (s : σ)
    (calls : List Call) :
    r'.sights (view s) calls = r.sights s calls := by
  induction calls generalizing s with
  | nil => rfl
  | cons call calls ih =>
      unfold Representation.sights
      rw [hRefines.perform]
      cases r.perform call s with
      | none => rfl
      | some performed =>
          rcases performed with ⟨reply, t⟩
          simp only [Option.map_some, Option.bind_eq_bind,
            Option.bind_some, hRefines.contents,
            hRefines.size, hRefines.isEmpty, ih]

/- What a call leaves, as it looks from another side. -/
theorem settle_seen
    (view : σ → τ)
    (s : σ)
    (result : Except Cause (Reply × σ)) :
    settle (view s) (Reply.seen view result) =
      ((settle s result).1, view (settle s result).2) := by
  cases result <;> rfl

/- From its top, a stack looks like a plain list. -/
theorem slotted_refines_plain :
    Refines slotted plain values where
  perform := by
    intro call s
    change some (settle s.values (call.onList s.values)) = _
    rw [← call.onStack_values, settle_seen]
    rfl
  contents := by
    intro s
    change some s.values.reverse = some s.toList
    rw [reverse_values]
  size := by
    intro s
    exact s.length_values
  isEmpty := by
    intro s
    change s.values.isEmpty = (s.top == 0)
    rw [Bool.eq_iff_iff, List.isEmpty_iff, beq_iff_eq,
      ← List.length_eq_zero_iff, length_values]
    rfl

/- Without what is known of it, it works on words. -/
theorem slotted_refines_bared :
    Refines slotted bared bare where
  perform := by
    intro call s
    change call.inPlace s.bare = _
    rw [call.inPlace_bare, settle_seen]
    rfl
  contents := by
    intro s
    exact s.bare_values
  size := by
    intro s
    exact s.toNat_bare_top
  isEmpty := by
    intro s
    change (s.bare.top == 0) = (s.top == 0)
    rw [Bool.eq_iff_iff, beq_iff_eq, beq_iff_eq,
      bare_top_eq_iff]
    rfl

/- A stack answers every sequence of calls. -/
theorem exists_sights_slotted
    (s : Stack)
    (calls : List Call) :
    ∃ sights, slotted.sights s calls = some sights := by
  induction calls generalizing s with
  | nil => exact ⟨[], rfl⟩
  | cons call calls ih =>
      rcases hCall : settle s (call.onStack s) with
        ⟨reply, t⟩
      rcases ih t with ⟨rest, hRest⟩
      refine ⟨⟨reply, t.toList, t.size, t.isEmpty⟩ :: rest,
        ?_⟩
      simp only [Representation.sights, slotted, hCall,
        Option.bind_eq_bind, Option.bind_some]
      change (slotted.sights t calls).bind _ = _
      rw [hRest]
      rfl

/-
  On a new stack, every sequence of calls gives the replies
  that a plain list of at most 256 values gives, and shows
  the same values, and so it does in place on an array and a
  word. A call fails if it needs more values than there are,
  or if it would add to a full stack, and for no other
  reason. A call in place that fails leaves every slot, and
  the count of those in use, as they were.
-/
theorem sights_as_list
    (calls : List Call) :
    (∃ sights,
      plain.sights [] calls = some sights ∧
        slotted.sights empty calls = some sights ∧
        bared.sights BareStack.new calls = some sights) ∧
      ∀ (call : Call) (s : Stack),
        (∀ cause,
          call.onStack s = .error cause ↔
            call.refusal? s.size = some cause) ∧
        ∀ cause t,
          call.inPlace s.bare = some (.error cause, t) →
            t = s.bare := by
  refine ⟨?_, ?_⟩
  · rcases exists_sights_slotted empty calls with
      ⟨sights, hSights⟩
    refine ⟨sights, ?_, hSights, ?_⟩
    · rw [← hSights,
        ← slotted_refines_plain.sights_eq]
      rfl
    · rw [← hSights,
        ← slotted_refines_bared.sights_eq]
      rfl
  · intro call s
    refine ⟨fun cause => Call.onStack_eq_error_iff, ?_⟩
    intro cause t hFails
    rw [call.inPlace_bare] at hFails
    cases hCall : call.onStack s with
    | error found =>
        rw [hCall] at hFails
        cases hFails
        rfl
    | ok given =>
        rw [hCall] at hFails
        cases hFails

/-
  The 257th value is refused. On the full stack there is no
  value at distance 256, and a pair is replaced by one value
  although there is no slot left.
-/
theorem sights_as_list_full :
    ((bared.sights BareStack.new
        (List.replicate 257 (.push 1) ++
          [.peek 255, .peek 256,
            .combine Operator.subtract.apply])).map
      fun sights =>
        (sights.drop 256).map fun sight =>
          (sight.cause?, sight.size)) =
      some
        [(some (.stackOverflow 256), 256),
          (none, 256),
          (some .stackUnderflow, 256),
          (none, 255)] := by
  rcases (sights_as_list
      (List.replicate 257 (.push 1) ++
        [.peek 255, .peek 256,
          .combine Operator.subtract.apply])).1 with
    ⟨sights, hPlain, _, hBared⟩
  rw [hBared, ← hPlain]
  decide +kernel

end Stack

end Abacus
