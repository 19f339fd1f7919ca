import Abacus.Instruction

/-
  The stack on machine words.

  A bare stack is an array of slots and a word that counts
  those in use. Nothing ties the two together: a slot may be
  asked for outside of the array, and a word may leave its
  range. Both are traps, and the result is then `none`. From
  a stack no operation traps, and each gives what it gives
  on the stack itself.

  Main declarations:
    * `Abacus.Word.plus?`
    * `Abacus.Word.minus?`
    * `Abacus.BareStack`
    * `Abacus.Stack.bare`
    * `Abacus.Stack.TrapFree`
    * `Abacus.Stack.trapFree`
    * `Abacus.Stack.bare_execute`
-/

------------------------------------------------------------
-- Words
------------------------------------------------------------

namespace Abacus

namespace Word

/- A sum, unless it wraps around. -/
def plus?
    (a b : UInt64) : Option UInt64 :=
  if a.toNat + b.toNat < UInt64.size then
    some (a + b)
  else
    none

/- A difference, unless it wraps around. -/
def minus?
    (a b : UInt64) : Option UInt64 :=
  if b ≤ a then
    some (a - b)
  else
    none

theorem plus?_ofNat
    {a : Nat}
    {b : UInt64}
    (hSum : a + b.toNat < UInt64.size) :
    plus? (.ofNat a) b = some (.ofNat (a + b.toNat)) := by
  have hA : (UInt64.ofNat a).toNat = a :=
    UInt64.toNat_ofNat_of_lt' (by omega)
  unfold plus?
  rw [hA, if_pos hSum, UInt64.ofNat_add, UInt64.ofNat_toNat]

theorem minus?_ofNat
    {a : Nat}
    {b : UInt64}
    (hA : a < UInt64.size)
    (hLe : b.toNat ≤ a) :
    minus? (.ofNat a) b = some (.ofNat (a - b.toNat)) := by
  have hWord : (UInt64.ofNat a).toNat = a :=
    UInt64.toNat_ofNat_of_lt' hA
  have hWordLe : b ≤ .ofNat a := by
    rw [UInt64.le_iff_toNat_le, hWord]
    exact hLe
  unfold minus?
  rw [if_pos hWordLe]
  congr 1
  apply UInt64.toNat_inj.mp
  rw [UInt64.toNat_sub_of_le _ _ hWordLe, hWord,
    UInt64.toNat_ofNat_of_lt' (by omega)]

end Word

end Abacus

------------------------------------------------------------
-- Bare Stacks
------------------------------------------------------------

namespace Abacus

/- An array of slots, and how many of them are in use. -/
structure BareStack where
  slots : Array Number
  top : UInt64

namespace BareStack

/- The value of a slot. -/
def load
    (s : BareStack)
    (i : UInt64) : Option Number :=
  s.slots[i.toNat]?

/- The slots with a value in one of them. -/
def store
    (s : BareStack)
    (i : UInt64)
    (value : Number) : Option (Array Number) :=
  if h : i.toNat < s.slots.size then
    some (s.slots.set i.toNat value h)
  else
    none

/- The values, the bottom one first. -/
def values
    (s : BareStack) : Option (List Number) :=
  if s.top.toNat ≤ s.slots.size then
    some (s.slots.toList.take s.top.toNat)
  else
    none

/- Put a value on top. -/
def push
    (s : BareStack)
    (value : Number) :
    Option (Except Cause BareStack) :=
  if s.top = .ofNat Stack.capacity then
    some (.error (.stackOverflow Stack.capacity))
  else do
    let slots ← s.store s.top value
    let top ← Word.plus? s.top 1
    return .ok ⟨slots, top⟩

/- Take the top value off. -/
def pop
    (s : BareStack) :
    Option (Except Cause (Number × BareStack)) :=
  if s.top = 0 then
    some (.error .stackUnderflow)
  else do
    let top ← Word.minus? s.top 1
    let value ← s.load top
    return .ok (value, { s with top })

/- Take the two top values off, the lower one first. -/
def popPair
    (s : BareStack) :
    Option (Except Cause (Number × Number × BareStack)) :=
  if s.top < 2 then
    some (.error .stackUnderflow)
  else do
    let top ← Word.minus? s.top 2
    let a ← s.load top
    let upper ← Word.plus? top 1
    let b ← s.load upper
    return .ok (a, b, { s with top })

/- The value at a distance from the top. -/
def peek
    (s : BareStack)
    (distance : UInt64) :
    Option (Except Cause Number) :=
  if s.top ≤ distance then
    some (.error .stackUnderflow)
  else do
    let last ← Word.minus? s.top 1
    let i ← Word.minus? last distance
    let value ← s.load i
    return .ok value

/- Replace the top value. -/
def setTop
    (s : BareStack)
    (value : Number) :
    Option (Except Cause BareStack) :=
  if s.top = 0 then
    some (.error .stackUnderflow)
  else do
    let last ← Word.minus? s.top 1
    let slots ← s.store last value
    return .ok { s with slots }

/- Change the sign of the top value. -/
def negate
    (s : BareStack) :
    Option (Except Cause BareStack) := do
  match ← s.peek 0 with
  | .error cause => return .error cause
  | .ok value => s.setTop (-value)

/- Replace the two top values by a function of them. -/
def combine
    (s : BareStack)
    (f : Number → Number → Number) :
    Option (Except Cause BareStack) := do
  match ← s.popPair with
  | .error cause => return .error cause
  | .ok (a, b, rest) => rest.push (f a b)

end BareStack

/- What an instruction does to a bare stack. -/
def Instruction.executeBare :
    Instruction → BareStack →
      Option (Except Cause BareStack)
| .push value, s => s.push value
| .negate, s => s.negate
| .binary operator, s => s.combine operator.apply
| .ret, s => some (.ok s)

end Abacus

------------------------------------------------------------
-- Slots In Range
------------------------------------------------------------

namespace Abacus

namespace Stack

/- A stack without what is known of it. -/
def bare
    (s : Stack) : BareStack where
  slots := s.slots.toArray
  top := .ofNat s.top

/- A count of slots is far below the size of a word. -/
theorem lt_word
    {n : Nat}
    (hLe : n ≤ capacity) :
    n < UInt64.size :=
  Nat.lt_of_le_of_lt hLe (by decide)

theorem toNat_bare_top
    (s : Stack) :
    s.bare.top.toNat = s.top :=
  UInt64.toNat_ofNat_of_lt' (lt_word s.top_le)

/- Words compare with the count as numbers do. -/
theorem bare_top_eq_iff
    (s : Stack)
    {a : UInt64} :
    s.bare.top = a ↔ s.top = a.toNat := by
  rw [← UInt64.toNat_inj, toNat_bare_top]

theorem bare_plus?
    (s : Stack)
    (hRoom : s.top < capacity) :
    Word.plus? s.bare.top 1 = some (.ofNat (s.top + 1)) :=
  Word.plus?_ofNat (lt_word hRoom)

theorem bare_minus?
    (s : Stack)
    (a : UInt64)
    (hLe : a.toNat ≤ s.top) :
    Word.minus? s.bare.top a =
      some (.ofNat (s.top - a.toNat)) :=
  Word.minus?_ofNat (lt_word s.top_le) hLe

theorem load_bare
    (s : Stack)
    {i : Nat}
    (hSlot : i < capacity) :
    s.bare.load (.ofNat i) = some s.slots[i] := by
  have hWord : (UInt64.ofNat i).toNat = i :=
    UInt64.toNat_ofNat_of_lt' (lt_word (Nat.le_of_lt hSlot))
  unfold BareStack.load
  rw [hWord]
  simp [bare, hSlot]

theorem store_bare
    (s : Stack)
    {i : Nat}
    (value : Number)
    (hSlot : i < capacity) :
    s.bare.store (.ofNat i) value =
      some (s.slots.set i value hSlot).toArray := by
  have hWord : (UInt64.ofNat i).toNat = i :=
    UInt64.toNat_ofNat_of_lt' (lt_word (Nat.le_of_lt hSlot))
  simp only [BareStack.store, hWord]
  rw [dif_pos (by simpa [bare] using hSlot)]
  rfl

end Stack

end Abacus

------------------------------------------------------------
-- Operations Without Traps
------------------------------------------------------------

namespace Abacus

namespace Stack

theorem bare_values
    (s : Stack) :
    s.bare.values = some s.toList := by
  unfold BareStack.values toList
  rw [toNat_bare_top,
    if_pos (by simpa [bare] using s.top_le)]
  rfl

theorem bare_push
    (s : Stack)
    (value : Number) :
    s.bare.push value = some ((s.push value).map bare) := by
  unfold BareStack.push push
  by_cases hRoom : s.top < capacity
  · have hNotFull : s.bare.top ≠ .ofNat capacity := by
      rw [ne_eq, bare_top_eq_iff]
      exact Nat.ne_of_lt hRoom
    have hStore :
        s.bare.store s.bare.top value =
          some (s.slots.set s.top value hRoom).toArray :=
      s.store_bare value hRoom
    rw [if_neg hNotFull, dif_pos hRoom, hStore,
      s.bare_plus? hRoom]
    rfl
  · have hFull : s.bare.top = .ofNat capacity := by
      rw [bare_top_eq_iff]
      exact Nat.le_antisymm s.top_le (Nat.le_of_not_lt hRoom)
    rw [if_pos hFull, dif_neg hRoom]
    rfl

theorem bare_pop
    (s : Stack) :
    s.bare.pop =
      some (s.pop.map fun (value, rest) =>
        (value, rest.bare)) := by
  have hTop := s.top_le
  unfold BareStack.pop pop
  by_cases hSome : 0 < s.top
  · have hNotEmpty : s.bare.top ≠ 0 := by
      rw [ne_eq, bare_top_eq_iff]
      exact Nat.ne_of_gt hSome
    have hSlot : s.top - 1 < capacity := by omega
    have hLoad :
        s.bare.load (.ofNat (s.top - (1 : UInt64).toNat)) =
          some s.slots[s.top - 1] :=
      s.load_bare hSlot
    rw [if_neg hNotEmpty, dif_pos hSome,
      s.bare_minus? 1 hSome, Option.bind_eq_bind,
      Option.bind_some, hLoad]
    rfl
  · have hEmpty : s.bare.top = 0 := by
      rw [bare_top_eq_iff]
      exact Nat.eq_zero_of_not_pos hSome
    rw [if_pos hEmpty, dif_neg hSome]
    rfl

theorem bare_popPair
    (s : Stack) :
    s.bare.popPair =
      some (s.popPair.map fun (a, b, rest) =>
        (a, b, rest.bare)) := by
  have hTop := s.top_le
  unfold BareStack.popPair popPair
  by_cases hTwo : 2 ≤ s.top
  · have hEnough : ¬ s.bare.top < 2 := by
      rw [UInt64.lt_iff_toNat_lt, toNat_bare_top]
      exact Nat.not_lt.mpr hTwo
    have hLower : s.top - 2 < capacity := by omega
    have hUpper : s.top - 1 < capacity := by omega
    have hLoadLower :
        s.bare.load (.ofNat (s.top - (2 : UInt64).toNat)) =
          some s.slots[s.top - 2] :=
      s.load_bare hLower
    -- The upper slot is found from the lower one.
    have hNext :
        Word.plus?
            (.ofNat (s.top - (2 : UInt64).toNat)) 1 =
          some (.ofNat (s.top - 1)) := by
      have hSum : s.top - 2 + 1 = s.top - 1 := by omega
      rw [← hSum]
      exact Word.plus?_ofNat
        (lt_word (Nat.succ_le_of_lt hLower))
    rw [if_neg hEnough, dif_pos hTwo,
      s.bare_minus? 2 hTwo, Option.bind_eq_bind,
      Option.bind_some, hLoadLower, hNext]
    simp only [Option.bind_eq_bind, Option.bind_some,
      s.load_bare hUpper]
    rfl
  · have hFew : s.bare.top < 2 := by
      rw [UInt64.lt_iff_toNat_lt, toNat_bare_top]
      exact Nat.lt_of_not_le hTwo
    rw [if_pos hFew, dif_neg hTwo]
    rfl

theorem bare_peek
    (s : Stack)
    (distance : UInt64) :
    s.bare.peek distance =
      some (s.peek distance.toNat) := by
  have hTop := s.top_le
  unfold BareStack.peek peek
  by_cases hIn : distance.toNat < s.top
  · have hEnough : ¬ s.bare.top ≤ distance := by
      rw [UInt64.le_iff_toNat_le, toNat_bare_top]
      exact Nat.not_le.mpr hIn
    have hSlot : s.top - 1 - distance.toNat < capacity := by
      omega
    have hBelow :
        Word.minus? (.ofNat (s.top - (1 : UInt64).toNat))
            distance =
          some (.ofNat (s.top - 1 - distance.toNat)) :=
      Word.minus?_ofNat
        (lt_word (Nat.le_trans (Nat.sub_le _ _) hTop))
        (Nat.le_sub_one_of_lt hIn)
    rw [if_neg hEnough, dif_pos hIn,
      s.bare_minus? 1 (Nat.zero_lt_of_lt hIn),
      Option.bind_eq_bind, Option.bind_some, hBelow]
    simp only [Option.bind_eq_bind, Option.bind_some,
      s.load_bare hSlot]
    rfl
  · have hFew : s.bare.top ≤ distance := by
      rw [UInt64.le_iff_toNat_le, toNat_bare_top]
      exact Nat.le_of_not_lt hIn
    rw [if_pos hFew, dif_neg hIn]

theorem bare_setTop
    (s : Stack)
    (value : Number) :
    s.bare.setTop value =
      some ((s.setTop value).map bare) := by
  have hTop := s.top_le
  unfold BareStack.setTop setTop
  by_cases hSome : 0 < s.top
  · have hNotEmpty : s.bare.top ≠ 0 := by
      rw [ne_eq, bare_top_eq_iff]
      exact Nat.ne_of_gt hSome
    have hSlot : s.top - 1 < capacity := by omega
    have hStore :
        s.bare.store (.ofNat (s.top - (1 : UInt64).toNat))
            value =
          some
            (s.slots.set (s.top - 1) value hSlot).toArray :=
      s.store_bare value hSlot
    rw [if_neg hNotEmpty, dif_pos hSome,
      s.bare_minus? 1 hSome, Option.bind_eq_bind,
      Option.bind_some, hStore]
    rfl
  · have hEmpty : s.bare.top = 0 := by
      rw [bare_top_eq_iff]
      exact Nat.eq_zero_of_not_pos hSome
    rw [if_pos hEmpty, dif_neg hSome]
    rfl

theorem bare_negate
    (s : Stack) :
    s.bare.negate = some (s.negate.map bare) := by
  unfold BareStack.negate negate
  rw [s.bare_peek 0, Option.bind_eq_bind, Option.bind_some]
  cases hPeek : s.peek (0 : UInt64).toNat with
  | error cause =>
      rw [show s.peek 0 = .error cause from hPeek]
      rfl
  | ok value =>
      rw [show s.peek 0 = .ok value from hPeek]
      exact s.bare_setTop (-value)

theorem bare_combine
    (s : Stack)
    (f : Number → Number → Number) :
    s.bare.combine f = some ((s.combine f).map bare) := by
  unfold BareStack.combine combine
  rw [bare_popPair, Option.bind_eq_bind, Option.bind_some]
  cases s.popPair with
  | error cause => rfl
  | ok popped =>
      rcases popped with ⟨a, b, rest⟩
      exact rest.bare_push (f a b)

end Stack

end Abacus

------------------------------------------------------------
-- Stacks Without Traps
------------------------------------------------------------

namespace Abacus

namespace Stack

/-
  No operation on a stack asks for a slot that is not there
  or counts beyond a word, and each gives on the bare stack
  what it gives on the stack.
-/
structure TrapFree
    (s : Stack) : Prop where
  values_eq : s.bare.values = some s.toList
  push_eq :
    ∀ value,
      s.bare.push value = some ((s.push value).map bare)
  pop_eq :
    s.bare.pop =
      some (s.pop.map fun (value, rest) =>
        (value, rest.bare))
  popPair_eq :
    s.bare.popPair =
      some (s.popPair.map fun (a, b, rest) =>
        (a, b, rest.bare))
  peek_eq :
    ∀ distance : UInt64,
      s.bare.peek distance =
        some (s.peek distance.toNat)
  setTop_eq :
    ∀ value,
      s.bare.setTop value =
        some ((s.setTop value).map bare)

theorem trapFree
    (s : Stack) :
    s.TrapFree where
  values_eq := s.bare_values
  push_eq := s.bare_push
  pop_eq := s.bare_pop
  popPair_eq := s.bare_popPair
  peek_eq := s.bare_peek
  setTop_eq := s.bare_setTop

/- A count beyond the slots does trap. -/
example
    (value : Number) :
    (BareStack.mk #[] 1).push value = none :=
  rfl

/- An instruction never traps. -/
theorem bare_execute
    (s : Stack)
    (i : Instruction) :
    i.executeBare s.bare =
      some ((i.execute s).map bare) := by
  cases i with
  | push value => exact s.bare_push value
  | negate => exact s.bare_negate
  | binary operator => exact s.bare_combine operator.apply
  | ret => rfl

end Stack

end Abacus
