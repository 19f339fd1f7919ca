import Abacus.Stack.Basic

/-
  The stack as a list.

  The values of a stack, the bottom one first, are a list of
  at most `Stack.capacity` entries. Every operation works at
  the end of that list, and fails only if the list is full
  or too short.

  Key theorems include:
    * `Abacus.Stack.toList_of_push_ok`
    * `Abacus.Stack.toList_of_pop_ok`
    * `Abacus.Stack.toList_of_popPair_ok`
    * `Abacus.Stack.peek_eq`
    * `Abacus.Stack.toList_of_setTop_ok`
    * `Abacus.Stack.toList_of_combine_ok`
    * `Abacus.Stack.combine_eq_error_iff`
-/

------------------------------------------------------------
-- Sizes
------------------------------------------------------------

namespace Abacus

namespace Stack

/- The view has as many entries as there are values. -/
@[simp] theorem length_toList
    (s : Stack) :
    s.toList.length = s.size := by
  simp [toList, size, Nat.min_eq_left s.top_le]

@[simp] theorem toList_reset
    (s : Stack) :
    s.reset.toList = [] := by
  simp [toList, reset]

/- The values up to a slot are those below it and its own. -/
theorem take_slots_succ
    (slots : Vector Number capacity)
    {i : Nat}
    (h : i < capacity) :
    slots.toList.take (i + 1) =
      slots.toList.take i ++ [slots[i]] := by
  have hLength : i < slots.toList.length := by
    simpa using h
  rw [List.take_succ_eq_append_getElem hLength]
  simp

end Stack

end Abacus

------------------------------------------------------------
-- Single Operations
------------------------------------------------------------

namespace Abacus

namespace Stack

/- A pushed value is the last one of the view. -/
theorem toList_of_push_ok
    {s t : Stack}
    {value : Number}
    (h : s.push value = .ok t) :
    t.toList = s.toList ++ [value] := by
  unfold push at h
  split at h
  · rename_i hTop
    cases h
    simp only [toList]
    rw [take_slots_succ _ hTop]
    simp [Vector.toList_set, List.take_set_of_le]
  · cases h

/- Only a full stack refuses a value. -/
theorem push_eq_error_iff
    {s : Stack}
    {value : Number}
    {cause : Cause} :
    s.push value = .error cause ↔
      s.size = capacity ∧
        cause = .stackOverflow capacity := by
  have hTop := s.top_le
  unfold push size
  by_cases h : s.top < capacity
  · rw [dif_pos h]
    constructor
    · intro hError
      cases hError
    · intro hFull
      omega
  · rw [dif_neg h]
    constructor
    · intro hError
      cases hError
      exact ⟨by omega, rfl⟩
    · intro hFull
      rw [hFull.2]

/- A popped value was the last one of the view. -/
theorem toList_of_pop_ok
    {s t : Stack}
    {value : Number}
    (h : s.pop = .ok (value, t)) :
    s.toList = t.toList ++ [value] := by
  have hTop := s.top_le
  unfold pop at h
  split at h
  · rename_i hPos
    cases h
    have hLast := take_slots_succ s.slots
      (show s.top - 1 < capacity by omega)
    rw [show s.top - 1 + 1 = s.top by omega] at hLast
    exact hLast
  · cases h

/- Only an empty stack has nothing to pop. -/
theorem pop_eq_error_iff
    {s : Stack}
    {cause : Cause} :
    s.pop = .error cause ↔
      s.size = 0 ∧ cause = .stackUnderflow := by
  unfold pop size
  by_cases h : 0 < s.top
  · rw [dif_pos h]
    constructor
    · intro hError
      cases hError
    · intro hEmpty
      omega
  · rw [dif_neg h]
    constructor
    · intro hError
      cases hError
      exact ⟨by omega, rfl⟩
    · intro hEmpty
      rw [hEmpty.2]

/- A popped pair were the last two of the view. -/
theorem toList_of_popPair_ok
    {s t : Stack}
    {a b : Number}
    (h : s.popPair = .ok (a, b, t)) :
    s.toList = t.toList ++ [a, b] := by
  have hTop := s.top_le
  unfold popPair at h
  split at h
  · rename_i hTwo
    cases h
    have hLast := take_slots_succ s.slots
      (show s.top - 1 < capacity by omega)
    have hLower := take_slots_succ s.slots
      (show s.top - 2 < capacity by omega)
    rw [show s.top - 1 + 1 = s.top by omega] at hLast
    rw [show s.top - 2 + 1 = s.top - 1 by omega] at hLower
    simp only [toList]
    rw [hLast, hLower]
    simp
  · cases h

/- Only a stack of fewer than two values has no pair. -/
theorem popPair_eq_error_iff
    {s : Stack}
    {cause : Cause} :
    s.popPair = .error cause ↔
      s.size < 2 ∧ cause = .stackUnderflow := by
  unfold popPair size
  by_cases h : 2 ≤ s.top
  · rw [dif_pos h]
    constructor
    · intro hError
      cases hError
    · intro hFew
      omega
  · rw [dif_neg h]
    constructor
    · intro hError
      cases hError
      exact ⟨by omega, rfl⟩
    · intro hFew
      rw [hFew.2]

/- Peeking reads the view from its end. -/
theorem peek_eq
    (s : Stack)
    (distance : Nat) :
    s.peek distance =
      match s.toList.reverse[distance]? with
      | some value => .ok value
      | none => .error .stackUnderflow := by
  have hTop := s.top_le
  unfold peek
  by_cases h : distance < s.top
  · have hLength : distance < s.toList.length := by
      simpa [size] using h
    have hSlot : s.top - 1 - distance < capacity := by
      omega
    have hInUse : s.top - 1 - distance < s.top := by
      omega
    rw [dif_pos h, List.getElem?_reverse hLength,
      length_toList]
    simp [toList, size, hInUse, hSlot]
  · have hLength : s.toList.reverse.length ≤ distance := by
      simp [size]
      omega
    rw [dif_neg h, List.getElem?_eq_none hLength]

/- Replacing the top keeps all values below it. -/
theorem toList_of_setTop_ok
    {s t : Stack}
    {value : Number}
    (h : s.setTop value = .ok t) :
    t.toList = s.toList.dropLast ++ [value] := by
  have hTop := s.top_le
  unfold setTop at h
  split at h
  · rename_i hPos
    cases h
    have hSlot : s.top - 1 < capacity := by omega
    have hLast := take_slots_succ
      (s.slots.set (s.top - 1) value) hSlot
    have hOld := take_slots_succ s.slots hSlot
    rw [show s.top - 1 + 1 = s.top by omega] at hLast hOld
    simp only [toList]
    rw [hLast, hOld]
    simp [Vector.toList_set, List.take_set_of_le]
  · cases h

/- Only an empty stack has no top to replace. -/
theorem setTop_eq_error_iff
    {s : Stack}
    {value : Number}
    {cause : Cause} :
    s.setTop value = .error cause ↔
      s.size = 0 ∧ cause = .stackUnderflow := by
  unfold setTop size
  by_cases h : 0 < s.top
  · rw [dif_pos h]
    constructor
    · intro hError
      cases hError
    · intro hEmpty
      omega
  · rw [dif_neg h]
    constructor
    · intro hError
      cases hError
      exact ⟨by omega, rfl⟩
    · intro hEmpty
      rw [hEmpty.2]

end Stack

end Abacus

------------------------------------------------------------
-- Combining
------------------------------------------------------------

namespace Abacus

namespace Stack

/- Combining replaces the last two of the view by one. -/
theorem toList_of_combine_ok
    {s t : Stack}
    {f : Number → Number → Number}
    (h : s.combine f = .ok t) :
    ∃ below a b,
      s.toList = below ++ [a, b] ∧
        t.toList = below ++ [f a b] := by
  unfold combine at h
  split at h
  · cases h
  · rename_i a b rest hPair
    exact ⟨rest.toList, a, b,
      toList_of_popPair_ok hPair, toList_of_push_ok h⟩

/- There is always room for what replaces a pair. -/
theorem exists_push_of_popPair
    {s rest : Stack}
    {a b : Number}
    (hPair : s.popPair = .ok (a, b, rest))
    (value : Number) :
    ∃ t, rest.push value = .ok t := by
  have hSize : s.size = rest.size + 2 := by
    rw [← length_toList, toList_of_popPair_ok hPair]
    simp
  cases hPush : rest.push value with
  | ok t => exact ⟨t, rfl⟩
  | error cause =>
      have hFull := (push_eq_error_iff.mp hPush).1
      have hTop : s.size ≤ capacity := s.top_le
      omega

/- Only a stack of fewer than two values does not combine. -/
theorem combine_eq_error_iff
    {s : Stack}
    {f : Number → Number → Number}
    {cause : Cause} :
    s.combine f = .error cause ↔
      s.size < 2 ∧ cause = .stackUnderflow := by
  unfold combine
  cases hPair : s.popPair with
  | error found =>
      have hFew := popPair_eq_error_iff.mp hPair
      constructor
      · intro hError
        cases hError
        exact hFew
      · intro hBoth
        rw [hFew.2, hBoth.2]
  | ok popped =>
      rcases popped with ⟨a, b, rest⟩
      rcases exists_push_of_popPair hPair (f a b) with
        ⟨t, hPush⟩
      constructor
      · intro hError
        have hBoth := hPush.symm.trans hError
        cases hBoth
      · intro hBoth
        rw [popPair_eq_error_iff.mpr hBoth] at hPair
        cases hPair

end Stack

end Abacus
