import Abacus.Instruction
import Abacus.Proofs.Number.Binary64
import Abacus.Stack.View

/-
  The values of a stack, the top one first.

  Seen from its top, a stack is a plain list of at most
  `Stack.capacity` values. Each operation on the stack is
  one equation about that list, for success and failure at
  once.

  Main declarations:
    * `Stack.values`
    * `Stack.push_values`
    * `Stack.pop_values` and `Stack.popPair_values`
    * `Stack.setTop_values` and `Stack.negate_values`
    * `Stack.combine_values`
    * `Stack.top?_eq_head?`
-/

------------------------------------------------------------
-- Values From The Top
------------------------------------------------------------

namespace Abacus

namespace Stack

/- The values of a stack, the top one first. -/
def values
    (s : Stack) : List Number :=
  s.toList.reverse

@[simp] theorem reverse_values
    (s : Stack) :
    s.values.reverse = s.toList := by
  simp [values]

@[simp] theorem length_values
    (s : Stack) :
    s.values.length = s.size := by
  simp [values]

@[simp] theorem values_reset
    (s : Stack) :
    s.reset.values = [] := by
  simp [values]

/- A stack never holds more than its capacity. -/
theorem size_le_capacity
    (s : Stack) :
    s.size ≤ capacity :=
  s.top_le

/- The top value is the first one. -/
theorem top?_eq_head?
    (s : Stack) :
    s.top? = s.values.head? := by
  unfold top?
  rw [peek_eq]
  cases hValues : s.values with
  | nil =>
      have hList : s.toList.reverse = [] := hValues
      simp [hList]
  | cons value rest =>
      have hList : s.toList.reverse = value :: rest :=
        hValues
      simp [hList]

------------------------------------------------------------
-- Operations
------------------------------------------------------------

/- Pushing puts a value in front, unless the list is full. -/
theorem push_values
    (s : Stack)
    (value : Number) :
    (s.push value).map values =
      if s.values.length < capacity then
        .ok (value :: s.values)
      else
        .error (.stackOverflow capacity) := by
  cases hPush : s.push value with
  | ok t =>
      have hRoom : s.size < capacity := by
        have hLength : t.size = s.size + 1 := by
          rw [← length_toList t, toList_of_push_ok hPush]
          simp
        have hBound := t.size_le_capacity
        omega
      have hValues : t.values = value :: s.values := by
        simp [values, toList_of_push_ok hPush]
      simp [Except.map, hRoom, hValues]
  | error cause =>
      have hFull := push_eq_error_iff.mp hPush
      simp [Except.map, hFull.1, hFull.2]

/- Popping takes the first value, if there is one. -/
theorem pop_values
    (s : Stack) :
    (s.pop.map fun (value, t) => (value, t.values)) =
      match s.values with
      | [] => .error .stackUnderflow
      | value :: rest => .ok (value, rest) := by
  cases hPop : s.pop with
  | error cause =>
      rcases pop_eq_error_iff.mp hPop with ⟨hSize, hCause⟩
      rw [← length_values, List.length_eq_zero_iff] at hSize
      simp [Except.map, hSize, hCause]
  | ok popped =>
      have hList := toList_of_pop_ok hPop
      simp [Except.map, values, hList]

/- The pair are the first two values, the lower one last. -/
theorem popPair_values
    (s : Stack) :
    (s.popPair.map fun (a, b, t) => (a, b, t.values)) =
      match s.values with
      | b :: a :: rest => .ok (a, b, rest)
      | _ => .error .stackUnderflow := by
  cases hPair : s.popPair with
  | error cause =>
      rcases popPair_eq_error_iff.mp hPair with
        ⟨hSize, hCause⟩
      rw [← length_values] at hSize
      rcases hValues : s.values with _ | ⟨b, _ | ⟨a, rest⟩⟩
      · simp [Except.map, hCause]
      · simp [Except.map, hCause]
      · simp only [hValues, List.length_cons] at hSize
        omega
  | ok popped =>
      have hList := toList_of_popPair_ok hPair
      simp [Except.map, values, hList]

/- Only the first value is replaced, if there is one. -/
theorem setTop_values
    (s : Stack)
    (value : Number) :
    (s.setTop value).map values =
      match s.values with
      | [] => .error .stackUnderflow
      | _ :: rest => .ok (value :: rest) := by
  cases hValues : s.values with
  | nil =>
      have hSize : s.size = 0 := by
        rw [← length_values, hValues]
        rfl
      rw [setTop_eq_error_iff.mpr ⟨hSize, rfl⟩]
      rfl
  | cons old rest =>
      have hSize : s.size = rest.length + 1 := by
        rw [← length_values, hValues]
        simp
      cases hSet : s.setTop value with
      | error cause =>
          have hEmpty := setTop_eq_error_iff.mp hSet
          omega
      | ok t =>
          have hBelow : s.toList = rest.reverse ++ [old] := by
            rw [← reverse_values, hValues]
            simp
          simp [Except.map, values, toList_of_setTop_ok hSet,
            hBelow]

/- Negation turns the first value into its opposite. -/
theorem negate_values
    (s : Stack) :
    s.negate.map values =
      match s.values with
      | [] => .error .stackUnderflow
      | value :: rest => .ok (value.opposite :: rest) := by
  unfold negate
  rw [peek_eq]
  cases hValues : s.values with
  | nil =>
      have hList : s.toList.reverse = [] := hValues
      simp [hList, Except.map]
  | cons value rest =>
      have hList : s.toList.reverse = value :: rest :=
        hValues
      simp only [hList, List.getElem?_cons_zero]
      rw [setTop_values, hValues, Number.neg_eq_opposite]

/-
  Combining replaces the first two values by one. The second
  one was pushed first and is the left argument.
-/
theorem combine_values
    (s : Stack)
    (f : Number → Number → Number) :
    (s.combine f).map values =
      match s.values with
      | b :: a :: rest => .ok (f a b :: rest)
      | _ => .error .stackUnderflow := by
  cases hCombine : s.combine f with
  | error cause =>
      have hFew := combine_eq_error_iff.mp hCombine
      have hLength : s.values.length < 2 := by
        rw [length_values]
        exact hFew.1
      match hValues : s.values with
      | [] => simp [Except.map, hFew.2]
      | [_] => simp [Except.map, hFew.2]
      | _ :: _ :: _ =>
          simp only [hValues, List.length_cons] at hLength
          omega
  | ok t =>
      rcases toList_of_combine_ok hCombine with
        ⟨below, a, b, hBefore, hAfter⟩
      simp [Except.map, values, hBefore, hAfter]

end Stack

end Abacus
