import Abacus.Config
import Abacus.Proofs.Text.Reading

/-
  Settings from the environment.

  The step limit is given by a numeral below `2 ^ 64` and by
  nothing else; any other value leaves the machine without a
  limit and is reported as it stands, once. The trace is on
  for four words in any case. White space around either does
  not count.

  Main declarations:
    * `Config.HoldsLimit` and `Config.SaysOn`
    * `Config.stepLimitOf_cases`
    * `Config.ofVariables_grammar`
-/

------------------------------------------------------------
-- Step Limit
------------------------------------------------------------

namespace Abacus

namespace Config

/-
  A value holds a step limit if it is a numeral of it, white
  space around it apart, and the limit is below the bound.
-/
def HoldsLimit
    (raw : String)
    (n : Nat) : Prop :=
  ∃ core,
    Text.TrimsTo raw.toList core ∧
      Text.IsNumeral core n ∧
      n < Nat.pow 2 64

theorem readStepLimit_ok_iff
    {raw : String}
    {n : Nat} :
    readStepLimit raw = .ok n ↔ HoldsLimit raw n := by
  rw [readStepLimit, Text.readNumeral_ok_iff]
  constructor
  · rintro ⟨hNumeral, hBelow⟩
    exact ⟨Text.trim raw.toList,
      Text.trimsTo_trim raw.toList, hNumeral, hBelow⟩
  · rintro ⟨core, hTrims, hNumeral, hBelow⟩
    rw [Text.trim_of_trimsTo hTrims]
    exact ⟨hNumeral, hBelow⟩

theorem HoldsLimit.unique
    {raw : String}
    {m n : Nat}
    (hFirst : HoldsLimit raw m)
    (hSecond : HoldsLimit raw n) :
    m = n := by
  rw [← readStepLimit_ok_iff] at hFirst hSecond
  rw [hFirst] at hSecond
  exact Except.ok.inj hSecond

/- A numeral beyond the bound is no limit, nor wrapped. -/
theorem not_holdsLimit_of_large
    {raw : String}
    {core : List Char}
    {n : Nat}
    (hTrims : Text.TrimsTo raw.toList core)
    (hNumeral : Text.IsNumeral core n)
    (hLarge : Nat.pow 2 64 ≤ n)
    (m : Nat) :
    ¬HoldsLimit raw m := by
  rintro ⟨other, hOther, hRead, hBelow⟩
  have hCore : core = other := by
    rw [← Text.trim_of_trimsTo hTrims,
      Text.trim_of_trimsTo hOther]
  rw [← hCore] at hRead
  rw [hRead.unique hNumeral] at hBelow
  exact Nat.not_lt.mpr hLarge hBelow

/- White space and leading zeros do not change a limit. -/
theorem holdsLimit_padded
    {front back : String}
    {n : Nat}
    (hFront :
      ∀ c ∈ front.toList, c.toNat ∈ Text.whiteSpace)
    (hBack : ∀ c ∈ back.toList, c.toNat ∈ Text.whiteSpace)
    (width : Nat)
    (hBelow : n < Nat.pow 2 64) :
    HoldsLimit
      (front ++ Text.padded width n ++ back) n := by
  refine ⟨(Text.padded width n).toList, ?_,
    Text.isNumeral_padded width n, hBelow⟩
  rw [String.toList_append, String.toList_append]
  exact Text.trimsTo_digits hFront
    (fun _ hMem => Text.isDigit_of_mem_padded hMem) hBack

/-
  The variable is not set, or it holds a limit, or it holds
  none and is reported.
-/
theorem stepLimitOf_cases
    (raw? : Option String) :
    (raw? = none ∧ stepLimitOf raw? = (none, [])) ∨
      (∃ raw n,
        raw? = some raw ∧
          HoldsLimit raw n ∧
          stepLimitOf raw? = (some n, [])) ∨
      ∃ raw,
        raw? = some raw ∧
          (∀ n, ¬HoldsLimit raw n) ∧
          stepLimitOf raw? =
            (none, [.invalidStepLimit raw]) := by
  cases raw? with
  | none => exact .inl ⟨rfl, rfl⟩
  | some raw =>
      right
      cases hRead : readStepLimit raw with
      | ok n =>
          left
          refine ⟨raw, n, rfl,
            readStepLimit_ok_iff.mp hRead, ?_⟩
          simp [stepLimitOf, hRead]
      | error e =>
          right
          refine ⟨raw, rfl, ?_, ?_⟩
          · intro n hHolds
            rw [← readStepLimit_ok_iff, hRead] at hHolds
            cases hHolds
          · simp [stepLimitOf, hRead]

theorem fst_stepLimitOf_eq_some_iff
    {raw? : Option String}
    {n : Nat} :
    (stepLimitOf raw?).1 = some n ↔
      ∃ raw, raw? = some raw ∧ HoldsLimit raw n := by
  rcases stepLimitOf_cases raw? with
    ⟨rfl, hResult⟩ | ⟨raw, m, rfl, hHolds, hResult⟩ |
      ⟨raw, rfl, hInvalid, hResult⟩ <;> rw [hResult]
  · simp
  · constructor
    · intro hSame
      cases hSame
      exact ⟨raw, rfl, hHolds⟩
    · rintro ⟨other, hSame, hOther⟩
      cases hSame
      rw [hHolds.unique hOther]
  · simp [hInvalid]

/- The report is a warning with the value untrimmed. -/
theorem snd_stepLimitOf_eq_warning_iff
    {raw? : Option String}
    {raw : String} :
    (∃ event,
        (stepLimitOf raw?).2 = [event] ∧
          event.level = .warn ∧
          event.fields = [("value", .text raw)]) ↔
      raw? = some raw ∧ ∀ n, ¬HoldsLimit raw n := by
  rcases stepLimitOf_cases raw? with
    ⟨rfl, hResult⟩ | ⟨held, m, rfl, hHolds, hResult⟩ |
      ⟨held, rfl, hInvalid, hResult⟩ <;> rw [hResult]
  · simp
  · constructor
    · rintro ⟨event, hNone, _⟩
      cases hNone
    · rintro ⟨hSame, hInvalid⟩
      cases hSame
      exact absurd hHolds (hInvalid m)
  · constructor
    · rintro ⟨event, hOne, _, hFields⟩
      cases hOne
      cases hFields
      exact ⟨rfl, hInvalid⟩
    · rintro ⟨hSame, _⟩
      cases hSame
      exact ⟨.invalidStepLimit raw, rfl, rfl, rfl⟩

theorem snd_stepLimitOf_eq_nil_iff
    {raw? : Option String} :
    (stepLimitOf raw?).2 = [] ↔
      ∀ raw, raw? = some raw → ∃ n, HoldsLimit raw n := by
  rcases stepLimitOf_cases raw? with
    ⟨rfl, hResult⟩ | ⟨held, m, rfl, hHolds, hResult⟩ |
      ⟨held, rfl, hInvalid, hResult⟩ <;> rw [hResult]
  · simp
  · refine ⟨fun _ raw hSame => ?_, fun _ => rfl⟩
    cases hSame
    exact ⟨m, hHolds⟩
  · simp [hInvalid]

end Config

end Abacus

------------------------------------------------------------
-- Trace
------------------------------------------------------------

namespace Abacus

namespace Config

/-
  A value says that the trace is on if it is one of the four
  words in any case, white space around it apart.
-/
def SaysOn
    (raw : String) : Prop :=
  ∃ core,
    Text.TrimsTo raw.toList core ∧
      ∃ word ∈ ["1", "true", "yes", "on"],
        Text.SameLetters core word.toList

/- The words are in lower case themselves. -/
theorem map_toLower_of_mem_onWords :
    ∀ word ∈ onWords,
      word.toList.map Char.toLower = word.toList := by
  decide

theorem isOn_iff
    {raw : String} :
    isOn raw = true ↔ SaysOn raw := by
  have hWord :
      ∀ word ∈ onWords,
        word.toList =
            (Text.trim raw.toList).map Char.toLower ↔
          Text.SameLetters (Text.trim raw.toList)
            word.toList := by
    intro word hMem
    rw [← Text.map_toLower_eq_iff,
      map_toLower_of_mem_onWords word hMem]
    exact eq_comm
  rw [isOn, List.any_eq_true]
  constructor
  · rintro ⟨word, hMem, hEqual⟩
    exact ⟨_, Text.trimsTo_trim raw.toList, word, hMem,
      (hWord word hMem).mp (beq_iff_eq.mp hEqual)⟩
  · rintro ⟨core, hTrims, word, hMem, hLetters⟩
    rw [← Text.trim_of_trimsTo hTrims] at hLetters
    exact ⟨word, hMem,
      beq_iff_eq.mpr ((hWord word hMem).mpr hLetters)⟩

end Config

end Abacus

------------------------------------------------------------
-- Grammar
------------------------------------------------------------

namespace Abacus

namespace Config

/-
  The settings of every environment. The step limit is that
  which its variable holds, a value that holds none is
  reported once, with a warning that carries it, and the
  trace is on if its variable says so. Every number below
  the bound can be written with white space and zeros around
  it, and no numeral of a larger one gives any limit.
-/
theorem ofVariables_grammar
    (lookup : String → Option String) :
    (∀ n,
        (ofVariables lookup).1.stepLimit = some n ↔
          ∃ raw,
            lookup "YON_STEP_LIMIT" = some raw ∧
              HoldsLimit raw n) ∧
      (∀ raw,
        (∃ event,
            (ofVariables lookup).2 = [event] ∧
              event.level = .warn ∧
              event.fields = [("value", .text raw)]) ↔
          lookup "YON_STEP_LIMIT" = some raw ∧
            ∀ n, ¬HoldsLimit raw n) ∧
      ((ofVariables lookup).2 = [] ↔
        ∀ raw,
          lookup "YON_STEP_LIMIT" = some raw →
            ∃ n, HoldsLimit raw n) ∧
      ((ofVariables lookup).1.trace = true ↔
        ∃ raw,
          lookup "YON_TRACE" = some raw ∧ SaysOn raw) ∧
      (∀ front back width n,
        (∀ c ∈ front.toList, c.toNat ∈ Text.whiteSpace) →
          (∀ c ∈ back.toList, c.toNat ∈ Text.whiteSpace) →
          lookup "YON_STEP_LIMIT" =
            some (front ++ Text.padded width n ++ back) →
          n < Nat.pow 2 64 →
          (ofVariables lookup).1.stepLimit = some n) ∧
      ∀ raw core n,
        lookup "YON_STEP_LIMIT" = some raw →
          Text.TrimsTo raw.toList core →
          Text.IsNumeral core n →
          Nat.pow 2 64 ≤ n →
          (ofVariables lookup).1.stepLimit = none := by
  have hLimit : ∀ n,
      (ofVariables lookup).1.stepLimit = some n ↔
        ∃ raw,
          lookup "YON_STEP_LIMIT" = some raw ∧
            HoldsLimit raw n :=
    fun n => fst_stepLimitOf_eq_some_iff
  refine ⟨hLimit,
    fun raw => snd_stepLimitOf_eq_warning_iff,
    snd_stepLimitOf_eq_nil_iff, ?_, ?_, ?_⟩
  · have hTrace :
        (ofVariables lookup).1.trace =
          (lookup "YON_TRACE").any isOn :=
      rfl
    rw [hTrace, Option.any_eq_true]
    simp only [isOn_iff]
  · intro front back width n hFront hBack hSet hBelow
    exact (hLimit n).mpr ⟨_, hSet,
      holdsLimit_padded hFront hBack width hBelow⟩
  · intro raw core n hSet hTrims hNumeral hLarge
    rw [Option.eq_none_iff_forall_ne_some]
    intro m hSome
    rcases (hLimit m).mp hSome with ⟨held, hHeld, hHolds⟩
    rw [hSet] at hHeld
    cases hHeld
    exact not_holdsLimit_of_large hTrims hNumeral hLarge m
      hHolds

/- The largest limit, and the number behind it. -/
theorem ofVariables_grammar_bound :
    (ofVariables fun _ =>
        some ("\u3000 " ++
          Text.padded 22 18446744073709551615 ++
          "\n")).1.stepLimit =
        some 18446744073709551615 ∧
      (ofVariables fun _ =>
        some "+18446744073709551616").1.stepLimit =
        none := by
  constructor
  · have hFront :
        ∀ c ∈ "\u3000 ".toList,
          c.toNat ∈ Text.whiteSpace := by
      simp [Text.whiteSpace]
    have hBack :
        ∀ c ∈ "\n".toList, c.toNat ∈ Text.whiteSpace := by
      simp [Text.whiteSpace]
    exact (ofVariables_grammar _).2.2.2.2.1 "\u3000 " "\n"
      22 18446744073709551615 hFront hBack rfl (by decide)
  · have hDigits :
        ∀ c ∈ "18446744073709551616".toList,
          c.isDigit = true :=
      List.all_eq_true.mp (by decide)
    refine (ofVariables_grammar _).2.2.2.2.2
      "+18446744073709551616" "+18446744073709551616".toList
      18446744073709551616 rfl ?_ ?_ (by decide)
    · exact Text.trim_eq_iff.mp (by decide)
    · exact ⟨['+'], "18446744073709551616".toList,
        by decide, .inr rfl, by decide, hDigits, by decide⟩

end Config

end Abacus
