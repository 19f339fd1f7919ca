import Abacus.Proofs.Text.Numeral
import Abacus.Text.Blank

/-
  Texts that are read.

  A numeral is read exactly if it is digits behind one plus
  sign at most and its value is below the bound; no value is
  ever reduced to fit. Trimming takes off all blanks at both
  ends and nothing else. Texts agree in lower case if they
  differ at most in the case of letters from `a` to `z`.

  Main declarations:
    * `Text.IsNumeral` and `Text.readNumeral_ok_iff`
    * `Text.TrimsTo` and `Text.trim_eq_iff`
    * `Text.SameLetters` and `Text.map_toLower_eq_iff`
-/

------------------------------------------------------------
-- Numerals
------------------------------------------------------------

namespace Abacus

namespace Text

/-
  A numeral of a number has one plus sign at most, and then
  digits of which the number is the decimal value.
-/
def IsNumeral
    (cs : List Char)
    (n : Nat) : Prop :=
  ∃ sign digits,
    cs = sign ++ digits ∧
      (sign = [] ∨ sign = ['+']) ∧
      digits ≠ [] ∧
      (∀ c ∈ digits, c.isDigit = true) ∧
      Nat.ofDigitChars 10 digits 0 = n

/- A plus sign is no digit, so that it is the only sign. -/
theorem IsNumeral.unique
    {cs : List Char}
    {m n : Nat}
    (hFirst : IsNumeral cs m)
    (hSecond : IsNumeral cs n) :
    m = n := by
  rcases hFirst with
    ⟨_, xs, hXs, rfl | rfl, _, hXDigits, hXValue⟩ <;>
  rcases hSecond with
    ⟨_, ys, hYs, rfl | rfl, _, hYDigits, hYValue⟩ <;>
  rw [hXs] at hYs
  · cases hYs
    exact hXValue.symm.trans hYValue
  · cases hYs
    cases hXDigits '+' (List.mem_cons_self ..)
  · cases hYs
    cases hYDigits '+' (List.mem_cons_self ..)
  · cases hYs
    exact hXValue.symm.trans hYValue

/- More digits do not make a number smaller. -/
theorem le_ofDigitChars
    (value : Nat)
    (cs : List Char) :
    value ≤ Nat.ofDigitChars 10 cs value := by
  induction cs generalizing value with
  | nil => exact Nat.le_refl value
  | cons c cs ih =>
      rw [Nat.ofDigitChars_cons]
      have hRest := ih (10 * value + (c.toNat - '0'.toNat))
      omega

/-
  Digits are read to their value. The value grows from digit
  to digit, so that it is below the bound all the time if it
  is in the end.
-/
theorem readDigits_ok_iff
    {value n : Nat}
    {cs : List Char}
    (hValue : value < numeralBound) :
    readDigits value cs = .ok n ↔
      (∀ c ∈ cs, c.isDigit = true) ∧
        Nat.ofDigitChars 10 cs value = n ∧
        n < numeralBound := by
  induction cs generalizing value with
  | nil =>
      constructor
      · intro hRead
        cases hRead
        exact ⟨by simp, rfl, hValue⟩
      · rintro ⟨_, hSame, _⟩
        exact congrArg Except.ok hSame
  | cons c cs ih =>
      rw [Nat.ofDigitChars_cons, readDigits,
        List.forall_mem_cons]
      by_cases hDigit : c.isDigit = true
      · rw [if_pos hDigit]
        by_cases hNext :
            10 * value + (c.toNat - '0'.toNat) <
              numeralBound
        · rw [if_pos hNext, ih hNext]
          simp [hDigit]
        · have hGrows :=
            le_ofDigitChars
              (10 * value + (c.toNat - '0'.toNat)) cs
          rw [if_neg hNext]
          constructor
          · intro hRead
            cases hRead
          · rintro ⟨_, hSame, hBelow⟩
            omega
      · rw [if_neg hDigit]
        simp [hDigit]

/- A numeral is read if its value is below the bound. -/
theorem readNumeral_ok_iff
    {cs : List Char}
    {n : Nat} :
    readNumeral cs = .ok n ↔
      IsNumeral cs n ∧ n < numeralBound := by
  have hZero : 0 < numeralBound := by decide
  unfold readNumeral
  split
  · constructor
    · intro hRead
      cases hRead
    · rintro ⟨⟨sign, digits, hSplit, _, hSome, _⟩, _⟩
      have hNone := (List.nil_eq_append_iff.mp hSplit).2
      exact absurd hNone hSome
  · rename_i c cs
    rw [readDigits_ok_iff hZero]
    constructor
    · rintro ⟨hDigits, hValue, hBelow⟩
      have hSome : c :: cs ≠ [] := by simp
      exact ⟨⟨['+'], c :: cs, rfl, .inr rfl, hSome,
        hDigits, hValue⟩, hBelow⟩
    · rintro ⟨⟨sign, digits, hSplit, hSign | hSign, _,
        hDigits, hValue⟩, hBelow⟩
      · -- A plus sign is no digit.
        rw [hSign, List.nil_append] at hSplit
        have hPlus := hDigits '+' (by simp [← hSplit])
        cases hPlus
      · rw [hSign, List.singleton_append] at hSplit
        cases hSplit
        exact ⟨hDigits, hValue, hBelow⟩
  · rename_i hSome hUnsigned
    rw [readDigits_ok_iff hZero]
    constructor
    · rintro ⟨hDigits, hValue, hBelow⟩
      exact ⟨⟨[], cs, rfl, .inl rfl, hSome, hDigits,
        hValue⟩, hBelow⟩
    · rintro ⟨⟨sign, digits, hSplit, hSign | hSign, hAny,
        hDigits, hValue⟩, hBelow⟩
      · rw [hSign, List.nil_append] at hSplit
        rw [hSplit]
        exact ⟨hDigits, hValue, hBelow⟩
      · rw [hSign, List.singleton_append] at hSplit
        cases digits with
        | nil => exact absurd rfl hAny
        | cons c digits =>
            exact absurd hSplit (hUnsigned c digits)

/- A padded numeral is a numeral, whatever its width. -/
theorem isNumeral_padded
    (width n : Nat) :
    IsNumeral (padded width n).toList n := by
  refine ⟨[], (padded width n).toList,
    (List.nil_append _).symm, .inl rfl, ?_, ?_,
    ofDigitChars_padded width n⟩
  · rw [padded, String.toList_ofList]
    simp [Nat.toDigits_ne_nil]
  · intro c hMem
    exact isDigit_of_mem_padded hMem

end Text

end Abacus

------------------------------------------------------------
-- Blanks
------------------------------------------------------------

namespace Abacus

namespace Text

/- The codes of the characters that are `White_Space`. -/
def whiteSpace : List Nat :=
  [ 0x09, 0x0A, 0x0B, 0x0C, 0x0D, 0x20, 0x85, 0xA0, 0x1680,
    0x2000, 0x2001, 0x2002, 0x2003, 0x2004, 0x2005, 0x2006,
    0x2007, 0x2008, 0x2009, 0x200A, 0x2028, 0x2029, 0x202F,
    0x205F, 0x3000 ]

/- The ranges of blanks, written out. -/
theorem whiteSpace_eq :
    whiteSpace =
      blankRanges.flatMap fun range =>
        List.range' range.1 (range.2 + 1 - range.1) := by
  decide

theorem isBlank_iff
    {c : Char} :
    isBlank c = true ↔ c.toNat ∈ whiteSpace := by
  rw [isBlank, whiteSpace_eq, List.any_eq_true,
    List.mem_flatMap]
  apply exists_congr
  intro range
  apply and_congr_right
  intro _
  simp only [Bool.and_eq_true, decide_eq_true_eq,
    List.mem_range'_1]
  omega

/-
  What is left of a text without the white space at both
  ends: neither its first nor its last character is any.
-/
structure TrimsTo
    (cs core : List Char) : Prop where
  split :
    ∃ front back,
      cs = front ++ core ++ back ∧
        (∀ c ∈ front, c.toNat ∈ whiteSpace) ∧
        ∀ c ∈ back, c.toNat ∈ whiteSpace
  first : ∀ c ∈ core.head?, c.toNat ∉ whiteSpace
  last : ∀ c ∈ core.getLast?, c.toNat ∉ whiteSpace

/- Nothing is dropped if the first character is to stay. -/
theorem dropWhile_of_head
    {cs : List Char}
    (hHead : ∀ c ∈ cs.head?, c.toNat ∉ whiteSpace) :
    cs.dropWhile isBlank = cs := by
  cases cs with
  | nil => rfl
  | cons c cs =>
      have hFirst : ¬isBlank c = true := by
        rw [isBlank_iff]
        exact hHead c rfl
      simp [hFirst]

/- What is left after dropping does not start so. -/
theorem not_mem_of_head_dropWhile
    {cs : List Char}
    {c : Char}
    (hHead : c ∈ (cs.dropWhile isBlank).head?) :
    c.toNat ∉ whiteSpace := by
  have hNot := List.head?_dropWhile_not isBlank cs
  rw [hHead] at hNot
  rw [← isBlank_iff, Bool.not_eq_true]
  exact hNot

theorem mem_of_mem_takeWhile
    {cs : List Char}
    {c : Char}
    (hMem : c ∈ cs.takeWhile isBlank) :
    c.toNat ∈ whiteSpace :=
  isBlank_iff.mp
    (List.all_eq_true.mp List.all_takeWhile c hMem)

theorem trimsTo_trim
    (cs : List Char) :
    TrimsTo cs (trim cs) := by
  have hFront :
      cs.takeWhile isBlank ++ cs.dropWhile isBlank = cs :=
    List.takeWhile_append_dropWhile
  have hBack :
      trim cs ++
          ((cs.dropWhile isBlank).reverse.takeWhile
            isBlank).reverse =
        cs.dropWhile isBlank := by
    rw [trim, trimEnd, ← List.reverse_append,
      List.takeWhile_append_dropWhile, List.reverse_reverse]
  refine ⟨⟨cs.takeWhile isBlank,
    ((cs.dropWhile isBlank).reverse.takeWhile
      isBlank).reverse, ?_, ?_, ?_⟩, ?_, ?_⟩
  · rw [List.append_assoc, hBack, hFront]
  · intro c hMem
    exact mem_of_mem_takeWhile hMem
  · intro c hMem
    exact mem_of_mem_takeWhile (List.mem_reverse.mp hMem)
  · intro c hHead
    apply not_mem_of_head_dropWhile
    rw [← hBack, List.head?_append, hHead]
    rfl
  · intro c hLast
    rw [trim, trimEnd, List.getLast?_reverse] at hLast
    exact not_mem_of_head_dropWhile hLast

/- Blanks behind a text that does not end with one. -/
theorem trimEnd_append
    {core back : List Char}
    (hLast : ∀ c ∈ core.getLast?, c.toNat ∉ whiteSpace)
    (hBack : ∀ c ∈ back, c.toNat ∈ whiteSpace) :
    trimEnd (core ++ back) = core := by
  have hDropped :
      ∀ c ∈ back.reverse, isBlank c = true := by
    intro c hMem
    exact isBlank_iff.mpr
      (hBack c (List.mem_reverse.mp hMem))
  have hRest :
      core.reverse.dropWhile isBlank = core.reverse := by
    apply dropWhile_of_head
    rw [List.head?_reverse]
    exact hLast
  rw [trimEnd, List.reverse_append,
    List.dropWhile_append_of_pos hDropped, hRest,
    List.reverse_reverse]

/- There is one way to trim a text. -/
theorem trim_of_trimsTo
    {cs core : List Char}
    (hTrims : TrimsTo cs core) :
    trim cs = core := by
  rcases hTrims with
    ⟨⟨front, back, hSplit, hFront, hBack⟩, hFirst, hLast⟩
  have hDropped : ∀ c ∈ front, isBlank c = true := by
    intro c hMem
    exact isBlank_iff.mpr (hFront c hMem)
  rw [trim, hSplit, List.append_assoc,
    List.dropWhile_append_of_pos hDropped]
  cases core with
  | nil =>
      -- All that is left is blank and goes from the front.
      have hNone : back.dropWhile isBlank = [] := by
        rw [← List.append_nil back,
          List.dropWhile_append_of_pos]
        · rfl
        · intro c hMem
          exact isBlank_iff.mpr (hBack c hMem)
      rw [List.nil_append, hNone]
      rfl
  | cons c core =>
      have hStays :
          ((c :: core) ++ back).dropWhile isBlank =
            (c :: core) ++ back :=
        dropWhile_of_head hFirst
      rw [hStays]
      exact trimEnd_append hLast hBack

theorem trim_eq_iff
    {cs core : List Char} :
    trim cs = core ↔ TrimsTo cs core := by
  constructor
  · intro hTrim
    rw [← hTrim]
    exact trimsTo_trim cs
  · exact trim_of_trimsTo

/- A digit is not white space. -/
theorem not_mem_whiteSpace_of_isDigit
    {c : Char}
    (hDigit : c.isDigit = true) :
    c.toNat ∉ whiteSpace := by
  have hRange : 48 ≤ c.toNat ∧ c.toNat ≤ 57 :=
    Char.isDigit_iff_toNat.mp hDigit
  simp only [whiteSpace, List.mem_cons, List.not_mem_nil,
    or_false]
  omega

/- White space around digits. -/
theorem trimsTo_digits
    {front digits back : List Char}
    (hFront : ∀ c ∈ front, c.toNat ∈ whiteSpace)
    (hDigits : ∀ c ∈ digits, c.isDigit = true)
    (hBack : ∀ c ∈ back, c.toNat ∈ whiteSpace) :
    TrimsTo (front ++ digits ++ back) digits := by
  refine ⟨⟨front, back, rfl, hFront, hBack⟩, ?_, ?_⟩
  · intro c hHead
    exact not_mem_whiteSpace_of_isDigit
      (hDigits c (List.mem_of_mem_head? hHead))
  · intro c hLast
    exact not_mem_whiteSpace_of_isDigit
      (hDigits c (List.mem_of_mem_getLast? hLast))

end Text

end Abacus

------------------------------------------------------------
-- Upper And Lower Case
------------------------------------------------------------

namespace Abacus

namespace Text

/-
  Characters that are equal, or the two cases of a letter
  from `a` to `z`.
-/
def SameLetter
    (c d : Char) : Prop :=
  c = d ∨
    ∃ k < 26,
      (c.toNat = 'A'.toNat + k ∧ d.toNat = 'a'.toNat + k) ∨
        (c.toNat = 'a'.toNat + k ∧ d.toNat = 'A'.toNat + k)

/- Texts that differ at most in the case of such letters. -/
inductive SameLetters :
    List Char → List Char → Prop
| nil :
    SameLetters [] []
| cons
    {c d : Char}
    {cs ds : List Char}
    (hFirst : SameLetter c d)
    (hRest : SameLetters cs ds) :
    SameLetters (c :: cs) (d :: ds)

/- The code of a character in lower case. -/
theorem toNat_toLower
    (c : Char) :
    c.toLower.toNat =
      if 65 ≤ c.toNat ∧ c.toNat ≤ 90 then
        c.toNat + 32
      else
        c.toNat := by
  have hUpper :
      (c.val ≥ 'A'.val ∧ c.val ≤ 'Z'.val) ↔
        65 ≤ c.toNat ∧ c.toNat ≤ 90 := by
    rw [ge_iff_le, UInt32.le_iff_toNat_le,
      UInt32.le_iff_toNat_le]
    rfl
  split
  · rename_i hRange
    have hLower : c.toLower.val = c.val + 32 :=
      congrArg Char.val (dif_pos (hUpper.mpr hRange))
    rw [← Char.toNat_val, hLower, UInt32.toNat_add,
      Char.toNat_val]
    exact Nat.mod_eq_of_lt (Nat.lt_of_le_of_lt
      (Nat.add_le_add_right hRange.2 32) (by decide))
  · rename_i hRange
    have hSame : c.toLower = c :=
      dif_neg (mt hUpper.mp hRange)
    rw [hSame]

/- Lower case forgets the case of a letter and no more. -/
theorem toLower_eq_iff
    {c d : Char} :
    c.toLower = d.toLower ↔ SameLetter c d := by
  have hCodes : 'A'.toNat = 65 ∧ 'a'.toNat = 97 := by
    decide
  unfold SameLetter
  rw [← Char.toNat_inj, ← Char.toNat_inj, toNat_toLower,
    toNat_toLower, hCodes.1, hCodes.2]
  constructor
  · intro hSame
    by_cases hEqual : c.toNat = d.toNat
    · exact .inl hEqual
    · -- The smaller code is that of the upper case.
      refine .inr ⟨min c.toNat d.toNat - 65, ?_⟩
      split at hSame <;> split at hSame <;> omega
  · rintro (hEqual | ⟨k, hLetter, hCases⟩)
    · rw [hEqual]
    · split <;> split <;> omega

theorem map_toLower_eq_iff
    {cs ds : List Char} :
    cs.map Char.toLower = ds.map Char.toLower ↔
      SameLetters cs ds := by
  constructor
  · intro hSame
    induction cs generalizing ds with
    | nil =>
        cases ds with
        | nil => exact .nil
        | cons d ds => cases hSame
    | cons c cs ih =>
        cases ds with
        | nil => cases hSame
        | cons d ds =>
            rw [List.map_cons, List.map_cons] at hSame
            injection hSame with hFirst hRest
            exact .cons (toLower_eq_iff.mp hFirst)
              (ih hRest)
  · intro hSame
    induction hSame with
    | nil => rfl
    | cons hFirst _ ih =>
        rw [List.map_cons, List.map_cons, ih,
          toLower_eq_iff.mpr hFirst]

end Text

end Abacus
