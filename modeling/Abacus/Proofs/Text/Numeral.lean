import Abacus.Number.Text
import Abacus.Text.Numeral

/-
  The characters of numerals.

  The numeral of a whole number is made of digits alone and
  determines the number, with or without zeros in front. The
  text of a number of the machine is made of digits and of a
  few marks; none of the characters that lay out a listing
  is among them.

  Main declarations:
    * `Text.not_mem_padded` and `Text.padded_inj`
    * `Number.marks` and `Number.not_mem_text`
-/

------------------------------------------------------------
-- Whole Numbers
------------------------------------------------------------

namespace Abacus

namespace Text

theorem isDigit_of_mem_digits
    {n : Nat}
    {c : Char}
    (hMem : c ∈ Nat.toDigits 10 n) :
    c.isDigit :=
  Nat.isDigit_of_mem_toDigits (by decide) (by decide) hMem

theorem isDigit_of_mem_zeros
    {count : Nat}
    {c : Char}
    (hMem : c ∈ List.replicate count '0') :
    c.isDigit := by
  rw [List.eq_of_mem_replicate hMem]
  rfl

theorem isDigit_of_mem_padded
    {width n : Nat}
    {c : Char}
    (hMem : c ∈ (padded width n).toList) :
    c.isDigit := by
  rw [padded, String.toList_ofList, List.mem_append] at hMem
  rcases hMem with hZero | hDigit
  · exact isDigit_of_mem_zeros hZero
  · exact isDigit_of_mem_digits hDigit

/- No other character occurs in a numeral. -/
theorem not_mem_padded
    {c : Char}
    (hOther : ¬c.isDigit)
    (width n : Nat) :
    c ∉ (padded width n).toList := by
  intro hMem
  exact hOther (isDigit_of_mem_padded hMem)

/- Zeros in front do not change the value of a numeral. -/
theorem ofDigitChars_padded
    (width n : Nat) :
    Nat.ofDigitChars 10 (padded width n).toList 0 = n := by
  rw [padded, String.toList_ofList, Nat.ofDigitChars_append,
    Nat.ofDigitChars_replicate_zero, Nat.mul_zero]
  exact Nat.ofDigitChars_ten_toDigits

/- Padded numerals of different numbers are different. -/
theorem padded_inj
    {width m n : Nat}
    (hSame : padded width m = padded width n) :
    m = n := by
  rw [← ofDigitChars_padded width m, hSame,
    ofDigitChars_padded]

/- The plain numeral is filled up to no width at all. -/
theorem padded_zero
    (n : Nat) :
    padded 0 n = Nat.repr n := by
  rw [Nat.repr_eq_ofList_toDigits]
  simp [padded]

theorem not_mem_repr
    {c : Char}
    (hOther : ¬c.isDigit)
    (n : Nat) :
    c ∉ (Nat.repr n).toList := by
  rw [← padded_zero]
  exact not_mem_padded hOther 0 n

theorem eq_of_repr_eq
    {m n : Nat}
    (hSame : Nat.repr m = Nat.repr n) :
    m = n := by
  rw [← padded_zero, ← padded_zero] at hSame
  exact padded_inj hSame

end Text

end Abacus

------------------------------------------------------------
-- Numbers Of The Machine
------------------------------------------------------------

namespace Abacus

namespace Number

/- What the text of a number can show beside digits. -/
def marks : List Char :=
  ['.', '-', 'i', 'n', 'f', 'N', 'a']

theorem mem_decimal
    {d : Decimal}
    {c : Char}
    (hMem : c ∈ d.text.toList) :
    c.isDigit ∨ c = '.' := by
  rw [Decimal.text, String.toList_ofList,
    Decimal.characters] at hMem
  split at hMem
  · left
    rcases List.mem_append.mp hMem with hDigit | hZero
    · exact Text.isDigit_of_mem_digits hDigit
    · exact Text.isDigit_of_mem_zeros hZero
  · split at hMem
    · rcases List.mem_append.mp hMem with hWhole | hRest
      · exact .inl
          (Text.isDigit_of_mem_digits
            (List.mem_of_mem_take hWhole))
      · rcases List.mem_cons.mp hRest with hPoint | hPlaces
        · exact .inr hPoint
        · exact .inl
            (Text.isDigit_of_mem_digits
              (List.mem_of_mem_drop hPlaces))
    · rcases List.mem_cons.mp hMem with hZero | hRest
      · left
        rw [hZero]
        rfl
      · rcases List.mem_cons.mp hRest with hPoint | hPlaces
        · exact .inr hPoint
        · left
          rcases List.mem_append.mp hPlaces with
            hZero | hDigit
          · exact Text.isDigit_of_mem_zeros hZero
          · exact Text.isDigit_of_mem_digits hDigit

/- A word that is made of marks. -/
theorem mem_marks_of_word
    {word : String}
    {c : Char}
    (hWord : word.toList.all marks.contains = true)
    (hMem : c ∈ word.toList) :
    c ∈ marks :=
  List.contains_iff_mem.mp
    (List.all_eq_true.mp hWord c hMem)

theorem mem_unsignedText
    {bits : Nat}
    {c : Char}
    (hMem : c ∈ (unsignedText bits).toList) :
    c.isDigit ∨ c ∈ marks := by
  unfold unsignedText at hMem
  split at hMem
  · left
    rw [List.mem_singleton.mp hMem]
    rfl
  · split at hMem
    · right
      exact mem_marks_of_word (by decide +kernel) hMem
    · rcases mem_decimal hMem with hDigit | hPoint
      · exact .inl hDigit
      · right
        rw [hPoint]
        decide

theorem mem_text
    {x : Number}
    {c : Char}
    (hMem : c ∈ (text x).toList) :
    c.isDigit ∨ c ∈ marks := by
  unfold text at hMem
  dsimp only at hMem
  split at hMem
  · right
    exact mem_marks_of_word (by decide +kernel) hMem
  · split at hMem
    · exact mem_unsignedText hMem
    · rw [String.toList_append, List.mem_append] at hMem
      rcases hMem with hSign | hSize
      · right
        rw [List.mem_singleton.mp hSign]
        decide
      · exact mem_unsignedText hSize

/- No other character occurs in the text of a number. -/
theorem not_mem_text
    {c : Char}
    (hOther : ¬(c.isDigit ∨ c ∈ marks))
    (x : Number) :
    c ∉ (text x).toList := by
  intro hMem
  exact hOther (mem_text hMem)

end Number

end Abacus
