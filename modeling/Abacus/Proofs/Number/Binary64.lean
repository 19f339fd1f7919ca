import Abacus.Number.Basic

/-
  Arithmetic of numbers, said in floats.

  An operation of two numbers is the operation of the floats
  that their bits stand for. The opposite of a number is the
  opposite float, and a NaN keeps its payload and takes the
  other sign. That this is a change of the sign bit follows
  from the way in which floats are packed: bits that are no
  NaN are unpacked to a float and packed to the same bits
  again, and the opposite float differs from it in its sign
  only.

  Main declarations:
    * `Number.binary64` and `Number.opposite`
    * `Binary64.exists_components`
    * `Binary64.pack_unpack`
    * `Binary64.neg_unpack`
    * `Number.neg_eq_opposite`
-/

------------------------------------------------------------
-- Operations Of Floats
------------------------------------------------------------

namespace Abacus

namespace Number

/- An operation of floats, on two numbers. -/
def binary64
    (operation : Float → Float → Float)
    (a b : Number) : Number :=
  .ofBits
    (operation (Float.ofBits a.toBits)
      (Float.ofBits b.toBits)).toBits

/- The number of the other sign. -/
def opposite
    (x : Number) : Number :=
  if (Float.ofBits x.toBits).isNaN then
    .ofBits (x.toBits ^^^ 0x8000000000000000)
  else
    .ofBits (-Float.ofBits x.toBits).toBits

end Number

end Abacus

------------------------------------------------------------
-- Components
------------------------------------------------------------

namespace Abacus

namespace Binary64

open Float.Model (Format)
open Float.Model.UnpackedFloat

/- The bits of a sign, an exponent and a mantissa. -/
def word
    (s : Sign)
    (e : BitVec 11)
    (m : BitVec 52) : BitVec 64 :=
  packComponents Format.binary64 s e m

/- All bits are of this form. -/
theorem exists_components
    (bits : BitVec 64) :
    ∃ s e m, bits = word s e m := by
  refine ⟨Sign.ofBitVec (bits.extractLsb' 63 1),
    bits.extractLsb' 52 11, bits.extractLsb' 0 52, ?_⟩
  have hSign :
      ∀ x : BitVec 1, (Sign.ofBitVec x).toBitVec = x := by
    intro x
    rcases BitVec.eq_zero_or_eq_one x with rfl | rfl <;> rfl
  rw [word, packComponents, hSign]
  change
    bits =
      bits.extractLsb' 63 1 ++ bits.extractLsb' 52 11 ++
        bits.extractLsb' 0 52
  apply BitVec.eq_of_getLsbD_eq
  intro i hi
  simp only [BitVec.getLsbD_append,
    BitVec.getLsbD_extractLsb']
  grind

theorem unpackSign_word
    (s : Sign)
    (e : BitVec 11)
    (m : BitVec 52) :
    Sign.ofBitVec
        (unpackSign
          (packComponents Format.binary64 s e m)) =
      s := by
  change
    Sign.ofBitVec
        ((s.toBitVec ++ e ++ m).extractLsb' 63 1) =
      s
  rw [BitVec.extractLsb'_append_eq_of_le (by decide),
    BitVec.extractLsb'_append_eq_of_le (by decide)]
  cases s <;> rfl

/- The sign bit is in front of all others. -/
theorem word_neg
    (s : Sign)
    (e : BitVec 11)
    (m : BitVec 52) :
    word (-s) e m =
      word s e m ^^^ 0x8000000000000000#64 := by
  have hSign :
      (-s).toBitVec = s.toBitVec ^^^ 1#1 := by
    cases s <;> rfl
  change
    (-s).toBitVec ++ e ++ m =
      (s.toBitVec ++ e ++ m) ^^^ (1#1 ++ 0#11 ++ 0#52)
  rw [hSign, BitVec.xor_append, BitVec.xor_append]
  simp

end Binary64

end Abacus

------------------------------------------------------------
-- Packing
------------------------------------------------------------

namespace Abacus

namespace Binary64

open Float.Model (Format UnpackedFloat)
open Float.Model.UnpackedFloat

variable (s : Sign)
variable (e : BitVec 11)
variable (m : BitVec 52)

/- The implicit bit counts for more than all others. -/
theorem toNat_implicit :
    (1#1 ++ m).toNat = 0x10000000000000 + m.toNat := by
  rw [BitVec.toNat_append,
    ← Nat.shiftLeft_add_eq_or_of_lt m.isLt]
  rfl

theorem toNat_implicit_pos :
    0 < (1#1 ++ m).toNat := by
  rw [toNat_implicit]
  omega

theorem toNat_pos
    {m : BitVec 52}
    (hPayload : m ≠ 0#52) :
    0 < m.toNat := by
  apply Nat.pos_of_ne_zero
  intro hZero
  exact hPayload (BitVec.eq_of_toNat_eq hZero)

/- The float of a sign, an exponent and a mantissa. -/
def float : UnpackedFloat :=
  if e = -1#11 then
    if m = 0#52 then
      .infinity s
    else
      .notANumber
  else if e = 0#11 then
    if hZero : m = 0#52 then
      .zero s
    else
      .finite s m.toNat ((e.toNat : Int) - 1075 + 1)
        (toNat_pos hZero)
  else
    .finite s (1#1 ++ m).toNat ((e.toNat : Int) - 1075)
      (toNat_implicit_pos m)

theorem unpack_word :
    unpack Format.binary64 (word s e m) = float s e m := by
  change
    float
        (Sign.ofBitVec
          (unpackSign
            (packComponents Format.binary64 s e m)))
        (unpackExponent
          (packComponents Format.binary64 s e m))
        (unpackMantissa
          (packComponents Format.binary64 s e m)) =
      _
  rw [unpackSign_word, unpackExponent_packComponents,
    unpackMantissa_packComponents]

/- The forms of a float that are not closed terms. -/
theorem float_nan
    {m : BitVec 52}
    (hPayload : m ≠ 0#52) :
    float s (-1#11) m = .notANumber :=
  if_neg hPayload

theorem float_subnormal
    {m : BitVec 52}
    (hPayload : m ≠ 0#52) :
    float s 0#11 m =
      .finite s m.toNat (-1074) (toNat_pos hPayload) :=
  dif_neg hPayload

theorem float_normal
    {e : BitVec 11}
    (hFinite : e ≠ -1#11)
    (hNormal : e ≠ 0#11) :
    float s e m =
      .finite s (1#1 ++ m).toNat ((e.toNat : Int) - 1075)
        (toNat_implicit_pos m) :=
  (if_neg hFinite).trans (if_neg hNormal)

/- A float with the least exponent has no implicit bit. -/
theorem pack_subnormal
    (hPos : 0 < m.toNat) :
    pack Format.binary64 (.finite s m.toNat (-1074) hPos) =
      word s 0#11 m := by
  have hLog : m.toNat.log2 < 52 :=
    (Nat.log2_lt (by omega)).mpr m.isLt
  have hBits : ¬m.toNat.log2 + 1 = 53 := by
    omega
  -- With this exponent a float is not packed as infinity.
  change
    (if m.toNat.log2 + 1 = 53 then
        word s 1#11 (BitVec.ofNat 52 m.toNat)
      else
        word s 0#11 (BitVec.ofNat 52 m.toNat)) =
      _
  rw [if_neg hBits, BitVec.ofNat_toNat, BitVec.setWidth_eq]

/- Any other finite float has one in front. -/
theorem pack_normal
    (hFinite : e ≠ -1#11)
    (hPos : 0 < (1#1 ++ m).toNat) :
    pack Format.binary64
        (.finite s (1#1 ++ m).toNat
          ((e.toNat : Int) - 1075) hPos) =
      word s e m := by
  have hLow := m.isLt
  have hHigh := e.isLt
  have hTop : e.toNat ≠ 2047 := by
    intro hSame
    exact hFinite (BitVec.eq_of_toNat_eq hSame)
  have hSum := toNat_implicit m
  have hLog : (1#1 ++ m).toNat.log2 = 52 := by
    apply (Nat.log2_eq_iff (by omega)).mpr
    omega
  have hBiased :
      ((e.toNat : Int) - 1075 + 1023 + 52).toNat =
        e.toNat := by
    omega
  have hMantissa :
      BitVec.ofNat 52 (0x10000000000000 + m.toNat) = m := by
    apply BitVec.eq_of_toNat_eq
    rw [BitVec.toNat_ofNat]
    omega
  change
    (if
          2048 ≤
            ((e.toNat : Int) - 1075 + 1023 + 52).toNat + 1
        then
        word s (-1#11) 0#52
      else if (1#1 ++ m).toNat.log2 + 1 = 53 then
        word s
          (BitVec.ofNat 11
            ((e.toNat : Int) - 1075 + 1023 + 52).toNat)
          (BitVec.ofNat 52 (1#1 ++ m).toNat)
      else
        word s 0#11 (BitVec.ofNat 52 (1#1 ++ m).toNat)) =
      _
  rw [hBiased, if_neg (by omega), if_pos (by omega),
    BitVec.ofNat_toNat, BitVec.setWidth_eq, hSum, hMantissa]

/- What is no NaN is packed as it was before. -/
theorem pack_unpack
    (hNumber : e = -1#11 → m = 0#52) :
    pack Format.binary64
        (unpack Format.binary64 (word s e m)) =
      word s e m := by
  rw [unpack_word]
  by_cases hInfinite : e = -1#11
  · rw [hNumber hInfinite, hInfinite]
    rfl
  · by_cases hLeast : e = 0#11
    · subst hLeast
      by_cases hZero : m = 0#52
      · rw [hZero]
        rfl
      · rw [float_subnormal s hZero]
        exact pack_subnormal s m _
    · rw [float_normal s m hInfinite hLeast]
      exact pack_normal s e m hInfinite _

/- The opposite float differs in its sign only. -/
theorem neg_unpack :
    (unpack Format.binary64 (word s e m)).neg =
      unpack Format.binary64 (word (-s) e m) := by
  rw [unpack_word, unpack_word]
  by_cases hInfinite : e = -1#11
  · subst hInfinite
    by_cases hZero : m = 0#52
    · rw [hZero]
      rfl
    · rw [float_nan s hZero, float_nan (-s) hZero]
      rfl
  · by_cases hLeast : e = 0#11
    · subst hLeast
      by_cases hZero : m = 0#52
      · rw [hZero]
        rfl
      · rw [float_subnormal s hZero,
          float_subnormal (-s) hZero]
        rfl
    · rw [float_normal s m hInfinite hLeast,
        float_normal (-s) m hInfinite hLeast]
      rfl

/- A NaN is a NaN among floats. -/
theorem isNaN_ofBits
    (hInfinite : e = -1#11)
    (hPayload : m ≠ 0#52) :
    (Float.ofBits (.ofBitVec (word s e m))).isNaN := by
  change
    (unpack Format.binary64
        (pack Format.binary64
          (unpack Format.binary64 (word s e m)))).isNaN
  rw [unpack_word, hInfinite, float_nan s hPayload]
  rfl

end Binary64

namespace Number

open Float.Model (Format)
open Float.Model.UnpackedFloat

/-
  A change of the sign bit gives the opposite float, and the
  NaN of the other sign.
-/
theorem neg_eq_opposite
    (x : Number) :
    -x = x.opposite := by
  rcases x with ⟨bits⟩
  rcases Binary64.exists_components bits.toBitVec with
    ⟨s, e, m, hWord⟩
  have hBits : bits = .ofBitVec (Binary64.word s e m) := by
    rw [← hWord]
  unfold opposite
  split
  · rfl
  · rename_i hNumber
    have hPlain : e = -1#11 → m = 0#52 := by
      intro hInfinite
      by_cases hPayload : m = 0#52
      · exact hPayload
      · rw [hBits] at hNumber
        exact absurd
          (Binary64.isNaN_ofBits s e m hInfinite hPayload)
          hNumber
    -- The bits are packed twice: once to make them a float,
    -- and once more when its sign has been changed.
    have hOpposite :
        pack Format.binary64
            (unpack Format.binary64
              (pack Format.binary64
                (unpack Format.binary64
                  bits.toBitVec))).neg =
          bits.toBitVec ^^^ 0x8000000000000000#64 := by
      rw [hWord, Binary64.pack_unpack s e m hPlain,
        Binary64.neg_unpack,
        Binary64.pack_unpack (-s) e m hPlain,
        Binary64.word_neg]
    exact congrArg
      (fun bits => Number.ofBits (.ofBitVec bits))
      hOpposite.symm

end Number

end Abacus
