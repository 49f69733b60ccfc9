import Abacus.Number
import Mathlib

/-!
# The fields of a double

A double falls into its sign and the word of its magnitude. What the two stand
for is told by the arithmetic of doubles itself, which reads them field by field:
a signed zero, a finite number, an infinity or no number at all.
-/

namespace Abacus.Binary64

open Float.Model (Format UnpackedFloat)
open Float.Model.UnpackedFloat

def valueOf : UnpackedFloat → ℚ
  | .finite sign mantissa exponent _ => sign.apply mantissa * 2 ^ exponent
  | _ => 0

/-- The exact value of a finite double. -/
def value (x : Float) : ℚ := valueOf x.toModel.unpack

/-- The value of a finite magnitude. -/
def wordValue (word : Nat) : ℚ := significand word * 2 ^ exponent word

def signOf (negative : Bool) : Sign := if negative then .negative else .positive

/-- What arithmetic makes of a word with a sign. -/
inductive Stands (negative : Bool) : Nat → UnpackedFloat → Prop
  | zero : Stands negative 0 (.zero (signOf negative))
  | finite {word} (h : 0 < significand word) : 0 < word → word < infinity →
      Stands negative word (.finite (signOf negative) (significand word) (exponent word) h)
  | infinity : Stands negative infinity (.infinity (signOf negative))
  | notANumber {word} : infinity < word → Stands negative word .notANumber

theorem infinity_eq : infinity = 2047 * 2 ^ 52 := rfl

section Components

theorem toNat_append {n k : Nat} (high : BitVec n) (low : BitVec k) :
    (high ++ low).toNat = high.toNat * 2 ^ k + low.toNat := by
  rw [BitVec.toNat_append, ← Nat.shiftLeft_add_eq_or_of_lt low.isLt, Nat.shiftLeft_eq]

variable (sign : Sign) (field : BitVec 11) (fraction : BitVec 52)

theorem toNat_packComponents :
    (packComponents Format.binary64 sign field fraction).toNat =
      sign.toBitVec.toNat * 2 ^ 63 + (field.toNat * 2 ^ 52 + fraction.toNat) := by
  rw [packComponents, toNat_append, toNat_append]
  omega

theorem significand_of_field {field fraction : Nat} (h : fraction < 2 ^ 52) :
    significand (field * 2 ^ 52 + fraction) =
      if field = 0 then fraction else 2 ^ 52 + fraction := by
  have hmod : (field * 2 ^ 52 + fraction) % 2 ^ 52 = fraction := by omega
  change (if field * 2 ^ 52 + fraction < 2 ^ 52 then _ else 2 ^ 52 + _ % 2 ^ 52) = _
  rw [hmod]
  split <;> split <;> omega

theorem exponent_of_field {field fraction : Nat} (h : fraction < 2 ^ 52) :
    exponent (field * 2 ^ 52 + fraction) = (max field 1 : Nat) - 1075 := by
  have hdiv : (field * 2 ^ 52 + fraction) / 2 ^ 52 = field := by omega
  change ((max ((field * 2 ^ 52 + fraction) / 2 ^ 52) 1 : Nat) : Int) - 1075 = _
  rw [hdiv]

end Components

theorem Stands.of_eq {negative : Bool} {word mantissa : Nat} {power : Int} (h : 0 < mantissa)
    (hpos : 0 < word) (hlt : word < Binary64.infinity) (hmantissa : mantissa = significand word)
    (hpower : power = exponent word) :
    Stands negative word (.finite (signOf negative) mantissa power h) := by
  subst hmantissa hpower
  exact .finite h hpos hlt

theorem toNat_pos_of_ne {n : Nat} {v : BitVec n} (h : ¬v = 0#n) : 0 < v.toNat := by
  simpa [BitVec.toNat_pos, BitVec.pos_iff_ne_zero] using h

theorem stands_unpack (negative : Bool) (field : BitVec 11) (fraction : BitVec 52) :
    Stands negative (field.toNat * 2 ^ 52 + fraction.toNat)
      (unpack Format.binary64
        (packComponents Format.binary64 (signOf negative) field fraction)) := by
  have hfield := field.isLt
  have hfraction := fraction.isLt
  unfold unpack
  simp only [unpackSign_packComponents, Sign.ofBitVec_toBitVec, unpackExponent_packComponents,
    unpackMantissa_packComponents]
  split
  next hones =>
    have hnat : field.toNat = 2047 := by rw [hones]; rfl
    rw [hnat]
    split
    next hzero =>
      rw [hzero]
      exact .infinity
    next hne =>
      have hpos : 0 < fraction.toNat := toNat_pos_of_ne hne
      refine .notANumber ?_
      rw [infinity_eq]
      omega
  next hones =>
    have hnat : field.toNat < 2047 := by
      by_contra hge
      refine hones (BitVec.eq_of_toNat_eq ?_)
      change field.toNat = 2047
      omega
    split
    next hzero =>
      rw [hzero]
      split
      next hnone =>
        rw [hnone]
        exact .zero
      next hne =>
        have hpos : 0 < fraction.toNat := toNat_pos_of_ne hne
        refine .of_eq _ ?_ ?_ ?_ ?_
        · simpa using hpos
        · change 0 * 2 ^ 52 + fraction.toNat < 2047 * 2 ^ 52
          omega
        · rw [significand_of_field hfraction]
          rfl
        · rw [exponent_of_field hfraction]
          rfl
    next hzero =>
      have hpos : 0 < field.toNat := toNat_pos_of_ne hzero
      refine .of_eq _ ?_ ?_ ?_ ?_
      · omega
      · rw [infinity_eq]
        omega
      · rw [significand_of_field hfraction, toNat_append, if_neg (by omega)]
        rfl
      · rw [exponent_of_field hfraction]
        change (field.toNat : Int) - 1075 = _
        omega

theorem toNat_signOf (negative : Bool) :
    (signOf negative).toBitVec.toNat = if negative then 1 else 0 := by
  cases negative <;> rfl

theorem stands_of_toNat {bits : BitVec 64} {negative : Bool} {word : Nat} (hword : word < 2 ^ 63)
    (h : bits.toNat = (if negative then 1 else 0) * 2 ^ 63 + word) :
    Stands negative word (unpack Format.binary64 bits) := by
  have hfield : (BitVec.ofNat 11 (word / 2 ^ 52)).toNat = word / 2 ^ 52 := by
    rw [BitVec.toNat_ofNat]
    omega
  have hfields : (BitVec.ofNat 11 (word / 2 ^ 52)).toNat * 2 ^ 52 +
      (BitVec.ofNat 52 word).toNat = word := by
    rw [hfield, BitVec.toNat_ofNat]
    omega
  have hbits : bits = packComponents Format.binary64 (signOf negative)
      (BitVec.ofNat 11 (word / 2 ^ 52)) (BitVec.ofNat 52 word) := by
    apply BitVec.eq_of_toNat_eq
    rw [toNat_packComponents, toNat_signOf, hfields, h]
  have hstands :=
    stands_unpack negative (BitVec.ofNat 11 (word / 2 ^ 52)) (BitVec.ofNat 52 word)
  rwa [hfields, ← hbits] at hstands

namespace Stands

variable {negative : Bool} {word : Nat} {unpacked : UnpackedFloat}

theorem eq {other : UnpackedFloat} (h : Stands negative word unpacked)
    (hother : Stands negative word other) : unpacked = other := by
  cases h with
  | zero =>
    cases hother with
    | zero => rfl
    | finite _ hpos _ => exact absurd hpos (Nat.lt_irrefl 0)
    | notANumber hgt => exact absurd hgt (Nat.not_lt_zero _)
  | finite _ hpos hlt =>
    cases hother with
    | zero => exact absurd hpos (Nat.lt_irrefl 0)
    | finite => rfl
    | infinity => exact absurd hlt (Nat.lt_irrefl _)
    | notANumber hgt => exact absurd hlt (Nat.lt_asymm hgt)
  | infinity =>
    cases hother with
    | finite _ _ hlt => exact absurd hlt (Nat.lt_irrefl _)
    | infinity => rfl
    | notANumber hgt => exact absurd hgt (Nat.lt_irrefl _)
  | notANumber hgt =>
    cases hother with
    | zero => exact absurd hgt (Nat.not_lt_zero _)
    | finite _ _ hlt => exact absurd hlt (Nat.lt_asymm hgt)
    | infinity => exact absurd hgt (Nat.lt_irrefl _)
    | notANumber => rfl

theorem valid {bits : BitVec 64}
    (h : Stands negative word (unpack Format.binary64 bits)) (hle : word ≤ Binary64.infinity) :
    Format.binary64.Valid bits := by
  refine ⟨fun hexponent hmantissa => ?_⟩
  have hunpack : unpack Format.binary64 bits = .notANumber := by
    rw [unpack, if_pos hexponent, if_neg hmantissa]
  rw [hunpack] at h
  cases h with
  | notANumber hgt => exact absurd hle (Nat.not_le.mpr hgt)

theorem toNat_pack (h : Stands negative word unpacked) (hle : word ≤ Binary64.infinity) :
    (pack Format.binary64 unpacked).toNat = (if negative then 1 else 0) * 2 ^ 63 + word := by
  have hword : word < 2 ^ 63 := Nat.lt_of_le_of_lt hle (by decide)
  have hbits : (BitVec.ofNat 64 ((if negative then 1 else 0) * 2 ^ 63 + word)).toNat =
      (if negative then 1 else 0) * 2 ^ 63 + word := by
    rw [BitVec.toNat_ofNat, Nat.mod_eq_of_lt]
    split <;> omega
  have hstands := stands_of_toNat hword hbits
  rw [h.eq hstands, pack_unpack_of_valid (hstands.valid hle), hbits]

theorem neg (h : Stands negative word unpacked) : Stands (!negative) word unpacked.neg := by
  cases h with
  | zero => cases negative <;> exact .zero
  | finite hmantissa hpos hlt => cases negative <;> exact .finite hmantissa hpos hlt
  | infinity => cases negative <;> exact .infinity
  | notANumber hlt => exact .notANumber hlt

theorem abs (h : Stands negative word unpacked) : Stands false word unpacked.abs := by
  cases h with
  | zero => exact .zero
  | finite hmantissa hpos hlt => exact .finite hmantissa hpos hlt
  | infinity => exact .infinity
  | notANumber hlt => exact .notANumber hlt

theorem isFinite_iff (h : Stands negative word unpacked) :
    unpacked.isFinite ↔ word < Binary64.infinity := by
  cases h with
  | zero => exact iff_of_true rfl (by decide)
  | finite _ _ hlt => exact iff_of_true rfl hlt
  | infinity => exact iff_of_false Bool.false_ne_true (Nat.lt_irrefl _)
  | notANumber hlt => exact iff_of_false Bool.false_ne_true (Nat.lt_asymm hlt)

theorem valueOf_eq (h : Stands negative word unpacked) (hlt : word < Binary64.infinity) :
    valueOf unpacked = (if negative then -1 else 1) * wordValue word := by
  cases h with
  | zero => simp [valueOf, wordValue, significand]
  | finite _ _ _ => cases negative <;> simp [valueOf, wordValue, signOf, Sign.apply]
  | infinity => exact absurd hlt (Nat.lt_irrefl _)
  | notANumber hword => exact absurd hlt (Nat.lt_asymm hword)

end Stands

section Words

variable {x y : Float}

theorem toNat_toBits (x : Float) :
    x.toBits.toNat = (if isNegative x then 1 else 0) * 2 ^ 63 + magnitude x := by
  have hbits : x.toBits.toNat < 2 ^ 64 := x.toBits.toNat_lt
  have hmagnitude : magnitude x = x.toBits.toNat % 2 ^ 63 := rfl
  have hsign : isNegative x = decide (2 ^ 63 ≤ x.toBits.toNat) := rfl
  rw [hmagnitude, hsign]
  by_cases hle : 2 ^ 63 ≤ x.toBits.toNat
  · simp only [hle, decide_true, ↓reduceIte]
    omega
  · simp only [hle, decide_false, Bool.false_eq_true, ↓reduceIte]
    omega

/-- A sign and a word below it are read off the bits that they make up. -/
theorem fields_of_toNat_toBits {negative : Bool} {word : Nat} (hword : word < 2 ^ 63)
    (h : x.toBits.toNat = (if negative then 1 else 0) * 2 ^ 63 + word) :
    isNegative x = negative ∧ magnitude x = word := by
  have hmagnitude : magnitude x < 2 ^ 63 := Nat.mod_lt _ (Nat.two_pow_pos 63)
  rw [toNat_toBits] at h
  cases negative <;> cases hnegative : isNegative x <;> simp [hnegative] at h ⊢ <;> omega

theorem eq_of_fields_eq (hsign : isNegative x = isNegative y)
    (hmagnitude : magnitude x = magnitude y) : x = y := by
  apply Float.toBits_inj.mp
  apply UInt64.toNat_inj.mp
  rw [toNat_toBits, toNat_toBits, hsign, hmagnitude]

theorem stands (x : Float) : Stands (isNegative x) (magnitude x) x.toModel.unpack :=
  stands_of_toNat (Nat.mod_lt _ (Nat.two_pow_pos 63)) (toNat_toBits x)

theorem Stands.fields_pack {negative : Bool} {word : Nat} {unpacked : UnpackedFloat}
    (h : Stands negative word unpacked) (hle : word ≤ Binary64.infinity) :
    isNegative (.ofModel (.pack unpacked)) = negative ∧
      magnitude (.ofModel (.pack unpacked)) = word := by
  refine fields_of_toNat_toBits (Nat.lt_of_le_of_lt hle (by decide)) ?_
  exact h.toNat_pack hle

theorem fields_neg (h : magnitude x ≤ infinity) :
    isNegative (-x) = !isNegative x ∧ magnitude (-x) = magnitude x :=
  (stands x).neg.fields_pack h

theorem fields_abs (h : magnitude x ≤ infinity) :
    isNegative x.abs = false ∧ magnitude x.abs = magnitude x :=
  (stands x).abs.fields_pack h

theorem fields_ofBits {word : Nat} (h : word ≤ infinity) :
    isNegative (Float.ofBits (.ofNat word)) = false ∧
      magnitude (Float.ofBits (.ofNat word)) = word := by
  have hword : word < 2 ^ 63 := Nat.lt_of_le_of_lt h (by decide)
  have hbits : (UInt64.ofNat word).toBitVec.toNat = word := by
    rw [UInt64.toNat_toBitVec, UInt64.toNat_ofNat_of_lt']
    exact Nat.lt_trans hword (by decide)
  exact (stands_of_toNat hword (by simpa using hbits)).fields_pack h

theorem isFinite_iff : x.isFinite ↔ magnitude x < infinity := (stands x).isFinite_iff

theorem value_eq (h : magnitude x < infinity) :
    value x = (if isNegative x then -1 else 1) * wordValue (magnitude x) :=
  (stands x).valueOf_eq h

end Words

end Abacus.Binary64
