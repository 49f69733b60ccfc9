import Abacus.Proofs.Decimal.Shortest

/-!
# The texts of doubles

An integer is displayed in all its digits. Any other finite double is displayed
as a sign and the shortest decimal of its magnitude, which is then below
`2 ^ 53`.
-/

namespace Abacus

namespace Text

/-- The sign of a number in front of the text of its magnitude. -/
def signed (negative : Bool) (text : Text) : Text := if negative then '-' :: text else text

theorem ofInt_eq_toString (n : ℤ) : ofInt n = (toString n).toList := by
  cases n with
  | ofNat n => exact Nat.toList_repr.symm
  | negSucc n => simp [ofInt, ofNat, toString, Int.repr]

theorem ofInt_eq_signed (negative : Bool) {n : Nat} (h : negative → 0 < n) :
    ofInt (if negative then -n else n) = signed negative (ofNat n) := by
  cases negative with
  | false => rfl
  | true =>
    obtain ⟨k, rfl⟩ := Nat.exists_eq_succ_of_ne_zero (h rfl).ne'
    rfl

end Text

namespace Binary64

open Text (signed)

variable {x : Float} {word : Nat} {n : ℤ}

section Signs

theorem abs_value (h : magnitude x < infinity) : |value x| = wordValue (magnitude x) := by
  rw [value_eq h, abs_mul, abs_of_nonneg (wordValue_nonneg _)]
  cases isNegative x <;> simp

theorem value_eq_zero_iff (h : magnitude x < infinity) : value x = 0 ↔ magnitude x = 0 := by
  have hpos := @wordValue_pos_iff (magnitude x)
  have hnonneg := wordValue_nonneg (magnitude x)
  rw [← abs_eq_zero, abs_value h]
  constructor
  · intro hzero
    rw [hzero] at hpos
    have := mt hpos.mpr (lt_irrefl 0)
    omega
  · intro hzero
    exact le_antisymm (not_lt.mp (mt hpos.mp (by omega))) hnonneg

theorem value_neg_iff (h : magnitude x < infinity) :
    value x < 0 ↔ isNegative x ∧ 0 < magnitude x := by
  rw [value_eq h, ← wordValue_pos_iff]
  have hnonneg := wordValue_nonneg (magnitude x)
  cases isNegative x with
  | false => simpa using hnonneg
  | true => simp

theorem value_abs (h : magnitude x < infinity) : value x.abs = |value x| := by
  obtain ⟨hsign, hmagnitude⟩ := fields_abs h.le
  rw [abs_value h, value_eq (hmagnitude ▸ h), hsign, hmagnitude]
  simp

end Signs

section Integers

theorem wordValue_eq_div (word : Nat) :
    wordValue word = (significand word * Nat.pow 2 (exponent word).toNat : Nat) /
      (Nat.pow 2 (-exponent word).toNat : Nat) := by
  change _ = ((significand word * 2 ^ (exponent word).toNat : Nat) : ℚ) /
    (2 ^ (-exponent word).toNat : Nat)
  rw [wordValue, two_zpow_eq]
  push_cast
  field_simp

theorem div_eq_natCast_iff {a b : Nat} (hb : 0 < b) (n : Nat) :
    (a / b : ℚ) = n ↔ a % b = 0 ∧ a / b = n := by
  rw [div_eq_iff (by positivity)]
  constructor
  · intro h
    obtain rfl : a = n * b := by exact_mod_cast h
    exact ⟨Nat.mul_mod_left n b, Nat.mul_div_cancel n hb⟩
  · rintro ⟨hmod, rfl⟩
    exact_mod_cast (Nat.div_mul_cancel (Nat.dvd_of_mod_eq_zero hmod)).symm

theorem eq_intCast_iff {r : ℚ} (hr : 0 ≤ r) : r = n ↔ ∃ k : Nat, r = k ∧ n = k := by
  constructor
  · rintro rfl
    obtain ⟨k, rfl⟩ := Int.eq_ofNat_of_zero_le (Int.cast_nonneg_iff.mp hr)
    exact ⟨k, Int.cast_natCast k, rfl⟩
  · rintro ⟨k, hr, rfl⟩
    exact hr.trans (Int.cast_natCast k).symm

theorem value_eq_intCast_iff (h : magnitude x < infinity) :
    value x = n ↔
      ∃ k : Nat, wordValue (magnitude x) = k ∧ n = if isNegative x then -(k : ℤ) else k := by
  have hnonneg := wordValue_nonneg (magnitude x)
  rw [value_eq h]
  cases isNegative x with
  | false => simpa using eq_intCast_iff hnonneg
  | true =>
    have hflip : -wordValue (magnitude x) = n ↔ wordValue (magnitude x) = (-n : ℤ) := by
      rw [Int.cast_neg, neg_eq_iff_eq_neg]
    have hiff := @eq_intCast_iff (-n) _ hnonneg
    rw [← hflip] at hiff
    simpa [neg_eq_iff_eq_neg] using hiff

theorem integer?_eq_some_iff : integer? x = some n ↔ magnitude x < infinity ∧ value x = n := by
  have hiff := @div_eq_natCast_iff
    (significand (magnitude x) * Nat.pow 2 (exponent (magnitude x)).toNat)
    (Nat.pow 2 (-exponent (magnitude x)).toNat) (Nat.two_pow_pos _)
  simp only [← wordValue_eq_div] at hiff
  unfold integer?
  dsimp only
  split
  next hinteger =>
    obtain ⟨hfinite, hmod⟩ := hinteger
    rw [and_iff_right hfinite, value_eq_intCast_iff hfinite, Option.some_inj]
    simp only [hiff, hmod, true_and, exists_eq_left']
    exact eq_comm
  next hnone =>
    refine iff_of_false (Option.some_ne_none n).symm ?_
    rintro ⟨hfinite, hvalue⟩
    obtain ⟨k, hk, -⟩ := (value_eq_intCast_iff hfinite).mp hvalue
    exact hnone ⟨hfinite, ((hiff k).mp hk).1⟩

/-- A value with a fraction leaves bits of the significand behind the point. -/
theorem wordValue_lt_of_ne_natCast (h : ∀ k : Nat, wordValue word ≠ k) :
    wordValue word < 2 ^ 53 := by
  have hnegative : exponent word < 0 := by
    by_contra hnonneg
    refine h (significand word * 2 ^ (exponent word).toNat) ?_
    have hzero : (-exponent word).toNat = 0 := by omega
    rw [wordValue, two_zpow_eq, hzero]
    push_cast
    ring
  calc wordValue word ≤ significand word * 1 := by
        unfold wordValue
        gcongr
        exact zpow_le_one_of_nonpos₀ (by norm_num) hnegative.le
    _ < 2 ^ 53 := by
        rw [mul_one]
        exact_mod_cast significand_lt word

end Integers

section Displays

theorem display_integer (h : magnitude x < infinity) (hvalue : value x = n) :
    display x = Text.ofInt n := by
  rw [display, integer?_eq_some_iff.mpr ⟨h, hvalue⟩]

theorem display_of_not_integer (h : magnitude x < infinity → ¬∃ n : ℤ, value x = n) :
    display x = text x := by
  have hnone : integer? x = none := by
    cases hinteger : integer? x with
    | none => rfl
    | some n =>
      obtain ⟨hfinite, hvalue⟩ := integer?_eq_some_iff.mp hinteger
      exact absurd ⟨n, hvalue⟩ (h hfinite)
  rw [display, hnone]

theorem text_finite (h : magnitude x < infinity) :
    text x = signed (isNegative x) (Decimal.shortest (magnitude x)).text := by
  unfold text
  dsimp only
  rw [if_neg (Nat.lt_asymm h), if_neg (Nat.ne_of_lt h)]
  rfl

theorem text_not_finite (h : ¬magnitude x < infinity) :
    text x = signed (isNegative x) "inf".toList ∨ text x = "nan".toList := by
  unfold text
  dsimp only
  split
  · exact .inr rfl
  next hle =>
    have heq : magnitude x = infinity := by omega
    rw [if_pos heq]
    exact .inl rfl

end Displays

end Binary64

end Abacus
