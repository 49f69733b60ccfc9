import Abacus.Proofs.Decimal.Shortest

/-!
# Decimals as numerals

What is written without an exponent is a numeral, and the numeral denotes a
decimal of the same value. What is written with an exponent is a numeral up to
the letter in front of the exponent.
-/

namespace Abacus

namespace Text

/-- A text that is one numeral from its first to its last character. -/
structure IsWholeNumeral (run : Text) : Prop where
  all : run.all isNumeralChar
  numeral : isNumeral run

variable {digits whole fraction : Text}

theorem IsWholeNumeral.ne_nil {run : Text} (h : IsWholeNumeral run) : run ≠ [] := by
  rintro rfl
  exact absurd h.numeral (by decide)

theorem all_numeralChar_of_digits (h : digits.all Char.isDigit) : digits.all isNumeralChar := by
  rw [List.all_eq_true] at h ⊢
  intro c hc
  rw [isNumeralChar, h c hc, Bool.true_or]

theorem ne_point_of_digits (h : digits.all Char.isDigit) {c : Char} (hc : c ∈ digits) :
    c ≠ '.' := by
  rintro rfl
  exact absurd (List.all_eq_true.mp h _ hc) (by decide)

theorem count_point_of_digits (h : digits.all Char.isDigit) : digits.count '.' = 0 :=
  List.count_eq_zero_of_not_mem fun hmem => ne_point_of_digits h hmem rfl

theorem any_isDigit_of_digits (hne : digits ≠ []) (h : digits.all Char.isDigit) :
    digits.any Char.isDigit := by
  obtain ⟨c, rest, rfl⟩ := List.exists_cons_of_ne_nil hne
  exact List.any_eq_true.mpr ⟨c, List.mem_cons_self, List.all_eq_true.mp h c List.mem_cons_self⟩

theorem isWholeNumeral_digits (hne : digits ≠ []) (h : digits.all Char.isDigit) :
    IsWholeNumeral digits := by
  constructor
  · exact all_numeralChar_of_digits h
  · rw [isNumeral, any_isDigit_of_digits hne h, count_point_of_digits h]
    rfl

theorem isWholeNumeral_point (hne : whole ≠ []) (hwhole : whole.all Char.isDigit)
    (hfraction : fraction.all Char.isDigit) : IsWholeNumeral (whole ++ '.' :: fraction) := by
  constructor
  · rw [List.all_append, List.all_cons, all_numeralChar_of_digits hwhole,
      all_numeralChar_of_digits hfraction]
    rfl
  · rw [isNumeral, List.any_append, any_isDigit_of_digits hne hwhole, List.count_append,
      List.count_cons_self, count_point_of_digits hwhole, count_point_of_digits hfraction]
    rfl

theorem all_isDigit_ofNat (n : Nat) : (ofNat n).all Char.isDigit :=
  List.all_eq_true.mpr fun _ hc => Nat.isDigit_of_mem_toDigits (by decide) (by decide) hc

theorem ofNat_ne_nil (n : Nat) : ofNat n ≠ [] := Nat.toDigits_ne_nil

theorem isWholeNumeral_ofNat (n : Nat) : IsWholeNumeral (ofNat n) :=
  isWholeNumeral_digits (ofNat_ne_nil n) (all_isDigit_ofNat n)

theorem ofDigitChars_ofNat (n : Nat) : Nat.ofDigitChars 10 (ofNat n) 0 = n :=
  Nat.ofDigitChars_ten_toDigits

end Text

namespace Decimal

open Text (IsWholeNumeral)

variable {digits whole fraction : Text}

theorem ofNumeral_digits (h : digits.all Char.isDigit) :
    ofNumeral digits = ⟨Nat.ofDigitChars 10 digits 0, 0⟩ := by
  have hdrop : digits.dropWhile (fun c => decide (c ≠ '.')) = [] :=
    List.dropWhile_eq_nil_iff.mpr fun c hc => decide_eq_true (Text.ne_point_of_digits h hc)
  rw [ofNumeral, hdrop, List.filter_eq_self.mpr (List.all_eq_true.mp h)]
  rfl

theorem ofNumeral_point (hwhole : whole.all Char.isDigit) (hfraction : fraction.all Char.isDigit) :
    ofNumeral (whole ++ '.' :: fraction) =
      ⟨Nat.ofDigitChars 10 (whole ++ fraction) 0, fraction.length⟩ := by
  have hfilter : (whole ++ '.' :: fraction).filter Char.isDigit = whole ++ fraction := by
    rw [List.filter_append, List.filter_cons_of_neg (by decide),
      List.filter_eq_self.mpr (List.all_eq_true.mp hwhole),
      List.filter_eq_self.mpr (List.all_eq_true.mp hfraction)]
  have hdrop : (whole ++ '.' :: fraction).dropWhile (fun c => decide (c ≠ '.')) =
      '.' :: fraction := by
    rw [List.dropWhile_append_of_pos fun c hc =>
      decide_eq_true (Text.ne_point_of_digits hwhole hc)]
    rfl
  rw [ofNumeral, hfilter, hdrop]
  rfl

theorem ofNumeral_ofNat (n : Nat) : ofNumeral (Text.ofNat n) = ⟨n, 0⟩ := by
  rw [ofNumeral_digits (Text.all_isDigit_ofNat n), Text.ofDigitChars_ofNat]

/-- The value of the digits behind a point. -/
def fractionValue (digits : Text) : ℚ := Nat.ofDigitChars 10 digits 0 / 10 ^ digits.length

theorem value_ofNumeral_point (hwhole : whole.all Char.isDigit)
    (hfraction : fraction.all Char.isDigit) :
    (ofNumeral (whole ++ '.' :: fraction)).value =
      Nat.ofDigitChars 10 whole 0 + fractionValue fraction := by
  rw [ofNumeral_point hwhole hfraction, value, Nat.ofDigitChars_append,
    Nat.ofDigitChars_eq_ofDigitChars_zero, fractionValue]
  push_cast
  field_simp

section Zeros

theorem exists_trimZeros_append (digits : Text) :
    ∃ k, trimZeros digits ++ List.replicate k '0' = digits := by
  refine ⟨(digits.reverse.takeWhile (· = '0')).length, ?_⟩
  have hzeros : digits.reverse.takeWhile (· = '0') =
      List.replicate (digits.reverse.takeWhile (· = '0')).length '0' := by
    rw [List.eq_replicate_iff]
    refine ⟨rfl, fun c hc => ?_⟩
    simpa using List.mem_takeWhile_imp hc
  rw [trimZeros, ← List.reverse_replicate, ← hzeros, ← List.reverse_append,
    List.takeWhile_append_dropWhile, List.reverse_reverse]

theorem all_trimZeros {p : Char → Bool} (h : digits.all p) : (trimZeros digits).all p := by
  obtain ⟨k, hk⟩ := exists_trimZeros_append digits
  rw [← hk, List.all_append, Bool.and_eq_true] at h
  exact h.1

theorem fractionValue_trimZeros (digits : Text) :
    fractionValue (trimZeros digits) = fractionValue digits := by
  obtain ⟨k, hk⟩ := exists_trimZeros_append digits
  nth_rewrite 2 [← hk]
  rw [fractionValue, fractionValue, Nat.ofDigitChars_append, Nat.ofDigitChars_replicate_zero,
    List.length_append, List.length_replicate, pow_add]
  push_cast
  field_simp

theorem trimZeros_ofNat_ne_nil {n : Nat} (h : 0 < n) : trimZeros (Text.ofNat n) ≠ [] := by
  intro hnil
  obtain ⟨k, hk⟩ := exists_trimZeros_append (Text.ofNat n)
  have hvalue := Text.ofDigitChars_ofNat n
  rw [← hk, hnil, List.nil_append, Nat.ofDigitChars_replicate_zero] at hvalue
  omega

end Zeros

section Padding

variable {width n : Nat}

theorem all_isDigit_padded (width n : Nat) : (padded width n).all Char.isDigit := by
  rw [padded, List.all_append, Text.all_isDigit_ofNat, Bool.and_true, List.all_replicate]
  split <;> rfl

theorem ofDigitChars_padded (width n : Nat) : Nat.ofDigitChars 10 (padded width n) 0 = n := by
  rw [padded, Nat.ofDigitChars_append, Nat.ofDigitChars_replicate_zero, Nat.mul_zero,
    Text.ofDigitChars_ofNat]

theorem fractionValue_padded (h : n < 10 ^ width) :
    fractionValue (padded width n) = n / 10 ^ width := by
  rw [fractionValue, ofDigitChars_padded]
  rcases Nat.eq_zero_or_pos width with rfl | hwidth
  · obtain rfl : n = 0 := by omega
    simp
  · have hlength : (Text.ofNat n).length ≤ width :=
      (Nat.length_toDigits_le_iff (by decide) hwidth).mpr h
    rw [padded, List.length_append, List.length_replicate, Nat.sub_add_cancel hlength]

end Padding

variable {d : Decimal}

theorem exists_positional (d : Decimal) :
    ∃ fraction : Text, d.positional =
        Text.ofNat (d.coefficient / 10 ^ d.scale) ++ '.' :: fraction ∧
      fraction.all Char.isDigit ∧
      fractionValue fraction = (d.coefficient % 10 ^ d.scale : Nat) / 10 ^ d.scale := by
  have hlt : d.coefficient % 10 ^ d.scale < 10 ^ d.scale :=
    Nat.mod_lt _ (Nat.pow_pos (by decide))
  have hvalue := fractionValue_trimZeros (padded d.scale (d.coefficient % 10 ^ d.scale))
  rw [fractionValue_padded hlt] at hvalue
  refine ⟨_, rfl, ?_, ?_⟩
  · split
    · rfl
    · exact all_trimZeros (all_isDigit_padded _ _)
  · split
    next hnil =>
      change trimZeros (padded d.scale (d.coefficient % 10 ^ d.scale)) = [] at hnil
      rw [← hvalue, hnil]
      simp [fractionValue, Nat.ofDigitChars]
    next => exact hvalue

theorem isWholeNumeral_positional (d : Decimal) : IsWholeNumeral d.positional := by
  obtain ⟨fraction, htext, hdigits, -⟩ := exists_positional d
  rw [htext]
  exact Text.isWholeNumeral_point (Text.ofNat_ne_nil _) (Text.all_isDigit_ofNat _) hdigits

/-- What is written without an exponent is read back to the last digit. -/
theorem value_ofNumeral_positional (d : Decimal) : (ofNumeral d.positional).value = d.value := by
  obtain ⟨fraction, htext, hdigits, hfraction⟩ := exists_positional d
  have hsplit : (d.coefficient : ℚ) =
      10 ^ d.scale * (d.coefficient / 10 ^ d.scale : Nat) +
        (d.coefficient % 10 ^ d.scale : Nat) := by
    exact_mod_cast (Nat.div_add_mod d.coefficient (10 ^ d.scale)).symm
  rw [htext, value_ofNumeral_point (Text.all_isDigit_ofNat _) hdigits, Text.ofDigitChars_ofNat,
    hfraction, value, hsplit]
  field_simp

/-- What is written with an exponent starts with a numeral that ends in front of a letter. -/
theorem exists_scientific (h : 0 < d.coefficient) :
    ∃ numeral rest, d.scientific = numeral ++ 'e' :: rest ∧ IsWholeNumeral numeral := by
  have hne := trimZeros_ofNat_ne_nil h
  have hdigits := all_trimZeros (Text.all_isDigit_ofNat d.coefficient)
  refine ⟨_, _, rfl, ?_⟩
  split
  next first second rest heq =>
    rw [heq, List.all_cons, Bool.and_eq_true] at hdigits
    exact @Text.isWholeNumeral_point [first] (second :: rest) (List.cons_ne_nil _ _)
      (by simpa using hdigits.1) hdigits.2
  next => exact Text.isWholeNumeral_digits hne hdigits

end Decimal

end Abacus
