import Abacus.Proofs.Binary64.Fields

/-!
# Rounding to the nearest word

The word nearest to a quotient depends on the value of the quotient alone and
grows with it, and it is the word of that value if there is one.
-/

namespace Abacus.Binary64

theorem wordValue_nonneg (word : Nat) : 0 ≤ wordValue word := by
  unfold wordValue
  positivity

section Integers

variable {a b c d : Nat}

theorem roundHalfEven_eq_or (a b : Nat) :
    roundHalfEven a b = a / b ∨ roundHalfEven a b = a / b + 1 := by
  unfold roundHalfEven
  dsimp only
  split
  · exact .inl rfl
  · exact .inr rfl

/-- What is rounded down stays so when it shrinks above the same integer. -/
theorem half_of_half (hd : 0 < d) (hb : 0 < b) (hquotient : a / b = c / d) (h : a * d ≤ c * b)
    (hhalf : 2 * (c % d) < d ∨ 2 * (c % d) = d ∧ c / d % 2 = 0) :
    2 * (a % b) < b ∨ 2 * (a % b) = b ∧ a / b % 2 = 0 := by
  have ha := Nat.div_add_mod a b
  have hc := Nat.div_add_mod c d
  rw [← hquotient] at hc hhalf
  have hrest : a % b * d ≤ c % d * b := by
    have hleft : a * d = b * d * (a / b) + a % b * d := by
      nth_rewrite 1 [← ha]
      ring
    have hright : c * b = b * d * (a / b) + c % d * b := by
      nth_rewrite 1 [← hc]
      ring
    omega
  rcases hhalf with hlt | ⟨heq, heven⟩
  · left
    by_contra hge
    have hleft : b * d ≤ 2 * (a % b) * d := Nat.mul_le_mul_right d (by omega)
    have hright : 2 * (c % d) * b < d * b := Nat.mul_lt_mul_of_pos_right hlt hb
    linarith
  · rcases Nat.lt_trichotomy (2 * (a % b)) b with hlt | heq' | hgt
    · exact .inl hlt
    · exact .inr ⟨heq', heven⟩
    · have hleft : b * d < 2 * (a % b) * d := Nat.mul_lt_mul_of_pos_right hgt hd
      have hright : 2 * (c % d) * b = d * b := by rw [heq]
      linarith

theorem roundHalfEven_mono (hb : 0 < b) (hd : 0 < d) (h : (a / b : ℚ) ≤ c / d) :
    roundHalfEven a b ≤ roundHalfEven c d := by
  have hcross : a * d ≤ c * b := by
    rw [div_le_div_iff₀ (by positivity) (by positivity)] at h
    exact_mod_cast h
  have hquotient : a / b ≤ c / d := by
    rw [Nat.le_div_iff_mul_le hd]
    have hfloor : a / b * b ≤ a := Nat.div_mul_le_self a b
    refine Nat.le_of_mul_le_mul_right ?_ hb
    calc a / b * d * b = a / b * b * d := by ring
      _ ≤ a * d := Nat.mul_le_mul_right d hfloor
      _ ≤ c * b := hcross
  rcases Nat.lt_or_eq_of_le hquotient with hlt | heq
  · rcases roundHalfEven_eq_or a b with ha | ha <;>
      rcases roundHalfEven_eq_or c d with hc | hc <;> omega
  · unfold roundHalfEven
    dsimp only
    split
    · split <;> omega
    next hup =>
      rw [if_neg fun hhalf => hup (half_of_half hd hb heq hcross hhalf), heq]

theorem roundHalfEven_one (n : Nat) : roundHalfEven n 1 = n := by
  simp [roundHalfEven, Nat.mod_one]

theorem le_roundHalfEven {n : Nat} (hb : 0 < b) (h : (n : ℚ) ≤ a / b) :
    n ≤ roundHalfEven a b := by
  rw [← roundHalfEven_one n]
  exact roundHalfEven_mono Nat.one_pos hb (by simpa using h)

theorem roundHalfEven_le {n : Nat} (hb : 0 < b) (h : (a / b : ℚ) ≤ n) :
    roundHalfEven a b ≤ n := by
  rw [← roundHalfEven_one n]
  exact roundHalfEven_mono hb Nat.one_pos (by simpa using h)

end Integers

section Scale

theorem two_zpow_eq (k : ℤ) : (2 : ℚ) ^ k = 2 ^ k.toNat / 2 ^ (-k).toNat := by
  rcases Int.le_total 0 k with h | h
  · obtain ⟨n, rfl⟩ := Int.eq_ofNat_of_zero_le h
    simp
  · obtain ⟨n, hn⟩ := Int.eq_ofNat_of_zero_le (Int.neg_nonneg_of_nonpos h)
    obtain rfl : k = -n := by omega
    simp

theorem scaled_eq (a b : Nat) (k : ℤ) :
    ((a * Nat.pow 2 (-k).toNat : Nat) : ℚ) / (b * Nat.pow 2 k.toNat : Nat) = a / b / 2 ^ k := by
  change ((a * 2 ^ (-k).toNat : Nat) : ℚ) / (b * 2 ^ k.toNat : Nat) = _
  rw [two_zpow_eq]
  push_cast
  field_simp

theorem scaled_pos {b : Nat} (hb : 0 < b) (k : ℤ) : 0 < b * Nat.pow 2 k.toNat :=
  Nat.mul_pos hb (Nat.two_pow_pos _)

theorem floorLog_eq {a b : Nat} (ha : 0 < a) (hb : 0 < b) :
    floorLog a b = Int.log 2 (a / b : ℚ) := by
  have hquotient : (0 : ℚ) < a / b := by positivity
  -- Between the powers of two around `a` and `b` there is room for two logarithms.
  set k : ℤ := (a.log2 : ℤ) - b.log2 with hk
  have hlower : k - 1 ≤ Int.log 2 (a / b : ℚ) := by
    rw [← Int.zpow_le_iff_le_log (by decide) hquotient, le_div_iff₀ (by positivity)]
    have ha' : ((2 ^ a.log2 : Nat) : ℚ) ≤ a := Nat.cast_le.mpr (Nat.log2_self_le (by omega))
    have hb' : (b : ℚ) ≤ (2 ^ (b.log2 + 1) : Nat) := Nat.cast_le.mpr Nat.lt_log2_self.le
    calc ((2 : Nat) : ℚ) ^ (k - 1) * b ≤ 2 ^ (k - 1) * (2 ^ (b.log2 + 1) : Nat) := by
          push_cast at hb' ⊢
          gcongr
      _ = (2 ^ a.log2 : Nat) := by
          push_cast
          rw [← zpow_natCast, ← zpow_natCast, ← zpow_add₀ (by norm_num)]
          congr 1
          push_cast
          omega
      _ ≤ a := ha'
  have hupper : Int.log 2 (a / b : ℚ) < k + 1 := by
    rw [← Int.lt_zpow_iff_log_lt (by decide) hquotient, div_lt_iff₀ (by positivity)]
    have ha' : (a : ℚ) < (2 ^ (a.log2 + 1) : Nat) := Nat.cast_lt.mpr Nat.lt_log2_self
    have hb' : ((2 ^ b.log2 : Nat) : ℚ) ≤ b := Nat.cast_le.mpr (Nat.log2_self_le (by omega))
    calc (a : ℚ) < (2 ^ (a.log2 + 1) : Nat) := ha'
      _ = 2 ^ (k + 1) * (2 ^ b.log2 : Nat) := by
          push_cast
          rw [← zpow_natCast, ← zpow_natCast, ← zpow_add₀ (by norm_num)]
          congr 1
          push_cast
          omega
      _ ≤ ((2 : Nat) : ℚ) ^ (k + 1) * b := by
          push_cast at hb' ⊢
          gcongr
  have hbelow : a * Nat.pow 2 (-k).toNat < b * Nat.pow 2 k.toNat ↔
      Int.log 2 (a / b : ℚ) < k := by
    have hpos : (0 : ℚ) < (b * Nat.pow 2 k.toNat : Nat) := Nat.cast_pos.mpr (scaled_pos hb k)
    have hpower : (0 : ℚ) < 2 ^ k := by positivity
    rw [← Int.lt_zpow_iff_log_lt (by decide) hquotient, Nat.cast_ofNat, ← div_lt_one hpower,
      ← scaled_eq, div_lt_one hpos, Nat.cast_lt]
  unfold floorLog
  rw [← hk]
  dsimp only
  split
  next hlt =>
    have := hbelow.mp hlt
    omega
  next hge =>
    have := mt hbelow.mpr hge
    omega

end Scale

section Words

/-- The power of two that the last bit of the double nearest to a positive number counts. -/
def unit (r : ℚ) : ℤ := max (Int.log 2 r - 52) (-1074)

theorem nearestWord_eq_min {a b : Nat} (ha : 0 < a) (hb : 0 < b) :
    nearestWord a b = min ((unit (a / b) + 1074).toNat * 2 ^ 52 +
      roundHalfEven (a * Nat.pow 2 (-unit (a / b)).toNat) (b * Nat.pow 2 (unit (a / b)).toNat))
      infinity := by
  rw [nearestWord, if_neg (by omega), floorLog_eq ha hb]
  rfl

theorem unit_mono {r s : ℚ} (hr : 0 < r) (h : r ≤ s) : unit r ≤ unit s := by
  have := @Int.log_mono_right ℚ _ _ _ _ 2 r s hr h
  unfold unit
  omega

theorem le_unit (r : ℚ) : -1074 ≤ unit r := le_max_right _ _

theorem div_unit_lt (r : ℚ) : r / 2 ^ unit r < 2 ^ 53 := by
  have hlt : r < 2 ^ (Int.log 2 r + 1) := Int.lt_zpow_succ_log_self (by decide) r
  rw [div_lt_iff₀ (by positivity)]
  calc r < 2 ^ (Int.log 2 r + 1) := hlt
    _ ≤ 2 ^ (53 + unit r) := by
        apply zpow_le_zpow_right₀ (by norm_num)
        unfold unit
        omega
    _ = 2 ^ 53 * 2 ^ unit r := by
        rw [zpow_add₀ (by norm_num)]
        norm_num

theorem le_div_unit {r : ℚ} (hr : 0 < r) (h : -1074 < unit r) : 2 ^ 52 ≤ r / 2 ^ unit r := by
  have hle : 2 ^ Int.log 2 r ≤ r := Int.zpow_log_le_self (by decide) hr
  rw [le_div_iff₀ (by positivity)]
  calc (2 : ℚ) ^ 52 * 2 ^ unit r = 2 ^ (52 + unit r) := by
        rw [zpow_add₀ (by norm_num)]
        norm_num
    _ ≤ 2 ^ Int.log 2 r := by
        apply zpow_le_zpow_right₀ (by norm_num)
        unfold unit at h ⊢
        omega
    _ ≤ r := hle

theorem nearestWord_mono {a b c d : Nat} (hb : 0 < b) (hd : 0 < d) (h : (a / b : ℚ) ≤ c / d) :
    nearestWord a b ≤ nearestWord c d := by
  rcases Nat.eq_zero_or_pos a with rfl | ha
  · simp [nearestWord]
  have hr : (0 : ℚ) < a / b := by positivity
  have hs : (0 : ℚ) < c / d := hr.trans_le h
  have hc : 0 < c := by
    rcases Nat.eq_zero_or_pos c with rfl | hc
    · simp at hs
    · exact hc
  rw [nearestWord_eq_min ha hb, nearestWord_eq_min hc hd]
  refine min_le_min_right _ ?_
  have hbottom := le_unit (a / b)
  rcases (unit_mono hr h).eq_or_lt with heq | hlt
  · rw [heq]
    refine Nat.add_le_add_left (roundHalfEven_mono (scaled_pos hb _) (scaled_pos hd _) ?_) _
    rw [scaled_eq, scaled_eq]
    gcongr
  · -- The smaller number is rounded to at most the first word with the next unit.
    have hsmall : roundHalfEven (a * Nat.pow 2 (-unit (a / b)).toNat)
        (b * Nat.pow 2 (unit (a / b)).toNat) ≤ 2 ^ 53 := by
      refine roundHalfEven_le (scaled_pos hb _) ?_
      rw [scaled_eq]
      exact_mod_cast (div_unit_lt _).le
    have hlarge : 2 ^ 52 ≤ roundHalfEven (c * Nat.pow 2 (-unit (c / d)).toNat)
        (d * Nat.pow 2 (unit (c / d)).toNat) := by
      refine le_roundHalfEven (scaled_pos hd _) ?_
      rw [scaled_eq]
      exact_mod_cast le_div_unit hs (by omega)
    have hstep : (unit (a / b) + 1074).toNat + 1 ≤ (unit (c / d) + 1074).toNat := by omega
    have := Nat.mul_le_mul_right (2 ^ 52) hstep
    omega

/-- The nearest word depends on the value alone. -/
theorem nearestWord_congr {a b c d : Nat} (hb : 0 < b) (hd : 0 < d) (h : (a / b : ℚ) = c / d) :
    nearestWord a b = nearestWord c d :=
  le_antisymm (nearestWord_mono hb hd h.le) (nearestWord_mono hd hb h.ge)

variable {word : Nat}

theorem le_exponent (word : Nat) : -1074 ≤ exponent word := by
  change -1074 ≤ ((max (word / 2 ^ 52) 1 : Nat) : Int) - 1075
  omega

theorem word_eq (word : Nat) :
    (exponent word + 1074).toNat * 2 ^ 52 + significand word = word := by
  change (((max (word / 2 ^ 52) 1 : Nat) : Int) - 1075 + 1074).toNat * 2 ^ 52 +
    (if word < 2 ^ 52 then word else 2 ^ 52 + word % 2 ^ 52) = word
  split <;> omega

theorem significand_lt (word : Nat) : significand word < 2 ^ 53 := by
  change (if word < 2 ^ 52 then word else 2 ^ 52 + word % 2 ^ 52) < 2 ^ 53
  split <;> omega

theorem significand_pos (h : 0 < word) : 0 < significand word := by
  change 0 < if word < 2 ^ 52 then word else 2 ^ 52 + word % 2 ^ 52
  split <;> omega

theorem wordValue_pos_iff : 0 < wordValue word ↔ 0 < word := by
  constructor
  · intro h
    by_contra hzero
    obtain rfl : word = 0 := by omega
    simp [wordValue, significand] at h
  · intro h
    have hsignificand : 0 < significand word := significand_pos h
    unfold wordValue
    positivity

/-- Only the smallest unit is counted by fewer than 53 bits. -/
theorem exponent_eq_or (word : Nat) : exponent word = -1074 ∨ 2 ^ 52 ≤ significand word := by
  change ((max (word / 2 ^ 52) 1 : Nat) : Int) - 1075 = -1074 ∨
    2 ^ 52 ≤ if word < 2 ^ 52 then word else 2 ^ 52 + word % 2 ^ 52
  split <;> omega

theorem unit_wordValue (h : 0 < word) : unit (wordValue word) = exponent word := by
  have hpos : 0 < wordValue word := wordValue_pos_iff.mpr h
  have hlog : Int.log 2 (wordValue word) < exponent word + 53 := by
    rw [← Int.lt_zpow_iff_log_lt (by decide) hpos, wordValue, Nat.cast_ofNat,
      zpow_add₀ (by norm_num), mul_comm]
    gcongr
    exact_mod_cast significand_lt word
  have hbottom := le_exponent word
  rcases exponent_eq_or word with hleast | hnormal
  · unfold unit
    omega
  · have hle : exponent word + 52 ≤ Int.log 2 (wordValue word) := by
      rw [← Int.zpow_le_iff_le_log (by decide) hpos, wordValue, Nat.cast_ofNat,
        zpow_add₀ (by norm_num), mul_comm]
      gcongr
      exact_mod_cast hnormal
    unfold unit
    omega

/-- A quotient that is the value of a word is rounded to that word. -/
theorem nearestWord_eq {a b : Nat} (hb : 0 < b) (hword : word < infinity)
    (h : (a / b : ℚ) = wordValue word) : nearestWord a b = word := by
  rcases Nat.eq_zero_or_pos word with rfl | hpos
  · have ha : a = 0 := by
      have hzero : wordValue 0 = 0 := by simp [wordValue, significand]
      rw [hzero, div_eq_zero_iff] at h
      have hne : (b : ℚ) ≠ 0 := by positivity
      exact_mod_cast h.resolve_right hne
    simp [ha, nearestWord]
  have ha : 0 < a := by
    rcases Nat.eq_zero_or_pos a with rfl | ha
    · have hvalue : 0 < wordValue word := wordValue_pos_iff.mpr hpos
      simp [← h] at hvalue
    · exact ha
  have hround : roundHalfEven (a * Nat.pow 2 (-exponent word).toNat)
      (b * Nat.pow 2 (exponent word).toNat) = significand word := by
    have hscaled : ((a * Nat.pow 2 (-exponent word).toNat : Nat) : ℚ) /
        (b * Nat.pow 2 (exponent word).toNat : Nat) = significand word := by
      rw [scaled_eq, h, wordValue, mul_div_assoc, div_self (by positivity), mul_one]
    exact le_antisymm (roundHalfEven_le (scaled_pos hb _) hscaled.le)
      (le_roundHalfEven (scaled_pos hb _) hscaled.ge)
  rw [nearestWord_eq_min ha hb, h, unit_wordValue hpos, hround, word_eq, min_eq_left hword.le]

end Words

end Abacus.Binary64
