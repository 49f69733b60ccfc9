import Abacus.Proofs.Binary64.Rounding

/-!
# What the shortest decimal keeps

The shortest decimal of a word is read back as that word. It may stand on either
side of the value of the word, but no bound that is itself read as a word at or
above it comes between the two.
-/

namespace Abacus.Decimal

open Binary64 (wordValue infinity nearestWord significand exponent)

def value (d : Decimal) : ℚ := d.coefficient / 10 ^ d.scale

variable {d e : Decimal} {word n : Nat}

theorem cast_unit (scale : Nat) : ((Nat.pow 10 scale : Nat) : ℚ) = 10 ^ scale := by
  change ((10 ^ scale : Nat) : ℚ) = 10 ^ scale
  push_cast
  rfl

theorem value_eq (d : Decimal) : d.value = d.coefficient / (Nat.pow 10 d.scale : Nat) := by
  rw [cast_unit, value]

theorem unit_pos (scale : Nat) : 0 < Nat.pow 10 scale := Nat.pow_pos (by decide)

theorem word_mono (h : d.value ≤ e.value) : d.word ≤ e.word := by
  rw [value_eq, value_eq] at h
  exact Binary64.nearestWord_mono (unit_pos _) (unit_pos _) h

theorem word_congr (h : d.value = e.value) : d.word = e.word := by
  rw [value_eq, value_eq] at h
  exact Binary64.nearestWord_congr (unit_pos _) (unit_pos _) h

theorem word_eq (hword : word < infinity) (h : d.value = wordValue word) : d.word = word := by
  rw [value_eq] at h
  exact Binary64.nearestWord_eq (unit_pos _) hword h

theorem value_le_iff :
    d.value ≤ e.value ↔ d.coefficient * 10 ^ e.scale ≤ e.coefficient * 10 ^ d.scale := by
  rw [value, value, div_le_div_iff₀ (by positivity) (by positivity)]
  exact_mod_cast Iff.rfl

theorem value_ofWord (word : Nat) : (ofWord word).value = wordValue word := by
  unfold ofWord
  dsimp only
  split
  next hzero =>
    subst hzero
    simp [value, wordValue, significand]
  next =>
    have hten : (10 : ℚ) ^ (-exponent word).toNat =
        2 ^ (-exponent word).toNat * 5 ^ (-exponent word).toNat := by
      rw [← mul_pow]
      norm_num
    change
      ((significand word * 2 ^ (exponent word).toNat * 5 ^ (-exponent word).toNat : Nat) : ℚ) /
        10 ^ (-exponent word).toNat = significand word * 2 ^ exponent word
    rw [Binary64.two_zpow_eq, hten]
    push_cast
    field_simp

theorem neighbour?_sound {p : Nat → Bool} {unit m : Nat} (h : neighbour? p n unit = some m) :
    p m = true := by
  unfold neighbour? at h
  dsimp only at h
  split at h
  next hboth =>
    obtain ⟨hbelow, habove⟩ := Bool.and_eq_true_iff.mp hboth
    obtain rfl : Binary64.roundHalfEven n unit * unit = m := Option.some.inj h
    rcases Binary64.roundHalfEven_eq_or n unit with hdown | hup
    · rwa [hdown]
    · rwa [hup, Nat.succ_mul]
  next =>
    split at h
    next hbelow => exact Option.some.inj h ▸ hbelow
    next =>
      split at h
      next habove => exact Option.some.inj h ▸ habove
      next => exact absurd h (Option.some_ne_none m).symm

theorem shorten_sound {p : Nat → Bool} (h : p n = true) (cut : Nat) :
    p (shorten p n cut) = true := by
  induction cut with
  | zero => exact h
  | succ cut ih =>
    rw [shorten]
    split
    next hsome => exact neighbour?_sound hsome
    next => exact ih

/-- The shortest decimal is read back. -/
theorem word_shortest (hword : word < infinity) : (shortest word).word = word := by
  have hexact : (ofWord word).word = word := word_eq hword (value_ofWord word)
  exact of_decide_eq_true (@shorten_sound _
    (fun n => Decimal.word ⟨n, (ofWord word).scale⟩ = word) (decide_eq_true hexact) _)

theorem value_shortest_lt (hword : word < infinity) (h : wordValue word < e.value)
    (he : e.value ≤ wordValue e.word) : (shortest word).value < e.value := by
  by_contra hle
  have hbelow : word ≤ e.word :=
    calc word = (ofWord word).word := (word_eq hword (value_ofWord word)).symm
      _ ≤ e.word := word_mono ((value_ofWord word).trans_le h.le)
  have habove : e.word ≤ word :=
    calc e.word ≤ (shortest word).word := word_mono (not_lt.mp hle)
      _ = word := word_shortest hword
  rw [← Nat.le_antisymm hbelow habove] at he
  exact absurd h (not_lt.mpr he)

/-- Only the word of a bound itself may have a shortest decimal on the other side of the bound. -/
theorem le_value_shortest (hword : word < infinity) (h : e.value ≤ wordValue word)
    (he : e.value ≤ (shortest e.word).value) : e.value ≤ (shortest word).value := by
  by_contra hlt
  have hbelow : e.word ≤ word :=
    calc e.word ≤ (ofWord word).word := word_mono (h.trans_eq (value_ofWord word).symm)
      _ = word := word_eq hword (value_ofWord word)
  have habove : word ≤ e.word :=
    calc word = (shortest word).word := (word_shortest hword).symm
      _ ≤ e.word := word_mono (not_le.mp hlt).le
  rw [Nat.le_antisymm hbelow habove] at he
  exact hlt he

section Order

theorem lt_length_ofNat_iff {k : Nat} (hn : 0 < n) :
    k < (Text.ofNat n).length ↔ 10 ^ k ≤ n := by
  unfold Text.ofNat
  rcases Nat.eq_zero_or_pos k with rfl | hk
  · exact iff_of_true Nat.length_toDigits_pos hn
  · rw [← Nat.not_le, Nat.length_toDigits_le_iff (by decide) hk, Nat.not_lt]

/-- The order is the exponent of the largest power of ten that is not above the value. -/
theorem le_order_iff (hd : 0 < d.coefficient) (k : ℤ) : k ≤ d.order ↔ 10 ^ k ≤ d.value := by
  have hscale : (10 : ℚ) ^ k ≤ d.value ↔ (10 : ℚ) ^ (k + d.scale) ≤ d.coefficient := by
    rw [value, le_div_iff₀ (by positivity), zpow_add₀ (by norm_num), zpow_natCast]
  have hpos : 0 < (Text.ofNat d.coefficient).length := Nat.length_toDigits_pos
  rw [hscale, order]
  rcases lt_or_ge (k + (d.scale : ℤ)) 0 with hneg | hnonneg
  · have hone : (10 : ℚ) ^ (k + d.scale) ≤ 1 := zpow_le_one_of_nonpos₀ (by norm_num) hneg.le
    have hcoefficient : (1 : ℚ) ≤ d.coefficient := Nat.one_le_cast.mpr hd
    exact iff_of_true (by omega) (hone.trans hcoefficient)
  · obtain ⟨m, hm⟩ := Int.eq_ofNat_of_zero_le hnonneg
    have hlength := @lt_length_ofNat_iff d.coefficient m hd
    have hcast : (10 : ℚ) ^ m ≤ d.coefficient ↔ 10 ^ m ≤ d.coefficient := by
      exact_mod_cast Iff.rfl
    rw [hm, zpow_natCast, hcast, ← hlength]
    omega

theorem isPositional_iff (hd : 0 < d.coefficient) :
    d.isPositional ↔ 1 / 10000 ≤ d.value ∧ d.value < 10 ^ 16 := by
  have hlower : -4 ≤ d.order ↔ 1 / 10000 ≤ d.value := by
    rw [le_order_iff hd]
    norm_num
  have hupper : d.order < 16 ↔ d.value < 10 ^ 16 := by
    rw [← not_le, ← not_le, le_order_iff hd]
    norm_num
  rw [isPositional, Bool.and_eq_true, decide_eq_true_iff, decide_eq_true_iff, hlower, hupper]

theorem coefficient_shortest_pos (hpos : 0 < word) (hword : word < infinity) :
    0 < (shortest word).coefficient := by
  by_contra hzero
  have h := word_shortest hword
  rw [Decimal.word, Nat.eq_zero_of_not_pos hzero, nearestWord, if_pos rfl] at h
  omega

/-- A finite word below `10 ^ 16` is written without an exponent from `1 / 10000` on. -/
theorem isPositional_shortest_iff (hword : word < infinity) (hpos : 0 < word)
    (h : wordValue word < 10 ^ 16) :
    (shortest word).isPositional ↔ 1 / 10000 ≤ wordValue word := by
  have htenthousandth : value ⟨1, 4⟩ = 1 / 10000 := by norm_num [value]
  have hlimit : value ⟨10 ^ 16, 0⟩ = 10 ^ 16 := by norm_num [value]
  have hbelow : (shortest word).value < 10 ^ 16 := by
    rw [← hlimit]
    refine value_shortest_lt hword (hlimit ▸ h) ?_
    rw [← value_ofWord, value_le_iff]
    decide +kernel
  rw [isPositional_iff (coefficient_shortest_pos hpos hword), and_iff_left hbelow]
  constructor
  · intro hle
    by_contra hlt
    refine absurd hle (not_le.mpr ?_)
    rw [← htenthousandth]
    refine value_shortest_lt hword (htenthousandth ▸ not_le.mp hlt) ?_
    rw [← value_ofWord, value_le_iff]
    decide +kernel
  · intro hle
    rw [← htenthousandth]
    refine le_value_shortest hword (htenthousandth ▸ hle) ?_
    rw [value_le_iff]
    decide +kernel

end Order

end Abacus.Decimal
