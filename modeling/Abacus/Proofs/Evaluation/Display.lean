import Abacus.Proofs.Binary64.Display
import Abacus.Proofs.Decimal.Numerals
import Abacus.Proofs.Evaluation.Machine

/-!
# Evaluating what is displayed

A displayed double is an expression as long as no exponent is needed, a numeral
with a minus sign at most in front of it, and its value is the double. The rest
starts with or runs into a letter, which belongs to no token.
-/

namespace Abacus

open Binary64 (isNegative magnitude infinity value wordValue display)
open Text (signed IsWholeNumeral)

section Signed

variable {negative : Bool} {run rest : Text} {c : Char}

/-- What waits for an operand behind a sign. -/
def signPending (negative : Bool) : List Flat.Pending := if negative then [.negation] else []

theorem exceeds_signPending (negative : Bool) :
    Flat.exceeds (some frames) (signPending negative) = false := by
  cases negative <;> rfl

theorem evaluate_signed (negative : Bool) (hblank : Text.isBlank c = false) (rest : Text) :
    evaluate (signed negative (c :: rest)) =
      Flat.run (some frames) ⟨signPending negative, none⟩
        (Cursor.stream ⟨if negative then 1 else 0, c :: rest⟩) := by
  cases negative with
  | false =>
    have hsome : Text.isAllBlank (c :: rest) = false := by simp [Text.isAllBlank, hblank]
    exact evaluateWithin_eq_run hsome
  | true =>
    have hsome : Text.isAllBlank ('-' :: c :: rest) = false := by simp [Text.isAllBlank, hblank]
    have hstream := @Cursor.stream_symbol [] rfl '-' .minus rfl 0 (c :: rest)
    change (Cursor.start ('-' :: c :: rest)).stream = _ at hstream
    change evaluateWithin frames ('-' :: c :: rest) = _
    rw [evaluateWithin_eq_run hsome, hstream, Flat.State.initial,
      Flat.run_shift rfl (Flat.shift_minus rfl [])]
    rfl

theorem run_wholeNumeral {pending : List Flat.Pending}
    (hexceeds : Flat.exceeds (some frames) pending = false) (h : IsWholeNumeral run)
    (hrest : Text.EndsRun rest) (position : Nat) :
    Flat.run (some frames) ⟨pending, none⟩ (Cursor.stream ⟨position, run ++ rest⟩) =
      Flat.run (some frames) ⟨pending, some (Decimal.ofNumeral run).toFloat⟩
        (Cursor.stream ⟨position + run.length, rest⟩) := by
  have hstream := @Cursor.stream_run [] run rest rfl h.ne_nil h.all hrest position
  rw [if_pos h.numeral] at hstream
  change Cursor.stream ⟨position, run ++ rest⟩ = _ at hstream
  rw [hstream, Flat.run_shift hexceeds (Flat.shift_number rfl pending)]
  rfl

theorem exists_cons_of_wholeNumeral (h : IsWholeNumeral run) :
    ∃ first digits, run = first :: digits ∧ Text.isBlank first = false := by
  obtain ⟨first, digits, rfl⟩ := List.exists_cons_of_ne_nil h.ne_nil
  have hfirst := List.all_eq_true.mp h.all first List.mem_cons_self
  exact ⟨first, digits, rfl, Text.isBlank_eq_false_of_isNumeralChar hfirst⟩

theorem evaluate_signed_numeral (negative : Bool) (h : IsWholeNumeral run) :
    evaluate (signed negative run) =
      .ok (if negative then -(Decimal.ofNumeral run).toFloat
        else (Decimal.ofNumeral run).toFloat) := by
  obtain ⟨first, digits, rfl, hblank⟩ := exists_cons_of_wholeNumeral h
  have hrun := run_wholeNumeral (exceeds_signPending negative) h Text.endsRun_nil
    (if negative then 1 else 0)
  rw [List.append_nil, @Cursor.stream_blank [] rfl] at hrun
  rw [evaluate_signed negative hblank, hrun, Flat.run, Stream.fold_end]
  cases negative <;> rfl

section Letters

variable (hblank : Text.isBlank c = false) (hnumeral : Text.isNumeralChar c = false)
  (hkind : Kind.ofChar? c = none)

include hblank hnumeral hkind

theorem run_letter (state : Flat.State) (position : Nat) (rest : Text) :
    Flat.run (some frames) state (Cursor.stream ⟨position, c :: rest⟩) =
      .error (.invalidCharacter c position) := by
  have hstream := @Cursor.stream_char [] c rfl hblank hnumeral position rest
  rw [hkind] at hstream
  change Cursor.stream ⟨position, c :: rest⟩ = _ at hstream
  rw [hstream]
  exact Stream.fold_fault _ _ state _

theorem evaluate_signed_letter (negative : Bool) (rest : Text) :
    ∃ position, evaluate (signed negative (c :: rest)) =
      .error (.invalidCharacter c position) := by
  rw [evaluate_signed negative hblank]
  exact ⟨_, run_letter hblank hnumeral hkind _ _ rest⟩

theorem evaluate_signed_numeral_letter (negative : Bool) (h : IsWholeNumeral run) (rest : Text) :
    ∃ position, evaluate (signed negative (run ++ c :: rest)) =
      .error (.invalidCharacter c position) := by
  have hrun := run_wholeNumeral (exceeds_signPending negative) h
    (Text.endsRun_cons hnumeral rest) (if negative then 1 else 0)
  rw [run_letter hblank hnumeral hkind] at hrun
  obtain ⟨first, digits, rfl, hfirst⟩ := exists_cons_of_wholeNumeral h
  have hsigned := evaluate_signed negative hfirst (digits ++ c :: rest)
  exact ⟨_, hsigned.trans hrun⟩

end Letters

end Signed

namespace Binary64

variable {x : Float} {n : ℤ}

/-- A finite double that needs no exponent. -/
def IsPlain (x : Float) : Prop :=
  x.isFinite ∧ ((∃ n : ℤ, value x = n) ∨ 1 / 10000 ≤ |value x|)

theorem signed_ofBits (h : magnitude x ≤ infinity) :
    (if isNegative x then -Float.ofBits (.ofNat (magnitude x))
      else Float.ofBits (.ofNat (magnitude x))) = x := by
  obtain ⟨hpositive, hword⟩ := fields_ofBits h
  cases hsign : isNegative x with
  | false => exact eq_of_fields_eq (hpositive.trans hsign.symm) hword
  | true =>
    obtain ⟨hnegative, hmagnitude⟩ := fields_neg (hword.trans_le h)
    refine eq_of_fields_eq ?_ (hmagnitude.trans hword)
    rw [if_pos rfl, hnegative, hpositive, hsign]
    rfl

/-- A numeral that denotes a decimal with the word of a double, behind the sign of the double,
is evaluated to the double. -/
theorem evaluate_of_word_eq {run : Text} (hrun : IsWholeNumeral run) (h : magnitude x < infinity)
    (hword : (Decimal.ofNumeral run).word = magnitude x) :
    evaluate (signed (isNegative x) run) = .ok x := by
  have hfloat : (Decimal.ofNumeral run).toFloat = Float.ofBits (.ofNat (magnitude x)) := by
    rw [← hword]
    rfl
  rw [evaluate_signed_numeral _ hrun, hfloat, signed_ofBits h.le]

theorem evaluate_integer (h : magnitude x < infinity) (hvalue : value x = n) :
    evaluate (display x) = .ok (if value x = 0 then 0.0 else x) := by
  obtain ⟨k, hk, hn⟩ := (value_eq_intCast_iff h).mp hvalue
  have hword : (Decimal.ofNumeral (Text.ofNat k)).word = magnitude x := by
    rw [Decimal.ofNumeral_ofNat]
    exact Decimal.word_eq h (by rw [hk]; simp [Decimal.value])
  rw [display_integer h hvalue]
  by_cases hzero : magnitude x = 0
  · -- The zeros have the same text, which has no sign.
    obtain rfl : k = 0 := by
      rw [hzero] at hk
      simpa [wordValue, significand] using hk.symm
    have hzeroText : Text.ofInt n = signed (isNegative 0.0) (Text.ofNat 0) := by
      rw [hn]
      cases isNegative x <;> rfl
    rw [if_pos ((value_eq_zero_iff h).mpr hzero), hzeroText]
    exact evaluate_of_word_eq (Text.isWholeNumeral_ofNat 0) (by decide) (by decide)
  · have hpos : 0 < k := by
      have := wordValue_pos_iff.mpr (Nat.pos_of_ne_zero hzero)
      rw [hk] at this
      exact_mod_cast this
    rw [if_neg (mt (value_eq_zero_iff h).mp hzero), hn, Text.ofInt_eq_signed _ fun _ => hpos]
    exact evaluate_of_word_eq (Text.isWholeNumeral_ofNat k) h hword

section Fractions

variable (h : magnitude x < infinity) (hfraction : ¬∃ n : ℤ, value x = n)

include h hfraction

theorem magnitude_pos_of_fraction : 0 < magnitude x := by
  refine Nat.pos_of_ne_zero fun hzero => hfraction ⟨0, ?_⟩
  rw [(value_eq_zero_iff h).mpr hzero, Int.cast_zero]

/-- Of the doubles that are no integers, those from `1 / 10000` on need no exponent. -/
theorem isPositional_iff_of_fraction :
    (Decimal.shortest (magnitude x)).isPositional ↔ 1 / 10000 ≤ |value x| := by
  have hlt : wordValue (magnitude x) < 2 ^ 53 := by
    refine wordValue_lt_of_ne_natCast fun k hk => hfraction ?_
    exact ⟨_, (value_eq_intCast_iff h).mpr ⟨k, hk, rfl⟩⟩
  rw [abs_value h]
  exact Decimal.isPositional_shortest_iff h (magnitude_pos_of_fraction h hfraction)
    (hlt.trans (by norm_num))

theorem display_fraction :
    display x = signed (isNegative x) (Decimal.shortest (magnitude x)).text :=
  (display_of_not_integer fun _ => hfraction).trans (text_finite h)

theorem evaluate_fraction (hle : 1 / 10000 ≤ |value x|) : evaluate (display x) = .ok x := by
  have hpositional := (isPositional_iff_of_fraction h hfraction).mpr hle
  have hword : (Decimal.ofNumeral (Decimal.shortest (magnitude x)).positional).word =
      magnitude x :=
    (Decimal.word_congr (Decimal.value_ofNumeral_positional _)).trans (Decimal.word_shortest h)
  rw [display_fraction h hfraction, Decimal.text, if_pos hpositional]
  exact evaluate_of_word_eq (Decimal.isWholeNumeral_positional _) h hword

theorem evaluate_small_fraction (hlt : ¬1 / 10000 ≤ |value x|) :
    ∃ position, evaluate (display x) = .error (.invalidCharacter 'e' position) := by
  have hscientific := mt (isPositional_iff_of_fraction h hfraction).mp hlt
  have hpos := Decimal.coefficient_shortest_pos (magnitude_pos_of_fraction h hfraction) h
  obtain ⟨numeral, rest, htext, hnumeral⟩ := Decimal.exists_scientific hpos
  rw [display_fraction h hfraction, Decimal.text, if_neg hscientific, htext]
  exact evaluate_signed_numeral_letter (by decide) (by decide) rfl _ hnumeral rest

end Fractions

theorem evaluate_not_finite (h : ¬magnitude x < infinity) :
    ∃ c position, evaluate (display x) = .error (.invalidCharacter c position) := by
  rw [display_of_not_integer fun hfinite => absurd hfinite h]
  rcases text_not_finite h with htext | htext
  · rw [htext]
    exact ⟨'i', evaluate_signed_letter (by decide) (by decide) rfl _ _⟩
  · rw [htext]
    exact ⟨'n', evaluate_signed_letter (by decide) (by decide) rfl false _⟩

theorem evaluate_plain (h : IsPlain x) :
    evaluate (display x) = .ok (if value x = 0 then 0.0 else x) := by
  obtain ⟨hfinite, hplain⟩ := h
  rw [isFinite_iff] at hfinite
  by_cases hinteger : ∃ n : ℤ, value x = n
  · obtain ⟨n, hvalue⟩ := hinteger
    exact evaluate_integer hfinite hvalue
  · have hne : value x ≠ 0 := fun hzero => hinteger ⟨0, by rw [hzero, Int.cast_zero]⟩
    rw [if_neg hne]
    exact evaluate_fraction hfinite hinteger (hplain.resolve_left hinteger)

theorem evaluate_not_plain (h : ¬IsPlain x) :
    ∃ c position, evaluate (display x) = .error (.invalidCharacter c position) := by
  by_cases hfinite : magnitude x < infinity
  · have hplain : ¬((∃ n : ℤ, value x = n) ∨ 1 / 10000 ≤ |value x|) :=
      fun hplain => h ⟨isFinite_iff.mpr hfinite, hplain⟩
    obtain ⟨hfraction, hsmall⟩ := not_or.mp hplain
    exact ⟨'e', evaluate_small_fraction hfinite hfraction hsmall⟩
  · exact evaluate_not_finite hfinite

section Negative

variable (h : magnitude x < infinity) (hnegative : value x < 0)

include h hnegative

theorem value_abs_of_negative : value x.abs = -value x := by
  rw [value_abs h, abs_of_neg hnegative]

theorem integer_abs_iff_of_negative :
    (∃ n : ℤ, value x.abs = n) ↔ ∃ n : ℤ, value x = n := by
  rw [value_abs_of_negative h hnegative]
  constructor
  · rintro ⟨n, hn⟩
    exact ⟨-n, by rw [Int.cast_neg, ← hn, neg_neg]⟩
  · rintro ⟨n, hn⟩
    exact ⟨-n, by rw [Int.cast_neg, hn]⟩

theorem display_negative : display x = '-' :: display x.abs := by
  obtain ⟨hsign, -⟩ := (value_neg_iff h).mp hnegative
  obtain ⟨habsSign, habs⟩ := fields_abs h.le
  have hfinite : magnitude x.abs < infinity := habs.trans_lt h
  by_cases hinteger : ∃ n : ℤ, value x = n
  · obtain ⟨n, hn⟩ := hinteger
    have hneg : value x.abs = (-n : ℤ) := by
      rw [value_abs_of_negative h hnegative, hn, Int.cast_neg]
    have hlt : n < 0 := by
      rw [hn] at hnegative
      exact_mod_cast hnegative
    obtain ⟨k, rfl⟩ := Int.eq_negSucc_of_lt_zero hlt
    rw [display_integer h hn, display_integer hfinite hneg]
    rfl
  · have hfraction := mt (integer_abs_iff_of_negative h hnegative).mp hinteger
    rw [display_fraction h hinteger, display_fraction hfinite hfraction, hsign, habsSign, habs]
    rfl

theorem neg_abs_of_negative : -x.abs = x := by
  obtain ⟨hsign, -⟩ := (value_neg_iff h).mp hnegative
  obtain ⟨habsSign, habs⟩ := fields_abs h.le
  obtain ⟨hnegSign, hneg⟩ := fields_neg (habs.trans_le h.le)
  refine eq_of_fields_eq ?_ (hneg.trans habs)
  rw [hnegSign, habsSign, hsign]
  rfl

theorem isPlain_of_abs (hplain : IsPlain x.abs) : IsPlain x := by
  obtain ⟨-, hplain⟩ := hplain
  rw [integer_abs_iff_of_negative h hnegative, value_abs h, abs_abs] at hplain
  exact ⟨isFinite_iff.mpr h, hplain⟩

theorem evaluate_negative {y : Float} (hy : evaluate (display x.abs) = .ok y) :
    evaluate (display x) = .ok (-y) := by
  have hplain : IsPlain x.abs := by
    by_contra hnot
    obtain ⟨c, position, hfault⟩ := evaluate_not_plain hnot
    rw [hfault] at hy
    cases hy
  have hvalue : value x.abs ≠ 0 := by
    rw [value_abs_of_negative h hnegative]
    exact (neg_pos.mpr hnegative).ne'
  rw [evaluate_plain hplain, if_neg hvalue] at hy
  obtain rfl := Except.ok.inj hy
  rw [evaluate_plain (isPlain_of_abs h hnegative hplain), if_neg hnegative.ne,
    neg_abs_of_negative h hnegative]

end Negative

/-- What is displayed can be fed back exactly where no exponent is needed. -/
theorem evaluate_display (x : Float) :
    (∀ n : ℤ, x.isFinite → value x = n → display x = (toString n).toList) ∧
    (IsPlain x → evaluate (display x) = .ok (if value x = 0 then 0.0 else x)) ∧
    (x.isFinite → value x < 0 →
      display x = '-' :: display x.abs ∧
        ∀ y, evaluate (display x.abs) = .ok y → evaluate (display x) = .ok (-y)) ∧
    (¬IsPlain x → ∃ c position, evaluate (display x) = .error (.invalidCharacter c position)) := by
  refine ⟨fun n hfinite hvalue => ?_, evaluate_plain, fun hfinite hnegative => ?_,
    evaluate_not_plain⟩
  · rw [display_integer (isFinite_iff.mp hfinite) hvalue, Text.ofInt_eq_toString]
  · rw [isFinite_iff] at hfinite
    exact ⟨display_negative hfinite hnegative, fun y => evaluate_negative hfinite hnegative⟩

/-- The double next to `-10 ^ 23` is displayed in full and comes back from its 23 digits. -/
theorem evaluate_display_large :
    display (-1e23) = "-99999999999999991611392".toList ∧
      evaluate (display (-1e23)) = .ok (-1e23) := by
  have hfinite : (-1e23 : Float).isFinite := by decide +kernel
  have hvalue : value (-1e23) = (-99999999999999991611392 : ℤ) :=
    (integer?_eq_some_iff.mp (by decide +kernel)).2
  obtain ⟨hdisplay, heval, -, -⟩ := evaluate_display (-1e23)
  constructor
  · exact (hdisplay _ hfinite hvalue).trans (by decide +kernel)
  · have hne : value (-1e23) ≠ 0 := by
      rw [hvalue]
      norm_num
    rw [heval ⟨hfinite, .inl ⟨_, hvalue⟩⟩, if_neg hne]

end Binary64

end Abacus
