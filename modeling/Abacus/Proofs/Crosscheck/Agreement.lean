import Abacus.Crosscheck.Comparison
import Abacus.Proofs.Exact.Reals

/-!
# Agreement without integers

Where all numerals of an expression have a point, its value in double precision
is the very double of its exact evaluation, and both divide by the same zero
first. A double is close to itself unless it is no number, so the comparison has
nothing to report on such an expression.
-/

namespace Abacus

namespace Binary64

open Float.Model

theorem isNaN_iff {x : Float} : x.isNaN ↔ x.toModel.unpack = .notANumber := by
  change UnpackedFloat.isNaN x.toModel.unpack = true ↔ _
  cases x.toModel.unpack <;> constructor <;> intro h <;> first | rfl | cases h

theorem isNaN_sub {x : Float} (h : x.isNaN) (y : Float) : (x - y).isNaN := by
  have hsub (other : UnpackedFloat) :
      UnpackedFloat.sub Format.binary64 .notANumber other = .notANumber := by
    cases other <;> rfl
  rw [isNaN_iff] at h ⊢
  change (pack (UnpackedFloat.sub _ x.toModel.unpack _)).unpack = _
  rw [h, hsub]
  rfl

theorem isNaN_abs {x : Float} (h : x.isNaN) : x.abs.isNaN := by
  rw [isNaN_iff] at h ⊢
  change (pack (UnpackedFloat.abs x.toModel.unpack)).unpack = _
  rw [h]
  rfl

theorem not_le_of_isNaN {x : Float} (h : x.isNaN) (y : Float) : ¬ x ≤ y := by
  intro hle
  have hunpacked : x.toModel.unpack.le y.toModel.unpack = true := of_decide_eq_true hle
  rw [isNaN_iff.mp h] at hunpacked
  cases hunpacked

theorem beq_self (x : Float) : (x == x) = !x.isNaN := by
  change (x.toModel.unpack.compare x.toModel.unpack == some .eq) = !x.toModel.unpack.isNaN
  cases x.toModel.unpack with
  | infinity sign => cases sign <;> rfl
  | notANumber => rfl
  | zero sign => cases sign <;> rfl
  | finite sign mantissa exponent _ =>
    have hself : (compare exponent exponent).then (compare mantissa mantissa) = .eq := by
      rw [Int.compare_eq_eq.mpr rfl, Nat.compare_eq_eq.mpr rfl]
      rfl
    cases sign with
    | positive =>
      change (some ((compare exponent exponent).then (compare mantissa mantissa)) ==
        some .eq) = true
      rw [hself]
      rfl
    | negative =>
      change (some ((compare exponent exponent).then (compare mantissa mantissa)).swap ==
        some .eq) = true
      rw [hself]
      rfl

end Binary64

namespace Crosscheck

variable {source : Text} {tree : Expr Token} {limit : Nat}

/-- What is no number is close to nothing, as no distance from it is a number. -/
theorem isClose_self (x : Float) : isClose x x = !x.isNaN := by
  have hself := Binary64.beq_self x
  cases hnan : x.isNaN with
  | false =>
    rw [hnan] at hself
    simp only [isClose, hself, Bool.not_false, Bool.true_or]
  | true =>
    have hdistance := Binary64.not_le_of_isNaN (Binary64.isNaN_abs (Binary64.isNaN_sub hnan x))
    rw [hnan] at hself
    simp only [isClose, hself, hdistance, decide_false, Bool.or_self, Bool.and_false, Bool.not_true]

theorem agree_ofOutcome {outcome : Except Fault Float}
    (hclose : ∀ x, outcome = .ok x → isClose x x) :
    agree (Exact.ofOutcome outcome) outcome = .ok true := by
  cases outcome with
  | ok x => exact congrArg Except.ok (hclose x rfl)
  | error fault => rfl

theorem checkAll_of_check (h : check source = .ok []) (before after : List Text) :
    checkAll (before ++ source :: after) = checkAll (before ++ after) := by
  simp only [checkAll, List.mapM_append, List.mapM_cons, h]
  cases before.mapM check with
  | error failure => rfl
  | ok earlier =>
    cases after.mapM check with
    | error failure => rfl
    | ok later =>
      simp [bind, Except.bind, pure, Except.pure]

theorem check_eq (h : Expresses source tree) (hpointed : Exact.Pointed source)
    (hbrackets : Exact.evaluate source ≠ .error .tooManyBrackets)
    (hdeep : evaluate source ≠ .error .nestingTooDeep)
    (hclose : ∀ x, evaluate source = .ok x → isClose x x) : check source = .ok [] := by
  have hvalue : evaluate source = tree.outcome Token.value := h.evaluateWithin_eq hdeep
  have hagree : agree (Exact.evaluate source) (evaluate source) = .ok true := by
    rw [Exact.evaluate_eq h hpointed hbrackets, ← hvalue]
    exact agree_ofOutcome hclose
  unfold check
  split
  · rfl
  · simp [hagree, bind, Except.bind, pure, Except.pure]

/-- Without integers, the two evaluations of an expression yield the same double or divide by
zero both. The comparison is silent on it, unless the double is no number. -/
theorem evaluations_agree (h : ∃ tree, Expresses source tree) (hpointed : Exact.Pointed source)
    (hbrackets : Exact.evaluate source ≠ .error .tooManyBrackets) :
    (∀ limit, evaluateWithin limit source ≠ .error .nestingTooDeep →
      (∀ x, evaluateWithin limit source = .ok x ↔ Exact.evaluate source = .ok (.real x)) ∧
      ((∀ x, evaluateWithin limit source ≠ .ok x) →
        exactText (Exact.evaluate source) = "float division by zero".toList ∧
        ∃ position, evaluateWithin limit source = .error (.divisionByZero position))) ∧
    (evaluate source ≠ .error .nestingTooDeep →
      (∀ x, evaluate source = .ok x → isClose x x) →
      ∀ before after, checkAll (before ++ source :: after) = checkAll (before ++ after)) ∧
    ∀ x, isClose x x ↔ ¬ x.isNaN := by
  obtain ⟨tree, htree⟩ := h
  have hexact := Exact.evaluate_eq htree hpointed hbrackets
  refine ⟨?_, ?_, ?_⟩
  · intro limit hdeep
    rw [hexact, htree.evaluateWithin_eq hdeep, Expr.outcome]
    split
    next hzero => simp [Exact.ofOutcome]
    next position later hzero =>
      exact ⟨by simp [Exact.ofOutcome], fun _ => ⟨rfl, position, rfl⟩⟩
  · intro hdeep hclose
    exact checkAll_of_check (check_eq htree hpointed hbrackets hdeep hclose)
  · intro x
    simp [isClose_self]

theorem evaluations_agree_on_product :
    let source := "-(1.5 - .25) * 2.".toList
    Exact.evaluate source = .ok (.real (-2.5)) ∧
      ∀ before after, checkAll (before ++ source :: after) = checkAll (before ++ after) := by
  intro source
  have hvalue : evaluateWithin frames source = .ok (-2.5) := by decide +kernel
  have hdeep : evaluateWithin frames source ≠ .error .nestingTooDeep := by simp [hvalue]
  have hexpresses : ∃ tree, Expresses source tree := by
    obtain ⟨tree, htree, -⟩ := expresses_of_evaluateWithin hvalue
    exact ⟨tree, expresses_iff.mpr htree⟩
  have hpointed : Exact.Pointed source := by
    have htokens : tokenize source = .ok [⟨.minus, ['-'], 0⟩, ⟨.bracketOpen, ['('], 1⟩,
        ⟨.number, ['1', '.', '5'], 2⟩, ⟨.minus, ['-'], 6⟩, ⟨.number, ['.', '2', '5'], 8⟩,
        ⟨.bracketClose, [')'], 11⟩, ⟨.star, ['*'], 13⟩, ⟨.number, ['2', '.'], 15⟩,
        .atEnd 17] := by
      decide +kernel
    intro tokens h
    obtain rfl := Except.ok.inj (htokens.symm.trans h)
    decide
  have hbrackets : Exact.evaluate source ≠ .error .tooManyBrackets := by
    have hsome : (Exact.evaluate source).toOption.isSome := by decide +kernel
    intro h
    rw [h] at hsome
    cases hsome
  obtain ⟨hvalues, hsilent, hclose⟩ := evaluations_agree hexpresses hpointed hbrackets
  refine ⟨((hvalues frames hdeep).1 _).mp hvalue, hsilent hdeep ?_⟩
  intro x hx
  obtain rfl := Except.ok.inj (hvalue.symm.trans hx)
  exact (hclose _).mpr (by decide +kernel)

end Crosscheck

end Abacus
