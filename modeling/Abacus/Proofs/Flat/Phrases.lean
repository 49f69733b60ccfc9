import Abacus.Proofs.Expr.Value
import Abacus.Proofs.Flat.Machine

/-!
# Phrases on the stack

Taking in a phrase of the grammar comes down to the outcome of its tree: either
the first division by zero in it is the fault, or its value is the operand on
the same stack as before. The stack has to leave the phrase alone, that is,
nothing on it may bind its first part closer than the phrase itself does.
-/

namespace Abacus.Flat

/-- Nothing at the top of the stack takes away a part of a phrase of the rule. -/
def Fits (rule : Rule) : List Pending → Prop
  | .negation :: _ => rule = .factor
  | .operation operator _ _ :: _ => operator.rank.level < rule.level
  | _ => True

theorem fits_nil (rule : Rule) : Fits rule [] := trivial

theorem fits_bracket (rule : Rule) (position : Nat) (pending : List Pending) :
    Fits rule (.bracket position :: pending) := trivial

theorem fits_factor (pending : List Pending) : Fits .factor pending := by
  match pending with
  | [] | .bracket _ :: _ => trivial
  | .negation :: _ => exact rfl
  | .operation operator _ _ :: _ => exact operator.rank.level_lt

theorem fits_operand (operator : Operator) (position : Nat) (left : Float)
    (pending : List Pending) :
    Fits operator.rank.operand (.operation operator position left :: pending) := by
  simp [Fits]

theorem Fits.operand {rank : Rank} {pending : List Pending} (h : Fits rank.rule pending) :
    Fits rank.operand pending := by
  match pending with
  | [] | .bracket _ :: _ => trivial
  | .negation :: _ => cases rank <;> cases h
  | .operation operator _ _ :: _ =>
    simp only [Fits, Rank.level_rule, Rank.level_operand] at h ⊢
    omega

theorem Fits.settle_eq {rank : Rank} {pending : List Pending} (h : Fits rank.rule pending)
    (operand : Float) : settle rank.level pending operand = .ok (pending, operand) := by
  match pending with
  | [] | .bracket _ :: _ => rfl
  | .negation :: _ => cases rank <;> cases h
  | .operation operator _ _ :: _ =>
    simp only [Fits, Rank.level_rule] at h
    simp [settle, Nat.not_le.mpr h]

variable {limit : Option Nat} {pending : List Pending} {operand : Float} {token : Token}
  {stream : Stream} {operator : Operator}

theorem run_negation (hhead : stream.head = .ok token) :
    run limit ⟨.negation :: pending, some operand⟩ stream =
      run limit ⟨pending, some (-operand)⟩ stream := by
  have hlevel : token.kind.level ≤ 2 := by
    unfold Kind.level
    cases token.kind.operator? with
    | none => exact Nat.zero_le 2
    | some operator => exact Nat.le_of_lt operator.rank.level_lt
  rw [run_settle hhead hlevel, run_settle hhead hlevel]
  rfl

/-- An operation is carried out before a token that binds no closer. -/
theorem run_operation {position : Nat} {left : Float} (hhead : stream.head = .ok token)
    (hlevel : token.kind.level ≤ operator.rank.level) (hfits : Fits operator.rank.rule pending) :
    run limit ⟨.operation operator position left :: pending, some operand⟩ stream =
      operator.apply position left operand >>= fun value =>
        run limit ⟨pending, some value⟩ stream := by
  rw [run_settle hhead hlevel]
  simp only [settle, Nat.le_refl, ↓reduceIte]
  cases operator.apply position left operand with
  | error fault => rfl
  | ok value =>
    simp only [bind, Except.bind, hfits.settle_eq]

theorem run_operator (hoperator : token.kind.operator? = some operator)
    (hfits : Fits operator.rank.rule pending) (left : Float) :
    run limit ⟨pending, some left⟩ (stream.prepend [token]) =
      run limit ⟨.operation operator token.position left :: pending, none⟩ stream := by
  have hlevel : token.kind.level = operator.rank.level := by simp [Kind.level, hoperator]
  simp only [run, Stream.fold_cons, step, hlevel, hfits.settle_eq, receive, hoperator]
  rfl

theorem run_bracketClose {position : Nat} (hkind : token.kind = .bracketClose) (value : Float)
    (stream : Stream) :
    run limit ⟨.bracket position :: pending, some value⟩ (stream.prepend [token]) =
      run limit ⟨pending, some value⟩ stream := by
  simp only [run, Stream.fold_cons, step, hkind, settle, receive, Kind.operator?]
  rfl

/-- A bracketed phrase is taken in as what is inside, whatever comes behind it. -/
theorem run_bracketed {opening closing : Token} {tokens : List Token}
    {outcome : Except Fault Float} (hopening : opening.kind = .bracketOpen)
    (hclosing : closing.kind = .bracketClose)
    (hinner : run none ⟨.bracket opening.position :: pending, none⟩
        ((stream.prepend [closing]).prepend tokens) =
      outcome >>= fun value =>
        run none ⟨.bracket opening.position :: pending, some value⟩ (stream.prepend [closing])) :
    run none ⟨pending, none⟩ (stream.prepend (opening :: (tokens ++ [closing]))) =
      outcome >>= fun value => run none ⟨pending, some value⟩ stream := by
  have hstream : stream.prepend (opening :: (tokens ++ [closing])) =
      ((stream.prepend [closing]).prepend tokens).prepend [opening] := by
    rw [← Stream.prepend_append, ← Stream.prepend_append]
    rfl
  rw [hstream, run_shift (exceeds_none _) (shift_bracketOpen hopening _), hinner]
  exact bind_congr fun value => run_bracketClose hclosing value stream

/-- Without a limit, a phrase is taken in as the outcome of its tree. -/
theorem run_derives {rule : Rule} {tokens : List Token} {tree : Expr Token}
    (h : Derives rule tokens tree) (hfits : Fits rule pending) (hhead : stream.head = .ok token)
    (hlevel : token.kind.level ≤ rule.level) :
    run none ⟨pending, none⟩ (stream.prepend tokens) =
      tree.outcome Token.value >>= fun value => run none ⟨pending, some value⟩ stream := by
  induction h generalizing pending stream token with
  | @number number hkind =>
    rw [run_shift (exceeds_none _) (shift_number hkind pending)]
    rfl
  | @negation minus tokens tree hkind _ ih =>
    change run none _ ((stream.prepend tokens).prepend [minus]) = _
    rw [run_shift (exceeds_none _) (shift_minus hkind pending), ih (fits_factor _) hhead hlevel,
      Expr.outcome_negation]
    cases tree.outcome Token.value with
    | error fault => rfl
    | ok value => exact run_negation hhead
  | @bracketed opening tokens tree closing hopening _ hclosing ih =>
    have hzero : closing.kind.level ≤ Rule.expression.level := by
      simp [hclosing, Kind.level, Kind.operator?]
    exact run_bracketed hopening hclosing (ih (fits_bracket _ _ _) rfl hzero)
  | @operand rank tokens tree _ ih =>
    refine ih hfits.operand hhead ?_
    simp only [Rank.level_rule, Rank.level_operand] at hlevel ⊢
    omega
  | @operation operator left l sign right r _ hoperator _ ihl ihr =>
    -- the operator ends the left operand, and the token behind ends the right one
    have hsign : sign.kind.level ≤ operator.rank.rule.level := by simp [Kind.level, hoperator]
    have hright : token.kind.level ≤ operator.rank.operand.level := by
      simp only [Rank.level_rule, Rank.level_operand] at hlevel ⊢
      omega
    rw [Stream.prepend_append, ← List.singleton_append, Stream.prepend_append,
      ihl hfits (Stream.head_prepend_cons sign [] _) hsign, Expr.outcome_operation, bind_assoc]
    apply bind_congr
    intro x
    rw [run_operator hoperator hfits, ihr (fits_operand _ _ _ _) hhead hright, bind_assoc]
    apply bind_congr
    intro y
    rw [Rank.level_rule] at hlevel
    exact run_operation hhead hlevel hfits

end Abacus.Flat
