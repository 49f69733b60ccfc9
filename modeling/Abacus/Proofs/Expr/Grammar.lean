import Abacus.Expr

/-!
# The grammar

    expression = term { ("+" | "-") term }
    term       = factor { ("*" | "/") factor }
    factor     = number | "(" expression ")" | "-" factor

A derivation carries the tree of its tokens. The operations of one rank are
grouped from the left, and each keeps the position of its operator.
-/

namespace Abacus

/-- The level of the operators of a kind. What is no operator has the lowest one. -/
def Kind.level (kind : Kind) : Nat := kind.operator?.elim 0 (·.rank.level)

theorem Kind.ne_of_operator? {kind other : Kind} {operator : Operator}
    (h : kind.operator? = some operator) (hother : other.operator? = none) : kind ≠ other := by
  rintro rfl
  rw [hother] at h
  cases h

theorem Kind.operator?_cases (kind : Kind) (rank : Rank) :
    (∀ operator, kind.operator? = some operator → operator.rank ≠ rank) ∨
      ∃ operator, kind.operator? = some operator ∧ operator.rank = rank := by
  by_cases h : ∃ operator, kind.operator? = some operator ∧ operator.rank = rank
  · exact .inr h
  · left
    intro operator hoperator hrank
    exact h ⟨operator, hoperator, hrank⟩

theorem Kind.eq_slash {kind : Kind} (h : kind.operator? = some .divide) : kind = .slash := by
  cases kind <;> first | rfl | cases h

inductive Rule where
  | expression
  | term
  | factor
deriving DecidableEq

namespace Rule

/-- The level that an operator needs in order not to be read by the rule from within. -/
def level : Rule → Nat
  | expression => 0
  | term => 1
  | factor => 2

/-- The rule leaves a token of the given kind to others: it is no operator of the rule. -/
def EndsAt (rule : Rule) (kind : Kind) : Prop :=
  ∀ operator, kind.operator? = some operator → operator.rank.level < rule.level

end Rule

namespace Rank

/-- The rule whose operators are those of the rank. -/
def rule : Rank → Rule
  | additive => .expression
  | multiplicative => .term

/-- The rule of the operands of the rank. -/
def operand : Rank → Rule
  | additive => .term
  | multiplicative => .factor

@[simp] theorem level_rule (rank : Rank) : rank.rule.level = rank.level := by cases rank <;> rfl

@[simp] theorem level_operand (rank : Rank) : rank.operand.level = rank.level + 1 := by
  cases rank <;> rfl

/-- Operands are read by a rule that binds closer. -/
theorem level_rule_le_operand (rank : Rank) : rank.rule.level ≤ rank.operand.level := by
  rw [level_rule, level_operand]
  exact Nat.le_succ rank.level

theorem level_lt (rank : Rank) : rank.level < 2 := by cases rank <;> decide

theorem eq_of_level_eq {rank other : Rank} (h : rank.level = other.level) : rank = other := by
  cases rank <;> cases other <;> first | rfl | cases h

end Rank

theorem Rule.endsAt_factor (kind : Kind) : Rule.factor.EndsAt kind :=
  fun operator _ => operator.rank.level_lt

/-- What is behind an operand binds no closer than the operators of the rank. -/
theorem Rule.EndsAt.level_le {rank : Rank} {kind : Kind} (h : rank.operand.EndsAt kind) :
    kind.level ≤ rank.level := by
  unfold Kind.level
  cases hoperator : kind.operator? with
  | none => exact Nat.zero_le _
  | some operator =>
    have hlt := h operator hoperator
    rw [Rank.level_operand] at hlt
    exact Nat.le_of_lt_succ hlt

theorem Rule.EndsAt.of_rank_ne {rank : Rank} {kind : Kind} (h : rank.operand.EndsAt kind)
    (hne : ∀ operator, kind.operator? = some operator → operator.rank ≠ rank) :
    rank.rule.EndsAt kind := by
  intro operator hoperator
  have hlt := h operator hoperator
  have hlevel := mt Rank.eq_of_level_eq (hne operator hoperator)
  rw [Rank.level_operand] at hlt
  rw [Rank.level_rule]
  omega

/-- The tokens are a phrase of the rule, and the tree is theirs. -/
inductive Derives : Rule → List Token → Expr Token → Prop
  | number {token} : token.kind = .number → Derives .factor [token] (.leaf token)
  | negation {token tokens tree} : token.kind = .minus → Derives .factor tokens tree →
      Derives .factor (token :: tokens) (.negation tree)
  | bracketed {opening tokens tree closing} : opening.kind = .bracketOpen →
      Derives .expression tokens tree → closing.kind = .bracketClose →
      Derives .factor (opening :: (tokens ++ [closing])) tree
  | operand {rank : Rank} {tokens tree} : Derives rank.operand tokens tree →
      Derives rank.rule tokens tree
  | operation {operator : Operator} {left l token right r} : Derives operator.rank.rule left l →
      token.kind.operator? = some operator → Derives operator.rank.operand right r →
      Derives operator.rank.rule (left ++ token :: right) (.operation operator token.position l r)

namespace Derives

theorem ne_nil {rule : Rule} {tokens : List Token} {tree : Expr Token}
    (h : Derives rule tokens tree) : tokens ≠ [] := by
  induction h <;> simp_all

theorem of_level_le {rule other : Rule} {tokens : List Token} {tree : Expr Token}
    (h : Derives rule tokens tree) (hlevel : other.level ≤ rule.level) :
    Derives other tokens tree := by
  have hadditive (h : Derives .term tokens tree) : Derives .expression tokens tree :=
    @operand .additive tokens tree h
  have hmultiplicative (h : Derives .factor tokens tree) : Derives .term tokens tree :=
    @operand .multiplicative tokens tree h
  cases rule with
  | expression =>
    cases other with
    | expression => exact h
    | term => exact absurd hlevel (by decide)
    | factor => exact absurd hlevel (by decide)
  | term =>
    cases other with
    | expression => exact hadditive h
    | term => exact h
    | factor => exact absurd hlevel (by decide)
  | factor =>
    cases other with
    | expression => exact hadditive (hmultiplicative h)
    | term => exact hmultiplicative h
    | factor => exact h

end Derives

end Abacus
