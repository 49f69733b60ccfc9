import Abacus.Fault

/-!
# Operations and expressions

Two ranks of two binary operators each. A zero divisor, of either sign, is a
fault; everything else is left to double precision arithmetic. An expression is
a tree of operations and negations over leaves of any type.
-/

namespace Abacus

/-- Operators of the higher rank bind their operands first. -/
inductive Rank where
  | additive
  | multiplicative
deriving DecidableEq

def Rank.level : Rank → Nat
  | .additive => 0
  | .multiplicative => 1

inductive Operator where
  | add
  | subtract
  | multiply
  | divide
deriving DecidableEq

namespace Operator

def rank : Operator → Rank
  | add | subtract => .additive
  | multiply | divide => .multiplicative

/-- The value of an operation whose operator stands at `position`. -/
def apply (operator : Operator) (position : Nat) (left right : Float) : Except Fault Float :=
  match operator with
  | add => .ok (left + right)
  | subtract => .ok (left - right)
  | multiply => .ok (left * right)
  | divide => if right == 0.0 then .error (.divisionByZero position) else .ok (left / right)

end Operator

def Kind.operator? : Kind → Option Operator
  | .plus => some .add
  | .minus => some .subtract
  | .star => some .multiply
  | .slash => some .divide
  | _ => none

/-- An expression as a tree. An operation keeps the position of its operator. -/
inductive Expr (α : Type) where
  | leaf (value : α)
  | negation (operand : Expr α)
  | operation (operator : Operator) (position : Nat) (left right : Expr α)
deriving DecidableEq

/-! ## Trees from symbols

The tree of a list of symbols is built in one pass. What waits for an operand
is kept on a stack; it is carried out once a symbol comes that binds no closer. -/

/-- A symbol of an expression. A subtraction where an operand is wanted is a negation. -/
inductive Symbol (α : Type) where
  | leaf (value : α)
  | operator (operator : Operator) (position : Nat)
  | opening
  | closing
deriving DecidableEq

namespace Expr

variable {α : Type}

/-- What waits for the operand to the right of it. -/
inductive Pending (α : Type) where
  | bracket
  | negation
  | operation (operator : Operator) (position : Nat) (left : Expr α)
deriving DecidableEq

/-- The stack of what waits, and the operand that is complete, unless one is wanted. -/
structure Progress (α : Type) where
  pending : List (Pending α)
  operand : Option (Expr α)
deriving DecidableEq

/-- Carries out what binds the operand at least as close as operators of `rank`. -/
def settle (rank : Rank) : List (Pending α) → Expr α → List (Pending α) × Expr α
  | .negation :: pending, operand => settle rank pending (.negation operand)
  | .operation operator position left :: pending, operand =>
    if rank.level ≤ operator.rank.level then
      settle rank pending (.operation operator position left operand)
    else (.operation operator position left :: pending, operand)
  | pending, operand => (pending, operand)

/-- Takes in a symbol. A pair of brackets with nothing inside may stand for a leaf. -/
def step (empty : Option α) (progress : Progress α) (symbol : Symbol α) :
    Option (Progress α) :=
  match progress.operand, symbol with
  | none, .leaf value => some ⟨progress.pending, some (.leaf value)⟩
  | none, .operator .subtract _ => some ⟨.negation :: progress.pending, none⟩
  | none, .operator _ _ => none
  | none, .opening => some ⟨.bracket :: progress.pending, none⟩
  | none, .closing =>
    match progress.pending, empty with
    | .bracket :: pending, some value => some ⟨pending, some (.leaf value)⟩
    | _, _ => none
  | some operand, .operator operator position =>
    let (pending, left) := settle operator.rank progress.pending operand
    some ⟨.operation operator position left :: pending, none⟩
  | some operand, .closing =>
    match settle .additive progress.pending operand with
    | (.bracket :: pending, inner) => some ⟨pending, some inner⟩
    | _ => none
  | some _, _ => none

/-- The tree that is complete when nothing waits any more. -/
def finish (progress : Progress α) : Option (Expr α) :=
  match progress.operand with
  | none => none
  | some operand =>
    match settle .additive progress.pending operand with
    | ([], tree) => some tree
    | _ => none

def ofSymbols? (empty : Option α) (symbols : List (Symbol α)) : Option (Expr α) := do
  finish (← symbols.foldlM (step empty) ⟨[], none⟩)

end Expr

end Abacus
