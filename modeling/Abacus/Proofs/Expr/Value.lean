import Abacus.Expr

/-!
# Values of trees

A tree has a value in double precision whether or not it divides by zero on the
way. Apart from it stand the divisions by zero, in the order in which they are
met: operands from left to right, and an operation behind its operands. The
outcome of a tree is its value, or the fault of the first of them.
-/

namespace Abacus

namespace Operator

/-- The operation in double precision. -/
def compute : Operator → Float → Float → Float
  | add, left, right => left + right
  | subtract, left, right => left - right
  | multiply, left, right => left * right
  | divide, left, right => left / right

/-- Whether the operation divides by a zero of either sign. -/
def dividesByZero (operator : Operator) (right : Float) : Bool := operator = divide && right == 0.0

theorem apply_eq (operator : Operator) (position : Nat) (left right : Float) :
    operator.apply position left right =
      if operator.dividesByZero right then .error (.divisionByZero position)
      else .ok (operator.compute left right) := by
  cases operator <;> simp [apply, dividesByZero, compute]

theorem apply_error {operator : Operator} {position : Nat} {left right : Float} {fault : Fault}
    (h : operator.apply position left right = .error fault) :
    operator = .divide ∧ fault = .divisionByZero position := by
  rw [apply_eq] at h
  split at h
  next hzero =>
    have hdivide : operator = .divide := by simp_all [dividesByZero]
    exact ⟨hdivide, (Except.error.inj h).symm⟩
  next => cases h

end Operator

namespace Expr

variable {α : Type} (leaf : α → Float)

def value : Expr α → Float
  | .leaf a => leaf a
  | .negation operand => -operand.value
  | .operation operator _ left right => operator.compute left.value right.value

/-- The positions of the divisions by zero, in the order in which they are met. -/
def zeroDivisions : Expr α → List Nat
  | .leaf _ => []
  | .negation operand => operand.zeroDivisions
  | .operation operator position left right =>
    left.zeroDivisions ++ right.zeroDivisions ++
      if operator.dividesByZero (right.value leaf) then [position] else []

/-- The value of a tree, or the fault of its first division by zero. -/
def outcome (tree : Expr α) : Except Fault Float :=
  match tree.zeroDivisions leaf with
  | [] => .ok (tree.value leaf)
  | position :: _ => .error (.divisionByZero position)

theorem outcome_eq_ok_iff {tree : Expr α} {value : Float} :
    tree.outcome leaf = .ok value ↔ tree.zeroDivisions leaf = [] ∧ tree.value leaf = value := by
  unfold outcome
  cases tree.zeroDivisions leaf with
  | nil => simp
  | cons position later => simp

theorem outcome_negation (operand : Expr α) :
    outcome leaf (.negation operand) = (operand.outcome leaf).map (- ·) := by
  simp only [outcome, zeroDivisions, value]
  cases operand.zeroDivisions leaf <;> rfl

/-- Both operands come before their operation, the left one first. -/
theorem outcome_operation (operator : Operator) (position : Nat) (left right : Expr α) :
    outcome leaf (.operation operator position left right) =
      left.outcome leaf >>= fun x => right.outcome leaf >>= fun y =>
        operator.apply position x y := by
  simp only [outcome, zeroDivisions, value, Operator.apply_eq]
  cases left.zeroDivisions leaf with
  | cons _ _ => rfl
  | nil =>
    cases right.zeroDivisions leaf with
    | cons _ _ => rfl
    | nil =>
      by_cases h : operator.dividesByZero (right.value leaf) <;> simp [h, bind, Except.bind]

end Expr

end Abacus
