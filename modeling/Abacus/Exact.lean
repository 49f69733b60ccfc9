import Abacus.Expr
import Abacus.Token.Listing

/-!
# Exact evaluation

Another evaluation of sources, in which a numeral without a point is an exact
integer. The whole source is read before anything is computed. Sources are cut
into symbols at all the blanks of the calculator, where the notation that this
evaluation follows takes only spaces, tabs and form feeds inside an expression;
a source with other blanks in it is read all the same.
-/

namespace Abacus.Exact

/-! ## Exact values

Integers stay exact as long as they meet only integers and no division. Where
an integer meets a double it becomes the nearest double; a quotient of integers
is the double nearest to it. Besides numbers there are the empty tuple and the
ellipsis, which hardly any operation takes. -/

inductive Value where
  | integer (n : Int)
  | real (x : Float)
  | emptyTuple
  | ellipsis

inductive Failure where
  | malformed
  | leadingZeros
  | tooManyBrackets
  | integerDivisionByZero
  | realDivisionByZero
  | integerTooLarge
  | quotientTooLarge
  | unsupported
deriving DecidableEq

def Failure.message : Failure → Text
  | malformed => "invalid syntax".toList
  | leadingZeros => "leading zeros in decimal integer literals are not permitted".toList
  | tooManyBrackets => "too many nested parentheses (<string>, line 1)".toList
  | integerDivisionByZero => "division by zero".toList
  | realDivisionByZero => "float division by zero".toList
  | integerTooLarge => "int too large to convert to float".toList
  | quotientTooLarge => "integer division result too large for a float".toList
  | unsupported => "unsupported operand type".toList

/-- The double nearest to the quotient of two naturals, if it is in the range of doubles. -/
def quotient? (a b : Nat) (negative : Bool) : Option Float :=
  if Binary64.nearestWord a b = Binary64.infinity then none
  else
    let x := Binary64.nearest a b
    some (if negative then -x else x)

/-- A zero dividend counts as positive for the sign of a quotient. -/
def divide (a b : Int) : Except Failure Float :=
  if b = 0 then .error .integerDivisionByZero
  else
    match quotient? a.natAbs b.natAbs ((a < 0) != (b < 0)) with
    | some x => .ok x
    | none => .error .quotientTooLarge

namespace Value

def toFloat : Value → Except Failure Float
  | integer n =>
    match quotient? n.natAbs 1 (n < 0) with
    | some x => .ok x
    | none => .error .integerTooLarge
  | real x => .ok x
  | _ => .error .unsupported

def negate : Value → Except Failure Value
  | integer n => .ok (integer (-n))
  | real x => .ok (real (-x))
  | _ => .error .unsupported

def applyIntegers (operator : Operator) (a b : Int) : Except Failure Value :=
  match operator with
  | .add => .ok (integer (a + b))
  | .subtract => .ok (integer (a - b))
  | .multiply => .ok (integer (a * b))
  | .divide => (divide a b).map real

def applyReals (operator : Operator) (x y : Float) : Except Failure Value :=
  match operator with
  | .add => .ok (real (x + y))
  | .subtract => .ok (real (x - y))
  | .multiply => .ok (real (x * y))
  | .divide => if y == 0.0 then .error .realDivisionByZero else .ok (real (x / y))

/-- How often a tuple may be repeated: any number of times that fits a machine word. -/
def isRepetition (n : Int) : Bool := -(Nat.pow 2 63 : Nat) ≤ n && n < (Nat.pow 2 63 : Nat)

def apply (operator : Operator) (left right : Value) : Except Failure Value :=
  match operator, left, right with
  | _, integer a, integer b => applyIntegers operator a b
  | .add, emptyTuple, emptyTuple => .ok emptyTuple
  | .multiply, emptyTuple, integer n | .multiply, integer n, emptyTuple =>
    if isRepetition n then .ok emptyTuple else .error .unsupported
  | _, _, _ => do applyReals operator (← left.toFloat) (← right.toFloat)

def text : Value → Text
  | integer n => Text.ofInt n
  | real x => Binary64.text x
  | emptyTuple => "()".toList
  | ellipsis => "Ellipsis".toList

end Value

/-! ## The exact value of a source -/

inductive Leaf where
  | numeral (lexeme : Text)
  | emptyTuple
  | ellipsis
deriving DecidableEq

def Leaf.value : Leaf → Value
  | numeral lexeme =>
    let decimal := Decimal.ofNumeral lexeme
    if lexeme.contains '.' then .real decimal.toFloat else .integer decimal.coefficient
  | emptyTuple => .emptyTuple
  | ellipsis => .ellipsis

/-- Numerals of integers have no zeros in front, unless they have only zeros. -/
def Leaf.hasLeadingZeros : Leaf → Bool
  | numeral lexeme => lexeme.head? = some '0' && lexeme.all Char.isDigit && lexeme.any (· ≠ '0')
  | _ => false

def symbol? (token : Token) : Option (Symbol Leaf) :=
  match token.kind with
  | .number => some (.leaf (.numeral token.lexeme))
  | .bracketOpen => some .opening
  | .bracketClose => some .closing
  | kind => kind.operator?.map (Symbol.operator · token.position)

/-- The symbols in front of a cursor, as the calculator's own cursor has them, which passes over
all blanks. Of the runs that are no numerals only three points stand for something. -/
def symbols? (cursor : Cursor) : Option (List (Symbol Leaf)) :=
  match _ : cursor.next with
  | .ok token past =>
    if _ : token.kind = .exprEnd then some []
    else do return (← symbol? token) :: (← symbols? past)
  | .error ⟨.invalidNumber ['.', '.', '.'], _⟩ past => do
    return .leaf .ellipsis :: (← symbols? past)
  | .error _ _ => none
termination_by cursor.rest.length
decreasing_by
  · exact Cursor.length_rest_lt ‹_› ‹_›
  · exact Cursor.length_rest_lt_of_invalidNumber ‹_›

def bracketLimit : Nat := 200

/-- The first symbol that may not stand where it does, with `depth` brackets open in front. -/
def objection? (depth : Nat) : List (Symbol Leaf) → Option Failure
  | [] => none
  | .leaf leaf :: rest =>
    if leaf.hasLeadingZeros then some .leadingZeros else objection? depth rest
  | .opening :: rest =>
    if depth < bracketLimit then objection? (depth + 1) rest else some .tooManyBrackets
  | .closing :: rest => objection? (depth - 1) rest
  | .operator _ _ :: rest => objection? depth rest

/-- The tree of a source. -/
def read (source : Text) : Except Failure (Expr Leaf) :=
  match symbols? (.start source) with
  | none => .error .malformed
  | some symbols =>
    match objection? 0 symbols, Expr.ofSymbols? (some .emptyTuple) symbols with
    | some failure, _ => .error failure
    | none, some tree => .ok tree
    | none, none => .error .malformed

/-- The value of a tree, from left to right. -/
def eval : Expr Leaf → Except Failure Value
  | .leaf leaf => .ok leaf.value
  | .negation operand => do (← eval operand).negate
  | .operation operator _ left right => do
    let left ← eval left
    let right ← eval right
    left.apply operator right

def evaluate (source : Text) : Except Failure Value := do eval (← read source)

end Abacus.Exact
