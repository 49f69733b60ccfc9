import Abacus.Text.Quoted
import Abacus.Token.Basic

/-!
# Faults

What can be wrong with an expression, and where. The report of a fault is one
line that names the cause, followed by the place in the source if there is one.
-/

namespace Abacus

namespace Text

/-! ## Places in a text

A place in a text is shown by two lines: a window of the text around it, with
an ellipsis on each side where the text goes on, and a caret below the place.
Neither the place nor the window need lie inside the text. -/

/-- The part of a text from `start` up to `stop`. A `stop` before the beginning counts from
the end of the text. -/
def slice (text : Text) (start : Nat) (stop : Int) : Text :=
  let stop := if stop < 0 then stop + text.length else stop
  (text.take stop.toNat).drop start

/-- The bounds of what is shown around a place. -/
structure Window where
  start : Nat
  stop : Int

namespace Window

/-- `reach` characters to both sides of `place`, as far as `text` has them. -/
def around (text : Text) (place reach : Int) : Window where
  start := (place - reach).toNat
  stop := min text.length (place + reach)

def cutBefore (w : Window) : Bool := 0 < w.start

def cutAfter (w : Window) (text : Text) : Bool := w.stop < text.length

end Window

def ellipsis : Text := ['.', '.', '.']

/-- The window of `text` around `place`, and the line with the caret. -/
def locate (text : Text) (place reach : Int) : Text × Text :=
  let w := Window.around text place reach
  let before := if w.cutBefore then ellipsis else []
  let after := if w.cutAfter text then ellipsis else []
  (before ++ text.slice w.start w.stop ++ after,
    List.replicate (place - w.start + before.length).toNat ' ' ++ ['^'])

/-- How much of a faulty source is shown to each side of the fault. -/
def reach : Int := 10

end Text

/-! ## Causes and places -/

inductive Cause where
  | invalidCharacter (char : Text) (position : Int)
  | invalidNumber (lexeme : Text)
  | syntaxError (description : Text)
  | divisionByZero
  | unbalancedParentheses
  | emptyExpression
  | unexpectedToken (token : Text)
  | nestingTooDeep
deriving DecidableEq

namespace Cause

/-- The name of a cause in log records. -/
def name : Cause → Text
  | invalidCharacter .. => "InvalidCharacter".toList
  | invalidNumber _ => "InvalidNumber".toList
  | syntaxError _ => "ExpressionSyntaxError".toList
  | divisionByZero => "DivisionByZero".toList
  | unbalancedParentheses => "UnbalancedParentheses".toList
  | emptyExpression => "EmptyExpression".toList
  | unexpectedToken _ => "UnexpectedToken".toList
  | nestingTooDeep => "NestingTooDeep".toList

def summary : Cause → Text
  | invalidCharacter char position =>
    "Invalid character ".toList ++ char.quoted ++ " at position ".toList ++ Text.ofInt position
  | invalidNumber lexeme => "Invalid number: ".toList ++ lexeme.quoted
  | syntaxError description => "Syntax error: ".toList ++ description
  | divisionByZero => "Division by zero".toList
  | unbalancedParentheses => "Unbalanced parentheses".toList
  | emptyExpression => "Empty expression".toList
  | unexpectedToken token => "Unexpected token: ".toList ++ token
  | nestingTooDeep => "Expression is nested too deeply".toList

/-- The place that a cause names by itself. -/
def place? : Cause → Option Int
  | invalidCharacter _ position => some position
  | _ => none

end Cause

structure Fault where
  cause : Cause
  index : Option Int
deriving DecidableEq

namespace Fault

/-- A fault at the given place, or else at the place that its cause names. -/
def of (cause : Cause) (index : Option Int) : Fault := ⟨cause, index.orElse fun _ => cause.place?⟩

/-- No token starts with the character, which names its place by itself. -/
def invalidCharacter (c : Char) (position : Nat) : Fault :=
  of (.invalidCharacter [c] position) none

theorem invalidCharacter_eq (c : Char) (position : Nat) :
    invalidCharacter c position = ⟨.invalidCharacter [c] position, some position⟩ := rfl

def invalidNumber (lexeme : Text) (position : Nat) : Fault :=
  ⟨.invalidNumber lexeme, some position⟩

/-- Another kind of token has to stand where `found` stands. -/
def expected (kind : Kind) (found : Token) : Fault :=
  ⟨.syntaxError ("expected ".toList ++ kind.label ++ ", found ".toList ++ found.text),
    some found.position⟩

/-- The expression is complete before `found`. -/
def trailing (found : Token) : Fault :=
  ⟨.syntaxError ("unexpected ".toList ++ found.text ++ " after the end of expression".toList),
    some found.position⟩

/-- No operand starts with `found`. -/
def unexpectedToken (found : Token) : Fault :=
  ⟨.unexpectedToken found.text, some found.position⟩

/-- The divisor of the operator at `position` is zero. -/
def divisionByZero (position : Nat) : Fault := ⟨.divisionByZero, some position⟩

/-- The bracket opened at `position` is never closed. -/
def unclosed (position : Nat) : Fault := ⟨.unbalancedParentheses, some position⟩

def emptyExpression : Fault := ⟨.emptyExpression, none⟩

def nestingTooDeep : Fault := ⟨.nestingTooDeep, none⟩

def summary (fault : Fault) : Text := fault.cause.summary

/-- The report of a fault found in `source`. -/
def report (fault : Fault) (source : Text) : Text :=
  match source, fault.index with
  | _ :: _, some index =>
    let (window, caret) := source.locate index Text.reach
    fault.summary ++ '\n' :: window ++ '\n' :: caret
  | _, _ => fault.summary

end Fault

end Abacus
