import Abacus.Evaluation
import Abacus.Exact

/-!
# The two evaluations compared

The value of a source in double precision is compared with its exact value.
Values that are close, and failures on both sides, go unreported.
-/

namespace Abacus.Crosscheck

open Exact (Value Failure)

/-! ## Sources that are not compared

Powers, integer quotients and unary plus have a meaning in other notations but
none here. A source in which the characters of one of them stand together, with
at most blanks between them, is left out of the comparison. -/

/-- The first character behind the blanks. -/
def nextChar? (text : Text) : Option Char := (text.dropWhile Text.isBlank).head?

/-- Whether somewhere a character that satisfies `p` is followed by `c`, blanks left aside. -/
def hasPair (p : Char → Bool) (c : Char) : Text → Bool
  | [] => false
  | x :: rest => (p x && nextChar? rest = some c) || hasPair p c rest

def hasPower (source : Text) : Bool := hasPair (· = '*') '*' source

def hasIntegerQuotient (source : Text) : Bool := hasPair (· = '/') '/' source

/-- The characters behind which an operand is wanted. -/
def wantsOperand (c : Char) : Bool := ['-', '+', '*', '/', '('].contains c

def hasUnaryPlus (source : Text) : Bool :=
  nextChar? source = some '+' || hasPair wantsOperand '+' source

def isSkipped (source : Text) : Bool :=
  hasPower source || hasIntegerQuotient source || hasUnaryPlus source

/-! ## Comparisons -/

/-- Equal, or finite and at a distance of at most `1e-9` times the larger magnitude. -/
def isClose (x y : Float) : Bool :=
  let distance := (y - x).abs
  let tolerance := (Decimal.mk 1 9).toFloat
  x == y
    || (!x.isInf && !y.isInf
      && (distance ≤ (tolerance * y).abs || distance ≤ (tolerance * x).abs))

/-- Whether the two outcomes agree. They cannot be compared if the exact value is an integer
beyond the range of doubles. -/
def agree (exact : Except Failure Value) (computed : Except Fault Float) : Except Failure Bool :=
  match exact, computed with
  | .ok (.real x), .ok y => .ok (isClose y x)
  | .ok (.integer n), .ok y => do return isClose (← (Value.integer n).toFloat) y
  | .error _, .error _ => .ok true
  | .error failure, .ok _ => .ok (failure = .leadingZeros)
  | _, _ => .ok false

def exactText : Except Failure Value → Text
  | .ok value => value.text
  | .error failure => failure.message

def computedText (source : Text) : Except Fault Float → Text
  | .ok x => Binary64.text x
  | .error fault => fault.report source

/-- The report of a disagreement. -/
def reportOf (source : Text) (exact : Except Failure Value) (computed : Except Fault Float) :
    Text :=
  source.quoted ++ "\npy: ".toList ++ exactText exact
    ++ "\nmy: ".toList ++ computedText source computed ++ "\n\n\n".toList

/-- What there is to report on one source. -/
def check (source : Text) : Except Failure Text := do
  if isSkipped source then return []
  let exact := Exact.evaluate source
  let computed := evaluate source
  return if ← agree exact computed then [] else reportOf source exact computed

/-- The reports on all sources, unless two outcomes cannot be compared. -/
def checkAll (sources : List Text) : Except Failure Text := do
  return (← sources.mapM check).flatten

end Abacus.Crosscheck
