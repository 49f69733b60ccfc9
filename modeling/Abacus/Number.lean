import Abacus.Text.Basic

/-!
# Doubles and decimals

The magnitude of a double is its 63 bits below the sign, read as a number. As a
number it grows with the value it stands for: below `infinity` it is
`significand * 2 ^ exponent`, above it there is no value at all. Doubles come
from decimals by rounding, and are written as the shortest decimals from which
they come.
-/

namespace Abacus

namespace Binary64

def isNegative (x : Float) : Bool := Nat.pow 2 63 ≤ x.toBits.toNat

def magnitude (x : Float) : Nat := x.toBits.toNat % Nat.pow 2 63

def infinity : Nat := 2047 * Nat.pow 2 52

/-- The word of a finite magnitude is read with a hidden bit, which a word below `2 ^ 52` lacks. -/
def significand (word : Nat) : Nat :=
  if word < Nat.pow 2 52 then word else Nat.pow 2 52 + word % Nat.pow 2 52

def exponent (word : Nat) : Int := max (word / Nat.pow 2 52 : Nat) 1 - 1075

/-- The integer that a double is equal to, if there is one. -/
def integer? (x : Float) : Option Int :=
  let word := magnitude x
  let q := exponent word
  let numerator := significand word * Nat.pow 2 q.toNat
  let denominator := Nat.pow 2 (-q).toNat
  if word < infinity ∧ numerator % denominator = 0 then
    let n : Int := numerator / denominator
    some (if isNegative x then -n else n)
  else none

/-! ## The nearest double

Every quotient of naturals is rounded once, to the nearest double, and to the
even one of two that are equally near. Numerals, integers and quotients of
integers become doubles this way, so none of them is rounded twice. -/

/-- The nearest integer to `a / b`, the even one if there are two. -/
def roundHalfEven (a b : Nat) : Nat :=
  let q := a / b
  let r := a % b
  if 2 * r < b ∨ (2 * r = b ∧ q % 2 = 0) then q else q + 1

/-- The largest `k` with `2 ^ k ≤ a / b`. -/
def floorLog (a b : Nat) : Int :=
  let k : Int := (a.log2 : Int) - b.log2
  if a * Nat.pow 2 (-k).toNat < b * Nat.pow 2 k.toNat then k - 1 else k

/-- The word of the double nearest to `a / b`. -/
def nearestWord (a b : Nat) : Nat :=
  if a = 0 then 0
  else
    let q : Int := max (floorLog a b - 52) (-1074)
    let m := roundHalfEven (a * Nat.pow 2 (-q).toNat) (b * Nat.pow 2 q.toNat)
    min ((q + 1074).toNat * Nat.pow 2 52 + m) infinity

/-- The double nearest to `a / b`, infinite beyond the range of doubles. -/
def nearest (a b : Nat) : Float := Float.ofBits (UInt64.ofNat (nearestWord a b))

end Binary64

/-! ## Decimals

A decimal is a natural number with a decimal point in it. Numerals denote
decimals, and so do finite doubles, because a power of two divides a power of ten. -/

/-- The number `coefficient / 10 ^ scale`. -/
structure Decimal where
  coefficient : Nat
  scale : Nat
deriving DecidableEq

namespace Decimal

/-- The word of the double nearest to a decimal. -/
def word (d : Decimal) : Nat := Binary64.nearestWord d.coefficient (Nat.pow 10 d.scale)

def toFloat (d : Decimal) : Float := Binary64.nearest d.coefficient (Nat.pow 10 d.scale)

/-- The value of the finite magnitude `word`, to the last digit. -/
def ofWord (word : Nat) : Decimal :=
  let q := Binary64.exponent word
  if word = 0 then ⟨0, 0⟩
  else ⟨Binary64.significand word * Nat.pow 2 q.toNat * Nat.pow 5 (-q).toNat, (-q).toNat⟩

/-- The exponent of ten at the first digit. -/
def order (d : Decimal) : Int :=
  (Text.ofNat d.coefficient).length - 1 - d.scale

end Decimal

/-! ## Numerals

A numeral is a run of ASCII digits with at most one point among them, which
may also come first or last. -/

namespace Text

def isNumeralChar (c : Char) : Bool := c.isDigit || c = '.'

/-- Tells the numerals among the runs of digits and points. -/
def isNumeral (run : Text) : Bool := run.any Char.isDigit && run.count '.' ≤ 1

end Text

namespace Decimal

/-- The decimal that a numeral denotes. -/
def ofNumeral (numeral : Text) : Decimal where
  coefficient := Nat.ofDigitChars 10 (numeral.filter Char.isDigit) 0
  scale := (numeral.dropWhile (· ≠ '.')).tail.length

/-! ## The shortest decimal

A double is written with the fewest digits that are read back as the same
double, and with the nearest to its value among those. The search starts from
all digits of the value and looks for the longest cut after which one of the
two neighbours on the coarser grid is still read back. -/

/-- The neighbour of `n` among the multiples of `unit` that satisfies `p`. Of two the nearer
one is taken, and of two equally near the even multiple. -/
def neighbour? (p : Nat → Bool) (n unit : Nat) : Option Nat :=
  let below := n / unit * unit
  let above := below + unit
  let rounded := Binary64.roundHalfEven n unit * unit
  if p below && p above then some rounded
  else if p below then some below
  else if p above then some above
  else none

/-- `n` with as many as possible of its last digits, at most `cut`, replaced by zeros. -/
def shorten (p : Nat → Bool) (n : Nat) : Nat → Nat
  | 0 => n
  | cut + 1 =>
    match neighbour? p n (Nat.pow 10 (cut + 1)) with
    | some m => m
    | none => shorten p n cut

/-- The shortest decimal that is read back as the finite magnitude `word`. -/
def shortest (word : Nat) : Decimal :=
  let exact := ofWord word
  let digits := (Text.ofNat exact.coefficient).length
  { exact with
    coefficient :=
      shorten (fun n => Decimal.word ⟨n, exact.scale⟩ = word) exact.coefficient (digits - 1) }

/-! ## How doubles are written

A finite double is written as its shortest decimal: with a point and at least
one digit on both sides of it if the first digit stands between `10 ^ -4` and
`10 ^ 15`, otherwise with an exponent of at least two digits. -/

/-- A text without the zeros at its end. -/
def trimZeros (digits : Text) : Text := (digits.reverse.dropWhile (· = '0')).reverse

/-- `n` in at least `width` digits. -/
def padded (width n : Nat) : Text :=
  let digits := Text.ofNat n
  List.replicate (width - digits.length) '0' ++ digits

def positional (d : Decimal) : Text :=
  let unit := Nat.pow 10 d.scale
  let fraction := trimZeros (padded d.scale (d.coefficient % unit))
  Text.ofNat (d.coefficient / unit) ++ '.' :: if fraction = [] then ['0'] else fraction

def scientific (d : Decimal) : Text :=
  let significant :=
    match trimZeros (Text.ofNat d.coefficient) with
    | first :: second :: rest => first :: '.' :: second :: rest
    | short => short
  significant ++ 'e' :: (if d.order < 0 then '-' else '+') :: padded 2 d.order.natAbs

def isPositional (d : Decimal) : Bool := -4 ≤ d.order && d.order < 16

def text (d : Decimal) : Text := if d.isPositional then d.positional else d.scientific

end Decimal

namespace Binary64

/-- The text of a double, from which it is read back. -/
def text (x : Float) : Text :=
  let word := magnitude x
  if infinity < word then "nan".toList
  else
    let unsigned := if word = infinity then "inf".toList else (Decimal.shortest word).text
    if isNegative x then '-' :: unsigned else unsigned

/-- The text of a result: an integer in all its digits, any other double as `text` has it. -/
def display (x : Float) : Text :=
  match integer? x with
  | some n => Text.ofInt n
  | none => text x

end Binary64

end Abacus
