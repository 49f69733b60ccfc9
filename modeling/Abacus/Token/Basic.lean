import Abacus.Number

/-!
# Tokens

A token is a piece of a source: its kind, its characters and the position of
the first of them. The end of the source counts as a token with no characters.
-/

namespace Abacus

inductive Kind where
  | number
  | plus
  | minus
  | star
  | slash
  | bracketOpen
  | bracketClose
  | exprEnd
deriving DecidableEq

namespace Kind

def all : List Kind :=
  [number, plus, minus, star, slash, bracketOpen, bracketClose, exprEnd]

/-- The name of a kind in messages. -/
def label : Kind → Text
  | number => "NUMBER".toList
  | plus => "PLUS".toList
  | minus => "MINUS".toList
  | star => "STAR".toList
  | slash => "SLASH".toList
  | bracketOpen => "BRACKET_OPEN".toList
  | bracketClose => "BRACKET_CLOSE".toList
  | exprEnd => "EXPR_END".toList

/-- The kinds whose tokens are single characters. -/
def ofChar? : Char → Option Kind
  | '+' => some plus
  | '-' => some minus
  | '*' => some star
  | '/' => some slash
  | '(' => some bracketOpen
  | ')' => some bracketClose
  | _ => none

theorem ofChar?_ne_number (c : Char) : ofChar? c ≠ some number := by
  unfold ofChar?; split <;> simp

theorem ofChar?_ne_exprEnd (c : Char) : ofChar? c ≠ some exprEnd := by
  unfold ofChar?; split <;> simp

end Kind

structure Token where
  kind : Kind
  lexeme : Text
  position : Nat
deriving DecidableEq

namespace Token

/-- How a token appears in messages and in the list of tokens. -/
def text (token : Token) : Text := '<' :: token.kind.label ++ '>' :: token.lexeme

/-- The double that a number stands for. -/
def value (token : Token) : Float := (Decimal.ofNumeral token.lexeme).toFloat

end Token

end Abacus
