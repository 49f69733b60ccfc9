import Abacus.Expr

/-!
# What is open at a place

The tokens in front of a place leave brackets open there, and unary minuses that
wait for their operands. An operand completes all minuses in front of it. A
bracket is the operand of those in front of it as soon as it is closed.
-/

namespace Abacus

structure Nest where
  /-- An operand is wanted, so that a minus is a unary one. -/
  wanting : Bool
  /-- The unary minuses that wait inside the innermost bracket. -/
  minuses : Nat
  /-- The unary minuses that wait for the open brackets, those for the innermost one first. -/
  outer : List Nat
deriving DecidableEq

namespace Nest

def initial : Nest := ⟨true, 0, []⟩

/-- What is open behind one more token. -/
def behind (nest : Nest) (token : Token) : Nest :=
  match nest.wanting, token.kind with
  | true, .minus => ⟨true, nest.minuses + 1, nest.outer⟩
  | true, .bracketOpen => ⟨true, 0, nest.minuses :: nest.outer⟩
  | true, _ => ⟨false, 0, nest.outer⟩
  | false, .bracketClose => ⟨false, 0, nest.outer.tail⟩
  | false, _ => ⟨true, 0, nest.outer⟩

/-- Three for each bracket that is open, and one for each unary minus that waits. -/
def weight (nest : Nest) : Nat :=
  nest.minuses + nest.outer.foldr (fun minuses others => 3 + minuses + others) 0

variable {token : Token} (minuses : Nat) (outer : List Nat)

theorem behind_number (h : token.kind = .number) :
    behind ⟨true, minuses, outer⟩ token = ⟨false, 0, outer⟩ := by
  simp only [behind, h]

theorem behind_minus (h : token.kind = .minus) :
    behind ⟨true, minuses, outer⟩ token = ⟨true, minuses + 1, outer⟩ := by
  simp only [behind, h]

theorem behind_bracketOpen (h : token.kind = .bracketOpen) :
    behind ⟨true, minuses, outer⟩ token = ⟨true, 0, minuses :: outer⟩ := by
  simp only [behind, h]

theorem behind_bracketClose (h : token.kind = .bracketClose) :
    behind ⟨false, 0, minuses :: outer⟩ token = ⟨false, 0, outer⟩ := by
  simp only [behind, h, List.tail_cons]

theorem behind_operator {operator : Operator} (h : token.kind.operator? = some operator) :
    behind ⟨false, 0, outer⟩ token = ⟨true, 0, outer⟩ := by
  cases hkind : token.kind <;> simp_all [behind, Kind.operator?]

end Nest

end Abacus
