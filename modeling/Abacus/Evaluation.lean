import Abacus.Expr
import Abacus.Token.Listing

/-!
# Evaluation

The value of an expression or the fault that was found first. A reader goes
through the tokens of a source with one token of lookahead. A failed step leaves
it in the state that it had reached, and it can go on from there.
-/

namespace Abacus

structure Reader where
  cursor : Cursor
  ahead : Token
  /-- The brackets that are counted as open. -/
  opened : Nat
deriving DecidableEq

/-- An action of a reader, which yields a value or fails, and changes the state in both cases. -/
abbrev Reading := EStateM Fault Reader

namespace Reader

/-- A reader in front of the first token behind a cursor. -/
def start : EStateM Fault Cursor Reader := do
  let token ← Cursor.next
  return ⟨← get, token, 0⟩

/-- What is left of the source without the blanks in front of the next token. -/
def unread (reader : Reader) : Text := reader.ahead.lexeme ++ reader.cursor.rest

/-- Goes on behind the token ahead, which has to be of the given kind. If there is no token
behind it, it stays ahead. -/
def eat (kind : Kind) : Reading Token := fun reader =>
  if reader.ahead.kind = kind then
    match reader.cursor.next with
    | .ok token cursor => .ok reader.ahead { reader with cursor := cursor, ahead := token }
    | .error fault cursor => .error fault { reader with cursor := cursor }
  else .error (.expected kind reader.ahead) reader

/-! ## The rules of expressions

    expression = term { ("+" | "-") term }
    term       = factor { ("*" | "/") factor }
    factor     = number | "(" expression ")" | "-" factor

Each rule yields the value of what it reads, so an operation is carried out as
soon as its right operand is read. A rule counts as active until it is done;
only a given number of rules may be active at the same time. -/

/-- Reads the operators of `rank` and their right operands for as long as there are any, and
folds them into `left` from the left. An operator takes at least one character, so there are no
more of them than the unread text has characters. -/
def chain (rank : Rank) (operand : Reading Float) : (unread : Text) → Float → Reading Float
  | [], left => pure left
  | _ :: unread, left => do
    let token := (← get).ahead
    match token.kind.operator? with
    | none => pure left
    | some operator =>
      if operator.rank = rank then
        let _ ← eat token.kind
        let right ← operand
        let value ← ofExcept (operator.apply token.position left right)
        chain rank operand unread value
      else pure left

mutual

/-- Reads an expression with at most `frames` active rules. -/
def expression : (frames : Nat) → Reading Float
  | 0 => throw .nestingTooDeep
  | frames + 1 => do
    let left ← term frames
    chain .additive (term frames) (← get).unread left

/-- Reads a term with at most `frames` active rules. -/
def term : (frames : Nat) → Reading Float
  | 0 => throw .nestingTooDeep
  | frames + 1 => do
    let left ← factor frames
    chain .multiplicative (factor frames) (← get).unread left

/-- Reads a factor with at most `frames` active rules. -/
def factor : (frames : Nat) → Reading Float
  | 0 => throw .nestingTooDeep
  | frames + 1 => do
    let token := (← get).ahead
    match token.kind with
    | .number => return (← eat .number).value
    | .minus =>
      let _ ← eat .minus
      return -(← factor frames)
    | .bracketOpen =>
      modify fun reader => { reader with opened := reader.opened + 1 }
      let _ ← eat .bracketOpen
      let value ← expression frames
      if (← get).ahead.kind = .exprEnd then throw (.unclosed token.position)
      let _ ← eat .bracketClose
      modify fun reader => { reader with opened := reader.opened - 1 }
      return value
    | _ => throw (.unexpectedToken token)

end

/-- Reads an expression that the end of the source follows. -/
def parse (frames : Nat) : Reading Float := do
  let value ← expression frames
  let reader ← get
  if reader.ahead.kind ≠ .exprEnd then throw (.trailing reader.ahead)
  if reader.opened ≠ 0 then throw ⟨.unbalancedParentheses, none⟩
  return value

/-- Reads all that is behind a cursor as one expression. -/
def run (frames : Nat) : EStateM Fault Cursor Float := fun cursor =>
  match start cursor with
  | .error fault cursor => .error fault cursor
  | .ok reader _ =>
    match parse frames reader with
    | .ok value reader => .ok value reader.cursor
    | .error fault reader => .error fault reader.cursor

end Reader

/-! ## The outcome of an evaluation

Evaluations share no state. -/

/-- The value of `source`, with at most `frames` active rules. -/
def evaluateWithin (frames : Nat) (source : Text) : Except Fault Float :=
  if source.isAllBlank then .error .emptyExpression
  else
    match Reader.run frames (.start source) with
    | .ok value _ => .ok value
    | .error fault _ => .error fault

/-- The number of rules that may be active: enough for 329 brackets inside each other. -/
def frames : Nat := 990

def evaluate (source : Text) : Except Fault Float := evaluateWithin frames source

/-- The line that tells the outcome of an evaluation. -/
def answer (source : Text) : Except Fault Float → Text
  | .ok value => "Result: ".toList ++ Binary64.display value
  | .error fault => "Error: ".toList ++ fault.report source

/-- The log messages of an evaluation with the given outcome. -/
def transcript (source : Text) (outcome : Except Fault Float) : List Text :=
  ["Evaluating ".toList ++ source.quoted,
    match outcome with
    | .ok value => source.quoted ++ " = ".toList ++ Binary64.text value
    | .error fault =>
      "Evaluation of ".toList ++ source.quoted ++ " failed: ".toList ++ fault.cause.name]

def calculate (source : Text) : Text := answer source (evaluate source)

end Abacus
