import Abacus.Proofs.Expr.Grammar
import Abacus.Proofs.Token.Stream

/-!
# Evaluation with an explicit stack

The rules of expressions call each other, so what waits for its operand is
spread over the active rules. Here it is on a stack, and the evaluation is a
fold over the tokens. An operation is carried out when the token behind its
right operand is there, as the rules do with their token of lookahead.

The stack also tells how many rules are active, so one machine serves for the
evaluation with a limit and for the one without.
-/

namespace Abacus

namespace Flat

/-- What waits for the operand to the right of it. -/
inductive Pending where
  | bracket (position : Nat)
  | negation
  | operation (operator : Operator) (position : Nat) (left : Float)

/-- The rules that stay active for what waits: the three between a bracket and the expression
inside it, and the factor of a negation. -/
def Pending.weight : Pending → Nat
  | bracket _ => 3
  | negation => 1
  | operation .. => 0

/-- The rules that are active where an operand starts. -/
def active : List Pending → Nat
  | [] => 3
  | first :: pending => first.weight + active pending

/-- An operand is wanted as long as there is none. -/
structure State where
  pending : List Pending
  operand : Option Float

def State.initial : State := ⟨[], none⟩

/-- Carries out what binds the operand at least as close as operators of `level`. -/
def settle (level : Nat) : List Pending → Float → Except Fault (List Pending × Float)
  | .negation :: pending, operand => settle level pending (-operand)
  | .operation operator position left :: pending, operand =>
    if level ≤ operator.rank.level then
      operator.apply position left operand >>= settle level pending
    else .ok (.operation operator position left :: pending, operand)
  | pending, operand => .ok (pending, operand)

/-- Takes in a token where an operand is wanted. -/
def shift (pending : List Pending) (token : Token) : Except Fault State :=
  match token.kind with
  | .number => .ok ⟨pending, some token.value⟩
  | .minus => .ok ⟨.negation :: pending, none⟩
  | .bracketOpen => .ok ⟨.bracket token.position :: pending, none⟩
  | _ => .error (.unexpectedToken token)

/-- Takes in a token behind an operand, once what binds closer than the token is settled. -/
def receive (pending : List Pending) (value : Float) (token : Token) : Except Fault State :=
  match token.kind.operator? with
  | some operator => .ok ⟨.operation operator token.position value :: pending, none⟩
  | none =>
    match pending with
    | .bracket _ :: outer =>
      if token.kind = .bracketClose then .ok ⟨outer, some value⟩
      else .error (.expected .bracketClose token)
    | _ => .error (.trailing token)

/-- What is left when the source ends. -/
def conclude (pending : List Pending) (value : Float) : Except Fault Float :=
  match pending with
  | .bracket position :: _ => .error (.unclosed position)
  | _ => .ok value

/-- More rules would have to be active than the limit allows. -/
def exceeds (limit : Option Nat) (pending : List Pending) : Bool := limit.any (· < active pending)

@[simp] theorem exceeds_none (pending : List Pending) : exceeds none pending = false := rfl

def step (limit : Option Nat) (state : State) (token : Token) : Except Fault State :=
  match state.operand with
  | none =>
    if exceeds limit state.pending then .error .nestingTooDeep else shift state.pending token
  | some operand => do
    let (pending, value) ← settle token.kind.level state.pending operand
    receive pending value token

def finish (limit : Option Nat) (state : State) (token : Token) : Except Fault Float :=
  match state.operand with
  | none =>
    if exceeds limit state.pending then .error .nestingTooDeep else .error (.unexpectedToken token)
  | some operand => do
    let (pending, value) ← settle 0 state.pending operand
    conclude pending value

/-- The evaluation of what a stream holds, from a given state on. -/
def run (limit : Option Nat) (state : State) (stream : Stream) : Except Fault Float :=
  stream.fold (step limit) (finish limit) state

variable {limit : Option Nat} {pending : List Pending} {operand : Float} {token : Token}
  {stream : Stream}

theorem shift_number (h : token.kind = .number) (pending : List Pending) :
    shift pending token = .ok ⟨pending, some token.value⟩ := by
  simp [shift, h]

theorem shift_minus (h : token.kind = .minus) (pending : List Pending) :
    shift pending token = .ok ⟨.negation :: pending, none⟩ := by
  simp [shift, h]

theorem shift_bracketOpen (h : token.kind = .bracketOpen) (pending : List Pending) :
    shift pending token = .ok ⟨.bracket token.position :: pending, none⟩ := by
  simp [shift, h]

theorem run_shift {state : State} (hexceeds : exceeds limit pending = false)
    (hshift : shift pending token = .ok state) (stream : Stream) :
    run limit ⟨pending, none⟩ (stream.prepend [token]) = run limit state stream := by
  simp only [run, Stream.fold_cons, step, hexceeds, Bool.false_eq_true, ↓reduceIte, hshift]
  rfl

theorem settle_settle {level lower : Nat} (h : lower ≤ level) (pending : List Pending)
    (operand : Float) :
    settle lower pending operand =
      settle level pending operand >>= fun (pending, value) => settle lower pending value := by
  induction pending generalizing operand with
  | nil => rfl
  | cons first pending ih =>
    cases first with
    | bracket position => rfl
    | negation => exact ih (-operand)
    | operation operator position left =>
      by_cases hlevel : level ≤ operator.rank.level
      · have hlower : lower ≤ operator.rank.level := Nat.le_trans h hlevel
        simp only [settle, hlower, hlevel, ↓reduceIte, bind_assoc]
        exact bind_congr ih
      · simp only [settle, hlevel, ↓reduceIte]
        rfl

/-- What the next token will settle anyway can be settled before it. -/
theorem run_settle {level : Nat} (hhead : stream.head = .ok token)
    (hlevel : token.kind.level ≤ level) :
    run limit ⟨pending, some operand⟩ stream =
      settle level pending operand >>= fun (pending, value) =>
        run limit ⟨pending, some value⟩ stream := by
  cases hsettle : settle level pending operand with
  | ok settled =>
    obtain ⟨rest, value⟩ := settled
    refine Stream.fold_congr_head _ _ hhead ?_ ?_
    · simp only [step]
      rw [settle_settle hlevel, hsettle]
      rfl
    · simp only [finish]
      rw [settle_settle (Nat.zero_le level), hsettle]
      rfl
  | error fault =>
    have hstep : step limit ⟨pending, some operand⟩ token = .error fault := by
      simp only [step]
      rw [settle_settle hlevel, hsettle]
      rfl
    have hfinish : finish limit ⟨pending, some operand⟩ token = .error fault := by
      simp only [finish]
      rw [settle_settle (Nat.zero_le level), hsettle]
      rfl
    exact Stream.fold_error_head _ _ hhead hstep hfinish

theorem step_limit (limit : Option Nat) (state : State) (token : Token) :
    step limit state token = .error .nestingTooDeep ∨
      step limit state token = step none state token := by
  obtain ⟨pending, operand⟩ := state
  cases operand with
  | some operand => exact .inr rfl
  | none =>
    cases hexceeds : exceeds limit pending with
    | false => exact .inr (by simp [step, hexceeds])
    | true => exact .inl (by simp [step, hexceeds])

theorem finish_limit (limit : Option Nat) (state : State) (token : Token) :
    finish limit state token = .error .nestingTooDeep ∨
      finish limit state token = finish none state token := by
  obtain ⟨pending, operand⟩ := state
  cases operand with
  | some operand => exact .inr rfl
  | none =>
    cases hexceeds : exceeds limit pending with
    | false => exact .inr (by simp [finish, hexceeds])
    | true => exact .inl (by simp [finish, hexceeds])

/-- A limit only replaces an outcome, it never changes one. -/
theorem run_limit (limit : Option Nat) (state : State) (stream : Stream) :
    run limit state stream = .error .nestingTooDeep ∨
      run limit state stream = run none state stream := by
  obtain ⟨tokens, last⟩ := stream
  induction tokens generalizing state with
  | nil =>
    cases last with
    | error fault => exact .inr rfl
    | ok token => exact finish_limit limit state token
  | cons token tokens ih =>
    simp only [run, Stream.fold_mk_cons]
    rcases step_limit limit state token with hstep | hstep
    · rw [hstep]
      exact .inl rfl
    · rw [hstep]
      cases step none state token with
      | error fault => exact .inr rfl
      | ok state => exact ih state

end Flat

end Abacus
