import Abacus.Proofs.Flat.Phrases
import Abacus.Proofs.Token.Relocation

/-!
# Moving positions on the stack

The machine never compares positions, it only hands them on to faults. So to
move all positions before a run is to move those of its outcome.
-/

namespace Abacus

def Expr.relocate (g : Nat → Nat) : Expr Token → Expr Token
  | .leaf token => .leaf (token.relocate g)
  | .negation operand => .negation (operand.relocate g)
  | .operation operator position left right =>
    .operation operator (g position) (left.relocate g) (right.relocate g)

theorem Derives.relocate (g : Nat → Nat) {rule : Rule} {tokens : List Token} {tree : Expr Token}
    (h : Derives rule tokens tree) :
    Derives rule (tokens.map (Token.relocate g)) (tree.relocate g) := by
  induction h with
  | number hkind => exact .number hkind
  | negation hkind _ ih => exact .negation hkind ih
  | bracketed hopening _ hclosing ih =>
    rw [List.map_cons, List.map_append]
    exact .bracketed hopening ih hclosing
  | operand _ ih => exact .operand ih
  | operation _ hoperator _ ihl ihr =>
    rw [List.map_append, List.map_cons]
    refine .operation ihl ?_ ihr
    exact hoperator

namespace Operator

theorem relocated_apply (g : Nat → Nat) (operator : Operator) (position : Nat)
    (left right : Float) :
    relocated g id (operator.apply position left right) =
      operator.apply (g position) left right := by
  cases operator with
  | divide =>
    simp only [apply]
    split <;> simp [relocated]
  | _ => rfl

end Operator

theorem Expr.relocated_outcome (g : Nat → Nat) (tree : Expr Token) :
    relocated g id (tree.outcome Token.value) = (tree.relocate g).outcome Token.value := by
  induction tree with
  | leaf token => rfl
  | negation operand ih =>
    rw [relocate, outcome_negation, outcome_negation, ← ih]
    cases operand.outcome Token.value <;> rfl
  | operation operator position left right ihl ihr =>
    rw [relocate, outcome_operation, outcome_operation, ← ihl, ← ihr]
    apply relocated_bind
    intro x
    apply relocated_bind
    intro y
    exact Operator.relocated_apply g operator position x y

namespace Flat

variable (g : Nat → Nat)

def Pending.relocate : Pending → Pending
  | bracket position => bracket (g position)
  | negation => negation
  | operation operator position left => operation operator (g position) left

def State.relocate (state : State) : State :=
  ⟨state.pending.map (Pending.relocate g), state.operand⟩

theorem settle_relocate (level : Nat) (pending : List Pending) (operand : Float) :
    relocated g (Prod.map (List.map (Pending.relocate g)) id) (settle level pending operand) =
      settle level (pending.map (Pending.relocate g)) operand := by
  induction pending generalizing operand with
  | nil => rfl
  | cons first pending ih =>
    cases first with
    | bracket position => rfl
    | negation => exact ih (-operand)
    | operation operator position left =>
      simp only [settle, List.map_cons, Pending.relocate]
      split
      · rw [← Operator.relocated_apply]
        exact relocated_bind _ ih
      · rfl

theorem shift_relocate (pending : List Pending) (token : Token) :
    relocated g (State.relocate g) (shift pending token) =
      shift (pending.map (Pending.relocate g)) (token.relocate g) := by
  unfold shift
  cases hkind : token.kind <;> simp [hkind] <;> rfl

theorem receive_relocate (pending : List Pending) (value : Float) (token : Token) :
    relocated g (State.relocate g) (receive pending value token) =
      receive (pending.map (Pending.relocate g)) value (token.relocate g) := by
  unfold receive
  simp only [Token.relocate_kind]
  cases token.kind.operator? with
  | some operator => rfl
  | none =>
    match pending with
    | [] | .negation :: _ | .operation .. :: _ => rfl
    | .bracket position :: outer =>
      by_cases hclose : token.kind = .bracketClose
      · simp only [List.map_cons, Pending.relocate, hclose, ↓reduceIte]
        rfl
      · simp only [List.map_cons, Pending.relocate, hclose, ↓reduceIte]
        rfl

theorem conclude_relocate (pending : List Pending) (value : Float) :
    relocated g id (conclude pending value) =
      conclude (pending.map (Pending.relocate g)) value := by
  match pending with
  | [] | .bracket _ :: _ | .negation :: _ | .operation .. :: _ => rfl

theorem exceeds_relocate (limit : Option Nat) (pending : List Pending) :
    exceeds limit (pending.map (Pending.relocate g)) = exceeds limit pending := by
  have hactive : active (pending.map (Pending.relocate g)) = active pending := by
    induction pending with
    | nil => rfl
    | cons first pending ih =>
      cases first <;> simp [active, Pending.relocate, Pending.weight, ih]
  rw [exceeds, hactive, exceeds]

variable {limit : Option Nat}

theorem step_relocate (state : State) (token : Token) :
    relocated g (State.relocate g) (step limit state token) =
      step limit (state.relocate g) (token.relocate g) := by
  obtain ⟨pending, operand⟩ := state
  cases operand with
  | none =>
    simp only [step, State.relocate, exceeds_relocate]
    split
    · rfl
    · exact shift_relocate g pending token
  | some operand =>
    simp only [step, State.relocate, Token.relocate_kind, ← settle_relocate]
    exact relocated_bind _ fun settled => receive_relocate g settled.1 settled.2 token

theorem finish_relocate (state : State) (token : Token) :
    relocated g id (finish limit state token) =
      finish limit (state.relocate g) (token.relocate g) := by
  obtain ⟨pending, operand⟩ := state
  cases operand with
  | none =>
    simp only [finish, State.relocate, exceeds_relocate]
    split
    · rfl
    · rfl
  | some operand =>
    simp only [finish, State.relocate, ← settle_relocate]
    exact relocated_bind _ fun settled => conclude_relocate g settled.1 settled.2

theorem foldlM_relocate (state : State) (tokens : List Token) :
    relocated g (State.relocate g) (tokens.foldlM (step limit) state) =
      (tokens.map (Token.relocate g)).foldlM (step limit) (state.relocate g) := by
  induction tokens generalizing state with
  | nil => rfl
  | cons token tokens ih =>
    rw [List.foldlM_cons, List.map_cons, List.foldlM_cons, ← step_relocate]
    exact relocated_bind _ ih

theorem run_relocate (state : State) (stream : Stream) :
    relocated g id (run limit state stream) =
      run limit (state.relocate g) (stream.relocate g) := by
  simp only [run, Stream.fold, Stream.relocate, ← foldlM_relocate]
  apply relocated_bind
  intro state
  exact relocated_bind _ fun token => finish_relocate g state token

end Flat

end Abacus
