import Abacus.Proofs.Reader.Steps

/-!
# The rules with their calls left open

A rule does work of its own and calls other rules. Its plan keeps the two apart:
it is what the rule does up to its next call, and how it goes on with the value
of that call. A plan knows of no frames. The rules with a number of frames are
their plans, all calls answered by the rules with one frame less.
-/

namespace Abacus.Reader

variable {α β : Type}

/-- What is done up to the next call, and how it goes on behind that. -/
inductive Course (α : Type) where
  | done (result : EStateM.Result Fault Reader α)
  | call (rule : Rule) (reader : Reader) (resume : Float → Reader → Course α)

/-- An action of a reader that may call rules. -/
def Plan (α : Type) := Reader → Course α

namespace Course

def bind : Course α → (α → Plan β) → Course β
  | done (.ok value past), next => next value past
  | done (.error fault past), _ => done (.error fault past)
  | call rule reader resume, next =>
    call rule reader fun value past => (resume value past).bind next

/-- The calls are made to `answer`. A call that fails is the end. -/
def run (answer : Rule → Reading Float) : Course α → EStateM.Result Fault Reader α
  | done result => result
  | call rule reader resume =>
    match answer rule reader with
    | .ok value past => (resume value past).run answer
    | .error fault past => .error fault past

variable {answer : Rule → Reading Float} {rule : Rule} {reader past : Reader}
  {resume : Float → Reader → Course α}

theorem run_of_ok {value : Float} (h : answer rule reader = .ok value past) :
    (call rule reader resume).run answer = (resume value past).run answer := by
  simp only [run, h]

theorem run_of_error {fault : Fault} (h : answer rule reader = .error fault past) :
    (call rule reader resume).run answer = .error fault past := by
  simp only [run, h]

end Course

namespace Plan

instance : Monad Plan where
  pure value := fun reader => .done (.ok value reader)
  bind plan next := fun reader => (plan reader).bind next

/-- What calls no rule is a plan. -/
instance : MonadLift Reading Plan := ⟨fun action reader => .done (action reader)⟩

def call (rule : Rule) : Plan Float :=
  fun reader => .call rule reader fun value past => .done (.ok value past)

def answered (answer : Rule → Reading Float) (plan : Plan α) : Reading α :=
  fun reader => (plan reader).run answer

variable {answer : Rule → Reading Float}

theorem answered_pure (value : α) :
    (pure value : Plan α).answered answer = pure value := rfl

theorem answered_lift (action : Reading α) :
    (liftM action : Plan α).answered answer = action := rfl

theorem answered_call (rule : Rule) : (call rule).answered answer = answer rule := by
  funext reader
  cases h : answer rule reader with
  | ok value past => exact Course.run_of_ok h
  | error fault past => exact Course.run_of_error h

theorem answered_bind (plan : Plan α) (next : α → Plan β) :
    (plan >>= next).answered answer =
      plan.answered answer >>= fun value => (next value).answered answer := by
  funext reader
  change ((plan reader).bind next).run answer = EStateM.bind _ _ reader
  rw [EStateM.bind, answered]
  induction plan reader with
  | done result => cases result <;> rfl
  | call rule reader resume ih =>
    cases h : answer rule reader with
    | ok value past =>
      rw [Course.run_of_ok h, ← ih, Course.bind, Course.run_of_ok h]
    | error fault past => rw [Course.run_of_error h, Course.bind, Course.run_of_error h]

end Plan

/-- Reads operators and their right operands, as `chain` does. -/
def operations (rank : Rank) : (unread : Text) → Float → Plan Float
  | [], left => pure left
  | _ :: unread, left => do
    let token := (← get).ahead
    match token.kind.operator? with
    | none => pure left
    | some operator =>
      if operator.rank = rank then
        let _ ← eat token.kind
        let right ← Plan.call rank.operand
        let value ← (ofExcept (operator.apply token.position left right) : Reading Float)
        operations rank unread value
      else pure left

/-- Reads an operand and the operators of a rank behind it. -/
def ranked (rank : Rank) : Plan Float := do
  let left ← Plan.call rank.operand
  operations rank (← get).unread left

/-- What a rule does besides its calls, and which calls it makes. -/
def plan : Rule → Plan Float
  | .expression => ranked .additive
  | .term => ranked .multiplicative
  | .factor => do
    let token := (← get).ahead
    match token.kind with
    | .number => return (← eat .number).value
    | .minus =>
      let _ ← eat .minus
      return -(← Plan.call .factor)
    | .bracketOpen =>
      modify opening
      let _ ← eat .bracketOpen
      close token.position (← Plan.call .expression)
    | _ => (throw (.unexpectedToken token) : Reading Float)

/-- Reads an expression that the end of the source follows. -/
def whole : Plan Float := do
  complete (← Plan.call .expression)

section Equations

variable {rank : Rank} {reader : Reader}

theorem Plan.get_bind (next : Reader → Plan α) (reader : Reader) :
    (get >>= next : Plan α) reader = next reader reader := rfl

theorem operations_stop (h : ∀ operator, reader.ahead.kind.operator? = some operator →
    operator.rank ≠ rank) (unread : Text) (left : Float) :
    operations rank unread left reader = .done (.ok left reader) := by
  cases unread with
  | nil => rfl
  | cons c unread =>
    rw [operations, Plan.get_bind]
    cases hoperator : reader.ahead.kind.operator? with
    | none => rfl
    | some operator =>
      simp only [h operator hoperator, ↓reduceIte]
      rfl

theorem operations_operator {operator : Operator}
    (hoperator : reader.ahead.kind.operator? = some operator) (c : Char) (unread : Text)
    (left : Float) :
    operations operator.rank (c :: unread) left reader =
      (do
        let _ ← eat reader.ahead.kind
        let right ← Plan.call operator.rank.operand
        let value ← (ofExcept (operator.apply reader.ahead.position left right) : Reading Float)
        operations operator.rank unread value : Plan Float) reader := by
  rw [operations, Plan.get_bind]
  simp only [hoperator, ↓reduceIte]

theorem plan_rank (rank : Rank) : plan rank.rule = ranked rank := by
  cases rank <;> rfl

theorem plan_number (h : reader.ahead.kind = .number) :
    plan .factor reader = (do return (← eat .number).value : Plan Float) reader := by
  rw [plan, Plan.get_bind]
  simp only [h]

theorem plan_minus (h : reader.ahead.kind = .minus) :
    plan .factor reader =
      (do
        let _ ← eat .minus
        return -(← Plan.call .factor) : Plan Float) reader := by
  rw [plan, Plan.get_bind]
  simp only [h]

theorem plan_bracketOpen (h : reader.ahead.kind = .bracketOpen) :
    plan .factor reader =
      (do
        let _ ← eat .bracketOpen
        close reader.ahead.position (← Plan.call .expression) : Plan Float) reader.opening := by
  rw [plan, Plan.get_bind]
  simp only [h]
  rfl

theorem plan_other (hnumber : reader.ahead.kind ≠ .number) (hminus : reader.ahead.kind ≠ .minus)
    (hbracket : reader.ahead.kind ≠ .bracketOpen) :
    plan .factor reader = .done (.error (.unexpectedToken reader.ahead) reader) := by
  rw [plan, Plan.get_bind]
  cases h : reader.ahead.kind <;> first | contradiction | rfl

end Equations

section Answers

variable {answer : Rule → Reading Float}

theorem answered_operations (rank : Rank) (unread : Text) (left : Float) :
    (operations rank unread left).answered answer =
      chain rank (answer rank.operand) unread left := by
  induction unread generalizing left with
  | nil => rfl
  | cons c unread ih =>
    funext reader
    rcases reader.ahead.kind.operator?_cases rank with hnone | ⟨operator, hoperator, rfl⟩
    · rw [chain_stop hnone, Plan.answered, operations_stop hnone]
      rfl
    · rw [chain_operator hoperator, Plan.answered, operations_operator hoperator]
      change Plan.answered answer _ reader = _
      simp only [Plan.answered_bind, Plan.answered_lift, Plan.answered_call, ih]

theorem answered_ranked (rank : Rank) :
    (ranked rank).answered answer =
      answer rank.operand >>= fun left => get >>= fun reader =>
        chain rank (answer rank.operand) reader.unread left := by
  rw [ranked, Plan.answered_bind, Plan.answered_call]
  refine bind_congr fun left => ?_
  rw [Plan.answered_bind]
  refine bind_congr fun reader => ?_
  exact answered_operations rank reader.unread left

/-- A rule carries out its plan, and the rules that it calls have one frame less. -/
theorem read_succ (rule : Rule) (frames : Nat) :
    rule.read (frames + 1) = (plan rule).answered (·.read frames) := by
  have hrank (rank : Rank) :
      rank.rule.read (frames + 1) = (plan rank.rule).answered (·.read frames) := by
    rw [plan_rank, answered_ranked]
    exact funext fun reader => read_rank rank frames reader
  cases rule with
  | expression => exact hrank .additive
  | term => exact hrank .multiplicative
  | factor =>
    funext reader
    change factor (frames + 1) reader = (plan .factor reader).run _
    by_cases hnumber : reader.ahead.kind = .number
    · rw [factor_number hnumber, plan_number hnumber]
      change _ = Plan.answered _ _ reader
      simp only [Plan.answered_bind, Plan.answered_lift, Plan.answered_pure]
    by_cases hminus : reader.ahead.kind = .minus
    · rw [factor_minus hminus, plan_minus hminus]
      change _ = Plan.answered _ _ reader
      simp only [Plan.answered_bind, Plan.answered_lift, Plan.answered_call, Plan.answered_pure]
      rfl
    by_cases hbracket : reader.ahead.kind = .bracketOpen
    · rw [factor_bracketOpen hbracket, plan_bracketOpen hbracket]
      change _ = Plan.answered _ _ reader.opening
      simp only [Plan.answered_bind, Plan.answered_lift, Plan.answered_call]
      rfl
    · rw [factor_other hnumber hminus hbracket, plan_other hnumber hminus hbracket]
      rfl

theorem parse_eq_answered (frames : Nat) :
    parse frames = whole.answered (·.read frames) := by
  rw [parse_eq, whole, Plan.answered_bind, Plan.answered_call]
  rfl

end Answers

end Abacus.Reader
