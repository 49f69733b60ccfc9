import Abacus.Proofs.Expr.Grammar
import Abacus.Proofs.Token.Stream

/-!
# Steps of a reader

An action is described by what holds after it, where it yields a value and
where it fails. There is one such description of `eat`, and one equation for
each thing that a rule can meet in front of it. Nothing else is used to tell
what the rules do.
-/

namespace Abacus

/-- The action of a rule. The two rules with operators have the same shape. -/
def Rule.read : Rule → Nat → Reading Float
  | expression => Reader.expression
  | term => Reader.term
  | factor => Reader.factor

namespace Reader

variable {α β : Type}

theorem bind_of_ok {first : Reading α} {next : α → Reading β} {reader past : Reader} {value : α}
    (h : first reader = .ok value past) : (first >>= next) reader = next value past := by
  change EStateM.bind first next reader = _
  rw [EStateM.bind, h]

theorem bind_of_error {first : Reading α} {next : α → Reading β} {reader past : Reader}
    {fault : Fault} (h : first reader = .error fault past) :
    (first >>= next) reader = .error fault past := by
  change EStateM.bind first next reader = _
  rw [EStateM.bind, h]

/-- `yields` holds of the value and the reader behind an action, or `fails` of the fault. -/
def After (yields : α → Reader → Prop) (fails : Fault → Prop) :
    EStateM.Result Fault Reader α → Prop
  | .ok value past => yields value past
  | .error fault _ => fails fault

namespace After

variable {yields : α → Reader → Prop} {fails : Fault → Prop}
  {result : EStateM.Result Fault Reader α}

theorem imp {yields' : α → Reader → Prop} {fails' : Fault → Prop} (h : After yields fails result)
    (hyields : ∀ value past, yields value past → yields' value past)
    (hfails : ∀ fault, fails fault → fails' fault) : After yields' fails' result := by
  cases result with
  | ok value past => exact hyields value past h
  | error fault past => exact hfails fault h

theorem bind {first : Reading α} {next : α → Reading β} {reader : Reader}
    {yields : β → Reader → Prop}
    (h : After (fun value past => After yields fails (next value past)) fails (first reader)) :
    After yields fails ((first >>= next) reader) := by
  cases hfirst : first reader with
  | ok value past =>
    rw [hfirst] at h
    rw [bind_of_ok hfirst]
    exact h
  | error fault past =>
    rw [hfirst] at h
    rw [bind_of_error hfirst]
    exact h

theorem of_ok {value : α} {past : Reader} (h : After yields fails result)
    (hresult : result = .ok value past) : yields value past := by
  rw [hresult] at h
  exact h

theorem of_error {fault : Fault} {past : Reader} (h : After yields fails result)
    (hresult : result = .error fault past) : fails fault := by
  rw [hresult] at h
  exact h

theorem bind_congr {first : Reading α} {next next' : α → Reading β} {reader : Reader}
    (h : After (fun value past => next value past = next' value past) fails (first reader)) :
    (first >>= next) reader = (first >>= next') reader := by
  cases hfirst : first reader with
  | ok value past =>
    rw [bind_of_ok hfirst, bind_of_ok hfirst]
    exact h.of_ok hfirst
  | error fault past => rw [bind_of_error hfirst, bind_of_error hfirst]

end After

theorem eat_of_ok {kind : Kind} {reader : Reader} {token : Token} {cursor : Cursor}
    (hkind : reader.ahead.kind = kind) (h : reader.cursor.next = .ok token cursor) :
    eat kind reader = .ok reader.ahead { reader with cursor := cursor, ahead := token } := by
  simp only [eat, hkind, ↓reduceIte, h]

theorem eat_of_error {kind : Kind} {reader : Reader} {fault : Fault} {cursor : Cursor}
    (hkind : reader.ahead.kind = kind) (h : reader.cursor.next = .error fault cursor) :
    eat kind reader = .error fault { reader with cursor := cursor } := by
  simp only [eat, hkind, ↓reduceIte, h]

/-- What holds of the reader behind `eat`, which goes on by the token ahead. -/
structure Eaten (reader : Reader) (token : Token) (past : Reader) : Prop where
  token_eq : token = reader.ahead
  opened_eq : past.opened = reader.opened
  stream_eq : reader.stream = past.stream.prepend [reader.ahead]
  wellFormed : past.WellFormed
  unread_le : reader.ahead.lexeme.length + past.unread.length ≤ reader.unread.length

theorem after_eat {reader : Reader} {kind : Kind} (hkind : reader.ahead.kind = kind)
    (hend : kind ≠ .exprEnd) :
    After (Eaten reader) (fun fault => reader.stream = ⟨[reader.ahead], .error fault⟩)
      (eat kind reader) := by
  have hahead : reader.ahead.kind ≠ .exprEnd := hkind ▸ hend
  cases hnext : reader.cursor.next with
  | error fault cursor =>
    rw [eat_of_error hkind hnext]
    simp [After, stream, hahead, Cursor.stream_fault hnext, Stream.prepend]
  | ok token cursor =>
    rw [eat_of_ok hkind hnext]
    obtain ⟨hlexeme, hlength⟩ := Cursor.lexeme_of_next hnext
    refine ⟨rfl, rfl, ?_, hlexeme, ?_⟩
    · by_cases htoken : token.kind = .exprEnd
      · simp [stream, hahead, htoken, Cursor.stream_end hnext htoken]
      · simp [stream, hahead, htoken, Cursor.stream_token hnext htoken]
    · simpa [unread] using hlength

theorem eat_other {reader : Reader} {kind : Kind} (h : reader.ahead.kind ≠ kind) :
    eat kind reader = .error (.expected kind reader.ahead) reader := by
  simp [eat, h]

section Rules

variable {frames : Nat} {reader : Reader} {rank : Rank} {operand : Reading Float}

theorem get_bind (next : Reader → Reading α) (reader : Reader) :
    (get >>= next : Reading α) reader = next reader reader := rfl

theorem read_zero (rule : Rule) : rule.read 0 reader = .error .nestingTooDeep reader := by
  cases rule
  · simp only [Rule.read, expression]
    rfl
  · simp only [Rule.read, term]
    rfl
  · simp only [Rule.read, factor]
    rfl

theorem read_rank (rank : Rank) (frames : Nat) (reader : Reader) :
    rank.rule.read (frames + 1) reader =
      (rank.operand.read frames >>= fun left => get >>= fun reader =>
        chain rank (rank.operand.read frames) reader.unread left) reader := by
  cases rank
  · simp only [Rank.rule, Rank.operand, Rule.read, expression]
  · simp only [Rank.rule, Rank.operand, Rule.read, term]

theorem chain_stop (h : ∀ operator, reader.ahead.kind.operator? = some operator →
    operator.rank ≠ rank) (unread : Text) (left : Float) :
    chain rank operand unread left reader = .ok left reader := by
  cases unread with
  | nil => rfl
  | cons c unread =>
    rw [chain, get_bind]
    cases hoperator : reader.ahead.kind.operator? with
    | none => rfl
    | some operator =>
      simp only [h operator hoperator, ↓reduceIte]
      rfl

theorem chain_operator {operator : Operator}
    (hoperator : reader.ahead.kind.operator? = some operator) (c : Char) (unread : Text)
    (left : Float) :
    chain operator.rank operand (c :: unread) left reader =
      (eat reader.ahead.kind >>= fun _ => operand >>= fun right =>
        ofExcept (operator.apply reader.ahead.position left right) >>= fun value =>
          chain operator.rank operand unread value : Reading Float) reader := by
  rw [chain, get_bind]
  simp only [hoperator, ↓reduceIte]

theorem factor_number (h : reader.ahead.kind = .number) :
    factor (frames + 1) reader =
      (eat .number >>= fun token => pure token.value : Reading Float) reader := by
  rw [factor, get_bind]
  simp only [h]

theorem factor_minus (h : reader.ahead.kind = .minus) :
    factor (frames + 1) reader =
      (eat .minus >>= fun _ => factor frames >>= fun value => pure (-value) : Reading Float)
        reader := by
  rw [factor, get_bind]
  simp only [h]

/-- The reader that counts one more bracket as open, before it eats it. -/
def opening (reader : Reader) : Reader := { reader with opened := reader.opened + 1 }

/-- What a factor does behind the expression in the bracket that was opened at `position`. -/
def close (position : Nat) (value : Float) : Reading Float := do
  if (← get).ahead.kind = .exprEnd then throw (.unclosed position)
  let _ ← eat .bracketClose
  modify fun reader => { reader with opened := reader.opened - 1 }
  return value

theorem close_end (h : reader.ahead.kind = .exprEnd) (position : Nat) (value : Float) :
    close position value reader = .error (.unclosed position) reader := by
  rw [close, get_bind]
  simp only [h, ↓reduceIte]
  rfl

theorem close_token (h : reader.ahead.kind ≠ .exprEnd) (position : Nat) (value : Float) :
    close position value reader =
      (eat .bracketClose >>= fun _ =>
        modifyGet fun past => (value, { past with opened := past.opened - 1 }) : Reading Float)
        reader := by
  rw [close, get_bind]
  simp only [h, ↓reduceIte]
  rfl

theorem factor_bracketOpen (h : reader.ahead.kind = .bracketOpen) :
    factor (frames + 1) reader =
      (eat .bracketOpen >>= fun _ => expression frames >>= fun value =>
        close reader.ahead.position value : Reading Float) reader.opening := by
  rw [factor, get_bind]
  simp only [h]
  rfl

theorem factor_other (hnumber : reader.ahead.kind ≠ .number) (hminus : reader.ahead.kind ≠ .minus)
    (hbracket : reader.ahead.kind ≠ .bracketOpen) :
    factor (frames + 1) reader = .error (.unexpectedToken reader.ahead) reader := by
  rw [factor, get_bind]
  cases h : reader.ahead.kind <;> first | contradiction | rfl

/-- What is looked at behind the expression that a whole source is read as. -/
def complete (value : Float) : Reading Float := do
  let reader ← get
  if reader.ahead.kind ≠ .exprEnd then throw (.trailing reader.ahead)
  if reader.opened ≠ 0 then throw ⟨.unbalancedParentheses, none⟩
  return value

theorem parse_eq (frames : Nat) : parse frames = expression frames >>= complete := rfl

theorem complete_end (hend : reader.ahead.kind = .exprEnd) (hopened : reader.opened = 0)
    (value : Float) : complete value reader = .ok value reader := by
  rw [complete, get_bind]
  simp only [hend, hopened, ne_eq, not_true_eq_false, ↓reduceIte]
  rfl

theorem complete_opened (hend : reader.ahead.kind = .exprEnd) (hopened : reader.opened ≠ 0)
    (value : Float) :
    complete value reader = .error ⟨.unbalancedParentheses, none⟩ reader := by
  rw [complete, get_bind]
  simp only [hend, hopened, ne_eq, not_true_eq_false, not_false_eq_true, ↓reduceIte]
  rfl

theorem complete_token (hend : reader.ahead.kind ≠ .exprEnd) (value : Float) :
    complete value reader = .error (.trailing reader.ahead) reader := by
  rw [complete, get_bind]
  simp only [hend, ne_eq, not_false_eq_true, ↓reduceIte]
  rfl

end Rules

end Reader

end Abacus
