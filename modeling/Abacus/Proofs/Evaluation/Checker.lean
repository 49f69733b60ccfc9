import Abacus.Proofs.Evaluation.Machine

/-!
# Checking without values

Which fault a source has does not take its values to find out, divisions by
zero apart. The checker pulls one token after the other and keeps no more than
whether an operand is wanted and where the open brackets are. It forgets the
operands and the operators of the machine, and a step of the one is a step of
the other.
-/

namespace Abacus

structure Checker where
  /-- An operand is wanted. -/
  wanting : Bool
  /-- The positions of the open brackets, the innermost first. -/
  brackets : List Nat
deriving DecidableEq

namespace Checker

def initial : Checker := ⟨true, []⟩

/-- Takes in a token other than the end. -/
def step (checker : Checker) (token : Token) : Except Fault Checker :=
  if checker.wanting then
    match token.kind with
    | .number => .ok { checker with wanting := false }
    | .bracketOpen => .ok { checker with brackets := token.position :: checker.brackets }
    | .minus => .ok checker
    | _ => .error (.unexpectedToken token)
  else
    match token.kind, checker.brackets with
    | .plus, _ | .minus, _ | .star, _ | .slash, _ => .ok { checker with wanting := true }
    | .bracketClose, _ :: outer => .ok { checker with brackets := outer }
    | _, [] => .error (.trailing token)
    | _, _ :: _ => .error (.expected .bracketClose token)

/-- Accepts or fails at the end. -/
def finish (checker : Checker) (token : Token) : Except Fault Unit :=
  if checker.wanting then .error (.unexpectedToken token)
  else
    match checker.brackets with
    | [] => .ok ()
    | position :: _ => .error (.unclosed position)

/-- Goes on with the tokens that a cursor yields, each of them pulled when the one before it is
taken in. -/
def run (checker : Checker) (cursor : Cursor) : Except Fault Unit :=
  match _ : cursor.next with
  | .error fault _ => .error fault
  | .ok token past =>
    if _ : token.kind = .exprEnd then checker.finish token
    else
      match checker.step token with
      | .error fault => .error fault
      | .ok checker => checker.run past
termination_by cursor.rest.length
decreasing_by exact Cursor.length_rest_lt ‹_› ‹_›

def check (source : Text) : Except Fault Unit := initial.run (.start source)

theorem step_ne_divisionByZero (checker : Checker) (token : Token) (position : Nat) :
    checker.step token ≠ .error (.divisionByZero position) := by
  unfold step
  split
  · split <;> simp [Fault.unexpectedToken, Fault.divisionByZero]
  · split <;> simp [Fault.trailing, Fault.expected, Fault.divisionByZero]

theorem finish_ne_divisionByZero (checker : Checker) (token : Token) (position : Nat) :
    checker.finish token ≠ .error (.divisionByZero position) := by
  unfold finish
  split
  · simp [Fault.unexpectedToken, Fault.divisionByZero]
  · split <;> simp [Fault.unclosed, Fault.divisionByZero]

theorem run_eq_fold (checker : Checker) (cursor : Cursor) :
    checker.run cursor = cursor.stream.fold step finish checker := by
  rw [run]
  split
  next fault past h => rw [Cursor.stream_fault h, Stream.fold_fault]
  next token past h =>
    split
    next hkind => rw [Cursor.stream_end h hkind, Stream.fold_end]
    next hkind =>
      rw [Cursor.stream_token h hkind, Stream.fold_cons]
      cases step checker token with
      | error fault => rfl
      | ok checker => exact run_eq_fold checker past
termination_by cursor.rest.length
decreasing_by exact Cursor.length_rest_lt ‹_› ‹_›

end Checker

namespace Flat

/-- The positions of the brackets on the stack. -/
def brackets : List Pending → List Nat
  | [] => []
  | .bracket position :: pending => position :: brackets pending
  | .negation :: pending => brackets pending
  | .operation .. :: pending => brackets pending

/-- What the checker knows of a state. -/
def State.checker (state : State) : Checker := ⟨state.operand.isNone, brackets state.pending⟩

variable {level position : Nat} {pending rest : List Pending} {operand value : Float}
  {state : State} {token : Token}

theorem settle_cases (level : Nat) (pending : List Pending) (operand : Float) :
    (∃ position left, .operation .divide position left ∈ pending ∧
      settle level pending operand = .error (.divisionByZero position)) ∨
    ∃ rest value, rest <:+ pending ∧ brackets rest = brackets pending ∧
      settle level pending operand = .ok (rest, value) := by
  induction pending generalizing operand with
  | nil => exact .inr ⟨[], operand, List.suffix_rfl, rfl, rfl⟩
  | cons first pending ih =>
    cases first with
    | bracket position => exact .inr ⟨_, operand, List.suffix_rfl, rfl, rfl⟩
    | negation =>
      rcases ih (-operand) with
        ⟨position, left, hmem, hfault⟩ | ⟨rest, value, hrest, hbrackets, hok⟩
      · exact .inl ⟨position, left, List.mem_cons_of_mem _ hmem, hfault⟩
      · exact .inr ⟨rest, value, hrest.trans (List.suffix_cons _ _), hbrackets, hok⟩
    | operation operator position left =>
      by_cases hlevel : level ≤ operator.rank.level
      · simp only [settle, hlevel, ↓reduceIte]
        cases happly : operator.apply position left operand with
        | error fault =>
          obtain ⟨rfl, rfl⟩ := Operator.apply_error happly
          exact .inl ⟨position, left, List.mem_cons_self, rfl⟩
        | ok value =>
          rcases ih value with ⟨other, left, hmem, hfault⟩ | ⟨rest, value, hrest, hbrackets, hok⟩
          · exact .inl ⟨other, left, List.mem_cons_of_mem _ hmem, hfault⟩
          · exact .inr ⟨rest, value, hrest.trans (List.suffix_cons _ _), hbrackets, hok⟩
      · simp only [settle, hlevel, ↓reduceIte]
        exact .inr ⟨_, operand, List.suffix_rfl, rfl, rfl⟩

theorem settle_zero (h : settle 0 pending operand = .ok (rest, value)) :
    rest = [] ∨ ∃ position outer, rest = .bracket position :: outer := by
  induction pending generalizing operand with
  | nil =>
    cases h
    exact .inl rfl
  | cons first pending ih =>
    cases first with
    | bracket position =>
      cases h
      exact .inr ⟨position, pending, rfl⟩
    | negation => exact ih h
    | operation operator position left =>
      simp only [settle, Nat.zero_le, ↓reduceIte] at h
      cases happly : operator.apply position left operand with
      | error fault =>
        rw [happly] at h
        cases h
      | ok value =>
        rw [happly] at h
        exact ih h

theorem shift_checker (pending : List Pending) (token : Token) :
    (shift pending token).map State.checker = Checker.step ⟨true, brackets pending⟩ token := by
  unfold shift Checker.step
  cases token.kind <;> rfl

theorem receive_checker
    (htop : token.kind.operator? = none →
      pending = [] ∨ ∃ position outer, pending = .bracket position :: outer) :
    (receive pending value token).map State.checker =
      Checker.step ⟨false, brackets pending⟩ token := by
  unfold receive Checker.step
  cases hoperator : token.kind.operator? with
  | some operator =>
    cases hkind : token.kind <;> simp [hkind, Kind.operator?] at hoperator <;> rfl
  | none =>
    rcases htop hoperator with rfl | ⟨position, outer, rfl⟩
    · cases hkind : token.kind <;> simp [hkind, Kind.operator?] at hoperator <;> rfl
    · cases hkind : token.kind <;> simp [hkind, Kind.operator?] at hoperator <;> rfl

/-- A step of the machine is one of the checker, unless a division by zero stops it. -/
theorem step_checker (state : State) (token : Token) :
    (∃ position left, .operation .divide position left ∈ state.pending ∧
      step none state token = .error (.divisionByZero position)) ∨
    (step none state token).map State.checker = state.checker.step token := by
  obtain ⟨pending, operand⟩ := state
  cases operand with
  | none => exact .inr (shift_checker pending token)
  | some operand =>
    simp only [step]
    rcases settle_cases token.kind.level pending operand with
      ⟨position, left, hmem, hfault⟩ | ⟨rest, value, -, hbrackets, hok⟩
    · rw [hfault]
      exact .inl ⟨position, left, hmem, rfl⟩
    · rw [hok]
      refine .inr ?_
      change (receive rest value token).map State.checker = _
      have htop (hoperator : token.kind.operator? = none) :
          rest = [] ∨ ∃ position outer, rest = .bracket position :: outer := by
        have hlevel : token.kind.level = 0 := by simp [Kind.level, hoperator]
        exact settle_zero (hlevel ▸ hok)
      rw [receive_checker htop, hbrackets]
      rfl

theorem finish_checker (state : State) (token : Token) :
    (∃ position left, .operation .divide position left ∈ state.pending ∧
      finish none state token = .error (.divisionByZero position)) ∨
    (finish none state token).map (fun _ => ()) = state.checker.finish token := by
  obtain ⟨pending, operand⟩ := state
  cases operand with
  | none => exact .inr rfl
  | some operand =>
    simp only [finish]
    rcases settle_cases 0 pending operand with
      ⟨position, left, hmem, hfault⟩ | ⟨rest, value, -, hbrackets, hok⟩
    · rw [hfault]
      exact .inl ⟨position, left, hmem, rfl⟩
    · rw [hok]
      refine .inr ?_
      simp only [State.checker, Checker.finish, ← hbrackets]
      rcases settle_zero hok with rfl | ⟨position, outer, rfl⟩
      · rfl
      · rfl

theorem run_checker (state : State) (stream : Stream) :
    (∃ position, run none state stream = .error (.divisionByZero position)) ∨
    (run none state stream).map (fun _ => ()) =
      stream.fold Checker.step Checker.finish state.checker := by
  obtain ⟨tokens, last⟩ := stream
  induction tokens generalizing state with
  | nil =>
    cases last with
    | error fault => exact .inr rfl
    | ok token =>
      rcases finish_checker state token with ⟨position, _, _, hfault⟩ | hfinish
      · exact .inl ⟨position, hfault⟩
      · exact .inr hfinish
  | cons token tokens ih =>
    simp only [run, Stream.fold_mk_cons]
    rcases step_checker state token with ⟨position, _, _, hfault⟩ | hstep
    · rw [hfault]
      exact .inl ⟨position, rfl⟩
    · rw [← hstep]
      cases step none state token with
      | error fault => exact .inr rfl
      | ok next => exact ih next

theorem step_pending {next : State} {operator : Operator} {left : Float}
    (h : step none state token = .ok next)
    (hmem : .operation operator position left ∈ next.pending) :
    .operation operator position left ∈ state.pending ∨
      token.kind.operator? = some operator ∧ token.position = position := by
  obtain ⟨pending, operand⟩ := state
  cases operand with
  | none =>
    simp only [step, exceeds_none, Bool.false_eq_true, ↓reduceIte, shift] at h
    split at h <;> cases h <;> simp_all
  | some operand =>
    simp only [step] at h
    rcases settle_cases token.kind.level pending operand with
      ⟨position, left, -, hfault⟩ | ⟨rest, value, hrest, -, hok⟩
    · rw [hfault] at h
      cases h
    · rw [hok] at h
      change receive rest value token = .ok next at h
      unfold receive at h
      split at h
      next operator hoperator =>
        cases h
        rcases List.mem_cons.mp hmem with heq | hmem
        · cases heq
          exact .inr ⟨hoperator, rfl⟩
        · exact .inl (hrest.mem hmem)
      next =>
        split at h
        · split at h
          · cases h
            exact .inl (hrest.mem (List.mem_cons_of_mem _ hmem))
          · cases h
        · cases h

theorem slash_of_run {stream : Stream} (hlast : stream.last ≠ .error (.divisionByZero position))
    (h : run none state stream = .error (.divisionByZero position)) :
    (∃ left, .operation .divide position left ∈ state.pending) ∨
      ∃ before slash after checker, stream.tokens = before ++ slash :: after ∧
        slash.kind = .slash ∧ slash.position = position ∧
        (before ++ [slash]).foldlM Checker.step state.checker = .ok checker := by
  obtain ⟨tokens, last⟩ := stream
  induction tokens generalizing state with
  | nil =>
    cases last with
    | error fault =>
      rw [run, Stream.fold_fault] at h
      cases h
      exact absurd rfl hlast
    | ok token =>
      change finish none state token = _ at h
      rcases finish_checker state token with ⟨other, left, hmem, hfault⟩ | hfinish
      · cases hfault.symm.trans h
        exact .inl ⟨left, hmem⟩
      · rw [h] at hfinish
        exact absurd hfinish.symm (Checker.finish_ne_divisionByZero _ _ _)
  | cons token tokens ih =>
    simp only [run, Stream.fold_mk_cons] at h
    rcases step_checker state token with ⟨other, left, hmem, hfault⟩ | hstep
    · rw [hfault] at h
      cases h
      exact .inl ⟨left, hmem⟩
    cases hnext : step none state token with
    | error fault =>
      rw [hnext] at h hstep
      cases h
      exact absurd hstep.symm (Checker.step_ne_divisionByZero _ _ _)
    | ok next =>
      rw [hnext] at h hstep
      -- what waits after the step has waited before, or this token is its operator
      rcases ih hlast h with ⟨left, hmem⟩ | ⟨before, slash, after, checker, htokens, hslash⟩
      · rcases step_pending hnext hmem with hmem | ⟨hoperator, hposition⟩
        · exact .inl ⟨left, hmem⟩
        · have hpass : [token].foldlM Checker.step state.checker = .ok next.checker := by
            rw [List.foldlM_cons, ← hstep]
            rfl
          exact .inr ⟨[], token, tokens, _, rfl, Kind.eq_slash hoperator, hposition, hpass⟩
      · obtain ⟨hkind, hposition, hpass⟩ := hslash
        refine .inr ⟨token :: before, slash, after, checker, ?_, hkind, hposition, ?_⟩
        · exact congrArg (token :: ·) htokens
        · rw [List.cons_append, List.foldlM_cons, ← hstep]
          exact hpass

end Flat

variable {limit : Nat} {source : Text}

/-- A division by zero is found at a slash that the checker has let pass. -/
theorem slash_of_divisionByZero {position : Nat}
    (h : Flat.run none .initial (Cursor.start source).stream = .error (.divisionByZero position)) :
    ∃ before slash after checker, (Cursor.start source).stream.tokens = before ++ slash :: after ∧
      slash.kind = .slash ∧ slash.position = position ∧
      (before ++ [slash]).foldlM Checker.step .initial = .ok checker := by
  have hlast : (Cursor.start source).stream.last ≠ .error (.divisionByZero position) := by
    intro hlast
    rcases Cursor.stream_fault_cases hlast with ⟨_, _, hfault⟩ | ⟨_, _, hfault⟩
    · cases hfault
    · cases hfault
  rcases Flat.slash_of_run hlast h with ⟨_, hmem⟩ | hslash
  · cases hmem
  · exact hslash

/-- Apart from divisions by zero, evaluation fails as the checker does. -/
theorem evaluateWithin_checker (hblank : source.isAllBlank = false)
    (hdeep : evaluateWithin limit source ≠ .error .nestingTooDeep) :
    ((∀ position, evaluateWithin limit source ≠ .error (.divisionByZero position)) →
      ((∃ value, evaluateWithin limit source = .ok value) ↔ Checker.check source = .ok ()) ∧
      ∀ fault, evaluateWithin limit source = .error fault ↔ Checker.check source = .error fault) ∧
    ∀ position, evaluateWithin limit source = .error (.divisionByZero position) →
      ∃ before slash after checker, (Cursor.start source).stream.tokens = before ++ slash :: after ∧
        slash.kind = .slash ∧ slash.position = position ∧
        (before ++ [slash]).foldlM Checker.step .initial = .ok checker := by
  rw [Checker.check, Checker.run_eq_fold, evaluateWithin_eq_run_none hblank hdeep]
  constructor
  · intro hzero
    rcases Flat.run_checker .initial (Cursor.start source).stream with ⟨position, hfault⟩ | hrun
    · exact absurd hfault (hzero position)
    change _ = Stream.fold _ _ Checker.initial _ at hrun
    rw [← hrun]
    cases Flat.run none .initial (Cursor.start source).stream with
    | error fault => simp [Except.map]
    | ok value => simp [Except.map]
  · intro position hzero
    exact slash_of_divisionByZero hzero

theorem check_of_missing_operator :
    Text.isAllBlank "(1+2 3)".toList = false ∧
      evaluateWithin frames "(1+2 3)".toList ≠ .error .nestingTooDeep ∧
      Checker.check "(1+2 3)".toList = .error (.expected .bracketClose ⟨.number, ['3'], 5⟩) := by
  have hblank : Text.isAllBlank "(1+2 3)".toList = false := by decide
  have hfault : evaluateWithin frames "(1+2 3)".toList =
      .error (.expected .bracketClose ⟨.number, ['3'], 5⟩) := by decide +kernel
  have hdeep : evaluateWithin frames "(1+2 3)".toList ≠ .error .nestingTooDeep := by
    decide +kernel
  have hzero (position : Nat) :
      evaluateWithin frames "(1+2 3)".toList ≠ .error (.divisionByZero position) := by
    rw [hfault]
    simp [Fault.expected, Fault.divisionByZero]
  exact ⟨hblank, hdeep, (((evaluateWithin_checker hblank hdeep).1 hzero).2 _).mp hfault⟩

end Abacus
