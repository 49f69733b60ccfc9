import Abacus.Proofs.Evaluation.Places
import Abacus.Proofs.Shell.Piping
import Abacus.Proofs.Token.Partition

/-!
# Sources without a line of tokens

A source has no line of tokens if something in it offends. The listing goes on
to the first offender, while the evaluation takes one token after the other and
may find a fault at one of them before it gets there. It never gets past the
offender, so there is an answer to such a source, and it tells of a fault.
-/

namespace Abacus

variable {limit : Nat} {source : Text} {fault found : Fault} {token : Token}

theorem Cursor.Yields.end_le_of_mem {start : Nat} {text : Text} {stream : Stream}
    (h : Yields start text stream) (hlast : stream.last = .error fault)
    (hmem : token ∈ stream.tokens) :
    ∃ place : Nat, fault.index = some (place : Int) ∧
      token.position + token.lexeme.length ≤ place := by
  induction h with
  | blank hblanks => cases hlast
  | fault hfault => cases hmem
  | token hblanks hspelled hposition hseam hrest ih =>
    rcases List.mem_cons.mp hmem with rfl | hlater
    · rw [hposition]
      exact (hrest.unreadable hlast).index_eq
    · exact ih hlast hlater

/-- What is wrong with an expression at a token of it. -/
inductive Fault.At (token : Token) : Fault → Prop
  | unexpectedToken : Fault.At token (.unexpectedToken token)
  | trailing : Fault.At token (.trailing token)
  | expected : Fault.At token (.expected .bracketClose token)
  | divisionByZero : Fault.At token (.divisionByZero token.position)

namespace Fault.At

theorem index_eq (h : found.At token) : found.index = some (token.position : Int) := by
  cases h <;> rfl

theorem cause_cases (h : found.At token) :
    (∃ text, found.cause = .unexpectedToken text) ∨
      (∃ description, found.cause = .syntaxError description) ∨ found.cause = .divisionByZero := by
  cases h with
  | unexpectedToken => exact .inl ⟨_, rfl⟩
  | trailing | expected => exact .inr (.inl ⟨_, rfl⟩)
  | divisionByZero => exact .inr (.inr rfl)

end Fault.At

theorem Stream.exists_fold_error {σ α : Type} {step : σ → Token → Except Fault σ}
    {finish : σ → Token → Except Fault α} {stream : Stream} (hlast : stream.last = .error fault)
    (state : σ) : ∃ found, stream.fold step finish state = .error found := by
  simp only [fold, hlast]
  cases stream.tokens.foldlM step state with
  | error found => exact ⟨found, rfl⟩
  | ok state => exact ⟨fault, rfl⟩

/-- The run over a stream that breaks off fails at one of its tokens, or where it breaks off. -/
theorem Flat.run_of_break (hlast : (Cursor.start source).stream.last = .error fault) :
    ∃ found, run none .initial (Cursor.start source).stream = .error found ∧
      (found = fault ∨ ∃ token ∈ (Cursor.start source).stream.tokens, found.At token) := by
  rcases run_checker .initial (Cursor.start source).stream with ⟨position, hzero⟩ | hchecker
  · obtain ⟨before, slash, after, _, htokens, -, rfl, -⟩ := slash_of_divisionByZero hzero
    exact ⟨_, hzero, .inr ⟨slash, by simp [htokens], .divisionByZero⟩⟩
  obtain ⟨found, hfound⟩ := Stream.exists_fold_error hlast State.initial
  change run none .initial (Cursor.start source).stream = .error found at hfound
  refine ⟨found, hfound, ?_⟩
  rw [hfound] at hchecker
  rcases Stream.fold_error _ _ hchecker.symm with hbreak | ⟨token, hmem, checker, hstep⟩ |
    ⟨_, _, _, hend, _⟩
  · exact .inl (Except.error.inj (hbreak.symm.trans hlast))
  · refine .inr ⟨token, hmem, ?_⟩
    rcases Checker.step_error hstep with rfl | rfl | rfl
    · exact .unexpectedToken
    · exact .trailing
    · exact .expected
  · rw [hlast] at hend
    cases hend

theorem evaluateWithin_of_break (hlast : (Cursor.start source).stream.last = .error fault) :
    ∃ found, evaluateWithin limit source = .error found ∧
      (found = fault ∨ found = .nestingTooDeep ∨
        ∃ token ∈ (Cursor.start source).stream.tokens, found.At token) := by
  have hblank : source.isAllBlank = false := by
    rw [Bool.eq_false_iff]
    intro hblank
    rw [Cursor.start, Cursor.stream_blank hblank] at hlast
    cases hlast
  by_cases hdeep : evaluateWithin limit source = .error .nestingTooDeep
  · exact ⟨_, hdeep, .inr (.inl rfl)⟩
  · obtain ⟨found, hfound, hcases⟩ := Flat.run_of_break hlast
    rw [evaluateWithin_eq_run_none hblank hdeep]
    exact ⟨found, hfound, hcases.imp_right .inr⟩

theorem tokensLine?_eq_none_iff :
    tokensLine? source = none ↔ ∃ fault, tokenize source = .error fault := by
  unfold tokensLine?
  cases tokenize source with
  | ok tokens => simp
  | error fault => simp

namespace Shell

theorem lines_map_wrote (lines : List Text) : Journal.lines (lines.map Event.wrote) = lines := by
  simp [Journal.lines, Function.comp_def, Event.line?]

theorem lines_map_logged (records : List Record) :
    Journal.lines (records.map Event.logged) = [] := by
  simp [Journal.lines, Event.line?]

theorem lines_block (showTokens : Bool) (source : Text) (outcome : Except Fault Float) :
    (block showTokens source outcome).lines =
      (if showTokens then (tokensLine? source).toList else []) ++ [answer source outcome] := by
  rw [block, Journal.lines_append, Journal.lines_append, lines_map_logged, List.append_nil]
  cases showTokens with
  | false => rfl
  | true => rw [if_pos rfl, if_pos rfl, lines_map_wrote]; rfl

end Shell

/-- Where the line of tokens is missing, the evaluation fails as the listing does, or earlier in
the source, unless the nesting is too deep. The answer is all that is shown, and it is that of a
fault. -/
theorem evaluateWithin_of_missing_tokens (h : tokensLine? source = none) :
    (∃ fault place found, tokenize source = .error fault ∧ Text.Unreadable source 0 fault ∧
      fault.index = some (place : Int) ∧ evaluateWithin limit source = .error found ∧
      (found = fault ∨ found = .nestingTooDeep ∨
        ∃ index : Nat, found.index = some (index : Int) ∧ index < place ∧
          ((∃ text, found.cause = .unexpectedToken text) ∨
            (∃ description, found.cause = .syntaxError description) ∨
            found.cause = .divisionByZero)) ∧
      found.cause ≠ .emptyExpression ∧ found.cause ≠ .unbalancedParentheses ∧
      (∀ char position, found.cause = .invalidCharacter char position → found = fault) ∧
      ∀ run, found.cause = .invalidNumber run → found = fault) ∧
    (Shell.block true source (evaluate source)).lines = [calculate source] ∧
    Shell.isFailure (calculate source) := by
  obtain ⟨fault, hfault⟩ := tokensLine?_eq_none_iff.mp h
  have hlast := last_of_tokenize_error hfault
  have hyields := Cursor.yields_stream 0 source
  have hunreadable := hyields.unreadable hlast
  refine ⟨?_, ?_, ?_⟩
  · obtain ⟨found, hfound, hcases⟩ := @evaluateWithin_of_break limit source fault hlast
    obtain ⟨place, hplace, -⟩ := hunreadable.index_eq
    refine ⟨fault, place, found, hfault, hunreadable, hplace, hfound, ?_⟩
    rcases hcases with rfl | rfl | ⟨token, hmem, hat⟩
    · refine ⟨.inl rfl, ?_⟩
      cases hunreadable with
      | number => simp [Fault.invalidNumber]
      | character => simp [Fault.invalidCharacter_eq]
    · exact ⟨.inr (.inl rfl), by simp [Fault.nestingTooDeep]⟩
    · obtain ⟨other, hother, hle⟩ := hyields.end_le_of_mem hlast hmem
      have heq : (other : Int) = place := Option.some.inj (hother.symm.trans hplace)
      have hlength := List.length_pos_of_ne_nil (hyields.spelled_of_mem hmem).lexeme_ne_nil
      refine ⟨.inr (.inr ⟨token.position, hat.index_eq, by omega, hat.cause_cases⟩), ?_⟩
      rcases hat.cause_cases with ⟨text, hcause⟩ | ⟨description, hcause⟩ | hcause
      · simp [hcause]
      · simp [hcause]
      · simp [hcause]
  · rw [Shell.lines_block, h]
    rfl
  · obtain ⟨found, hfound, -⟩ := @evaluateWithin_of_break frames source fault hlast
    rw [calculate, Shell.isFailure_answer, evaluate, hfound]
    rfl

/-- The division is carried out as soon as the token behind its divisor is there. -/
theorem missing_tokens_behind_division :
    tokensLine? "1/0+@".toList = none ∧
      evaluateWithin frames "1/0+@".toList = .error (.divisionByZero 1) ∧
      Shell.isFailure (calculate "1/0+@".toList) := by
  have hnone : tokensLine? "1/0+@".toList = none := by decide +kernel
  have hfault : evaluateWithin frames "1/0+@".toList = .error (.divisionByZero 1) := by
    decide +kernel
  exact ⟨hnone, hfault, (@evaluateWithin_of_missing_tokens frames _ hnone).2.2⟩

end Abacus
