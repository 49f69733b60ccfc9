import Abacus.Proofs.Evaluation.Checker
import Abacus.Proofs.Evaluation.Grammar
import Abacus.Proofs.Token.Brackets

/-!
# The places of faults

A fault designates what is wrong: the place that it names is in the source, and
the character or token of which it speaks is the one that starts there. All but
divisions by zero are found by the checker, so it is enough to look at its
steps, and at the brackets on its stack where the source ends.
-/

namespace Abacus

/-- A token other than the end that reading `source` comes to. -/
structure TokenOf (source : Text) (token : Token) : Prop where
  mem_tokens : token ∈ (Cursor.start source).stream.tokens
  lexeme_at : token.lexeme <+: source.drop token.position
  position_lt : token.position < source.length

/-- The fault says what is wrong at the place that it names. -/
inductive Designates (source : Text) : Fault → Prop
  | emptyExpression : source.isAllBlank → Designates source .emptyExpression
  | nestingTooDeep : Designates source .nestingTooDeep
  | invalidCharacter {before c after} : source = before ++ c :: after → Text.isBlank c = false →
      Text.isNumeralChar c = false → Kind.ofChar? c = none →
      Designates source (.invalidCharacter c before.length)
  | invalidNumber {before run after} : source = before ++ (run ++ after) → run ≠ [] →
      run.all Text.isNumeralChar → Text.Seam before run → Text.EndsRun after →
      Text.isNumeral run = false → Designates source (.invalidNumber run before.length)
  | divisionByZero {position} : source[position]? = some '/' →
      Designates source (.divisionByZero position)
  | unclosed {before after} : source = before ++ '(' :: after → Text.Balanced after →
      Designates source (.unclosed before.length)
  | unexpectedToken {token} : TokenOf source token → Designates source (.unexpectedToken token)
  | unexpectedEnd : Designates source (.unexpectedToken (.atEnd source.length))
  | trailing {token} : TokenOf source token → Designates source (.trailing token)
  | expected {token} : TokenOf source token →
      Designates source (.expected .bracketClose token)

variable {limit : Nat} {source : Text} {fault : Fault} {token : Token}

theorem tokenOf_of_mem (h : token ∈ (Cursor.start source).stream.tokens) :
    TokenOf source token := by
  obtain ⟨before, after, hsource, hposition, hspelled⟩ :=
    (Cursor.yields_stream 0 source).lexeme_of_mem h
  have hlength := List.length_pos_of_ne_nil hspelled.lexeme_ne_nil
  rw [Nat.zero_add] at hposition
  refine ⟨h, ?_, ?_⟩
  · rw [hsource, hposition, List.drop_left]
    exact List.prefix_append _ _
  · rw [hsource, hposition, List.length_append, List.length_append]
    omega

namespace Checker

variable {checker past : Checker} {before text : Text}

theorem step_error (h : checker.step token = .error fault) :
    fault = .unexpectedToken token ∨ fault = .trailing token ∨
      fault = .expected .bracketClose token := by
  unfold step at h
  split at h
  · split at h <;> cases h
    exact .inl rfl
  · split at h <;> cases h
    · exact .inr (.inl rfl)
    · exact .inr (.inr rfl)

theorem finish_error (h : checker.finish token = .error fault) :
    fault = .unexpectedToken token ∨
      ∃ position outer, checker.brackets = position :: outer ∧ fault = .unclosed position := by
  unfold finish at h
  split at h
  · cases h
    exact .inl rfl
  · split at h
    · cases h
    next position outer hbrackets =>
      cases h
      exact .inr ⟨position, outer, hbrackets, rfl⟩

theorem step_brackets (h : checker.step token = .ok past) :
    (token.kind = .bracketOpen ∧ past.brackets = token.position :: checker.brackets) ∨
    (token.kind = .bracketClose ∧ ∃ position, checker.brackets = position :: past.brackets) ∨
    (token.kind ≠ .bracketOpen ∧ token.kind ≠ .bracketClose ∧
      past.brackets = checker.brackets) := by
  unfold step at h
  split at h
  · split at h <;> cases h <;> simp_all
  · split at h <;> cases h <;> simp_all

theorem unclosed_step (hunclosed : Text.Unclosed text checker.brackets)
    (hposition : token.position = text.length) (hspelled : token.Spelled)
    (h : checker.step token = .ok past) : Text.Unclosed (text ++ token.lexeme) past.brackets := by
  rcases step_brackets h with ⟨hkind, hpast⟩ | ⟨hkind, position, hpast⟩ | ⟨hopen, hclose, hpast⟩
  · rw [hspelled.eq_of_bracketOpen hkind, hpast, hposition]
    exact hunclosed.opening
  · rw [hpast] at hunclosed
    rw [hspelled.eq_of_bracketClose hkind]
    exact hunclosed.closing
  · rw [hpast]
    exact hunclosed.append (hspelled.balanced hopen hclose)

/-- The brackets of the checker behind a text are those that are open there. -/
theorem unclosed_of_foldlM {start : Nat} {stream : Stream} {token : Token}
    (hyields : Cursor.Yields start text stream) (hlast : stream.last = .ok token)
    (hstart : before.length = start) (hbefore : Text.Unclosed before checker.brackets)
    (h : stream.tokens.foldlM step checker = .ok past) :
    Text.Unclosed (before ++ text) past.brackets := by
  induction hyields generalizing before checker with
  | blank hblanks =>
    cases h
    exact hbefore.append (Text.balanced_of_isAllBlank hblanks)
  | fault hfault => cases hlast
  | @token start blanks first rest stream hblanks hspelled hposition hseam _ ih =>
    have hfront := hbefore.append (Text.balanced_of_isAllBlank hblanks)
    have hplace : first.position = (before ++ blanks).length := by
      rw [hposition, List.length_append, hstart]
    change List.foldlM step checker (first :: stream.tokens) = _ at h
    rw [List.foldlM_cons] at h
    cases hstep : checker.step first with
    | error fault =>
      rw [hstep] at h
      cases h
    | ok next =>
      rw [hstep] at h
      rw [← List.append_assoc, ← List.append_assoc]
      refine ih hlast ?_ (unclosed_step hfront hplace hspelled hstep) h
      rw [List.length_append, List.length_append, hstart]

end Checker

namespace Designates

theorem of_unreadable (h : Text.Unreadable source 0 fault) : Designates source fault := by
  cases h with
  | number hsource hne hrun hbefore hafter hnumeral =>
    rw [Nat.zero_add]
    exact .invalidNumber hsource hne hrun hbefore hafter hnumeral
  | character hsource hblank hnumeral hkind =>
    rw [Nat.zero_add]
    exact .invalidCharacter hsource hblank hnumeral hkind

theorem of_unclosed {position : Nat} {outer : List Nat}
    (h : Text.Unclosed source (position :: outer)) : Designates source (.unclosed position) := by
  cases h with
  | bracket _ hafter => exact .unclosed rfl hafter

theorem of_check (h : Checker.check source = .error fault) : Designates source fault := by
  rw [Checker.check, Checker.run_eq_fold] at h
  have hyields := Cursor.yields_stream 0 source
  rcases Stream.fold_error _ _ h with hlast | ⟨token, hmem, checker, herror⟩ |
    ⟨past, token, hfold, hlast, herror⟩
  · exact of_unreadable (hyields.unreadable hlast)
  · rcases Checker.step_error herror with rfl | rfl | rfl
    · exact .unexpectedToken (tokenOf_of_mem hmem)
    · exact .trailing (tokenOf_of_mem hmem)
    · exact .expected (tokenOf_of_mem hmem)
  · have hend := hyields.eq_of_last_ok hlast
    rw [Nat.zero_add] at hend
    rcases Checker.finish_error herror with rfl | ⟨position, outer, hbrackets, rfl⟩
    · rw [hend]
      exact .unexpectedEnd
    · have hopen : Text.Unclosed [] Checker.initial.brackets := .balanced .nil
      have hunclosed := Checker.unclosed_of_foldlM hyields hlast rfl hopen hfold
      rw [hbrackets] at hunclosed
      exact of_unclosed hunclosed

/-- The place of a fault is in the source, or it is the end where an operand is wanted. -/
theorem index_cases (h : Designates source fault) {i : Int} (hindex : fault.index = some i) :
    (∃ n : Nat, i = n ∧ n < source.length) ∨ fault = .unexpectedToken (.atEnd source.length) := by
  cases h with
  | emptyExpression => cases hindex
  | nestingTooDeep => cases hindex
  | invalidCharacter hsource =>
    refine .inl ⟨_, (Option.some.inj hindex).symm, ?_⟩
    simp [hsource]
  | invalidNumber hsource hne =>
    refine .inl ⟨_, (Option.some.inj hindex).symm, ?_⟩
    have hlength := List.length_pos_of_ne_nil hne
    simp only [hsource, List.length_append]
    omega
  | divisionByZero hslash =>
    exact .inl ⟨_, (Option.some.inj hindex).symm, (List.getElem?_eq_some_iff.mp hslash).1⟩
  | unclosed hsource =>
    refine .inl ⟨_, (Option.some.inj hindex).symm, ?_⟩
    simp [hsource]
  | unexpectedToken htoken | trailing htoken | expected htoken =>
    exact .inl ⟨_, (Option.some.inj hindex).symm, htoken.position_lt⟩
  | unexpectedEnd => exact .inr rfl

theorem index_eq_none_iff (h : Designates source fault) :
    fault.index = none ↔ fault.cause = .emptyExpression ∨ fault.cause = .nestingTooDeep := by
  cases h <;> simp [Fault.emptyExpression, Fault.nestingTooDeep, Fault.invalidCharacter_eq,
    Fault.invalidNumber, Fault.divisionByZero, Fault.unclosed, Fault.unexpectedToken,
    Fault.trailing, Fault.expected]

end Designates

theorem designates_of_evaluateWithin (h : evaluateWithin limit source = .error fault) :
    Designates source fault := by
  cases hblank : source.isAllBlank with
  | true =>
    rw [evaluateWithin_blank hblank] at h
    cases h
    exact .emptyExpression hblank
  | false =>
    by_cases hdeep : evaluateWithin limit source = .error .nestingTooDeep
    · rw [hdeep] at h
      cases h
      exact .nestingTooDeep
    rw [evaluateWithin_eq_run_none hblank hdeep] at h
    rcases Flat.run_checker .initial (Cursor.start source).stream with ⟨position, hzero⟩ | hrun
    · obtain ⟨before, slash, after, _, htokens, hkind, rfl, -⟩ := slash_of_divisionByZero hzero
      have hmem : slash ∈ (Cursor.start source).stream.tokens := by simp [htokens]
      rw [hzero] at h
      cases h
      exact .divisionByZero (getElem?_of_slash rfl hmem hkind)
    · rw [h] at hrun
      refine .of_check ?_
      rw [Checker.check, Checker.run_eq_fold]
      exact hrun.symm

/-- There is no expression in a source just if nothing is left of it by stripping it. -/
theorem evaluateWithin_emptyExpression_iff :
    evaluateWithin limit source = .error .emptyExpression ↔ source.strip = [] := by
  rw [Text.strip_eq_nil_iff]
  constructor
  · intro h
    generalize hempty : Fault.emptyExpression = fault at h
    cases designates_of_evaluateWithin h with
    | emptyExpression hblank => exact hblank
    | _ => cases hempty
  · exact evaluateWithin_blank

/-- A fault names a place unless the source is blank or nested too deeply. The place is in the
source, except where the source ends while an operand is wanted. -/
theorem evaluateWithin_places (h : evaluateWithin limit source = .error fault) :
    Designates source fault ∧
      (fault.index = none ↔ fault.cause = .emptyExpression ∨ fault.cause = .nestingTooDeep) ∧
      ∀ i, fault.index = some i → 0 ≤ i ∧ i ≤ source.length ∧
        (i = source.length → fault = .unexpectedToken (.atEnd source.length)) := by
  have hdesignates := designates_of_evaluateWithin h
  refine ⟨hdesignates, hdesignates.index_eq_none_iff, ?_⟩
  intro i hindex
  rcases hdesignates.index_cases hindex with ⟨n, rfl, hn⟩ | rfl
  · exact ⟨by omega, by omega, fun hend => by omega⟩
  · obtain rfl : (source.length : Int) = i := Option.some.inj hindex
    exact ⟨by omega, Int.le_refl _, fun _ => rfl⟩

theorem places_of_unclosed :
    evaluateWithin frames "2*(3+((1)".toList = .error (.unclosed 5) ∧
      Designates "2*(3+((1)".toList (.unclosed 5) := by
  have hfault : evaluateWithin frames "2*(3+((1)".toList = .error (.unclosed 5) := by
    decide +kernel
  exact ⟨hfault, (evaluateWithin_places hfault).1⟩

end Abacus
