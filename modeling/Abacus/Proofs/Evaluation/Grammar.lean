import Abacus.Proofs.Evaluation.Machine

/-!
# Evaluation and the grammar

A source has a value exactly if its tokens are an expression whose tree divides
by no zero, and it is the value of the tree. The first division by zero of the
tree is the fault otherwise. No tree is built on the way.
-/

namespace Abacus

/-- The tokens of `source`, all but the end, are an expression with the given tree. -/
def Expresses (source : Text) (tree : Expr Token) : Prop :=
  ∃ tokens, tokenize source = .ok (tokens ++ [.atEnd source.length]) ∧
    Derives .expression tokens tree

variable {limit : Nat} {source : Text} {tree : Expr Token}

theorem tokenize_eq_iff {tokens : List Token} :
    tokenize source = .ok (tokens ++ [.atEnd source.length]) ↔
      (Cursor.start source).stream = ⟨tokens, .ok (.atEnd source.length)⟩ := by
  rw [tokenize, Cursor.tokens_eq_stream]
  cases (Cursor.start source).stream with
  | mk others last =>
    cases last with
    | error fault => simp [Except.map]
    | ok token => simp [Except.map]

theorem expresses_iff : Expresses source tree ↔ (Cursor.start source).stream.Expresses tree := by
  constructor
  · rintro ⟨tokens, htokens, htree⟩
    exact ⟨tokens, _, tokenize_eq_iff.mp htokens, rfl, htree⟩
  · rintro ⟨tokens, token, hstream, -, htree⟩
    have hend : token = .atEnd source.length := by
      have hlast : (Cursor.stream ⟨0, source⟩).last = .ok token := congrArg Stream.last hstream
      simpa using (Cursor.yields_stream 0 source).eq_of_last_ok hlast
    subst hend
    exact ⟨tokens, tokenize_eq_iff.mpr hstream, htree⟩

theorem Expresses.isAllBlank_eq_false (h : Expresses source tree) : source.isAllBlank = false := by
  obtain ⟨tokens, htokens, htree⟩ := h
  rw [Bool.eq_false_iff]
  intro hblank
  have hstream := Cursor.stream_blank hblank 0
  have hother := tokenize_eq_iff.mp htokens
  exact htree.ne_nil (congrArg Stream.tokens (hother.symm.trans hstream))

theorem Expresses.evaluateWithin_eq (h : Expresses source tree)
    (hdeep : evaluateWithin limit source ≠ .error .nestingTooDeep) :
    evaluateWithin limit source = tree.outcome Token.value := by
  rw [evaluateWithin_eq_run_none h.isAllBlank_eq_false hdeep]
  exact (expresses_iff.mp h).run_eq

theorem Derives.exists_slash {rule : Rule} {tokens : List Token} (h : Derives rule tokens tree)
    {leaf : Token → Float} {position : Nat} (hposition : position ∈ tree.zeroDivisions leaf) :
    ∃ token ∈ tokens, token.kind = .slash ∧ token.position = position := by
  induction h with
  | number _ => cases hposition
  | negation _ _ ih =>
    obtain ⟨token, hmem, hslash⟩ := ih hposition
    exact ⟨token, List.mem_cons_of_mem _ hmem, hslash⟩
  | bracketed _ _ _ ih =>
    obtain ⟨token, hmem, hslash⟩ := ih hposition
    exact ⟨token, List.mem_cons_of_mem _ (List.mem_append_left _ hmem), hslash⟩
  | operand _ ih => exact ih hposition
  | @operation operator left l sign right r _ hoperator _ ihl ihr =>
    simp only [Expr.zeroDivisions, List.mem_append] at hposition
    rcases hposition with (hposition | hposition) | hposition
    · obtain ⟨token, hmem, hslash⟩ := ihl hposition
      exact ⟨token, List.mem_append_left _ hmem, hslash⟩
    · obtain ⟨token, hmem, hslash⟩ := ihr hposition
      exact ⟨token, List.mem_append_right _ (List.mem_cons_of_mem _ hmem), hslash⟩
    · have hdivide : operator = .divide ∧ position = sign.position := by
        by_cases hzero : operator.dividesByZero (r.value leaf)
        · simp_all [Operator.dividesByZero]
        · simp [hzero] at hposition
      exact ⟨sign, by simp, Kind.eq_slash (hdivide.1 ▸ hoperator), hdivide.2.symm⟩

theorem getElem?_of_slash {tokens : List Token} {last : Except Fault Token} {token : Token}
    (hstream : (Cursor.start source).stream = ⟨tokens, last⟩) (hmem : token ∈ tokens)
    (hslash : token.kind = .slash) : source[token.position]? = some '/' := by
  have hmem : token ∈ (Cursor.stream ⟨0, source⟩).tokens :=
    (congrArg Stream.tokens hstream).symm ▸ hmem
  obtain ⟨before, after, rfl, hposition, ⟨hnumber, -, -⟩ | ⟨c, hlexeme, hc⟩⟩ :=
    (Cursor.yields_stream 0 source).lexeme_of_mem hmem
  · rw [hslash] at hnumber
    cases hnumber
  · have hc : c = '/' := by
      rw [hslash] at hc
      unfold Kind.ofChar? at hc
      split at hc <;> simp_all
    simp [hposition, hlexeme, hc]

theorem Expresses.getElem?_of_mem_zeroDivisions (h : Expresses source tree)
    {leaf : Token → Float} {position : Nat} (hposition : position ∈ tree.zeroDivisions leaf) :
    source[position]? = some '/' := by
  obtain ⟨tokens, htokens, htree⟩ := h
  obtain ⟨token, hmem, hslash, rfl⟩ := htree.exists_slash hposition
  exact getElem?_of_slash (tokenize_eq_iff.mp htokens) hmem hslash

/-- What an expression is evaluated to, by the divisions by zero in its tree. -/
theorem Expresses.evaluateWithin_cases (h : Expresses source tree)
    (hdeep : evaluateWithin limit source ≠ .error .nestingTooDeep) :
    (tree.zeroDivisions Token.value = [] →
      evaluateWithin limit source = .ok (tree.value Token.value)) ∧
    ∀ position later, tree.zeroDivisions Token.value = position :: later →
      evaluateWithin limit source = .error (.divisionByZero position) ∧
        source[position]? = some '/' := by
  rw [h.evaluateWithin_eq hdeep]
  constructor
  · intro hzero
    simp only [Expr.outcome, hzero]
  · intro position later hzero
    constructor
    · simp only [Expr.outcome, hzero]
    · exact h.getElem?_of_mem_zeroDivisions (hzero ▸ List.mem_cons_self)

/-- Evaluation is the semantics of the grammar: values are those of trees without a division by
zero, the first such division is a fault at its slash, and what is no expression has no value. -/
theorem evaluateWithin_grammar (hdeep : evaluateWithin limit source ≠ .error .nestingTooDeep) :
    (∀ value, evaluateWithin limit source = .ok value ↔
      ∃ tree, Expresses source tree ∧ tree.zeroDivisions Token.value = [] ∧
        tree.value Token.value = value) ∧
    (∀ tree position later, Expresses source tree →
      tree.zeroDivisions Token.value = position :: later →
        evaluateWithin limit source = .error (.divisionByZero position) ∧
          source[position]? = some '/') ∧
    ((¬ ∃ tree, Expresses source tree) → ∀ value, evaluateWithin limit source ≠ .ok value) := by
  have hvalue (value : Float) (h : evaluateWithin limit source = .ok value) :
      ∃ tree, Expresses source tree ∧ tree.outcome Token.value = .ok value := by
    obtain ⟨tree, hexpresses, houtcome⟩ := expresses_of_evaluateWithin h
    exact ⟨tree, expresses_iff.mpr hexpresses, houtcome⟩
  refine ⟨?_, ?_, ?_⟩
  · intro value
    constructor
    · intro h
      obtain ⟨tree, hexpresses, houtcome⟩ := hvalue value h
      refine ⟨tree, hexpresses, ?_⟩
      unfold Expr.outcome at houtcome
      split at houtcome
      next hzero => exact ⟨hzero, Except.ok.inj houtcome⟩
      next => cases houtcome
    · rintro ⟨tree, hexpresses, hzero, rfl⟩
      exact (hexpresses.evaluateWithin_cases hdeep).1 hzero
  · intro tree position later hexpresses
    exact (hexpresses.evaluateWithin_cases hdeep).2 position later
  · intro hnone value h
    obtain ⟨tree, hexpresses, -⟩ := hvalue value h
    exact hnone ⟨tree, hexpresses⟩

theorem expresses_of_quotient :
    evaluateWithin frames "-8/(3-1)".toList ≠ .error .nestingTooDeep ∧
      ∃ tree, Expresses "-8/(3-1)".toList tree ∧ tree.zeroDivisions Token.value = [] ∧
        tree.value Token.value = -4 := by
  have hdeep : evaluateWithin frames "-8/(3-1)".toList ≠ .error .nestingTooDeep := by
    decide +kernel
  have hvalue : evaluateWithin frames "-8/(3-1)".toList = .ok (-4) := by decide +kernel
  exact ⟨hdeep, ((evaluateWithin_grammar hdeep).1 (-4)).mp hvalue⟩

end Abacus
