import Abacus.Exact
import Abacus.Proofs.Evaluation.Grammar
import Abacus.Proofs.Expr.Reading

/-!
# Exact evaluation without integers

A numeral with a point is a double in exact evaluation, too. Where all numerals
have one, an expression has the same tree and the same outcome in both
evaluations, but for its brackets, of which exact evaluation takes only so many
inside each other.
-/

namespace Abacus

/-- The leaves of a tree, from left to right. -/
def Expr.leaves {α : Type} : Expr α → List α
  | .leaf value => [value]
  | .negation operand => operand.leaves
  | .operation _ _ left right => left.leaves ++ right.leaves

theorem Derives.of_mem_leaves {rule : Rule} {tokens : List Token} {tree : Expr Token}
    (h : Derives rule tokens tree) {token : Token} (hmem : token ∈ tree.leaves) :
    token ∈ tokens ∧ token.kind = .number := by
  induction h with
  | @number number hkind =>
    obtain rfl := List.mem_singleton.mp hmem
    exact ⟨List.mem_singleton_self _, hkind⟩
  | negation _ _ ih => exact (ih hmem).imp_left (List.mem_cons_of_mem _)
  | bracketed _ _ _ ih =>
    exact (ih hmem).imp_left fun hinner =>
      List.mem_cons_of_mem _ (List.mem_append_left _ hinner)
  | operand _ ih => exact ih hmem
  | operation _ _ _ ihl ihr =>
    rcases List.mem_append.mp hmem with hleft | hright
    · exact (ihl hleft).imp_left (List.mem_append_left _)
    · exact (ihr hright).imp_left fun hinner =>
        List.mem_append_right _ (List.mem_cons_of_mem _ hinner)

namespace Exact

/-- The leaf of a number. -/
def numeral (token : Token) : Leaf := .numeral token.lexeme

theorem symbol?_eq (token : Token) : symbol? token = Symbol.ofToken? numeral token := rfl

theorem symbols?_eq (cursor : Cursor) {token : Token} (h : cursor.stream.last = .ok token) :
    symbols? cursor = some (Expr.symbols numeral cursor.stream.tokens) := by
  rw [symbols?]
  split
  next first past hnext =>
    split
    next hend =>
      rw [Cursor.stream_end hnext hend]
      rfl
    next hkind =>
      have hstream := Cursor.stream_token hnext hkind
      have hlast : past.stream.last = .ok token := by rwa [hstream] at h
      obtain ⟨symbol, hsymbol⟩ := Symbol.exists_ofToken? numeral hkind
      rw [hstream, symbols?_eq past hlast, symbol?_eq, hsymbol]
      exact congrArg some (Expr.symbols_cons hsymbol _).symm
  next index past hnext => simp [Cursor.stream_fault hnext] at h
  next fault past hother hnext => simp [Cursor.stream_fault hnext] at h
termination_by cursor.rest.length
decreasing_by exact Cursor.length_rest_lt ‹_› ‹_›

theorem hasLeadingZeros_eq_false {lexeme : Text} (h : '.' ∈ lexeme) :
    (Leaf.numeral lexeme).hasLeadingZeros = false := by
  have hdigits : lexeme.all Char.isDigit = false := by
    rw [List.all_eq_false]
    exact ⟨'.', h, by decide⟩
  simp [Leaf.hasLeadingZeros, hdigits]

theorem value_eq {token : Token} (h : '.' ∈ token.lexeme) :
    (numeral token).value = .real token.value := by
  simp [numeral, Leaf.value, Token.value, h]

/-- Without zeros in front of integers, only the number of brackets is objected to. -/
theorem objection?_cases {symbols : List (Symbol Leaf)}
    (h : ∀ leaf, .leaf leaf ∈ symbols → leaf.hasLeadingZeros = false) (depth : Nat) :
    objection? depth symbols = none ∨ objection? depth symbols = some .tooManyBrackets := by
  induction symbols generalizing depth with
  | nil => exact .inl rfl
  | cons symbol symbols ih =>
    have hrest (depth : Nat) := ih (fun leaf hleaf => h leaf (List.mem_cons_of_mem _ hleaf)) depth
    cases symbol with
    | leaf leaf =>
      rw [objection?, h leaf List.mem_cons_self]
      exact hrest depth
    | operator operator position => exact hrest depth
    | opening =>
      rw [objection?]
      split
      · exact hrest (depth + 1)
      · exact .inr rfl
    | closing => exact hrest (depth - 1)

/-- What exact evaluation makes of an outcome that was reached without integers. -/
def ofOutcome : Except Fault Float → Except Failure Value
  | .ok x => .ok (.real x)
  | .error _ => .error .realDivisionByZero

theorem ofOutcome_apply (operator : Operator) (position : Nat) (x y : Float) :
    (Value.real x).apply operator (.real y) = ofOutcome (operator.apply position x y) := by
  cases operator with
  | add | subtract | multiply => rfl
  | divide =>
    change (if y == 0.0 then _ else _) = _
    rw [Operator.apply]
    split <;> rfl

/-- On a tree without integers the two evaluations come to the same. -/
theorem eval_map {tree : Expr Token} (h : ∀ token ∈ tree.leaves, '.' ∈ token.lexeme) :
    eval (tree.map numeral) = ofOutcome (tree.outcome Token.value) := by
  induction tree with
  | leaf token =>
    change Except.ok (numeral token).value = .ok (.real token.value)
    rw [value_eq (h token (List.mem_singleton_self _))]
  | negation operand ih =>
    rw [Expr.map, eval, ih h, Expr.outcome_negation]
    cases operand.outcome Token.value <;> rfl
  | operation operator position left right ihl ihr =>
    rw [Expr.map, eval, ihl fun token hleaf => h token (List.mem_append_left _ hleaf),
      ihr fun token hleaf => h token (List.mem_append_right _ hleaf), Expr.outcome_operation]
    cases left.outcome Token.value with
    | error fault => rfl
    | ok x =>
      cases right.outcome Token.value with
      | error fault => rfl
      | ok y => exact ofOutcome_apply operator position x y

/-- All numerals of the source have a point. -/
def Pointed (source : Text) : Prop :=
  ∀ tokens, tokenize source = .ok tokens →
    ∀ token ∈ tokens, token.kind = .number → '.' ∈ token.lexeme

theorem read_cases {source : Text} {tree : Expr Token} (h : Expresses source tree)
    (hpointed : Pointed source) :
    read source = .ok (tree.map numeral) ∨ read source = .error .tooManyBrackets := by
  obtain ⟨tokens, htokens, htree⟩ := h
  have hstream := tokenize_eq_iff.mp htokens
  have hsymbols : symbols? (.start source) = some (Expr.symbols numeral tokens) := by
    rw [symbols?_eq _ (congrArg Stream.last hstream), hstream]
  have hzeros (leaf : Leaf) (hleaf : .leaf leaf ∈ Expr.symbols numeral tokens) :
      leaf.hasLeadingZeros = false := by
    obtain ⟨token, hmem, hsymbol⟩ := List.mem_filterMap.mp hleaf
    obtain ⟨hkind, rfl⟩ := Symbol.of_ofToken?_leaf hsymbol
    exact hasLeadingZeros_eq_false
      (hpointed _ htokens token (List.mem_append_left _ hmem) hkind)
  simp only [read, hsymbols, Expr.ofSymbols?_symbols _ htree]
  rcases objection?_cases hzeros 0 with hnone | hbrackets
  · rw [hnone]
    exact .inl rfl
  · rw [hbrackets]
    exact .inr rfl

/-- An expression without integers has the outcome that it has in double precision. -/
theorem evaluate_eq {source : Text} {tree : Expr Token} (h : Expresses source tree)
    (hpointed : Pointed source) (hbrackets : evaluate source ≠ .error .tooManyBrackets) :
    evaluate source = ofOutcome (tree.outcome Token.value) := by
  rcases read_cases h hpointed with hread | hread
  · obtain ⟨tokens, htokens, htree⟩ := h
    rw [evaluate, hread]
    refine eval_map fun token hleaf => ?_
    obtain ⟨hmem, hkind⟩ := htree.of_mem_leaves hleaf
    exact hpointed _ htokens token (List.mem_append_left _ hmem) hkind
  · rw [evaluate, hread] at hbrackets
    exact absurd rfl hbrackets

end Exact

end Abacus
