import Abacus.Proofs.Evaluation.Grammar

/-!
# Ways to write a tree

A spelling is a tree with all that is free in writing it down: the blanks in
front of each token, and the brackets, needed or not. It tells the text, the
tokens of the text and the tree, in which the operations stand where the text
has their operators. However a tree is written down, evaluation comes back to
the tree.
-/

namespace Abacus

namespace Operator

def kind : Operator → Kind
  | add => .plus
  | subtract => .minus
  | multiply => .star
  | divide => .slash

def symbol : Operator → Char
  | add => '+'
  | subtract => '-'
  | multiply => '*'
  | divide => '/'

theorem operator?_kind (operator : Operator) : operator.kind.operator? = some operator := by
  cases operator <;> rfl

theorem ofChar?_symbol (operator : Operator) :
    Kind.ofChar? operator.symbol = some operator.kind := by
  cases operator <;> rfl

end Operator

inductive Spelling where
  | numeral (blanks lexeme : Text)
  | negation (blanks : Text) (operand : Spelling)
  | operation (operator : Operator) (left : Spelling) (blanks : Text) (right : Spelling)
  | bracketed (blanks : Text) (inner : Spelling) (behind : Text)
deriving DecidableEq

namespace Spelling

def text : Spelling → Text
  | numeral blanks lexeme => blanks ++ lexeme
  | negation blanks operand => blanks ++ '-' :: operand.text
  | operation operator left blanks right => left.text ++ (blanks ++ operator.symbol :: right.text)
  | bracketed blanks inner behind => blanks ++ '(' :: (inner.text ++ (behind ++ [')']))

/-- The tokens of a text that starts at `start`. -/
def tokens (start : Nat) : Spelling → List Token
  | numeral blanks lexeme => [⟨.number, lexeme, start + blanks.length⟩]
  | negation blanks operand =>
    let position := start + blanks.length
    ⟨.minus, ['-'], position⟩ :: operand.tokens (position + 1)
  | operation operator left blanks right =>
    let position := start + left.text.length + blanks.length
    left.tokens start ++ ⟨operator.kind, [operator.symbol], position⟩ :: right.tokens (position + 1)
  | bracketed blanks inner behind =>
    let position := start + blanks.length
    ⟨.bracketOpen, ['('], position⟩ :: (inner.tokens (position + 1) ++
      [⟨.bracketClose, [')'], position + 1 + inner.text.length + behind.length⟩])

/-- The tree, for a text that starts at `start`. Brackets leave no trace in it. -/
def tree (start : Nat) : Spelling → Expr Token
  | numeral blanks lexeme => .leaf ⟨.number, lexeme, start + blanks.length⟩
  | negation blanks operand => .negation (operand.tree (start + blanks.length + 1))
  | operation operator left blanks right =>
    let position := start + left.text.length + blanks.length
    .operation operator position (left.tree start) (right.tree (position + 1))
  | bracketed blanks inner _ => inner.tree (start + blanks.length + 1)

/-- The rank of the operation that is outside of all brackets and negations, if there is one. -/
def rank? : Spelling → Option Rank
  | operation operator .. => some operator.rank
  | _ => none

/-- Numerals are numerals, blanks are blank, and no operation lacks the brackets that it needs: as
the operand of a negation, beside an operator of a higher rank, and to the right of one of its own
rank. -/
def isAdmissible : Spelling → Bool
  | numeral blanks lexeme =>
    blanks.isAllBlank && lexeme.all Text.isNumeralChar && Text.isNumeral lexeme
  | negation blanks operand => blanks.isAllBlank && operand.rank? = none && operand.isAdmissible
  | operation operator left blanks right =>
    left.isAdmissible && left.rank?.all (operator.rank.level ≤ ·.level) && blanks.isAllBlank &&
      right.isAdmissible && right.rank?.all (operator.rank.level < ·.level)
  | bracketed blanks inner behind => blanks.isAllBlank && inner.isAdmissible && behind.isAllBlank

/-- The rule that a spelling is a phrase of without any more brackets. -/
def rule (spelling : Spelling) : Rule := spelling.rank?.elim .factor Rank.rule

theorem level_le_of_all {level : Nat} {spelling : Spelling} (hlevel : level ≤ 2)
    (h : spelling.rank?.all (level ≤ ·.level)) : level ≤ spelling.rule.level := by
  unfold rule
  cases hrank : spelling.rank? with
  | none => exact hlevel
  | some rank => simpa [hrank] using h

theorem derives {spelling : Spelling} (h : spelling.isAdmissible) (start : Nat) :
    Derives spelling.rule (spelling.tokens start) (spelling.tree start) := by
  induction spelling generalizing start with
  | numeral blanks lexeme => exact .number rfl
  | negation blanks operand ih =>
    simp only [isAdmissible, Bool.and_eq_true, decide_eq_true_eq] at h
    obtain ⟨⟨-, hrank⟩, hoperand⟩ := h
    have hderives := ih hoperand (start + blanks.length + 1)
    rw [rule, hrank] at hderives
    exact .negation rfl hderives
  | operation operator left blanks right ihl ihr =>
    simp only [isAdmissible, Bool.and_eq_true] at h
    obtain ⟨⟨⟨⟨hleft, hleftRank⟩, -⟩, hright⟩, hrightRank⟩ := h
    have hl : operator.rank.rule.level ≤ left.rule.level := by
      rw [Rank.level_rule]
      exact level_le_of_all (Nat.le_of_lt operator.rank.level_lt) hleftRank
    have hr : operator.rank.operand.level ≤ right.rule.level := by
      rw [Rank.level_operand]
      exact level_le_of_all operator.rank.level_lt hrightRank
    refine .operation ((ihl hleft start).of_level_le hl) ?_ ((ihr hright _).of_level_le hr)
    exact operator.operator?_kind
  | bracketed blanks inner behind ih =>
    simp only [isAdmissible, Bool.and_eq_true] at h
    have hinner := ih h.1.2 (start + blanks.length + 1)
    exact .bracketed rfl (hinner.of_level_le (Nat.zero_le _)) rfl

open Text in
/-- The text of an admissible spelling falls into its tokens, whatever ends the last of them. -/
theorem stream_append {spelling : Spelling} (h : spelling.isAdmissible) (start : Nat) {rest : Text}
    (hrest : EndsRun rest) :
    Cursor.stream ⟨start, spelling.text ++ rest⟩ =
      (Cursor.stream ⟨start + spelling.text.length, rest⟩).prepend (spelling.tokens start) := by
  induction spelling generalizing start rest with
  | numeral blanks lexeme =>
    simp only [isAdmissible, Bool.and_eq_true] at h
    obtain ⟨⟨hblanks, hchars⟩, hnumeral⟩ := h
    have hne : lexeme ≠ [] := by
      rintro rfl
      cases hnumeral
    rw [text, List.append_assoc, Cursor.stream_run hblanks hne hchars hrest, if_pos hnumeral,
      List.length_append, Nat.add_assoc]
    rfl
  | negation blanks operand ih =>
    simp only [isAdmissible, Bool.and_eq_true] at h
    obtain ⟨⟨hblanks, -⟩, hoperand⟩ := h
    rw [text, List.append_assoc, List.cons_append, Cursor.stream_symbol hblanks rfl,
      ih hoperand _ hrest, ← Stream.prepend_append]
    simp only [tokens, List.length_append, List.length_cons, List.singleton_append, Nat.add_assoc,
      Nat.add_comm 1]
  | operation operator left blanks right ihl ihr =>
    simp only [isAdmissible, Bool.and_eq_true] at h
    obtain ⟨⟨⟨⟨hleft, -⟩, hblanks⟩, hright⟩, -⟩ := h
    have hsymbol := isNumeralChar_eq_false_of_ofChar? operator.ofChar?_symbol
    have hends : EndsRun (blanks ++ operator.symbol :: (right.text ++ rest)) :=
      endsRun_blanks hblanks (endsRun_cons hsymbol _)
    rw [text, List.append_assoc, List.append_assoc, List.cons_append, ihl hleft start hends,
      Cursor.stream_symbol hblanks operator.ofChar?_symbol, ihr hright _ hrest,
      ← Stream.prepend_append, ← Stream.prepend_append]
    simp only [tokens, List.length_append, List.length_cons, List.append_assoc,
      List.singleton_append, Nat.add_assoc, Nat.add_comm 1]
  | bracketed blanks inner behind ih =>
    simp only [isAdmissible, Bool.and_eq_true] at h
    obtain ⟨⟨hblanks, hinner⟩, hbehind⟩ := h
    have hends : EndsRun (behind ++ ')' :: rest) :=
      endsRun_blanks hbehind (endsRun_cons (by decide) _)
    rw [text, List.append_assoc, List.cons_append, List.append_assoc, List.append_assoc,
      List.singleton_append, Cursor.stream_symbol hblanks rfl, ih hinner _ hends,
      Cursor.stream_symbol hbehind rfl, ← Stream.prepend_append, ← Stream.prepend_append]
    simp only [tokens, List.length_append, List.length_cons, List.length_nil, List.cons_append,
      List.nil_append, Nat.add_assoc, Nat.add_comm 1, Nat.zero_add]

end Spelling

/-! ## Evaluating what is written -/

variable {limit : Nat} {spelling : Spelling} {behind : Text}

theorem Spelling.expresses (h : spelling.isAdmissible) (hbehind : behind.isAllBlank) :
    Expresses (spelling.text ++ behind) (spelling.tree 0) := by
  have hends : Text.EndsRun behind := by
    rw [← List.append_nil behind]
    exact Text.endsRun_blanks hbehind Text.endsRun_nil
  have hstream := stream_append h 0 hends
  rw [Cursor.stream_blank hbehind, Stream.prepend, List.append_nil] at hstream
  exact expresses_iff.mpr ⟨_, _, hstream, rfl, (derives h 0).of_level_le (Nat.zero_le _)⟩

theorem evaluateWithin_spelling (h : spelling.isAdmissible) (hbehind : behind.isAllBlank)
    (hdeep : evaluateWithin limit (spelling.text ++ behind) ≠ .error .nestingTooDeep) :
    ((spelling.tree 0).zeroDivisions Token.value = [] →
      evaluateWithin limit (spelling.text ++ behind) = .ok ((spelling.tree 0).value Token.value)) ∧
    ∀ position later, (spelling.tree 0).zeroDivisions Token.value = position :: later →
      evaluateWithin limit (spelling.text ++ behind) = .error (.divisionByZero position) ∧
        (spelling.text ++ behind)[position]? = some '/' :=
  (Spelling.expresses h hbehind).evaluateWithin_cases hdeep

/-- `" 6/ ((2)-2) "` is a spelling of `6 / (2 - 2)`. -/
theorem spelling_of_zero_division :
    let difference : Spelling :=
      .operation .subtract (.bracketed [] (.numeral [] ['2']) []) [] (.numeral [] ['2'])
    let quotient : Spelling :=
      .operation .divide (.numeral [' '] ['6']) [] (.bracketed [' '] difference [])
    quotient.text ++ [' '] = " 6/ ((2)-2) ".toList ∧ quotient.isAdmissible ∧
      evaluateWithin frames (quotient.text ++ [' ']) = .error (.divisionByZero 2) := by
  intro difference quotient
  have hadmissible : quotient.isAdmissible := by decide
  have hdeep : evaluateWithin frames (quotient.text ++ [' ']) ≠ .error .nestingTooDeep := by
    decide +kernel
  have hzero : (quotient.tree 0).zeroDivisions Token.value = [2] := by decide +kernel
  exact ⟨by decide, hadmissible, ((evaluateWithin_spelling hadmissible rfl hdeep).2 2 [] hzero).1⟩

end Abacus
