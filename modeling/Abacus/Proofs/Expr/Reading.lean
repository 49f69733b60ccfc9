import Abacus.Proofs.Expr.Grammar

/-!
# The tree of a phrase

The symbols of a phrase make up the tree that the grammar gives it. What is
complete on the stack behind a phrase need not be carried out yet. It is as
soon as a symbol comes that binds no closer, so the stack behind the phrase is
compared with the stack in front of it only once both are settled.
-/

namespace Abacus

variable {α β : Type}

/-- What a token means where its numerals stand for `leaf`. -/
def Symbol.ofToken? (leaf : Token → α) (token : Token) : Option (Symbol α) :=
  match token.kind with
  | .number => some (.leaf (leaf token))
  | .bracketOpen => some .opening
  | .bracketClose => some .closing
  | kind => kind.operator?.map (Symbol.operator · token.position)

namespace Symbol

variable {leaf : Token → α} {token : Token}

theorem ofToken?_number (h : token.kind = .number) :
    ofToken? leaf token = some (.leaf (leaf token)) := by
  simp [ofToken?, h]

theorem ofToken?_bracketOpen (h : token.kind = .bracketOpen) :
    ofToken? leaf token = some .opening := by
  simp [ofToken?, h]

theorem ofToken?_bracketClose (h : token.kind = .bracketClose) :
    ofToken? leaf token = some .closing := by
  simp [ofToken?, h]

theorem ofToken?_operator {operator : Operator} (h : token.kind.operator? = some operator) :
    ofToken? leaf token = some (.operator operator token.position) := by
  unfold ofToken?
  split <;> simp_all [Kind.operator?]

theorem of_ofToken?_leaf {value : α} (h : ofToken? leaf token = some (.leaf value)) :
    token.kind = .number ∧ leaf token = value := by
  unfold ofToken? at h
  cases hkind : token.kind <;> simp_all [Kind.operator?]

theorem exists_ofToken? (leaf : Token → α) (h : token.kind ≠ .exprEnd) :
    ∃ symbol, ofToken? leaf token = some symbol := by
  unfold ofToken?
  cases hkind : token.kind <;> simp_all [Kind.operator?]

end Symbol

namespace Expr

/-- The tree with other leaves. -/
def map (f : α → β) : Expr α → Expr β
  | leaf value => leaf (f value)
  | negation operand => negation (operand.map f)
  | operation operator position left right =>
    operation operator position (left.map f) (right.map f)

/-- Operators that belong to the rule, or bind closer, find nothing on the stack to carry out. -/
def Fits (rule : Rule) (pending : List (Pending α)) : Prop :=
  ∀ rank operand, rule.level ≤ rank.level → settle rank pending operand = (pending, operand)

theorem fits_nil (rule : Rule) : Fits rule ([] : List (Pending α)) := fun _ _ _ => rfl

theorem fits_bracket (rule : Rule) (pending : List (Pending α)) :
    Fits rule (.bracket :: pending) := fun _ _ _ => rfl

theorem fits_factor (pending : List (Pending α)) : Fits .factor pending :=
  fun rank _ hlevel => absurd rank.level_lt (Nat.not_lt.mpr hlevel)

theorem fits_operand (operator : Operator) (position : Nat) (left : Expr α)
    (pending : List (Pending α)) :
    Fits operator.rank.operand (.operation operator position left :: pending) := by
  intro rank operand hlevel
  rw [Rank.level_operand] at hlevel
  simp [settle, Nat.not_le.mpr hlevel]

theorem Fits.operand {rank : Rank} {pending : List (Pending α)} (h : Fits rank.rule pending) :
    Fits rank.operand pending :=
  fun other operand hlevel => h other operand (Nat.le_trans rank.level_rule_le_operand hlevel)

variable {leaf : Token → α} {empty : Option α} {pending past : List (Pending α)}
  {operand : Expr α}

theorem step_operator {operator : Operator} {left : Expr α}
    (h : settle operator.rank past operand = (pending, left)) (position : Nat) :
    step empty ⟨past, some operand⟩ (.operator operator position) =
      some ⟨.operation operator position left :: pending, none⟩ := by
  simp only [step, h]

theorem step_closing {inner : Expr α}
    (h : settle .additive past operand = (.bracket :: pending, inner)) :
    step empty ⟨past, some operand⟩ .closing = some ⟨pending, some inner⟩ := by
  simp only [step, h]

theorem finish_of_settle {tree : Expr α} (h : settle .additive past operand = ([], tree)) :
    finish ⟨past, some operand⟩ = some tree := by
  simp only [finish, h]

/-- The symbols of some tokens. -/
def symbols (leaf : Token → α) (tokens : List Token) : List (Symbol α) :=
  tokens.filterMap (Symbol.ofToken? leaf)

theorem symbols_append (tokens others : List Token) :
    symbols leaf (tokens ++ others) = symbols leaf tokens ++ symbols leaf others :=
  List.filterMap_append

theorem symbols_cons {token : Token} {symbol : Symbol α}
    (h : Symbol.ofToken? leaf token = some symbol) (tokens : List Token) :
    symbols leaf (token :: tokens) = symbol :: symbols leaf tokens :=
  List.filterMap_cons_some h

/-- Behind a phrase the stack settles as it would in front of it with the tree as operand. -/
theorem foldlM_symbols (empty : Option α) {rule : Rule} {tokens : List Token} {tree : Expr Token}
    (h : Derives rule tokens tree) (hfits : Fits rule pending) :
    ∃ past operand,
      (symbols leaf tokens).foldlM (step empty) ⟨pending, none⟩ = some ⟨past, some operand⟩ ∧
      ∀ rank : Rank, rank.level ≤ rule.level →
        settle rank past operand = settle rank pending (tree.map leaf) := by
  induction h generalizing pending with
  | @number token hkind =>
    refine ⟨pending, .leaf (leaf token), ?_, fun _ _ => rfl⟩
    rw [symbols_cons (Symbol.ofToken?_number hkind)]
    rfl
  | @negation token tokens tree hkind _ ih =>
    have hsign : Symbol.ofToken? leaf token = some (.operator .subtract token.position) :=
      Symbol.ofToken?_operator (by simp [hkind, Kind.operator?])
    obtain ⟨past, operand, hfold, hsettle⟩ := ih (fits_factor (.negation :: pending))
    refine ⟨past, operand, ?_, hsettle⟩
    rw [symbols_cons hsign]
    exact hfold
  | @bracketed opening tokens tree closing hopening _ hclosing ih =>
    obtain ⟨past, operand, hfold, hsettle⟩ := ih (fits_bracket .expression pending)
    have hinner : settle .additive past operand = (.bracket :: pending, tree.map leaf) :=
      hsettle .additive (Nat.le_refl _)
    refine ⟨pending, tree.map leaf, ?_, fun _ _ => rfl⟩
    rw [symbols_cons (Symbol.ofToken?_bracketOpen hopening), symbols_append,
      symbols_cons (Symbol.ofToken?_bracketClose hclosing)]
    change List.foldlM (step empty) ⟨.bracket :: pending, none⟩ _ = _
    rw [List.foldlM_append, hfold, Option.bind_eq_bind, Option.bind_some, List.foldlM_cons,
      step_closing hinner]
    rfl
  | @operand rank tokens tree _ ih =>
    obtain ⟨past, operand, hfold, hsettle⟩ := ih hfits.operand
    exact ⟨past, operand, hfold,
      fun other hlevel => hsettle other (Nat.le_trans hlevel rank.level_rule_le_operand)⟩
  | @operation operator left l sign right r _ hoperator _ ihl ihr =>
    obtain ⟨middle, operand, hfold, hsettle⟩ := ihl hfits
    -- the operator settles what its left operand has left on the stack, but nothing below that
    have hrank : operator.rank.level = operator.rank.rule.level := (Rank.level_rule _).symm
    have hleft : settle operator.rank middle operand = (pending, l.map leaf) :=
      (hsettle operator.rank (Nat.le_of_eq hrank)).trans (hfits _ _ (Nat.le_of_eq hrank.symm))
    obtain ⟨past, other, hright, hbehind⟩ :=
      ihr (fits_operand operator sign.position (l.map leaf) pending)
    refine ⟨past, other, ?_, ?_⟩
    · rw [symbols_append, symbols_cons (Symbol.ofToken?_operator hoperator), List.foldlM_append,
        hfold, Option.bind_eq_bind, Option.bind_some, List.foldlM_cons, step_operator hleft]
      exact hright
    · intro rank hlevel
      rw [hbehind rank (Nat.le_trans hlevel operator.rank.level_rule_le_operand)]
      simp only [settle, hrank, hlevel, ↓reduceIte, map]

theorem ofSymbols?_symbols (empty : Option α) {tokens : List Token} {tree : Expr Token}
    (h : Derives .expression tokens tree) :
    ofSymbols? empty (symbols leaf tokens) = some (tree.map leaf) := by
  obtain ⟨past, operand, hfold, hsettle⟩ := foldlM_symbols empty h (fits_nil _)
  rw [ofSymbols?, hfold, Option.bind_eq_bind, Option.bind_some]
  exact finish_of_settle (hsettle .additive (Nat.le_refl _))

end Expr

end Abacus
