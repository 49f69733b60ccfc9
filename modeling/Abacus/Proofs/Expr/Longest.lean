import Abacus.Proofs.Expr.Grammar
import Abacus.Proofs.Token.Nest

/-!
# Phrases that go on

Where a phrase goes on behind another one, an operator stands between the end of
the shorter one and the rest, and it binds as close as the operators of the rule
of the longer one. So nothing longer can be read from a place where a phrase ends
in front of no such operator. What tells the end of a phrase from the other places
in it is what is open there.
-/

namespace Abacus

theorem cons_parts {α : Type} {front back before after : List α} {middle next : α}
    (h : front ++ middle :: back = before ++ next :: after) :
    (∃ between, front = before ++ next :: between) ∨ (before = front ∧ next = middle) ∨
      ∃ between, before = front ++ middle :: between ∧ back = between ++ next :: after := by
  rcases List.append_eq_append_iff.mp h with ⟨between, hbefore, hrest⟩ | ⟨between, hfront, hrest⟩
  · cases between with
    | nil =>
      cases hrest
      exact .inr (.inl ⟨by simpa using hbefore, rfl⟩)
    | cons first between =>
      cases hrest
      exact .inr (.inr ⟨between, hbefore, rfl⟩)
  · cases between with
    | nil =>
      cases hrest
      exact .inr (.inl ⟨by simpa using hfront.symm, rfl⟩)
    | cons first between =>
      cases hrest
      exact .inl ⟨between, hfront⟩

/-- What is open at a place in a phrase, given what is open around the phrase. Outside of the
brackets of the phrase, an operator of the rule is next or an operand is wanted. -/
structure GoesOn (rule : Rule) (outer : List Nat) (nest : Nest) (next : Token) : Prop where
  length_le : outer.length ≤ nest.outer.length
  next_of_length_eq : nest.outer.length = outer.length → nest.wanting = false →
    ∃ operator, next.kind.operator? = some operator ∧ rule.level ≤ operator.rank.level

namespace GoesOn

variable {rule other : Rule} {outer : List Nat} {minuses : Nat} {nest : Nest} {next : Token}

theorem wanting (rule : Rule) (minuses : Nat) (outer : List Nat) (next : Token) :
    GoesOn rule outer ⟨true, minuses, outer⟩ next where
  length_le := Nat.le_refl _
  next_of_length_eq _ hwanting := by cases hwanting

theorem of_level_le (h : GoesOn rule outer nest next) (hlevel : other.level ≤ rule.level) :
    GoesOn other outer nest next where
  length_le := h.length_le
  next_of_length_eq hlength hwanting := by
    obtain ⟨operator, hoperator, hle⟩ := h.next_of_length_eq hlength hwanting
    exact ⟨operator, hoperator, Nat.le_trans hlevel hle⟩

theorem bracketed (rule : Rule) (h : (minuses :: outer).length ≤ nest.outer.length) :
    GoesOn rule outer nest next where
  length_le := Nat.le_of_succ_le h
  next_of_length_eq hlength := by
    rw [hlength] at h
    exact absurd h (Nat.not_succ_le_self _)

end GoesOn

namespace Derives

variable {rule other : Rule} {tokens : List Token} {tree otherTree : Expr Token}

/-- A phrase completes the operand that is wanted, and leaves the brackets around it open. -/
theorem foldl_behind (h : Derives rule tokens tree) (minuses : Nat) (outer : List Nat) :
    tokens.foldl Nest.behind ⟨true, minuses, outer⟩ = ⟨false, 0, outer⟩ := by
  induction h generalizing minuses outer with
  | number hkind => exact Nest.behind_number minuses outer hkind
  | negation hkind _ ih => rw [List.foldl_cons, Nest.behind_minus _ _ hkind, ih]
  | bracketed hopening _ hclosing ih =>
    rw [List.foldl_cons, Nest.behind_bracketOpen _ _ hopening, List.foldl_append, ih]
    exact Nest.behind_bracketClose _ _ hclosing
  | operand _ ih => exact ih minuses outer
  | operation _ hoperator _ ihl ihr =>
    rw [List.foldl_append, ihl, List.foldl_cons, Nest.behind_operator _ hoperator, ihr]

/-- Every place in a phrase is one where the phrase goes on. -/
theorem goesOn (h : Derives rule tokens tree) {before after : List Token} {next : Token}
    (htokens : tokens = before ++ next :: after) (minuses : Nat) (outer : List Nat) :
    GoesOn rule outer (before.foldl Nest.behind ⟨true, minuses, outer⟩) next := by
  -- what is open around the phrase changes at brackets and minuses, so it is arbitrary
  induction h generalizing before after minuses outer with
  | number hkind =>
    cases before with
    | nil => exact .wanting _ _ _ _
    | cons first before => simp at htokens
  | negation hkind _ ih =>
    cases before with
    | nil => exact .wanting _ _ _ _
    | cons first before =>
      obtain ⟨rfl, hoperand⟩ := List.cons.inj htokens
      rw [List.foldl_cons, Nest.behind_minus _ _ hkind]
      exact ih hoperand (minuses + 1) outer
  | bracketed hopening hinner hclosing ih =>
    cases before with
    | nil => exact .wanting _ _ _ _
    | cons first before =>
      obtain ⟨rfl, hbehind⟩ := List.cons.inj htokens
      rw [List.foldl_cons, Nest.behind_bracketOpen _ _ hopening]
      rcases cons_parts hbehind with ⟨between, hinside⟩ | ⟨rfl, rfl⟩ | ⟨between, -, hnone⟩
      · exact .bracketed _ (ih hinside 0 (minuses :: outer)).length_le
      · rw [hinner.foldl_behind]
        exact .bracketed _ (Nat.le_refl _)
      · simp at hnone
  | @operand rank _ _ _ ih =>
    exact (ih htokens minuses outer).of_level_le rank.level_rule_le_operand
  | @operation operator left l sign right r hleft hoperator _ ihl ihr =>
    rcases cons_parts htokens with ⟨between, hinside⟩ | ⟨rfl, rfl⟩ | ⟨between, rfl, hbehind⟩
    · exact ihl hinside minuses outer
    · rw [hleft.foldl_behind]
      have hlevel : operator.rank.rule.level ≤ operator.rank.level :=
        Nat.le_of_eq operator.rank.level_rule
      exact ⟨Nat.le_refl _, fun _ _ => ⟨operator, hoperator, hlevel⟩⟩
    · rw [List.foldl_append, hleft.foldl_behind, List.foldl_cons, Nest.behind_operator _ hoperator]
      exact (ihr hbehind 0 outer).of_level_le operator.rank.level_rule_le_operand

/-- A phrase that starts with another one goes on with an operator of its rule. -/
theorem exists_operator {next : Token} {after : List Token} (h : Derives rule tokens tree)
    (hlonger : Derives other (tokens ++ next :: after) otherTree) :
    ∃ operator, next.kind.operator? = some operator ∧ other.level ≤ operator.rank.level := by
  have hplace := hlonger.goesOn rfl 0 []
  rw [h.foldl_behind] at hplace
  exact hplace.next_of_length_eq rfl rfl

/-- Where no operator of the rule follows, a phrase is the longest one. -/
theorem length_le_of_endsAt {rest longer : List Token} {next : Token}
    (h : Derives rule tokens tree) (hhead : ∀ token ∈ rest.head?, token = next)
    (hends : other.EndsAt next.kind) (hlonger : Derives other longer otherTree)
    (hstart : longer <+: tokens ++ rest) : longer.length ≤ tokens.length := by
  obtain ⟨after, hstart⟩ := hstart
  rcases List.append_eq_append_iff.mp hstart with ⟨more, rfl, -⟩ | ⟨more, rfl, rfl⟩
  · simp
  cases more with
  | nil => simp
  | cons token more =>
    obtain rfl := hhead token rfl
    obtain ⟨operator, hoperator, hlevel⟩ := h.exists_operator hlonger
    exact absurd (hends operator hoperator) (Nat.not_lt.mpr hlevel)

end Derives

end Abacus
