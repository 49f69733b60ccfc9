import Abacus.Proofs.Expr.Grammar
import Mathlib.Data.List.Chain

/-!
# Neighbours in a phrase

A phrase begins where an operand is wanted and ends where one is complete. In
between, a binary operator that is no minus has a complete operand on its left,
so it never follows another operator or an opening bracket.
-/

namespace Abacus

namespace Kind

/-- There has to be an operand to the left of a token of this kind. -/
def WantsLeft (kind : Kind) : Prop := kind = .plus ∨ kind = .star ∨ kind = .slash

/-- A token of this kind can be the last one of an operand. -/
def EndsOperand (kind : Kind) : Prop := kind = .number ∨ kind = .bracketClose

end Kind

/-- The tokens may stand side by side in a phrase. -/
def Token.MayPrecede (token next : Token) : Prop := next.kind.WantsLeft → token.kind.EndsOperand

/-- Tokens that begin and end as operands do, with an operand to the left of each operator that
wants one there. -/
structure WellPlaced (tokens : List Token) : Prop where
  first : ∀ token ∈ tokens.head?, ¬ token.kind.WantsLeft
  last : ∀ token ∈ tokens.getLast?, token.kind.EndsOperand
  chain : tokens.IsChain Token.MayPrecede

namespace WellPlaced

variable {tokens others : List Token} {token : Token}

theorem singleton (h : token.kind = .number) : WellPlaced [token] where
  first first hfirst := by
    obtain rfl := Option.some.inj hfirst
    simp [Kind.WantsLeft, h]
  last last hlast := by
    obtain rfl := Option.some.inj hlast
    exact .inl h
  chain := .singleton token

theorem chain_cons (h : WellPlaced tokens) (token : Token) :
    (token :: tokens).IsChain Token.MayPrecede := by
  rw [List.isChain_cons]
  exact ⟨fun next hnext hwants => absurd hwants (h.first next hnext), h.chain⟩

theorem last_cons (h : WellPlaced tokens) (hne : tokens ≠ []) (token : Token) :
    ∀ last ∈ (token :: tokens).getLast?, last.kind.EndsOperand := by
  obtain ⟨head, tail, rfl⟩ := List.exists_cons_of_ne_nil hne
  rw [List.getLast?_cons_cons]
  exact h.last

theorem cons (h : WellPlaced tokens) (hne : tokens ≠ []) (hkind : ¬ token.kind.WantsLeft) :
    WellPlaced (token :: tokens) where
  first first hfirst := by
    obtain rfl := Option.some.inj hfirst
    exact hkind
  last := h.last_cons hne token
  chain := h.chain_cons token

theorem append (h : WellPlaced tokens) (hne : tokens ≠ [])
    (hlast : ∀ token ∈ others.getLast?, token.kind.EndsOperand)
    (hchain : others.IsChain Token.MayPrecede) (hothers : others ≠ []) :
    WellPlaced (tokens ++ others) where
  first := by
    rw [List.head?_append_of_ne_nil _ hne]
    exact h.first
  last := by
    rw [List.getLast?_append_of_ne_nil _ hothers]
    exact hlast
  chain := by
    rw [List.isChain_append]
    exact ⟨h.chain, hchain, fun last hend next _ _ => h.last last hend⟩

end WellPlaced

theorem Derives.wellPlaced {rule : Rule} {tokens : List Token} {tree : Expr Token}
    (h : Derives rule tokens tree) : WellPlaced tokens := by
  induction h with
  | number hkind => exact .singleton hkind
  | negation hkind hoperand ih =>
    exact ih.cons hoperand.ne_nil (by simp [Kind.WantsLeft, hkind])
  | @bracketed opening tokens tree closing hopening hinner hclosing ih =>
    have hclosed : WellPlaced (tokens ++ [closing]) := by
      refine ih.append hinner.ne_nil ?_ (.singleton closing) (List.cons_ne_nil _ _)
      intro last hlast
      obtain rfl := Option.some.inj hlast
      exact .inr hclosing
    exact hclosed.cons (by simp) (by simp [Kind.WantsLeft, hopening])
  | operand _ ih => exact ih
  | operation hleft hoperator hright ihl ihr =>
    exact ihl.append hleft.ne_nil (ihr.last_cons hright.ne_nil _) (ihr.chain_cons _)
      (List.cons_ne_nil _ _)

end Abacus
