import Abacus.Proofs.Token.Stream

/-!
# Brackets of a text

In a balanced text every bracket has its partner. What has been read of a text
is balanced stretches with an open bracket between each and the next, so a
stack of positions tells which brackets are open. It changes at its top only.
-/

namespace Abacus

namespace Text

inductive Balanced : Text → Prop
  | nil : Balanced []
  | other {c rest} : c ≠ '(' → c ≠ ')' → Balanced rest → Balanced (c :: rest)
  | pair {inner rest} : Balanced inner → Balanced rest → Balanced ('(' :: (inner ++ ')' :: rest))

/-- The brackets that are open behind a text stand at these positions, the innermost first. -/
inductive Unclosed : Text → List Nat → Prop
  | balanced {text} : Balanced text → Unclosed text []
  | bracket {before after brackets} : Unclosed before brackets → Balanced after →
      Unclosed (before ++ '(' :: after) (before.length :: brackets)

theorem Balanced.append {text rest : Text} (h : Balanced text) (hrest : Balanced rest) :
    Balanced (text ++ rest) := by
  induction h with
  | nil => exact hrest
  | other hopening hclosing _ ih => exact .other hopening hclosing ih
  | pair hinner _ _ ih =>
    rw [List.cons_append, List.append_assoc, List.cons_append]
    exact .pair hinner ih

theorem balanced_of_forall_ne {text : Text} (h : ∀ c ∈ text, c ≠ '(' ∧ c ≠ ')') :
    Balanced text := by
  induction text with
  | nil => exact .nil
  | cons c text ih =>
    obtain ⟨hopening, hclosing⟩ := h c List.mem_cons_self
    exact .other hopening hclosing (ih fun d hd => h d (List.mem_cons_of_mem _ hd))

namespace Unclosed

variable {text after : Text} {position : Nat} {brackets : List Nat}

theorem append (h : Unclosed text brackets) (hafter : Balanced after) :
    Unclosed (text ++ after) brackets := by
  cases h with
  | balanced htext => exact .balanced (htext.append hafter)
  | bracket hbefore hinner =>
    rw [List.append_assoc, List.cons_append]
    exact .bracket hbefore (hinner.append hafter)

theorem opening (h : Unclosed text brackets) :
    Unclosed (text ++ ['(']) (text.length :: brackets) :=
  .bracket h .nil

theorem closing (h : Unclosed text (position :: brackets)) : Unclosed (text ++ [')']) brackets := by
  cases h with
  | bracket hbefore hinner =>
    rw [List.append_assoc, List.cons_append]
    exact hbefore.append (.pair hinner .nil)

end Unclosed

theorem balanced_of_isAllBlank {blanks : Text} (h : isAllBlank blanks) : Balanced blanks := by
  refine balanced_of_forall_ne fun c hc => ?_
  have hblank : isBlank c = true := List.all_eq_true.mp h c hc
  constructor
  · rintro rfl
    revert hblank
    decide
  · rintro rfl
    revert hblank
    decide

end Text

namespace Token.Spelled

variable {token : Token}

theorem eq_of_bracketOpen (h : token.Spelled) (hkind : token.kind = .bracketOpen) :
    token.lexeme = ['('] := by
  rcases h with ⟨hnumber, -, -⟩ | ⟨c, hlexeme, hc⟩
  · rw [hkind] at hnumber
    cases hnumber
  · rw [hkind] at hc
    unfold Kind.ofChar? at hc
    split at hc <;> simp_all

theorem eq_of_bracketClose (h : token.Spelled) (hkind : token.kind = .bracketClose) :
    token.lexeme = [')'] := by
  rcases h with ⟨hnumber, -, -⟩ | ⟨c, hlexeme, hc⟩
  · rw [hkind] at hnumber
    cases hnumber
  · rw [hkind] at hc
    unfold Kind.ofChar? at hc
    split at hc <;> simp_all

theorem balanced (h : token.Spelled) (hopen : token.kind ≠ .bracketOpen)
    (hclose : token.kind ≠ .bracketClose) : Text.Balanced token.lexeme := by
  refine Text.balanced_of_forall_ne fun c hc => ?_
  rcases h with ⟨-, -, hnumeral⟩ | ⟨d, hlexeme, hd⟩
  · have hnumeral : Text.isNumeralChar c = true := List.all_eq_true.mp hnumeral c hc
    constructor
    · rintro rfl
      revert hnumeral
      decide
    · rintro rfl
      revert hnumeral
      decide
  · obtain rfl : c = d := by simpa [hlexeme] using hc
    constructor
    · rintro rfl
      exact hopen (Option.some.inj hd).symm
    · rintro rfl
      exact hclose (Option.some.inj hd).symm

end Token.Spelled

end Abacus
