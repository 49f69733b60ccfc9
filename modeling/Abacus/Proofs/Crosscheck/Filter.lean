import Abacus.Crosscheck.Comparison
import Abacus.Proofs.Evaluation.Grammar
import Abacus.Proofs.Expr.Adjacency

/-!
# No expression is left out

The sources that are left out of the comparison are those with one of a few
patterns in them. Each pattern ends with an operator that wants an operand to the
left of it, but has something else there. So no expression has any of them.
-/

namespace Abacus

namespace Crosscheck

open Text

/-- The patterns in a source that is not compared: two stars or two slashes with at most blanks in
between, and a plus at the start or behind a character that wants an operand. -/
inductive Pattern : Text → Prop
  | power {before blanks after} : isAllBlank blanks →
      Pattern (before ++ '*' :: (blanks ++ '*' :: after))
  | integerQuotient {before blanks after} : isAllBlank blanks →
      Pattern (before ++ '/' :: (blanks ++ '/' :: after))
  | leadingPlus {blanks after} : isAllBlank blanks → Pattern (blanks ++ '+' :: after)
  | unaryPlus {before c blanks after} : c ∈ ['-', '+', '*', '/', '('] → isAllBlank blanks →
      Pattern (before ++ c :: (blanks ++ '+' :: after))

section Patterns

variable {c : Char} {text : Text}

theorem nextChar?_eq_some_iff (hc : isBlank c = false) :
    nextChar? text = some c ↔ ∃ blanks after, isAllBlank blanks ∧ text = blanks ++ c :: after := by
  constructor
  · intro h
    obtain ⟨after, hafter⟩ := List.head?_eq_some_iff.mp h
    refine ⟨text.takeWhile isBlank, after, List.all_takeWhile, ?_⟩
    rw [← hafter, List.takeWhile_append_dropWhile]
  · rintro ⟨blanks, after, hblanks, rfl⟩
    rw [nextChar?, List.dropWhile_append_of_pos (List.all_eq_true.mp hblanks)]
    simp [hc]

theorem hasPair_iff {p : Char → Bool} (hc : isBlank c = false) :
    hasPair p c text ↔ ∃ before x blanks after, p x ∧ isAllBlank blanks ∧
      text = before ++ x :: (blanks ++ c :: after) := by
  induction text with
  | nil => simp [hasPair]
  | cons first rest ih =>
    rw [hasPair, Bool.or_eq_true, ih, Bool.and_eq_true, decide_eq_true_eq,
      nextChar?_eq_some_iff hc]
    constructor
    · rintro (⟨hfirst, blanks, after, hblanks, rfl⟩ | ⟨before, x, blanks, after, hx, hblanks, rfl⟩)
      · exact ⟨[], first, blanks, after, hfirst, hblanks, rfl⟩
      · exact ⟨first :: before, x, blanks, after, hx, hblanks, rfl⟩
    · rintro ⟨before, x, blanks, after, hx, hblanks, htext⟩
      cases before with
      | nil =>
        obtain ⟨rfl, rfl⟩ := List.cons.inj htext
        exact .inl ⟨hx, blanks, after, hblanks, rfl⟩
      | cons d before =>
        obtain ⟨-, rfl⟩ := List.cons.inj htext
        exact .inr ⟨before, x, blanks, after, hx, hblanks, rfl⟩

/-- What is left out of the comparison is what has a pattern. -/
theorem isSkipped_iff : isSkipped text ↔ Pattern text := by
  have hstar : isBlank '*' = false := by decide
  have hslash : isBlank '/' = false := by decide
  have hplus : isBlank '+' = false := by decide
  simp only [isSkipped, hasPower, hasIntegerQuotient, hasUnaryPlus, Bool.or_eq_true,
    decide_eq_true_eq, hasPair_iff hstar, hasPair_iff hslash, hasPair_iff hplus,
    nextChar?_eq_some_iff hplus]
  constructor
  · rintro ((⟨before, x, blanks, after, rfl, hblanks, rfl⟩ |
        ⟨before, x, blanks, after, rfl, hblanks, rfl⟩) |
      (⟨blanks, after, hblanks, rfl⟩ | ⟨before, x, blanks, after, hx, hblanks, rfl⟩))
    · exact .power hblanks
    · exact .integerQuotient hblanks
    · exact .leadingPlus hblanks
    · exact .unaryPlus (List.contains_iff_mem.mp hx) hblanks
  · intro h
    cases h with
    | @power before blanks after hblanks =>
      exact .inl (.inl ⟨before, '*', blanks, after, rfl, hblanks, rfl⟩)
    | @integerQuotient before blanks after hblanks =>
      exact .inl (.inr ⟨before, '/', blanks, after, rfl, hblanks, rfl⟩)
    | @leadingPlus blanks after hblanks => exact .inr (.inl ⟨blanks, after, hblanks, rfl⟩)
    | @unaryPlus before x blanks after hx hblanks =>
      exact .inr (.inr ⟨before, x, blanks, after, List.contains_iff_mem.mpr hx, hblanks, rfl⟩)

end Patterns

end Crosscheck

variable {source before rest : Text} {tree : Expr Token}

theorem Expresses.exists_cut (h : Expresses (before ++ rest) tree) (hrest : Text.EndsRun rest) :
    ∃ front, WellPlaced (front ++ (Cursor.stream ⟨before.length, rest⟩).tokens) := by
  obtain ⟨tokens, htokens, htree⟩ := h
  have hstream := tokenize_eq_iff.mp htokens
  rw [Cursor.start, Cursor.stream_append before hrest, Nat.zero_add] at hstream
  cases hfront : Cursor.stream ⟨0, before⟩ with
  | mk front last =>
    rw [hfront] at hstream
    cases last with
    | error fault => cases hstream
    | ok token =>
      have heq : front ++ (Cursor.stream ⟨before.length, rest⟩).tokens = tokens :=
        congrArg Stream.tokens hstream
      exact ⟨front, heq ▸ htree.wellPlaced⟩

/-- In front of an operator that wants an operand there is one, not a symbol of another kind. -/
theorem Expresses.endsOperand {c d : Char} {kind other : Kind} {blanks after : Text}
    (h : Expresses (before ++ c :: (blanks ++ d :: after)) tree)
    (hc : Kind.ofChar? c = some kind) (hd : Kind.ofChar? d = some other)
    (hwants : other.WantsLeft) (hblanks : blanks.isAllBlank) : kind.EndsOperand := by
  have hends : Text.EndsRun (c :: (blanks ++ d :: after)) :=
    Text.endsRun_cons (Text.isNumeralChar_eq_false_of_ofChar? hc) _
  obtain ⟨front, hplaced⟩ := h.exists_cut hends
  have hsymbol := @Cursor.stream_symbol [] rfl c kind hc before.length (blanks ++ d :: after)
  rw [List.nil_append, Cursor.stream_symbol hblanks hd] at hsymbol
  rw [hsymbol] at hplaced
  have hchain := (List.isChain_append.mp hplaced.chain).2.1
  exact (List.isChain_cons_cons.mp hchain).1 hwants

theorem Expresses.not_wantsLeft {c : Char} {kind : Kind} {blanks after : Text}
    (h : Expresses (blanks ++ c :: after) tree) (hc : Kind.ofChar? c = some kind)
    (hblanks : blanks.isAllBlank) : ¬ kind.WantsLeft := by
  obtain ⟨tokens, htokens, htree⟩ := h
  have hstream := tokenize_eq_iff.mp htokens
  rw [Cursor.start, Cursor.stream_symbol hblanks hc] at hstream
  obtain rfl := congrArg Stream.tokens hstream
  exact htree.wellPlaced.first _ rfl

namespace Crosscheck

theorem not_pattern_of_expresses (h : Expresses source tree) : ¬ Pattern source := by
  intro hpattern
  cases hpattern with
  | power hblanks =>
    have hends := h.endsOperand rfl rfl (.inr (.inl rfl)) hblanks
    simp [Kind.EndsOperand] at hends
  | integerQuotient hblanks =>
    have hends := h.endsOperand rfl rfl (.inr (.inr rfl)) hblanks
    simp [Kind.EndsOperand] at hends
  | leadingPlus hblanks => exact h.not_wantsLeft rfl hblanks (.inl rfl)
  | @unaryPlus before c blanks after hc hblanks =>
    obtain ⟨kind, hkind, hnot⟩ : ∃ kind, Kind.ofChar? c = some kind ∧ ¬ kind.EndsOperand := by
      simp only [List.mem_cons, List.not_mem_nil, or_false] at hc
      rcases hc with rfl | rfl | rfl | rfl | rfl <;> exact ⟨_, rfl, by simp [Kind.EndsOperand]⟩
    exact hnot (h.endsOperand hkind rfl (.inl rfl) hblanks)

/-- No expression, and so no source with a value, has a pattern that keeps it out of the
comparison. -/
theorem check_of_expresses
    (h : (∃ tree, Expresses source tree) ∨ ∃ limit value, evaluateWithin limit source = .ok value) :
    ¬ Pattern source ∧ isSkipped source = false ∧
      check source = (agree (Exact.evaluate source) (evaluate source)).map fun agreed =>
        if agreed then [] else reportOf source (Exact.evaluate source) (evaluate source) := by
  obtain ⟨tree, htree⟩ : ∃ tree, Expresses source tree := by
    rcases h with h | ⟨limit, value, hvalue⟩
    · exact h
    · obtain ⟨tree, htree, -⟩ := expresses_of_evaluateWithin hvalue
      exact ⟨tree, expresses_iff.mpr htree⟩
  have hnone := not_pattern_of_expresses htree
  have hskipped : isSkipped source = false := Bool.eq_false_iff.mpr (mt isSkipped_iff.mp hnone)
  refine ⟨hnone, hskipped, ?_⟩
  simp only [check, hskipped, Bool.false_eq_true, ↓reduceIte]
  cases agree (Exact.evaluate source) (evaluate source) <;> rfl

theorem check_of_signs :
    evaluateWithin frames "6 / -(2)\t+ - - 3".toList = .ok 0 ∧
      isSkipped "6 / -(2)\t+ - - 3".toList = false := by
  have hvalue : evaluateWithin frames "6 / -(2)\t+ - - 3".toList = .ok 0 := by decide +kernel
  exact ⟨hvalue, (check_of_expresses (.inr ⟨frames, 0, hvalue⟩)).2.1⟩

end Crosscheck

end Abacus
