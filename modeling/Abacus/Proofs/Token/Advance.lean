import Abacus.Proofs.Token.Prefix
import Abacus.Proofs.Token.Stream

/-!
# The way of a cursor through its source

A cursor stands in its source, with the rest of the source in front of it. It
passes over blanks and the token that it yields, and stops right behind that
token. Where it yields none it still stands in the source.
-/

namespace Abacus.Cursor

open Text

/-- What the cursor has in front of it is the rest of the source. -/
structure On (source : Text) (cursor : Cursor) : Prop where
  position_le : cursor.position ≤ source.length
  rest_eq : cursor.rest = source.drop cursor.position

/-- The cursor passes over blanks and the token. -/
structure Passes (source : Text) (cursor : Cursor) (token : Token) (past : Cursor) : Prop where
  on : past.On source
  position_le : cursor.position ≤ token.position
  lexeme_at : token.lexeme <+: source.drop token.position
  position_eq : past.position = token.position + token.lexeme.length
  kind : token = .atEnd source.length ∨ token.Spelled

variable {source front rest : Text} {position : Nat} {cursor past : Cursor} {token : Token}

theorem on_start (source : Text) : (start source).On source := ⟨Nat.zero_le _, rfl⟩

namespace On

theorem position_eq_length (h : On source ⟨position, []⟩) : position = source.length :=
  Nat.le_antisymm h.position_le (List.drop_eq_nil_iff.mp h.rest_eq.symm)

theorem append (h : On source ⟨position, front ++ rest⟩) :
    On source ⟨position + front.length, rest⟩ := by
  have hrest : front ++ rest = source.drop position := h.rest_eq
  constructor
  · have hlength := congrArg List.length hrest
    have hle := h.position_le
    simp only [List.length_append, List.length_drop] at hlength hle ⊢
    omega
  · change rest = source.drop (position + front.length)
    rw [← List.drop_drop, ← hrest, List.drop_left]

theorem prefix_drop (h : On source ⟨position, front ++ rest⟩) : front <+: source.drop position := by
  have hrest : front ++ rest = source.drop position := h.rest_eq
  rw [← hrest]
  exact List.prefix_append _ _

theorem next (h : cursor.On source) : (stateOf cursor.next).On source := by
  obtain ⟨position, text⟩ := cursor
  cases pieces text with
  | blank hblanks =>
    rw [← List.append_nil text, next_blanks hblanks, next_nil]
    rw [← List.append_nil text] at h
    exact h.append
  | run hblanks hne hrun hrest =>
    rw [next_blanks hblanks, next_run hne hrun hrest]
    split
    · exact h.append.append
    · exact h.append.append
  | @char blanks c rest hblanks hblank hnumeral =>
    rw [next_blanks hblanks, next_char hblank hnumeral]
    split
    · exact @append source [c] rest _ h.append
    · exact h.append

theorem passes (h : cursor.On source) (hnext : cursor.next = .ok token past) :
    Passes source cursor token past := by
  have hon := h.next
  rw [hnext] at hon
  obtain ⟨position, text⟩ := cursor
  cases pieces text with
  | blank hblanks =>
    rw [← List.append_nil text] at h
    have hend := h.append.position_eq_length
    rw [← List.append_nil text, next_blanks hblanks, next_nil] at hnext
    cases hnext
    refine ⟨hon, Nat.le_add_right _ _, List.nil_prefix, rfl, .inl ?_⟩
    rw [hend]
    rfl
  | run hblanks hne hrun hrest =>
    rw [next_blanks hblanks, next_run hne hrun hrest] at hnext
    split at hnext
    · cases hnext
      exact ⟨hon, Nat.le_add_right _ _, h.append.prefix_drop, rfl, .inr (.inl ⟨rfl, hne, hrun⟩)⟩
    · cases hnext
  | @char blanks c rest hblanks hblank hnumeral =>
    rw [next_blanks hblanks, next_char hblank hnumeral] at hnext
    split at hnext
    next kind hkind =>
      cases hnext
      have hchar : [c] <+: source.drop (position + blanks.length) :=
        @prefix_drop source [c] rest _ h.append
      exact ⟨hon, Nat.le_add_right _ _, hchar, rfl, .inr (.inr ⟨c, rfl, hkind⟩)⟩
    next => cases hnext

end On

end Abacus.Cursor
