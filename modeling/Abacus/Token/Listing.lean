import Abacus.Fault

/-!
# The tokens of a source

A cursor goes through a source and yields its tokens one at a time, however
often it is asked. It never moves back. A run that is no numeral is passed
over, while it stays in front of a character that belongs to no token.
-/

namespace Abacus

structure Cursor where
  position : Nat
  rest : Text
deriving DecidableEq

namespace Cursor

def start (source : Text) : Cursor := ⟨0, source⟩

def advance (cursor : Cursor) (n : Nat) : Cursor := ⟨cursor.position + n, cursor.rest.drop n⟩

def skipBlanks (cursor : Cursor) : Cursor :=
  cursor.advance (cursor.rest.takeWhile Text.isBlank).length

/-- The next token, behind any blanks. At the end of the source this is the end, again and again. -/
def next : EStateM Fault Cursor Token := fun cursor =>
  let here := cursor.skipBlanks
  match here.rest with
  | [] => .ok ⟨.exprEnd, [], here.position⟩ here
  | c :: _ =>
    if Text.isNumeralChar c then
      let run := here.rest.takeWhile Text.isNumeralChar
      let past := here.advance run.length
      if Text.isNumeral run then .ok ⟨.number, run, here.position⟩ past
      else .error (.invalidNumber run here.position) past
    else
      match Kind.ofChar? c with
      | some kind => .ok ⟨kind, [c], here.position⟩ (here.advance 1)
      | none => .error (.invalidCharacter c here.position) here

theorem length_skipBlanks_le (cursor : Cursor) :
    cursor.skipBlanks.rest.length ≤ cursor.rest.length := by
  simp [skipBlanks, advance]

/-- A token other than the end takes at least one character. -/
theorem length_rest_lt {cursor past : Cursor} {token : Token}
    (h : next cursor = .ok token past) (hk : token.kind ≠ .exprEnd) :
    past.rest.length < cursor.rest.length := by
  have hle := cursor.length_skipBlanks_le
  unfold next at h
  dsimp only at h
  split at h
  · simp only [EStateM.Result.ok.injEq] at h
    exact absurd (h.1 ▸ rfl) hk
  · rename_i c rest heq
    have hpos : 0 < cursor.skipBlanks.rest.length := by simp [heq]
    split at h
    · rename_i hc
      split at h
      · simp only [EStateM.Result.ok.injEq] at h
        rw [← h.2]
        simp only [advance, List.length_drop]
        have : 0 < (cursor.skipBlanks.rest.takeWhile Text.isNumeralChar).length := by
          simp [heq, hc]
        omega
      · simp at h
    · split at h
      · simp only [EStateM.Result.ok.injEq] at h
        rw [← h.2]
        simp only [advance, List.length_drop]
        omega
      · simp at h

theorem length_rest_lt_of_invalidNumber {cursor past : Cursor} {run : Text} {index : Option Int}
    (h : next cursor = .error ⟨.invalidNumber run, index⟩ past) :
    past.rest.length < cursor.rest.length := by
  have hle := cursor.length_skipBlanks_le
  unfold next at h
  dsimp only at h
  split at h
  · simp at h
  · rename_i c rest heq
    have hpos : 0 < cursor.skipBlanks.rest.length := by simp [heq]
    split at h
    · rename_i hc
      split at h
      · simp at h
      · simp only [EStateM.Result.error.injEq] at h
        rw [← h.2]
        simp only [advance, List.length_drop]
        have : 0 < (cursor.skipBlanks.rest.takeWhile Text.isNumeralChar).length := by
          simp [heq, hc]
        omega
    · split at h
      · simp at h
      · simp [Fault.invalidCharacter_eq] at h

end Cursor

/-! ## Listings

All tokens of a source in order, the end included. The first fault stops the
listing. -/

/-- The tokens that a cursor has in front of it. -/
def Cursor.tokens (cursor : Cursor) : Except Fault (List Token) :=
  match _ : cursor.next with
  | .error fault _ => .error fault
  | .ok token past =>
    if _ : token.kind = .exprEnd then .ok [token]
    else past.tokens.map (token :: ·)
termination_by cursor.rest.length
decreasing_by exact Cursor.length_rest_lt ‹_› ‹_›

def tokenize (source : Text) : Except Fault (List Token) := (Cursor.start source).tokens

/-- The line that shows the tokens of a source, if all of it consists of tokens. -/
def tokensLine? (source : Text) : Option Text :=
  match tokenize source with
  | .ok tokens => some ("tokens: ".toList ++ [' '].intercalate (tokens.map Token.text))
  | .error _ => none

end Abacus
