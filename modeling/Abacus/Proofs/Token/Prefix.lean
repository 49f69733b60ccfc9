import Abacus.Proofs.Token.Pieces

/-!
# What a cursor has seen

A cursor looks no further than the character that it stands in front of. So two
cursors that have the same characters in front of them up to a bound yield the
same as long as they stay in front of the bound.
-/

namespace Abacus

instance decidableEqResult {ε σ α : Type} [DecidableEq ε] [DecidableEq σ] [DecidableEq α] :
    DecidableEq (EStateM.Result ε σ α)
  | .ok value state, .ok other past => decidable_of_iff (value = other ∧ state = past) (by simp)
  | .error fault state, .error other past =>
    decidable_of_iff (fault = other ∧ state = past) (by simp)
  | .ok _ _, .error _ _ | .error _ _, .ok _ _ => isFalse (by simp)

/-- The state behind an action, whether it failed or not. -/
def stateOf {σ α : Type} : EStateM.Result Fault σ α → σ
  | .ok _ state => state
  | .error _ state => state

/-- The same value or the same fault, in states that agree. -/
inductive Same {σ α : Type} (agree : σ → σ → Prop) :
    EStateM.Result Fault σ α → EStateM.Result Fault σ α → Prop
  | ok {value state other} : agree state other → Same agree (.ok value state) (.ok value other)
  | error {fault state other} : agree state other →
      Same agree (.error fault state) (.error fault other)

namespace Same

variable {σ α : Type} {agree : σ → σ → Prop} {state : σ} {result : EStateM.Result Fault σ α}

theorem of_ok {value : α} (h : Same agree (.ok value state) result) :
    ∃ other, result = .ok value other ∧ agree state other := by
  cases h with
  | ok hagree => exact ⟨_, rfl, hagree⟩

theorem of_error {fault : Fault} (h : Same agree (.error fault state) result) :
    ∃ other, result = .error fault other ∧ agree state other := by
  cases h with
  | error hagree => exact ⟨_, rfl, hagree⟩

end Same

namespace Cursor

/-- The same characters stand in front of both cursors, up to the position `bound`. -/
inductive Agree (bound : Nat) : Cursor → Cursor → Prop
  | shared {position : Nat} {shared rest other : Text} : position + shared.length = bound →
      Agree bound ⟨position, shared ++ rest⟩ ⟨position, shared ++ other⟩

theorem exists_of_append_eq {shared rest front others : Text}
    (h : shared ++ rest = front ++ others) (hlength : front.length < shared.length) :
    ∃ c tail, shared = front ++ c :: tail ∧ others = c :: (tail ++ rest) := by
  rcases List.append_eq_append_iff.mp h with ⟨tail, rfl, -⟩ | ⟨tail, rfl, rfl⟩
  · rw [List.length_append] at hlength
    omega
  · cases tail with
    | nil => simp at hlength
    | cons c tail => exact ⟨c, tail, rfl, rfl⟩

theorem position_le_next (cursor : Cursor) : cursor.position ≤ (stateOf cursor.next).position := by
  have hskip : cursor.position ≤ cursor.skipBlanks.position := Nat.le_add_right _ _
  unfold next
  dsimp only
  split
  · exact hskip
  · split
    · split
      · exact Nat.le_trans hskip (Nat.le_add_right _ _)
      · exact Nat.le_trans hskip (Nat.le_add_right _ _)
    · split
      · exact Nat.le_trans hskip (Nat.le_add_right _ _)
      · exact hskip

variable {bound : Nat} {cursor other : Cursor}

theorem next_same (h : Agree bound cursor other)
    (hbound : (stateOf cursor.next).position < bound) :
    Same (Agree bound) cursor.next other.next := by
  cases h with
  | @shared position shared rest other hshared =>
    have hpieces := Text.pieces (shared ++ rest)
    generalize htext : shared ++ rest = text at hpieces hbound ⊢
    cases hpieces with
    | blank hblanks =>
      rw [← List.append_nil text, next_blanks hblanks, next_nil] at hbound
      simp only [stateOf] at hbound
      rw [← htext, List.length_append] at hbound
      omega
    | @run blanks run others hblanks hne hrun hends =>
      rw [next_blanks hblanks, next_run hne hrun hends] at hbound ⊢
      have hlength : (blanks ++ run).length < shared.length := by
        rw [List.length_append]
        split at hbound <;> simp only [stateOf] at hbound <;> omega
      rw [← List.append_assoc] at htext
      obtain ⟨c, tail, rfl, rfl⟩ := exists_of_append_eq htext hlength
      have hendsOther : Text.EndsRun (c :: (tail ++ other)) := Text.endsRun_cons (hends c rfl) _
      have hagree : Agree bound ⟨position + blanks.length + run.length, c :: (tail ++ rest)⟩
          ⟨position + blanks.length + run.length, c :: (tail ++ other)⟩ := by
        refine @Agree.shared bound _ (c :: tail) rest other ?_
        simp only [List.length_append] at hshared
        omega
      rw [List.append_assoc, List.append_assoc, next_blanks hblanks, List.cons_append,
        next_run hne hrun hendsOther]
      split
      · exact .ok hagree
      · exact .error hagree
    | @char blanks c others hblanks hblank hnumeral =>
      rw [next_blanks hblanks, next_char hblank hnumeral] at hbound ⊢
      have hlength : blanks.length < shared.length := by
        split at hbound <;> simp only [stateOf] at hbound <;> omega
      obtain ⟨d, tail, rfl, hothers⟩ := exists_of_append_eq htext hlength
      cases hothers
      rw [List.length_append, List.length_cons] at hshared
      rw [List.append_assoc, next_blanks hblanks, List.cons_append, next_char hblank hnumeral]
      split
      · refine .ok (@Agree.shared bound _ tail rest other ?_)
        omega
      · refine .error (@Agree.shared bound _ (c :: tail) rest other ?_)
        rw [List.length_cons]
        omega

end Cursor

end Abacus
