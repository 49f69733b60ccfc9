import Abacus.Proofs.Reader.Prefix

/-!
# Faults found before the end

A fault that is found while the cursor stands in front of a character depends on
nothing behind that character. A blank source is none of this kind: it is a
fault before a cursor is set on it, and a cursor on it goes to the end at once.
-/

namespace Abacus

variable {limit : Nat} {source : Text} {fault : Fault} {cursor : Cursor}

theorem length_le_run_of_blank (h : source.isAllBlank) :
    source.length ≤ (stateOf (Reader.run limit (.start source))).position := by
  have hnext : (Cursor.start source).next =
      .ok ⟨.exprEnd, [], source.length⟩ ⟨source.length, []⟩ := by
    have hblanks := Cursor.next_blanks h 0 []
    rw [List.append_nil, Nat.zero_add] at hblanks
    exact hblanks.trans (Cursor.next_nil _)
  exact Reader.next_position_le_run hnext

theorem evaluateWithin_of_run (h : Reader.run limit (.start source) = .error fault cursor)
    (hbefore : cursor.position < source.length) :
    evaluateWithin limit source = .error fault := by
  have hblank : source.isAllBlank = false := by
    rw [Bool.eq_false_iff]
    intro hblank
    have hlength := @length_le_run_of_blank limit source hblank
    rw [h] at hlength
    exact absurd hlength (Nat.not_le.mpr hbefore)
  simp [evaluateWithin, hblank, h]

/-- A fault that is found in front of a character stays, whatever comes behind the character. -/
theorem evaluateWithin_take_append (h : Reader.run limit (.start source) = .error fault cursor)
    (hbefore : cursor.position < source.length) (behind : Text) :
    evaluateWithin limit source = .error fault ∧
      evaluateWithin limit (source.take (cursor.position + 1) ++ behind) = .error fault := by
  refine ⟨evaluateWithin_of_run h hbefore, ?_⟩
  have hlength : (source.take (cursor.position + 1)).length = cursor.position + 1 :=
    List.length_take_of_le hbefore
  have hagree : Cursor.Agree (cursor.position + 1) (.start source)
      (.start (source.take (cursor.position + 1) ++ behind)) := by
    have hshared := @Cursor.Agree.shared (cursor.position + 1) 0
      (source.take (cursor.position + 1)) (source.drop (cursor.position + 1)) behind (by omega)
    rwa [List.take_append_drop] at hshared
  have hsame := Reader.run_same hagree (by rw [h]; exact Nat.lt_succ_self _)
  rw [h] at hsame
  obtain ⟨other, hother, hcursor⟩ := hsame.of_error
  refine evaluateWithin_of_run hother ?_
  have hposition : other.position = cursor.position := by
    cases hcursor
    rfl
  rw [hposition, List.length_append, hlength]
  omega

theorem take_append_of_division :
    Reader.run frames (.start "1/(2-2) + 3".toList) = .error (.divisionByZero 1) ⟨9, " 3".toList⟩ ∧
      9 < "1/(2-2) + 3".toList.length ∧
      evaluateWithin frames ("1/(2-2) + ".toList ++ ")@".toList) = .error (.divisionByZero 1) := by
  have hrun : Reader.run frames (.start "1/(2-2) + 3".toList) =
      .error (.divisionByZero 1) ⟨9, " 3".toList⟩ := by decide +kernel
  have hbefore : 9 < "1/(2-2) + 3".toList.length := by decide
  exact ⟨hrun, hbefore, (evaluateWithin_take_append hrun hbefore ")@".toList).2⟩

end Abacus
