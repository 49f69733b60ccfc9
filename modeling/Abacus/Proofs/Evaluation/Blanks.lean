import Abacus.Proofs.Evaluation.Machine
import Abacus.Proofs.Flat.Relocation

/-!
# Blanks between tokens

Two sources with the same tokens at other positions have the same outcome with
its places moved. Blanks that are put where they cut no run of digits and points
leave the tokens as they are and move those behind them, the end included.
-/

namespace Abacus

variable {limit : Nat} {source before blanks after : Text}

/-- Evaluation sees the tokens, and hands their positions on to the faults. -/
theorem evaluateWithin_relocate {g : Nat → Nat} {other : Text}
    (hblank : source.isAllBlank = other.isAllBlank)
    (hstream : (Cursor.start source).stream.relocate g = (Cursor.start other).stream) :
    relocated g id (evaluateWithin limit source) = evaluateWithin limit other := by
  cases hother : other.isAllBlank with
  | true =>
    rw [evaluateWithin_blank hother, evaluateWithin_blank (hblank.trans hother)]
    rfl
  | false =>
    rw [evaluateWithin_eq_run hother, evaluateWithin_eq_run (hblank.trans hother),
      Flat.run_relocate, hstream]
    rfl

theorem places_of_evaluateWithin {fault : Fault} (h : evaluateWithin limit source = .error fault) :
    ∀ i ∈ fault.places, ∃ n : Nat, i = n := by
  -- a map that moves nothing makes a natural number of every place
  have hfixed : relocated id id (evaluateWithin limit source) = evaluateWithin limit source :=
    evaluateWithin_relocate rfl (Cursor.stream_relocate fun _ _ => rfl)
  rw [h] at hfixed
  intro i hi
  exact ⟨i.toNat, (Fault.eq_of_relocate_eq (Except.error.inj hfixed) i hi).symm⟩

theorem stream_insert_blanks (hseam : Text.Seam before after) (hblanks : blanks.isAllBlank) :
    (Cursor.stream ⟨0, before ++ after⟩).relocate
        (fun n => if n < before.length then n else n + blanks.length) =
      Cursor.stream ⟨0, before ++ (blanks ++ after)⟩ := by
  have hseamBlanks : Text.Seam before (blanks ++ after) := by
    cases blanks with
    | nil => exact hseam
    | cons c blanks =>
      have hc : Text.isBlank c = true := by simp_all [Text.isAllBlank]
      refine (Text.endsRun_cons (Bool.eq_false_iff.mpr fun hnumeral => ?_) _).seam before
      rw [Text.isBlank_eq_false_of_isNumeralChar hnumeral] at hc
      cases hc
  have hafter : Cursor.stream ⟨0 + before.length, blanks ++ after⟩ =
      Cursor.stream ⟨before.length + blanks.length, after⟩ := by
    rw [Nat.zero_add]
    exact Cursor.stream_eq_of_next_eq (Cursor.next_blanks hblanks _ after)
  rw [Cursor.stream_append_of_seam before hseam, Cursor.stream_append_of_seam before hseamBlanks,
    hafter, Cursor.stream_append_relocate, Cursor.stream_relocate]
  · intro n _
    rw [Nat.zero_add, if_neg (by omega)]
    omega
  · intro n hn
    rw [Nat.zero_add]
    exact if_pos hn

/-- Blanks between tokens matter to nothing but the places behind them. -/
theorem evaluateWithin_insert_blanks (hseam : Text.Seam before after)
    (hblanks : blanks.isAllBlank) :
    evaluateWithin limit (before ++ (blanks ++ after)) =
      (evaluateWithin limit (before ++ after)).mapError
        (Fault.relocate fun i => if i < before.length then i else i + blanks.length) := by
  have hblank :
      Text.isAllBlank (before ++ after) = Text.isAllBlank (before ++ (blanks ++ after)) := by
    simp only [Text.isAllBlank] at hblanks ⊢
    rw [List.all_append, List.all_append, List.all_append, hblanks, Bool.true_and]
  rw [← evaluateWithin_relocate hblank (stream_insert_blanks hseam hblanks)]
  cases hrun : evaluateWithin limit (before ++ after) with
  | ok value => rfl
  | error fault =>
    apply congrArg Except.error
    apply Fault.relocate_congr
    intro i hi
    obtain ⟨n, rfl⟩ := places_of_evaluateWithin hrun i hi
    rw [indexMap_natCast]
    split <;> split <;> omega

theorem insert_blanks_of_zero_division :
    Text.Seam "(1".toList "/0".toList ∧ Text.isAllBlank " \t".toList ∧
      evaluateWithin frames "(1 \t/0".toList = .error (.divisionByZero 4) := by
  have hseam : Text.Seam "(1".toList "/0".toList :=
    (Text.endsRun_cons (by decide) _).seam "(1".toList
  have hblanks : Text.isAllBlank " \t".toList := by decide
  have htogether : evaluateWithin frames ("(1".toList ++ "/0".toList) =
      .error (.divisionByZero 2) := by decide +kernel
  have happart := @evaluateWithin_insert_blanks frames "(1".toList " \t".toList "/0".toList hseam
    hblanks
  rw [htogether] at happart
  exact ⟨hseam, hblanks, happart⟩

end Abacus
