import Abacus.Proofs.Evaluation.Places
import Abacus.Proofs.Text.Excerpt

/-!
# Reports of faults

A report is the message of the fault and, if the fault names a place, the two
lines that show this place. A place that an evaluation names is in the source or
at its end, so it is marked by the caret in the last line of the report.
-/

namespace Abacus

namespace Text

theorem lines_cons (c : Char) (text : Text) :
    lines (c :: text) =
      if c = '\n' then [] :: lines text
      else match lines text with
        | [] => [[c]]
        | line :: rest => (c :: line) :: rest := rfl

theorem exists_lines_append (text rest : Text) :
    ∃ line between, lines (text ++ '\n' :: rest) = line :: between ++ lines rest := by
  induction text with
  | nil => exact ⟨[], [], rfl⟩
  | cons c text ih =>
    obtain ⟨line, between, hlines⟩ := ih
    rw [List.cons_append, lines_cons, hlines]
    by_cases hc : c = '\n'
    · exact ⟨[], line :: between, if_pos hc⟩
    · exact ⟨c :: line, between, if_neg hc⟩

theorem getLast?_lines {last : Text} (hne : last ≠ []) (hlast : '\n' ∉ last) (text : Text) :
    (lines (text ++ '\n' :: last)).getLast? = some last := by
  have hline : lines last = [last] := by
    apply lines_singleton last hne
    rintro c hc rfl
    exact hlast hc
  obtain ⟨line, between, hlines⟩ := exists_lines_append text last
  rw [hlines, hline, List.getLast?_concat]

theorem Shows.last_line {text before window after top bottom : Text}
    {place reach column : Nat} (h : Shows text place reach before window after column top bottom)
    (message : Text) :
    (lines (message ++ '\n' :: top ++ '\n' :: bottom)).getLast? = some bottom := by
  have hcaret : bottom = List.replicate column ' ' ++ ['^'] := h.bottom_eq
  apply Text.getLast?_lines
  · simp [hcaret]
  · simp [hcaret]

end Text

theorem Fault.report_eq (fault : Fault) {source : Text} {index : Int} (hsource : source ≠ [])
    (hindex : fault.index = some index) :
    fault.report source =
      fault.summary ++ '\n' :: (source.locate index Text.reach).1 ++
        '\n' :: (source.locate index Text.reach).2 := by
  obtain ⟨c, rest, rfl⟩ := List.exists_cons_of_ne_nil hsource
  simp only [Fault.report, hindex]

theorem evaluateWithin_nil (limit : Nat) : evaluateWithin limit [] = .error .emptyExpression :=
  evaluateWithin_blank rfl

/-- The caret stands below the character at a place, in a window that tells by its ellipses what is
left out. The report of a fault ends with the place that the fault names, shown in this way. -/
theorem report_marks_place :
    (∀ (text : Text) (place reach : Nat), place ≤ text.length → 1 ≤ reach →
      text.Marks place reach (text.locate place reach)) ∧
    ∀ (limit : Nat) (source : Text) (fault : Fault) (index : Int),
      evaluateWithin limit source = .error fault → fault.index = some index →
      ∃ (place : Nat) (top bottom : Text), index = place ∧ place ≤ source.length ∧
        source.Marks place 10 (top, bottom) ∧
        fault.report source = fault.summary ++ '\n' :: top ++ '\n' :: bottom ∧
        (fault.report source).lines.getLast? = some bottom := by
  refine ⟨fun text place reach => Text.marks_locate, ?_⟩
  intro limit source fault index hfault hindex
  have hsource : source ≠ [] := by
    rintro rfl
    rw [evaluateWithin_nil] at hfault
    cases hfault
    cases hindex
  have hplace : ∃ place : Nat, index = place ∧ place ≤ source.length := by
    rcases (designates_of_evaluateWithin hfault).index_cases hindex with ⟨place, rfl, hlt⟩ | rfl
    · exact ⟨place, rfl, Nat.le_of_lt hlt⟩
    · exact ⟨source.length, (Option.some.inj hindex).symm, Nat.le_refl _⟩
  obtain ⟨place, rfl, hle⟩ := hplace
  have hmarks : source.Marks place 10 (source.locate place Text.reach) :=
    Text.marks_locate hle (by decide)
  have hreport := fault.report_eq hsource hindex
  refine ⟨place, _, _, rfl, hle, hmarks, hreport, ?_⟩
  rw [hreport]
  obtain ⟨before, window, after, column, hshows⟩ := hmarks
  exact hshows.last_line fault.summary

theorem marks_place_of_invalid_character :
    let source : Text := "12345678901234*(5+@)+1234567890".toList
    let fault := Fault.invalidCharacter '@' 18
    source.Marks 18 10 ("...901234*(5+@)+1234567...".toList, "             ^".toList) ∧
      evaluateWithin frames source = .error fault ∧
      ∃ top bottom, source.Marks 18 10 (top, bottom) ∧
        fault.report source =
          "Invalid character '@' at position 18".toList ++ '\n' :: top ++ '\n' :: bottom ∧
        (fault.report source).lines.getLast? = some bottom := by
  intro source fault
  have hfault : evaluateWithin frames source = .error fault := by decide +kernel
  have hlocate : source.locate 18 10 =
      ("...901234*(5+@)+1234567...".toList, "             ^".toList) := by
    decide +kernel
  refine ⟨hlocate ▸ report_marks_place.1 source 18 10 (by decide) (by decide), hfault, ?_⟩
  obtain ⟨place, top, bottom, hplace, -, hmarks, hreport, hlast⟩ :=
    report_marks_place.2 frames source fault 18 hfault rfl
  obtain rfl : 18 = place := Int.ofNat.inj hplace
  exact ⟨top, bottom, hmarks, hreport, hlast⟩

end Abacus
