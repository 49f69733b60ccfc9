import Abacus.Token.Listing
import Mathlib.Data.List.Basic

/-!
# The pieces of a text

A text falls into pieces: runs of digits and points that go as far as they can,
and single other characters, with blanks in front of each. What a cursor does
next depends on the first piece, and there is one equation for each kind of it.
-/

namespace Abacus

namespace Text

/-- No run of digits and points goes on in `text`. -/
def EndsRun (text : Text) : Prop := ∀ c ∈ text.head?, isNumeralChar c = false

inductive Pieces : Text → Prop
  | blank {blanks} : isAllBlank blanks → Pieces blanks
  | run {blanks run rest} : isAllBlank blanks → run ≠ [] → run.all isNumeralChar → EndsRun rest →
      Pieces rest → Pieces (blanks ++ (run ++ rest))
  | char {blanks c rest} : isAllBlank blanks → isBlank c = false → isNumeralChar c = false →
      Pieces rest → Pieces (blanks ++ c :: rest)

theorem isBlank_eq_false_of_isNumeralChar {c : Char} (h : isNumeralChar c) : isBlank c = false := by
  have hc : 46 ≤ c.toNat ∧ c.toNat ≤ 57 := by
    simp only [isNumeralChar, Char.isDigit, Bool.or_eq_true, Bool.and_eq_true,
      decide_eq_true_eq] at h
    rcases h with ⟨hlow, hhigh⟩ | rfl
    · exact ⟨Nat.le_trans (by decide) hlow, hhigh⟩
    · decide
  simp [isBlank, within, blanks]
  omega

theorem isBlank_eq_false_of_ofChar? {c : Char} {kind : Kind} (h : Kind.ofChar? c = some kind) :
    isBlank c = false := by
  unfold Kind.ofChar? at h
  split at h <;> first | decide | cases h

theorem isNumeralChar_eq_false_of_ofChar? {c : Char} {kind : Kind}
    (h : Kind.ofChar? c = some kind) : isNumeralChar c = false := by
  unfold Kind.ofChar? at h
  split at h <;> first | decide | cases h

theorem endsRun_nil : EndsRun [] := by
  intro c hc
  cases hc

theorem endsRun_cons {c : Char} (h : isNumeralChar c = false) (text : Text) :
    EndsRun (c :: text) := by
  intro first hfirst
  obtain rfl : c = first := Option.some.inj hfirst
  exact h

theorem endsRun_blanks {blanks text : Text} (hblanks : isAllBlank blanks) (h : EndsRun text) :
    EndsRun (blanks ++ text) := by
  cases blanks with
  | nil => exact h
  | cons c blanks =>
    refine endsRun_cons (Bool.eq_false_iff.mpr fun hc => ?_) _
    have hblank : isBlank c = true := by simp_all [isAllBlank]
    rw [isBlank_eq_false_of_isNumeralChar hc] at hblank
    cases hblank

/-- No run of digits and points goes across from one text into the other. -/
def Seam (before after : Text) : Prop :=
  ∀ c ∈ before.getLast?, ∀ d ∈ after.head?, ¬(isNumeralChar c ∧ isNumeralChar d)

theorem EndsRun.seam {after : Text} (h : EndsRun after) (before : Text) : Seam before after := by
  rintro c - d hd ⟨-, hnumeral⟩
  rw [h d hd] at hnumeral
  cases hnumeral

theorem Seam.of_append {front before after : Text} (h : Seam (front ++ before) after) :
    Seam before after := by
  intro c hc
  refine h c ?_
  rw [List.getLast?_append, Option.mem_def.mp hc]
  rfl

theorem Seam.endsRun {run after : Text} (h : Seam run after) (hne : run ≠ [])
    (hrun : run.all isNumeralChar) : EndsRun after := by
  intro d hd
  rw [Bool.eq_false_iff]
  intro hnumeral
  have hlast : run.getLast hne ∈ run.getLast? := List.getLast?_eq_some_getLast hne
  exact h _ hlast d hd ⟨List.all_eq_true.mp hrun _ (List.getLast_mem hne), hnumeral⟩

/-- Only the end of what comes before a seam matters to it. -/
theorem Seam.append {before after : Text} (h : Seam before after) (hne : before ≠ [])
    (front : Text) : Seam (front ++ before) after := by
  intro c hc
  rw [List.getLast?_append_of_ne_nil _ hne] at hc
  exact h c hc

theorem Seam.prepend {front before after rest : Text} (h : Seam front (before ++ (after ++ rest)))
    (hbefore : Seam before after) (hne : after ≠ []) : Seam (front ++ before) after := by
  cases before with
  | nil =>
    obtain ⟨c, after, rfl⟩ := List.exists_cons_of_ne_nil hne
    simpa [Seam] using h
  | cons c before => exact hbefore.append (List.cons_ne_nil c before) front

theorem seam_singleton {c : Char} (h : isNumeralChar c = false) (after : Text) :
    Seam [c] after := by
  rintro d hd - - ⟨hnumeral, -⟩
  obtain rfl : c = d := Option.some.inj hd
  rw [h] at hnumeral
  cases hnumeral

theorem seam_blanks {blanks : Text} (h : isAllBlank blanks) (after : Text) : Seam blanks after := by
  rintro c hc - - ⟨hnumeral, -⟩
  have hblank : isBlank c = true := List.all_eq_true.mp h c (List.mem_of_getLast? hc)
  rw [isBlank_eq_false_of_isNumeralChar hnumeral] at hblank
  cases hblank

theorem endsRun_dropWhile (text : Text) : EndsRun (text.dropWhile isNumeralChar) := by
  intro c hc
  have h := List.head?_dropWhile_not isNumeralChar text
  rw [Option.mem_def.mp hc] at h
  simpa using h

theorem pieces (text : Text) : Pieces text := by
  induction hlength : text.length using Nat.strongRecOn generalizing text with
  | _ length ih =>
    subst hlength
    have hblanks : isAllBlank (text.takeWhile isBlank) := List.all_takeWhile
    have hnot := List.head?_dropWhile_not isBlank text
    have hshorter := (List.dropWhile_sublist isBlank (l := text)).length_le
    have hsplit := List.takeWhile_append_dropWhile (p := isBlank) (l := text)
    cases hrest : text.dropWhile isBlank with
    | nil =>
      rw [← hsplit, hrest, List.append_nil]
      exact .blank hblanks
    | cons c rest =>
      rw [hrest] at hnot hshorter
      rw [← hsplit, hrest]
      cases hc : isNumeralChar c with
      | false =>
        exact .char hblanks (by simpa using hnot) hc (ih _ hshorter rest rfl)
      | true =>
        have hrun := (List.dropWhile_sublist isNumeralChar (l := rest)).length_le
        rw [← List.takeWhile_append_dropWhile (p := isNumeralChar) (l := c :: rest)]
        refine .run hblanks (by simp [hc]) List.all_takeWhile (endsRun_dropWhile _) (ih _ ?_ _ rfl)
        rw [List.dropWhile_cons_of_pos hc]
        exact Nat.lt_of_le_of_lt hrun hshorter

/-- A text that starts at `start` cannot be read past a run that is no numeral, or past a character
that belongs to no token. -/
inductive Unreadable (text : Text) (start : Nat) : Fault → Prop
  | number {before run after} : text = before ++ (run ++ after) → run ≠ [] →
      run.all isNumeralChar → Seam before run → EndsRun after → isNumeral run = false →
      Unreadable text start (.invalidNumber run (start + before.length))
  | character {before c after} : text = before ++ c :: after → isBlank c = false →
      isNumeralChar c = false → Kind.ofChar? c = none →
      Unreadable text start (.invalidCharacter c (start + before.length))

theorem Unreadable.append {front text : Text} {start : Nat} {fault : Fault}
    (hseam : Seam front text) (h : Unreadable text (start + front.length) fault) :
    Unreadable (front ++ text) start fault := by
  cases h with
  | @number before run after htext hne hrun hbefore hafter hnumeral =>
    have hcut : Seam (front ++ before) run := Seam.prepend (htext ▸ hseam) hbefore hne
    have hplace : start + front.length + before.length = start + (front ++ before).length := by
      rw [List.length_append, Nat.add_assoc]
    rw [hplace]
    exact .number (by rw [htext, List.append_assoc]) hne hrun hcut hafter hnumeral
  | @character before c after htext hblank hnumeral hkind =>
    have hplace : start + front.length + before.length = start + (front ++ before).length := by
      rw [List.length_append, Nat.add_assoc]
    rw [hplace]
    exact .character (by rw [htext, List.append_assoc]) hblank hnumeral hkind

theorem takeWhile_run {run rest : Text} (hrun : run.all isNumeralChar) (hrest : EndsRun rest) :
    (run ++ rest).takeWhile isNumeralChar = run := by
  rw [List.takeWhile_append_of_pos (by simpa using hrun)]
  cases rest with
  | nil => simp
  | cons c rest => simp [hrest c rfl]

end Text

namespace Cursor

open Text

theorem skipBlanks_append {blanks : Text} (hblanks : isAllBlank blanks) (position : Nat)
    (rest : Text) :
    skipBlanks ⟨position, blanks ++ rest⟩ = skipBlanks ⟨position + blanks.length, rest⟩ := by
  simp only [skipBlanks, advance]
  rw [List.takeWhile_append_of_pos (by simpa [isAllBlank] using hblanks)]
  simp [Nat.add_assoc]

theorem skipBlanks_cons {c : Char} (hc : isBlank c = false) (position : Nat) (rest : Text) :
    skipBlanks ⟨position, c :: rest⟩ = ⟨position, c :: rest⟩ := by
  simp [skipBlanks, advance, hc]

theorem next_blanks {blanks : Text} (hblanks : isAllBlank blanks) (position : Nat) (rest : Text) :
    next ⟨position, blanks ++ rest⟩ = next ⟨position + blanks.length, rest⟩ := by
  simp only [next, skipBlanks_append hblanks]

theorem next_nil (position : Nat) :
    next ⟨position, []⟩ = .ok ⟨.exprEnd, [], position⟩ ⟨position, []⟩ := rfl

theorem next_run {run rest : Text} (hne : run ≠ []) (hrun : run.all isNumeralChar)
    (hrest : EndsRun rest) (position : Nat) :
    next ⟨position, run ++ rest⟩ =
      if isNumeral run then .ok ⟨.number, run, position⟩ ⟨position + run.length, rest⟩
      else .error (.invalidNumber run position) ⟨position + run.length, rest⟩ := by
  obtain ⟨c, run, rfl⟩ := List.exists_cons_of_ne_nil hne
  have hc : isNumeralChar c := by simp_all
  have htake := takeWhile_run hrun hrest
  have hskip : skipBlanks ⟨position, c :: run ++ rest⟩ = ⟨position, c :: run ++ rest⟩ :=
    skipBlanks_cons (isBlank_eq_false_of_isNumeralChar hc) position (run ++ rest)
  simp only [next, hskip, htake]
  simp [hc, advance]

theorem next_char {c : Char} (hblank : isBlank c = false) (hnumeral : isNumeralChar c = false)
    (position : Nat) (rest : Text) :
    next ⟨position, c :: rest⟩ =
      match Kind.ofChar? c with
      | some kind => .ok ⟨kind, [c], position⟩ ⟨position + 1, rest⟩
      | none => .error (.invalidCharacter c position) ⟨position, c :: rest⟩ := by
  simp only [next, skipBlanks_cons hblank, hnumeral]
  cases Kind.ofChar? c <;> simp [advance]

/-- A token other than the end has characters, and they are taken from the text. -/
theorem lexeme_of_next {cursor past : Cursor} {token : Token} (h : next cursor = .ok token past) :
    (token.kind ≠ .exprEnd → token.lexeme ≠ []) ∧
      token.lexeme.length + past.rest.length ≤ cursor.rest.length := by
  obtain ⟨position, text⟩ := cursor
  cases Text.pieces text with
  | blank hblanks =>
    rw [← List.append_nil text, next_blanks hblanks, next_nil] at h
    cases h
    simp
  | run hblanks hne hrun hrest =>
    rw [next_blanks hblanks, next_run hne hrun hrest] at h
    split at h
    · cases h
      exact ⟨fun _ => hne, by simp⟩
    · cases h
  | char hblanks hblank hnumeral =>
    rw [next_blanks hblanks, next_char hblank hnumeral] at h
    split at h
    · cases h
      exact ⟨by simp, by simp [Nat.add_comm]⟩
    · cases h

end Cursor

end Abacus
