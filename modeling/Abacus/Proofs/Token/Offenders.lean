import Abacus.Proofs.Token.Stream

/-!
# What keeps a text from being read

The offenders of a text are its runs of digits and points that are no numerals,
and its characters that belong to no token. Cut at a seam, a text has those of
both parts. So the first of all stands in the first piece that has one, which
is where the stream of its tokens breaks off.
-/

namespace Abacus

/-- No place that `other` names comes before one that `fault` names. -/
def Fault.Precedes (fault other : Fault) : Prop :=
  ∀ i ∈ fault.index, ∀ j ∈ other.index, i ≤ j

namespace Text

/-- `run` stands between `before` and `after`, and goes as far as it can to both sides. -/
structure Run (text before run after : Text) : Prop where
  text_eq : text = before ++ (run ++ after)
  ne_nil : run ≠ []
  all_numeral : run.all isNumeralChar
  seam : Seam before run
  ends : EndsRun after

/-- The characters that expressions are written with. -/
def isExpressionChar (c : Char) : Bool :=
  isBlank c || c.isDigit || ['.', '+', '-', '*', '/', '(', ')'].contains c

theorem isExpressionChar_iff (c : Char) :
    isExpressionChar c ↔ isBlank c ∨ isNumeralChar c ∨ Kind.ofChar? c ≠ none := by
  have hsymbol : Kind.ofChar? c ≠ none ↔ c ∈ ['+', '-', '*', '/', '(', ')'] := by
    unfold Kind.ofChar?
    split <;> simp_all
  rw [hsymbol]
  simp [isExpressionChar, isNumeralChar, or_assoc]

theorem isNumeral_iff (run : Text) :
    isNumeral run ↔ (∃ c ∈ run, c.isDigit) ∧ run.count '.' ≤ 1 := by
  simp [isNumeral]

variable {text front rest blanks run : Text} {start : Nat} {fault : Fault}

theorem seam_nil (after : Text) : Seam [] after := by
  intro c hc
  cases hc

theorem EndsRun.eq_nil_of_all (h : EndsRun (run ++ rest)) (hrun : run.all isNumeralChar) :
    run = [] := by
  cases run with
  | nil => rfl
  | cons c run =>
    have hc : isNumeralChar c = true := List.all_eq_true.mp hrun c List.mem_cons_self
    rw [h c rfl] at hc
    cases hc

theorem Unreadable.index_eq (h : Unreadable text start fault) :
    ∃ place : Nat, fault.index = some (place : Int) ∧ start ≤ place := by
  cases h with
  | number => exact ⟨_, rfl, Nat.le_add_right _ _⟩
  | character => exact ⟨_, rfl, Nat.le_add_right _ _⟩

theorem Unreadable.precedes {other : Fault} {place : Nat} (h : Unreadable text start other)
    (hfault : fault.index = some (place : Int)) (hplace : place ≤ start) :
    fault.Precedes other := by
  obtain ⟨otherPlace, hother, hstart⟩ := h.index_eq
  intro i hi j hj
  rw [hfault] at hi
  rw [hother] at hj
  cases hi
  cases hj
  exact Int.ofNat_le.mpr (Nat.le_trans hplace hstart)

/-- A seam goes through no offender. -/
theorem Unreadable.of_append (hseam : Seam front rest)
    (h : Unreadable (front ++ rest) start fault) :
    Unreadable front start fault ∨ Unreadable rest (start + front.length) fault := by
  cases h with
  | @number before run after htext hne hrun hbefore hafter hnumeral =>
    rcases List.append_eq_append_iff.mp htext with ⟨middle, rfl, rfl⟩ | ⟨middle, rfl, hmiddle⟩
    · rw [List.length_append, ← Nat.add_assoc]
      exact .inr (.number rfl hne hrun hbefore.of_append hafter hnumeral)
    rcases List.append_eq_append_iff.mp hmiddle with ⟨others, rfl, rfl⟩ | ⟨others, hcut, rfl⟩
    · left
      refine .number rfl hne hrun hbefore ?_ hnumeral
      cases others with
      | nil => exact endsRun_nil
      | cons c others => exact hafter
    · cases middle with
      | nil =>
        right
        rw [List.append_nil, ← Nat.add_zero (start + before.length)]
        exact @Unreadable.number _ _ [] _ _ hmiddle.symm hne hrun (seam_nil run) hafter hnumeral
      | cons c middle =>
        -- a run that has begun in front of the seam ends there
        have hall := hrun
        rw [hcut, List.all_append, Bool.and_eq_true] at hall
        have hends := hseam.of_append.endsRun (List.cons_ne_nil c middle) hall.1
        obtain rfl := hends.eq_nil_of_all hall.2
        rw [List.append_nil] at hcut
        left
        exact .number (by rw [hcut, List.append_nil]) hne hrun hbefore endsRun_nil hnumeral
  | @character before c after htext hblank hnumeral hkind =>
    rcases List.append_eq_append_iff.mp htext with ⟨middle, rfl, rfl⟩ | ⟨middle, rfl, hmiddle⟩
    · rw [List.length_append, ← Nat.add_assoc]
      exact .inr (.character rfl hblank hnumeral hkind)
    · cases middle with
      | nil =>
        right
        rw [List.append_nil, ← Nat.add_zero (start + before.length)]
        exact @Unreadable.character _ _ [] _ _ hmiddle.symm hblank hnumeral hkind
      | cons d middle =>
        cases hmiddle
        exact .inl (.character rfl hblank hnumeral hkind)

theorem not_unreadable_blanks (h : isAllBlank blanks) : ¬ Unreadable blanks start fault := by
  have hblank {c : Char} (hc : c ∈ blanks) : isBlank c = true := List.all_eq_true.mp h c hc
  intro hfault
  cases hfault with
  | @number before run after htext hne hrun =>
    obtain ⟨c, run, rfl⟩ := List.exists_cons_of_ne_nil hne
    have hc : isNumeralChar c = true := List.all_eq_true.mp hrun c List.mem_cons_self
    have hother := hblank (c := c) (by simp [htext])
    rw [isBlank_eq_false_of_isNumeralChar hc] at hother
    cases hother
  | @character before c after htext hnot =>
    have hother := hblank (c := c) (by simp [htext])
    rw [hnot] at hother
    cases hother

theorem Unreadable.of_run (hrun : run.all isNumeralChar) (h : Unreadable run start fault) :
    isNumeral run = false ∧ fault = .invalidNumber run start := by
  cases h with
  | @number before part after htext hne hpart hbefore hafter hnumeral =>
    have hall := hrun
    rw [htext, List.all_append, List.all_append, Bool.and_eq_true, Bool.and_eq_true] at hall
    obtain ⟨hfront, -, hbehind⟩ := hall
    have hstart : before = [] := by
      by_contra hbefore_ne
      have hends := hbefore.endsRun hbefore_ne hfront
      rw [← List.append_nil part] at hends
      exact hne (hends.eq_nil_of_all hpart)
    have hstop : after = [] := by
      rw [← List.append_nil after] at hafter
      exact hafter.eq_nil_of_all hbehind
    have heq : run = part := by rw [htext, hstart, hstop, List.nil_append, List.append_nil]
    rw [heq, hstart]
    exact ⟨hnumeral, rfl⟩
  | @character before c after htext hblank hnumeral =>
    have hc : isNumeralChar c = true := List.all_eq_true.mp hrun c (by simp [htext])
    rw [hnumeral] at hc
    cases hc

theorem Unreadable.of_char {c : Char} (hnumeral : isNumeralChar c = false)
    (h : Unreadable [c] start fault) :
    Kind.ofChar? c = none ∧ fault = .invalidCharacter c start := by
  cases h with
  | @number before run after htext hne hrun =>
    obtain ⟨d, run, rfl⟩ := List.exists_cons_of_ne_nil hne
    have hmem : d ∈ [c] := by simp [htext]
    have hd : isNumeralChar d = true := List.all_eq_true.mp hrun d List.mem_cons_self
    rw [List.mem_singleton.mp hmem, hnumeral] at hd
    cases hd
  | @character before d after htext hblank _ hkind =>
    cases before with
    | nil =>
      cases htext
      exact ⟨hkind, rfl⟩
    | cons e before => simp at htext

theorem Unreadable.of_blanks (hblanks : isAllBlank blanks)
    (h : Unreadable (blanks ++ text) start fault) :
    Unreadable text (start + blanks.length) fault :=
  (h.of_append (seam_blanks hblanks text)).resolve_left (not_unreadable_blanks hblanks)

/-- There are no offenders but characters and runs. -/
theorem forall_not_unreadable_iff :
    (∀ fault, ¬ Unreadable text start fault) ↔
      (∀ c ∈ text, isExpressionChar c) ∧ ∀ before run after, Run text before run after →
        (∃ c ∈ run, c.isDigit) ∧ run.count '.' ≤ 1 := by
  constructor
  · intro h
    constructor
    · intro c hc
      rw [isExpressionChar_iff]
      by_contra hnone
      obtain ⟨before, after, htext⟩ := List.mem_iff_append.mp hc
      refine h _ (.character htext ?_ ?_ ?_) <;> simp_all
    · intro before run after hrun
      rw [← isNumeral_iff]
      by_contra hnumeral
      exact h _ (.number hrun.text_eq hrun.ne_nil hrun.all_numeral hrun.seam hrun.ends
        (Bool.eq_false_iff.mpr hnumeral))
  · rintro ⟨hchars, hruns⟩ fault hfault
    cases hfault with
    | number htext hne hrun hbefore hafter hnumeral =>
      rw [(isNumeral_iff _).mpr (hruns _ _ _ ⟨htext, hne, hrun, hbefore, hafter⟩)] at hnumeral
      cases hnumeral
    | @character before c after htext hblank hnumeral hkind =>
      have hc := (isExpressionChar_iff c).mp (hchars c (by simp [htext]))
      simp_all

end Text

open Text in
/-- The stream breaks off no later than at any offender. -/
theorem Cursor.stream_precedes {text : Text} {start : Nat} {other : Fault}
    (h : Unreadable text start other) :
    ∃ fault, (stream ⟨start, text⟩).last = .error fault ∧ fault.Precedes other := by
  induction pieces text generalizing start with
  | blank hblanks => exact absurd h (not_unreadable_blanks hblanks)
  | run hblanks hne hrun hrest _ ih =>
    have hother := h.of_blanks hblanks
    rw [stream_run hblanks hne hrun hrest]
    split
    next hnumeral =>
      rcases hother.of_append (hrest.seam _) with hbad | hlater
      · rw [(hbad.of_run hrun).1] at hnumeral
        cases hnumeral
      · exact ih hlater
    next => exact ⟨_, rfl, hother.precedes rfl (Nat.le_refl _)⟩
  | @char blanks c rest hblanks hblank hnumeral _ ih =>
    have hother := h.of_blanks hblanks
    rw [stream_char hblanks hblank hnumeral]
    split
    next kind hkind =>
      rcases Unreadable.of_append (seam_singleton hnumeral rest) hother with hbad | hlater
      · rw [(hbad.of_char hnumeral).1] at hkind
        cases hkind
      · exact ih hlater
    next => exact ⟨_, rfl, hother.precedes rfl (Nat.le_refl _)⟩

end Abacus
