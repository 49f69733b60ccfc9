import Abacus.Proofs.Shell.Arguments
import Abacus.Shell.Run

/-!
# Expressions as arguments and as input

The expressions behind the separator of a command line show what they would
show as lines of the standard input, away from a terminal. Only the status
tells the difference: a session ends with 0, a batch with 1 if an expression
failed in it.
-/

namespace Abacus.Shell

variable {showTokens : Bool} {sources : List Text}

section Batches

theorem isFailure_answer (source : Text) (outcome : Except Fault Float) :
    isFailure (answer source outcome) = !outcome.isOk := by
  cases outcome <;> rfl

theorem batch_exit {source : Text} (h : isExitCommand source) (rest : List Text) :
    batch showTokens (source :: rest) = ⟨0, []⟩ := by
  simp [batch, h]

theorem batch_source {source : Text} (h : isExitCommand source = false) (rest : List Text) :
    batch showTokens (source :: rest) =
      ⟨if (evaluate source).isOk then (batch showTokens rest).status else 1,
        block showTokens source (evaluate source) ++ (batch showTokens rest).journal⟩ := by
  simp only [batch, h, isFailure_answer]
  cases (evaluate source).isOk <;> rfl

/-- A batch fails with any of its expressions up to the exit command. -/
theorem status_batch (sources : List Text) :
    (batch showTokens sources).status =
      if (sources.takeWhile (!isExitCommand ·)).all fun source => (evaluate source).isOk
      then 0 else 1 := by
  induction sources with
  | nil => rfl
  | cons source rest ih =>
    cases hexit : isExitCommand source with
    | true => simp [batch_exit hexit, hexit]
    | false =>
      rw [batch_source hexit, ih]
      cases hok : (evaluate source).isOk <;> simp [hexit, hok]

theorem isOk_eq_false_iff {outcome : Except Fault Float} :
    outcome.isOk = false ↔ ∃ fault, outcome = .error fault := by
  cases outcome with
  | ok value => simp [Except.isOk, Except.toBool]
  | error fault => simp [Except.isOk, Except.toBool]

theorem status_batch_cases (showTokens : Bool) (sources : List Text) :
    ((batch showTokens sources).status = 1 ↔
      ∃ source ∈ sources.takeWhile (!isExitCommand ·), ∃ fault, evaluate source = .error fault) ∧
    ((batch showTokens sources).status ≠ 1 → (batch showTokens sources).status = 0) := by
  rw [status_batch]
  split
  next hall =>
    rw [List.all_eq_true] at hall
    refine ⟨⟨fun h => absurd h (by decide), ?_⟩, fun _ => rfl⟩
    rintro ⟨source, hmem, hfault⟩
    have hok := hall source hmem
    rw [isOk_eq_false_iff.mpr hfault] at hok
    cases hok
  next hall =>
    rw [Bool.not_eq_true, List.all_eq_false] at hall
    obtain ⟨source, hmem, hfails⟩ := hall
    refine ⟨⟨fun _ => ?_, fun _ => rfl⟩, fun h => absurd rfl h⟩
    exact ⟨source, hmem, isOk_eq_false_iff.mp (Bool.not_eq_true _ ▸ hfails)⟩

end Batches

/-- An expression that is a line of its own as it stands. -/
structure Plain (source : Text) : Prop where
  not_blank : ¬ source.isAllBlank
  strip_eq : source.strip = source
  no_newline : '\n' ∉ source

theorem Plain.ne_nil {source : Text} (h : Plain source) : source ≠ [] := by
  rintro rfl
  exact h.not_blank rfl

theorem Plain.respond_eq {source : Text} (h : Plain source) :
    respond showTokens source =
      if isExitCommand source then none
      else some (block showTokens source (evaluate source)) := by
  simp only [respond, h.strip_eq, h.ne_nil, ↓reduceIte]

theorem stdout_cons (event : Event) (journal : Journal) :
    Journal.stdout (event :: journal) = event.shown ++ journal.stdout := by
  simp [Journal.stdout]

/-- Without a prompt, a session shows of plain lines what a batch shows of them. -/
theorem stdout_session (h : ∀ source ∈ sources, Plain source) :
    (session [] showTokens (sources.map Read.line)).1.stdout =
      (batch showTokens sources).journal.stdout := by
  induction sources with
  | nil => rfl
  | cons source rest ih =>
    have hplain := h source List.mem_cons_self
    have hrest := ih fun other hmem => h other (List.mem_cons_of_mem _ hmem)
    rw [List.map_cons, session, hplain.respond_eq]
    cases hexit : isExitCommand source with
    | true =>
      rw [batch_exit hexit]
      rfl
    | false =>
      rw [batch_source hexit]
      simp only [Bool.false_eq_true, ↓reduceIte, List.cons_append, stdout_cons,
        Journal.stdout_append, hrest]
      rfl

theorem lines_of_plain {stdin : Text} (h : ∀ source ∈ sources, Plain source)
    (hstdin : stdin = Text.unlines sources ∨ stdin = ['\n'].intercalate sources) :
    stdin.lines = sources := by
  have hnewline (source : Text) (hmem : source ∈ sources) (c : Char) (hc : c ∈ source) :
      c ≠ '\n' := by
    rintro rfl
    exact (h source hmem).no_newline hc
  rcases hstdin with rfl | rfl
  · exact Text.lines_unlines sources hnewline
  · exact Text.lines_intercalate sources (fun source hmem => (h source hmem).ne_nil) hnewline

/-- Expressions show the same as arguments and as piped lines. As arguments they fail with the
first of them that does, as lines they never do. -/
theorem invoke_arguments_eq_piped {options : List Text} {settings : Settings} {stdin : Text}
    (hoptions : Settings.ofArguments? options = some settings)
    (hnone : settings.expressions = []) (hseparator : Item.separator ∉ options)
    (hsources : sources ≠ []) (hplain : ∀ source ∈ sources, Plain source)
    (hstdin : stdin = Text.unlines sources ∨ stdin = ['\n'].intercalate sources)
    (logger other : Text) (terminal : Bool) :
    ∃ direct piped,
      invoke logger (options ++ Item.separator :: sources) other terminal = some direct ∧
      invoke logger options stdin false = some piped ∧
      direct.journal.stdout = piped.journal.stdout ∧
      (direct.status = 1 ↔ ∃ source ∈ sources.takeWhile (!isExitCommand ·),
        ∃ fault, evaluate source = .error fault) ∧
      (direct.status ≠ 1 → direct.status = 0) ∧ piped.status = 0 := by
  have hdirect := Settings.ofArguments?_append_separator hoptions hseparator sources
  have hbatch : invoke logger (options ++ Item.separator :: sources) other terminal =
      some (batch settings.showTokens sources) := by
    simp [invoke, hdirect, run, hnone, hsources]
  have hsession : invoke logger options stdin false =
      some ⟨0, greeting logger false ++
        (session [] settings.showTokens (sources.map Read.line)).1⟩ := by
    simp [invoke, hoptions, run, hnone, lines_of_plain hplain hstdin, Settings.shownPrompt]
  obtain ⟨hfails, hzero⟩ := status_batch_cases settings.showTokens sources
  refine ⟨_, _, hbatch, hsession, ?_, hfails, hzero, rfl⟩
  rw [Journal.stdout_append, stdout_session hplain]
  rfl

theorem invoke_dashes_eq_piped :
    let options : List Text := ["--tokens".toList]
    let sources : List Text := ["--5".toList, "--".toList, "Exit".toList, "--tokens".toList]
    ∃ direct piped,
      invoke [] (options ++ Item.separator :: sources) [] true = some direct ∧
      invoke [] options (['\n'].intercalate sources) false = some piped ∧
      direct.journal.stdout = piped.journal.stdout ∧ direct.status = 1 ∧ piped.status = 0 := by
  intro options sources
  have hoptions : Settings.ofArguments? options = some ⟨">> ".toList, true, .warning, []⟩ := by
    decide
  have hplain : ∀ source ∈ sources, Plain source := by
    have hall : ∀ source ∈ sources,
        ¬ source.isAllBlank ∧ source.strip = source ∧ '\n' ∉ source := by
      decide
    intro source hmem
    obtain ⟨hblank, hstrip, hnewline⟩ := hall source hmem
    exact ⟨hblank, hstrip, hnewline⟩
  obtain ⟨direct, piped, hdirect, hpiped, hstdout, hstatus, -, hzero⟩ :=
    invoke_arguments_eq_piped hoptions rfl (by decide) (by decide) hplain (.inr rfl) [] [] true
  refine ⟨direct, piped, hdirect, hpiped, hstdout, hstatus.mpr ?_, hzero⟩
  exact ⟨"--".toList, by decide, _, (rfl : evaluate "--".toList = .error _)⟩

end Abacus.Shell
