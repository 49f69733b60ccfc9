import Abacus.Proofs.Shell.Terminal

/-!
# Transcripts

The log follows a run. A session tells that it starts, and each evaluation leaves
two records: what is evaluated, and the value or the fault that the answer tells
of. The level on the command line chooses among these records and does nothing
else.
-/

namespace Abacus.Shell

namespace Journal

variable (journal : Journal)

theorem log_debug : journal.log .debug = journal.filterMap Event.record? := by
  rw [log, List.filter_eq_self]
  intro record _
  cases record.level <;> rfl

theorem log_eq_filter (level : Level) :
    journal.log level =
      (journal.log .debug).filter fun record => level.severity ≤ record.level.severity := by
  rw [log_debug, log]

/-- What is shown in a run, the prompts apart. -/
def withoutPrompts : Journal := journal.filter (·.prompt?.isNone)

theorem withoutPrompts_append (a b : Journal) :
    withoutPrompts (a ++ b) = withoutPrompts a ++ withoutPrompts b :=
  List.filter_append a b

theorem withoutPrompts_asked (prompt : Text) :
    withoutPrompts (.asked prompt :: journal) = withoutPrompts journal := rfl

theorem lines_withoutPrompts : lines (withoutPrompts journal) = lines journal := by
  rw [lines, withoutPrompts, List.filterMap_filter]
  congr 1
  funext event
  cases event <;> rfl

theorem log_withoutPrompts (level : Level) :
    log (withoutPrompts journal) level = log journal level := by
  rw [log, withoutPrompts, List.filterMap_filter]
  congr 2
  funext event
  cases event <;> rfl

variable {journal} in
theorem withoutPrompts_eq_self (h : prompts journal = []) : withoutPrompts journal = journal := by
  rw [withoutPrompts, List.filter_eq_self]
  intro event hmem
  rw [Option.isNone_iff_eq_none]
  exact List.filterMap_eq_nil_iff.mp h event hmem

end Journal

variable {showTokens : Bool} {arguments : List Text} {items : List Item}

/-- What is written for an expression. -/
def answerLines (showTokens : Bool) (source : Text) : List Text :=
  (if showTokens then (tokensLine? source).toList else []) ++ [calculate source]

/-- Two records tell of an evaluation. The second one has the value if the line that answers it has
a result, and the name of the fault otherwise. -/
def Transcribes (source line : Text) (records : List Record) : Prop :=
  ∃ message,
    records = [⟨"calculator.runtime".toList, .debug, "Evaluating ".toList ++ source.quoted⟩,
      ⟨"calculator.runtime".toList, .debug, message⟩] ∧
    ("Result: ".toList <+: line → ∃ value, evaluate source = .ok value ∧
      line = "Result: ".toList ++ Binary64.display value ∧
      message = source.quoted ++ " = ".toList ++ Binary64.text value) ∧
    (¬ "Result: ".toList <+: line → ∃ fault, evaluate source = .error fault ∧
      line = "Error: ".toList ++ fault.report source ∧
      message = "Evaluation of ".toList ++ source.quoted ++ " failed: ".toList ++ fault.cause.name)

theorem transcribes_calculate (source : Text) :
    Transcribes source (calculate source) (evaluationRecords source (evaluate source)) := by
  rw [calculate]
  cases houtcome : evaluate source with
  | ok value =>
    refine ⟨_, rfl, fun _ => ⟨value, houtcome, rfl, rfl⟩, fun hresult => ?_⟩
    exact absurd (List.prefix_append _ _) hresult
  | error fault =>
    refine ⟨_, rfl, fun hresult => ?_, fun _ => ⟨fault, houtcome, rfl, rfl⟩⟩
    -- the answer to a fault starts with another letter
    cases List.prefix_iff_getElem?.mp hresult 0 (by decide)

/-- The journal of the evaluations of some expressions. -/
def evaluations (showTokens : Bool) (sources : List Text) : Journal :=
  sources.flatMap fun source => block showTokens source (evaluate source)

theorem evaluations_cons (source : Text) (rest : List Text) :
    evaluations showTokens (source :: rest) =
      block showTokens source (evaluate source) ++ evaluations showTokens rest := rfl

theorem evaluations_append (sources others : List Text) :
    evaluations showTokens (sources ++ others) =
      evaluations showTokens sources ++ evaluations showTokens others :=
  List.flatMap_append

theorem lines_evaluations (sources : List Text) :
    (evaluations showTokens sources).lines = sources.flatMap (answerLines showTokens) := by
  induction sources with
  | nil => rfl
  | cons source rest ih =>
    rw [evaluations_cons, Journal.lines_append, lines_block, ih]
    rfl

theorem log_block (source : Text) (outcome : Except Fault Float) :
    (block showTokens source outcome).log .debug = evaluationRecords source outcome := by
  have hwrote (lines : List Text) : (lines.map Event.wrote).filterMap Event.record? = [] := by
    simp [Event.record?]
  have hlogged (records : List Record) :
      (records.map Event.logged).filterMap Event.record? = records := by
    simp [Function.comp_def, Event.record?]
  rw [Journal.log_debug, block, List.filterMap_append, List.filterMap_append, hlogged]
  cases showTokens with
  | false => simp [Event.record?]
  | true => simp [hwrote, Event.record?]

theorem log_evaluations (sources : List Text) :
    (evaluations showTokens sources).log .debug =
      sources.flatMap fun source => evaluationRecords source (evaluate source) := by
  induction sources with
  | nil => rfl
  | cons source rest ih =>
    rw [evaluations_cons, Journal.log_append, log_block, ih, List.flatMap_cons]

/-- The expression on a line, unless it is blank. -/
def sourceOf (line : Text) : List Text := [line.strip].filter (· ≠ [])

theorem respond_eq (line : Text) :
    respond showTokens line =
      if isExitCommand line then none else some (evaluations showTokens (sourceOf line)) := by
  simp only [respond, isExitCommand_strip]
  split
  next => rfl
  next =>
    by_cases hblank : line.strip = []
    · simp [hblank, sourceOf, evaluations]
    · simp [hblank, sourceOf, evaluations]

/-- The expressions that a run evaluates, in order. A batch evaluates what it is given up to the
exit command, a session the lines that are not blank. -/
def Settings.evaluated (settings : Settings) (stdin : Text) : List Text :=
  if settings.expressions = [] then
    (stdin.lines.takeWhile (!isExitCommand ·)).flatMap sourceOf
  else settings.expressions.takeWhile (!isExitCommand ·)

theorem journal_batch (sources : List Text) :
    (batch showTokens sources).journal =
      evaluations showTokens (sources.takeWhile (!isExitCommand ·)) := by
  induction sources with
  | nil => rfl
  | cons source rest ih =>
    cases hexit : isExitCommand source with
    | true => simp [batch_exit hexit, hexit, evaluations]
    | false =>
      rw [batch_source hexit, ih, List.takeWhile_cons_of_pos (by simp [hexit]), evaluations_cons]

theorem withoutPrompts_evaluations (sources : List Text) :
    (evaluations showTokens sources).withoutPrompts = evaluations showTokens sources := by
  apply Journal.withoutPrompts_eq_self
  induction sources with
  | nil => rfl
  | cons source rest ih => rw [evaluations_cons, Journal.prompts_append, prompts_block, ih]; rfl

theorem withoutPrompts_session (prompt : Text) (lines : List Text) :
    (session prompt showTokens (lines.map Read.line)).1.withoutPrompts =
      evaluations showTokens ((lines.takeWhile (!isExitCommand ·)).flatMap sourceOf) := by
  induction lines with
  | nil => rfl
  | cons line rest ih =>
    rw [List.map_cons, session, respond_eq]
    cases hexit : isExitCommand line with
    | true => simp [hexit, evaluations, Journal.withoutPrompts, Event.prompt?]
    | false =>
      rw [List.takeWhile_cons_of_pos (by simp [hexit]), List.flatMap_cons, evaluations_append, ← ih]
      simp only [Bool.false_eq_true, ↓reduceIte, List.cons_append, Journal.withoutPrompts_asked,
        Journal.withoutPrompts_append, withoutPrompts_evaluations]

/-- A run shows its evaluations, behind a greeting if it is a session. -/
theorem withoutPrompts_run (logger : Text) (settings : Settings) (stdin : Text) (terminal : Bool) :
    (run logger settings stdin terminal).journal.withoutPrompts =
      (if settings.expressions = [] then greeting logger terminal else []) ++
        evaluations settings.showTokens (settings.evaluated stdin) := by
  rw [run, Settings.evaluated]
  by_cases hnone : settings.expressions = []
  · rw [if_neg (not_not_intro hnone), if_pos hnone, if_pos hnone, Journal.withoutPrompts_append,
      withoutPrompts_session, Journal.withoutPrompts_eq_self (prompts_greeting _ _)]
  · rw [if_pos hnone, if_neg hnone, if_neg hnone, journal_batch, withoutPrompts_evaluations]
    rfl

namespace Settings

theorem foldl_add_levels (level : Level) (settings : Settings) (items : List Item) :
    { items.foldl add settings with level := level } =
      (items.filter (·.level?.isNone)).foldl add { settings with level := level } := by
  induction items generalizing settings with
  | nil => rfl
  | cons item items ih =>
    rw [List.foldl_cons, ih]
    cases item <;> rfl

theorem ofItems_congr {others : List Item}
    (h : others.filter (·.level?.isNone) = items.filter (·.level?.isNone)) :
    { ofItems items with level := (ofItems others).level } = ofItems others := by
  have hothers := foldl_add_levels (ofItems others).level default others
  rw [h] at hothers
  exact (foldl_add_levels _ default items).trans hothers.symm

end Settings

theorem run_level (logger : Text) (settings : Settings) (level : Level) (stdin : Text)
    (terminal : Bool) :
    run logger { settings with level := level } stdin terminal =
      run logger settings stdin terminal := rfl

theorem lines_greeting (logger : Text) (terminal : Bool) :
    (greeting logger terminal).lines = if terminal then banner else [] := by
  cases terminal <;> rfl

theorem lines_run (logger : Text) (settings : Settings) (stdin : Text) (terminal : Bool) :
    (run logger settings stdin terminal).journal.lines =
      (if settings.expressions = [] ∧ terminal then banner else []) ++
        (settings.evaluated stdin).flatMap (answerLines settings.showTokens) := by
  rw [← Journal.lines_withoutPrompts, withoutPrompts_run, Journal.lines_append, lines_evaluations]
  by_cases hnone : settings.expressions = []
  · simp only [hnone, ↓reduceIte, lines_greeting, true_and]
  · simp [hnone, Journal.lines]

/-- All that a run logs at any level. -/
def fullLog (logger : Text) (settings : Settings) (stdin : Text) (terminal : Bool) : List Record :=
  (if settings.expressions = [] then
    [⟨logger, .info, if terminal then "Starting interactive session".toList
      else "Starting batch session".toList⟩]
  else []) ++
    (settings.evaluated stdin).flatMap fun source => evaluationRecords source (evaluate source)

theorem log_run (logger : Text) (settings : Settings) (stdin : Text) (terminal : Bool) :
    (run logger settings stdin terminal).journal.log .debug =
      fullLog logger settings stdin terminal := by
  rw [← Journal.log_withoutPrompts, withoutPrompts_run, Journal.log_append, log_evaluations,
    fullLog]
  by_cases hnone : settings.expressions = []
  · rw [if_pos hnone, if_pos hnone]
    cases terminal <;> rfl
  · rw [if_neg hnone, if_neg hnone]
    rfl

/-- At the lowest level the log tells that a session starts and, by two records for each, how the
evaluations go that are answered on the screen. Command lines that differ in the level only show the
same, and the log of each is what its level leaves of the whole. -/
theorem invoke_transcript (h : Item.ofArguments? arguments = some items) (logger stdin : Text)
    (terminal : Bool) :
    let settings := Settings.ofItems items
    let evaluated := settings.evaluated stdin
    let full := fullLog logger settings stdin terminal
    ∃ outcome, invoke logger arguments stdin terminal = some outcome ∧
      outcome.journal.lines =
        (if settings.expressions = [] ∧ terminal then banner else []) ++
          evaluated.flatMap (answerLines settings.showTokens) ∧
      (∀ source ∈ evaluated,
        Transcribes source (calculate source) (evaluationRecords source (evaluate source))) ∧
      ∀ others otherItems, Item.ofArguments? others = some otherItems →
        otherItems.filter (·.level?.isNone) = items.filter (·.level?.isNone) →
        ∃ other, invoke logger others stdin terminal = some other ∧
          other.status = outcome.status ∧ other.journal.stdout = outcome.journal.stdout ∧
          let level := (Settings.ofItems otherItems).level
          (level = .debug → other.journal.log level = full) ∧
          other.journal.log level =
            full.filter fun record => level.severity ≤ record.level.severity := by
  intro settings evaluated full
  refine ⟨_, invoke_eq h logger stdin terminal, lines_run logger settings stdin terminal,
    fun source _ => transcribes_calculate source, ?_⟩
  intro others otherItems hothers hsame
  have hrun : run logger (Settings.ofItems otherItems) stdin terminal =
      run logger settings stdin terminal := by
    rw [← Settings.ofItems_congr hsame, run_level]
  have hlog :
      (run logger (Settings.ofItems otherItems) stdin terminal).journal.log .debug = full := by
    rw [hrun, log_run]
  refine ⟨_, invoke_eq hothers logger stdin terminal, congrArg Outcome.status hrun,
    congrArg (·.journal.stdout) hrun, fun hdebug => ?_, ?_⟩
  · rw [hdebug, hlog]
  · rw [Journal.log_eq_filter, hlog]

theorem transcript_of_blank_expression :
    let arguments : List Text :=
      ["1/0".toList, "--log-level=DEBUG".toList, " ".toList, "4/2".toList, "exit".toList,
        "3".toList]
    let others : List Text :=
      ["1/0".toList, " ".toList, "4/2".toList, "--log-level".toList, "ERROR".toList, "exit".toList,
        "3".toList]
    let record (message : String) : Record :=
      ⟨"calculator.runtime".toList, .debug, message.toList⟩
    ∃ outcome other, invoke [] arguments [] false = some outcome ∧
      invoke [] others [] false = some other ∧
      outcome.journal.log .debug = [record "Evaluating '1/0'",
        record "Evaluation of '1/0' failed: DivisionByZero", record "Evaluating ' '",
        record "Evaluation of ' ' failed: EmptyExpression", record "Evaluating '4/2'",
        record "'4/2' = 2.0"] ∧
      other.journal.log .error = [] ∧ other.journal.stdout = outcome.journal.stdout ∧
      other.status = outcome.status := by
  intro arguments others record
  let sources : List Item := ["1/0".toList, " ".toList, "4/2".toList, "exit".toList,
    "3".toList].map Item.expression
  have hitems : Item.ofArguments? arguments =
      some (sources.take 1 ++ .level .debug :: sources.drop 1) := by decide
  have hothers : Item.ofArguments? others =
      some (sources.take 3 ++ .level .error :: sources.drop 3) := by decide
  obtain ⟨outcome, houtcome, -, -, hlogs⟩ := invoke_transcript hitems [] [] false
  obtain ⟨same, hsame, -, -, hdebug, -⟩ := hlogs arguments _ hitems rfl
  obtain ⟨other, hother, hstatus, hstdout, -, herror⟩ := hlogs others _ hothers (by decide)
  obtain rfl : same = outcome := Option.some.inj (hsame.symm.trans houtcome)
  refine ⟨same, other, houtcome, hother, (hdebug rfl).trans ?_, herror.trans ?_, hstdout, hstatus⟩
  · decide +kernel
  · decide +kernel

end Abacus.Shell
