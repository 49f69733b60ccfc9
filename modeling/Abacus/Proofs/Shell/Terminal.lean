import Abacus.Proofs.Shell.Sessions
import Abacus.Proofs.Shell.Wordings

/-!
# Sessions on a terminal

On a terminal a session shows a banner, and its prompt in front of each read.
Between the prompts stands what it shows elsewhere: for each read the answer to
the line, and nothing for the read that ends the session.
-/

namespace Abacus.Shell

namespace Journal

theorem stdout_eq_unlines {journal : Journal} (h : journal.prompts = []) :
    journal.stdout = Text.unlines journal.lines := by
  induction journal with
  | nil => rfl
  | cons event journal ih =>
    cases event with
    | asked prompt => cases h
    | wrote line =>
      have hlines : lines (.wrote line :: journal) = line :: lines journal := rfl
      rw [stdout_cons, ih h, hlines, Text.unlines_cons]
      simp [Event.shown]
    | logged record =>
      rw [stdout_cons, ih h]
      rfl

end Journal

variable {showTokens : Bool}

/-- What a session shows behind each of its prompts: an answer to each line up to the first read
that ends it, and nothing to that one. -/
def blocks (showTokens : Bool) (reads : List Read) : List Text :=
  (reads.takeWhile fun read => !read.ends).map (fun read => Text.unlines (read.written showTokens))
    ++ [[]]

theorem blocks_ends {read : Read} (h : read.ends) (rest : List Read) :
    blocks showTokens (read :: rest) = [[]] := by
  simp [blocks, h]

theorem blocks_line {read : Read} (h : read.ends = false) (rest : List Read) :
    blocks showTokens (read :: rest) =
      Text.unlines (read.written showTokens) :: blocks showTokens rest := by
  simp [blocks, h]

/-- A session asks once for each block, and shows the block behind the prompt. -/
theorem session_blocks (prompt : Text) (showTokens : Bool) (reads : List Read) :
    let journal := (session prompt showTokens reads).1
    journal.stdout = (blocks showTokens reads).flatMap (prompt ++ ·) ∧
      journal.prompts = List.replicate (blocks showTokens reads).length prompt := by
  induction reads with
  | nil => exact ⟨by simp [session, blocks, Journal.stdout, Event.shown], rfl⟩
  | cons read rest ih =>
    cases hends : read.ends with
    | true =>
      rw [session_ends hends, blocks_ends hends]
      exact ⟨by simp [Journal.stdout, Event.shown], rfl⟩
    | false =>
      obtain ⟨shown, hprompts, hlines, hsession⟩ := session_line hends prompt rest
      obtain ⟨hstdout, hlater⟩ := ih
      rw [hsession, blocks_line hends]
      constructor
      · rw [List.cons_append, stdout_cons, Journal.stdout_append, hstdout,
          Journal.stdout_eq_unlines hprompts, hlines, List.flatMap_cons, List.append_assoc]
        rfl
      · rw [List.cons_append, prompts_asked, Journal.prompts_append, hprompts, hlater,
          List.length_cons, List.replicate_succ, List.nil_append]

theorem stdout_greeting (logger : Text) (terminal : Bool) :
    (greeting logger terminal).stdout = if terminal then Text.unlines banner else [] := by
  cases terminal <;> rfl

theorem prompts_greeting (logger : Text) (terminal : Bool) :
    (greeting logger terminal).prompts = [] := by
  cases terminal <;> rfl

variable {arguments : List Text} {items : List Item}

theorem invoke_eq (h : Item.ofArguments? arguments = some items) (logger stdin : Text)
    (terminal : Bool) :
    invoke logger arguments stdin terminal =
      some (run logger (Settings.ofItems items) stdin terminal) := by
  rw [invoke, Settings.ofArguments?, h, Option.map_some, Option.map_some]

theorem invoke_session (h : Item.ofArguments? arguments = some items)
    (hnone : items.filterMap Item.source? = []) (logger stdin : Text) (terminal : Bool) :
    let settings := Settings.ofItems items
    invoke logger arguments stdin terminal =
      some ⟨0, greeting logger terminal ++
        (session (settings.shownPrompt terminal) settings.showTokens
          (stdin.lines.map Read.line)).1⟩ := by
  intro settings
  have hexpressions : settings.expressions = [] := by
    rw [Settings.expressions_ofItems, hnone]
  rw [invoke_eq h, run, if_neg (not_not_intro hexpressions)]

theorem invoke_blocks (h : Item.ofArguments? arguments = some items)
    (hnone : items.filterMap Item.source? = []) (logger stdin : Text) (terminal : Bool) :
    let settings := Settings.ofItems items
    let prompt := settings.shownPrompt terminal
    let shown := blocks settings.showTokens (stdin.lines.map Read.line)
    ∃ outcome, invoke logger arguments stdin terminal = some outcome ∧ outcome.status = 0 ∧
      outcome.journal.stdout =
        (if terminal then Text.unlines banner else []) ++ shown.flatMap (prompt ++ ·) ∧
      outcome.journal.prompts = List.replicate shown.length prompt := by
  intro settings prompt shown
  obtain ⟨hstdout, hprompts⟩ :=
    session_blocks prompt settings.showTokens (stdin.lines.map Read.line)
  refine ⟨_, invoke_session h hnone logger stdin terminal, rfl, ?_, ?_⟩
  · rw [Journal.stdout_append, stdout_greeting, hstdout]
  · rw [Journal.prompts_append, prompts_greeting, hprompts, List.nil_append]

/-- A session shows the same blocks on a terminal as elsewhere. Only there it shows a banner and, in
front of each block, the prompt of the command line. Each block belongs to one read. -/
theorem invoke_terminal_eq_piped (h : Item.ofArguments? arguments = some items)
    (hnone : items.filterMap Item.source? = []) (logger stdin : Text) :
    let prompt := (items.filterMap Item.prompt?).getLast?.getD ">> ".toList
    let shown := blocks (Settings.ofItems items).showTokens (stdin.lines.map Read.line)
    ∃ piped terminal,
      invoke logger arguments stdin false = some piped ∧
      invoke logger arguments stdin true = some terminal ∧
      piped.journal.stdout = shown.flatten ∧
      terminal.journal.stdout = Text.unlines banner ++ shown.flatMap (prompt ++ ·) ∧
      piped.journal.prompts.length = shown.length ∧
      terminal.journal.prompts = List.replicate shown.length prompt ∧
      shown.getLast? = some [] ∧ piped.status = 0 ∧ terminal.status = 0 := by
  intro prompt shown
  obtain ⟨piped, hpiped, hpipedStatus, hpipedStdout, hpipedPrompts⟩ :=
    invoke_blocks h hnone logger stdin false
  obtain ⟨terminal, hterminal, hstatus, hstdout, hprompts⟩ :=
    invoke_blocks h hnone logger stdin true
  have hprompt : (Settings.ofItems items).shownPrompt true = prompt := Settings.prompt_ofItems items
  rw [hprompt] at hstdout hprompts
  refine ⟨piped, terminal, hpiped, hterminal, ?_, hstdout, ?_, hprompts, List.getLast?_concat,
    hpipedStatus, hstatus⟩
  · -- the prompt that is not shown is the empty text
    rw [hpipedStdout]
    exact List.flatMap_id
  · rw [hpipedPrompts, List.length_replicate]

/-- A blank line and a faulty one, and one that is never read. -/
theorem terminal_eq_piped_up_to_exit :
    let arguments : List Text := ["--prompt".toList, "? ".toList, "--tokens".toList]
    let stdin : Text := "4/2\n \n1+\n Exit\n3".toList
    let shown := ["tokens: <NUMBER>4 <SLASH>/ <NUMBER>2 <EXPR_END>\nResult: 2\n".toList, [],
      "tokens: <NUMBER>1 <PLUS>+ <EXPR_END>\nError: Unexpected token: <EXPR_END>\n1+\n  ^\n".toList,
      []]
    ∃ piped terminal, invoke [] arguments stdin false = some piped ∧
      invoke [] arguments stdin true = some terminal ∧
      piped.journal.stdout = shown.flatten ∧
      terminal.journal.stdout = Text.unlines banner ++ shown.flatMap ("? ".toList ++ ·) ∧
      piped.status = 0 ∧ terminal.status = 0 := by
  intro arguments stdin shown
  have hitems : Item.ofArguments? arguments = some [.prompt "? ".toList, .tokens] := by decide
  have hshown : blocks true (stdin.lines.map Read.line) = shown := by decide +kernel
  obtain ⟨piped, terminal, hpiped, hterminal, hpipedStdout, hstdout, -, -, -, hpipedStatus,
    hstatus⟩ := invoke_terminal_eq_piped hitems rfl [] stdin
  refine ⟨piped, terminal, hpiped, hterminal, ?_, ?_, hpipedStatus, hstatus⟩
  · rw [hpipedStdout]
    exact congrArg List.flatten hshown
  · rw [hstdout]
    exact congrArg (Text.unlines banner ++ ·.flatMap ("? ".toList ++ ·)) hshown

end Abacus.Shell
