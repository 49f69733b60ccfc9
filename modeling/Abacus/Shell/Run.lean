import Abacus.Evaluation
import Abacus.Shell.Settings

/-!
# Runs

With expressions on the command line a run is a batch, without any it is a
session on the standard input.
-/

namespace Abacus.Shell

/-! ## Sessions

A session reads line after line and answers each by itself, until a line is the
exit command, the reading is interrupted or no line is left. -/

def exitCommand : Text := "exit".toList

/-- The exit command may stand between blanks and in letters of any case. -/
def isExitCommand (line : Text) : Bool := line.strip.map Char.toLower = exitCommand

/-- The logger of evaluations. -/
def evaluationLogger : Text := "calculator.runtime".toList

def evaluationRecords (source : Text) (outcome : Except Fault Float) : List Record :=
  (transcript source outcome).map fun message => ⟨evaluationLogger, .debug, message⟩

/-- What is shown for one expression. -/
def block (showTokens : Bool) (source : Text) (outcome : Except Fault Float) : Journal :=
  (if showTokens then (tokensLine? source).toList.map Event.wrote else [])
    ++ (evaluationRecords source outcome).map Event.logged
    ++ [.wrote (answer source outcome)]

/-- What is shown for a line that was read, unless the line ends the session. -/
def respond (showTokens : Bool) (line : Text) : Option Journal :=
  let source := line.strip
  if isExitCommand source then none
  else if source = [] then some []
  else some (block showTokens source (evaluate source))

/-- What an attempt to read a line can bring, as long as there are lines. -/
inductive Read where
  | line (text : Text)
  | interrupt
deriving DecidableEq

/-- The journal of a session, and what it leaves unread. -/
def session (prompt : Text) (showTokens : Bool) : List Read → Journal × List Read
  | [] => ([.asked prompt], [])
  | .interrupt :: rest => ([.asked prompt], rest)
  | .line text :: rest =>
    match respond showTokens text with
    | none => ([.asked prompt], rest)
    | some shown =>
      let (later, unread) := session prompt showTokens rest
      (.asked prompt :: shown ++ later, unread)

/-! ## Batches

A batch evaluates given expressions in order, up to the exit command. Its
status is 1 if one of its answers starts like that to a fault. -/

/-- How a run ends and what it shows. -/
structure Outcome where
  status : Nat
  journal : Journal
deriving DecidableEq

/-- Tells the answers to faults by what they start with. -/
def isFailure (answer : Text) : Bool := "Error:".toList.isPrefixOf answer

def batch (showTokens : Bool) : List Text → Outcome
  | [] => ⟨0, []⟩
  | source :: rest =>
    if isExitCommand source then ⟨0, []⟩
    else
      let outcome := evaluate source
      let later := batch showTokens rest
      { status := if isFailure (answer source outcome) then 1 else later.status
        journal := block showTokens source outcome ++ later.journal }

/-! ## Whole runs

On a terminal a session starts with a banner and shows its prompts; elsewhere it
does neither. -/

def banner : List Text :=
  ["Simple calculator interpreter".toList,
    "Type \"exit\" to quit".toList,
    "Supported operations: +, -, *, /, (, )".toList]

/-- What a session shows before its first prompt. -/
def greeting (logger : Text) (terminal : Bool) : Journal :=
  let mode := if terminal then "interactive" else "batch"
  .logged ⟨logger, .info, "Starting ".toList ++ mode.toList ++ " session".toList⟩
    :: if terminal then banner.map Event.wrote else []

/-- The prompt that is shown. -/
def Settings.shownPrompt (settings : Settings) (terminal : Bool) : Text :=
  if terminal then settings.prompt else []

/-- A run whose own log records are those of `logger`. -/
def run (logger : Text) (settings : Settings) (stdin : Text) (terminal : Bool) : Outcome :=
  if settings.expressions ≠ [] then batch settings.showTokens settings.expressions
  else
    { status := 0
      journal :=
        greeting logger terminal
          ++ (session (settings.shownPrompt terminal) settings.showTokens
            (stdin.lines.map Read.line)).1 }

/-- A run with the settings of a command line, if the command line is accepted. -/
def invoke (logger : Text) (arguments : List Text) (stdin : Text) (terminal : Bool) :
    Option Outcome :=
  (Settings.ofArguments? arguments).map fun settings => run logger settings stdin terminal

end Abacus.Shell
