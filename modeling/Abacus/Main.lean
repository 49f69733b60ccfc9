import Abacus.Shell.Run

/-!
# The command line

Expressions given as arguments are evaluated one after the other. Without any
the program reads lines from the standard input and answers each at once. Log
records go to the standard error.
-/

namespace Abacus.Shell

def ownLogger : Text := "repl".toList

def usage : String := "usage: calculator [options] [expression ...]"

def emit (level : Level) (event : Event) : IO Unit := do
  match event with
  | .logged record =>
    if level.severity ≤ record.level.severity then
      IO.eprintln (String.ofList record.text)
  | shown =>
    let stdout ← IO.getStdout
    stdout.putStr (String.ofList shown.shown)
    stdout.flush

/-- Answers the lines of the standard input, each before the next one is read. -/
partial def converse (settings : Settings) (terminal : Bool) : IO Unit := do
  emit settings.level (.asked (settings.shownPrompt terminal))
  let line ← (← IO.getStdin).getLine
  if line.isEmpty then return
  match respond settings.showTokens line.toList with
  | none => return
  | some journal =>
    journal.forM (emit settings.level)
    converse settings terminal

def start (settings : Settings) : IO UInt32 := do
  if settings.expressions ≠ [] then
    let outcome := batch settings.showTokens settings.expressions
    outcome.journal.forM (emit settings.level)
    return outcome.status.toUInt32
  else
    let terminal ← (← IO.getStdin).isTty
    (greeting ownLogger terminal).forM (emit settings.level)
    converse settings terminal
    return 0

end Abacus.Shell

def main (arguments : List String) : IO UInt32 :=
  match Abacus.Shell.Settings.ofArguments? (arguments.map String.toList) with
  | some settings => Abacus.Shell.start settings
  | none => do
    IO.eprintln Abacus.Shell.usage
    return 2
