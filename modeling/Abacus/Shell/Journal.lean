import Abacus.Text.Basic

/-!
# The journal of a run

All that a run shows, in order: the prompts, the lines written and the log
records. What appears on the standard output and what appears in the log are
two views of one journal.
-/

namespace Abacus.Shell

inductive Level where
  | debug
  | info
  | warning
  | error
deriving DecidableEq

namespace Level

def all : List Level := [debug, info, warning, error]

def label : Level → Text
  | debug => "DEBUG".toList
  | info => "INFO".toList
  | warning => "WARNING".toList
  | error => "ERROR".toList

def severity : Level → Nat
  | debug => 10
  | info => 20
  | warning => 30
  | error => 40

def ofLabel? (label : Text) : Option Level := all.find? (·.label = label)

theorem ofLabel?_label (level : Level) : ofLabel? level.label = some level := by
  cases level <;> rfl

end Level

structure Record where
  logger : Text
  level : Level
  message : Text
deriving DecidableEq

/-- A log line, without the time. -/
def Record.text (record : Record) : Text :=
  record.logger ++ " - ".toList ++ record.level.label ++ " - ".toList ++ record.message

inductive Event where
  | asked (prompt : Text)
  | wrote (line : Text)
  | logged (record : Record)
deriving DecidableEq

namespace Event

/-- What an event adds to the standard output. A prompt leaves the cursor behind it. -/
def shown : Event → Text
  | asked prompt => prompt
  | wrote line => line ++ ['\n']
  | logged _ => []

def prompt? : Event → Option Text
  | asked prompt => some prompt
  | _ => none

def line? : Event → Option Text
  | wrote line => some line
  | _ => none

def record? : Event → Option Record
  | logged record => some record
  | _ => none

end Event

abbrev Journal := List Event

namespace Journal

def stdout (journal : Journal) : Text := journal.flatMap Event.shown

/-- The lines written, which may span several lines on the screen. -/
def lines (journal : Journal) : List Text := journal.filterMap Event.line?

def prompts (journal : Journal) : List Text := journal.filterMap Event.prompt?

/-- The log records at or above a level. -/
def log (journal : Journal) (level : Level) : List Record :=
  (journal.filterMap Event.record?).filter fun record => level.severity ≤ record.level.severity

@[simp] theorem stdout_append (a b : Journal) : stdout (a ++ b) = stdout a ++ stdout b := by
  simp [stdout]

@[simp] theorem lines_append (a b : Journal) : lines (a ++ b) = lines a ++ lines b := by
  simp [lines]

@[simp] theorem prompts_append (a b : Journal) : prompts (a ++ b) = prompts a ++ prompts b := by
  simp [prompts]

@[simp] theorem log_append (a b : Journal) (level : Level) :
    log (a ++ b) level = log a level ++ log b level := by
  simp [log]

end Journal

end Abacus.Shell
