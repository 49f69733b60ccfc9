import Abacus.Shell.Journal

/-!
# Settings from the command line

A command line is a sequence of items: options with or without a value, and
expressions, which are all other arguments even if they start with a dash. The
separator `--` makes expressions of all arguments behind it.

The calls for help are left out: `-h`, `--help` and what begins with `-h` or with
`--help=` are read here like any other arguments, as expressions, or as the value
of an option if there is a space in them, where the program shows its usage or
refuses them.
-/

namespace Abacus.Shell

inductive Item where
  | tokens
  | prompt (value : Text)
  | level (value : Level)
  | expression (source : Text)
deriving DecidableEq

namespace Item

def tokensOption : Text := "--tokens".toList

def promptOption : Text := "--prompt".toList

def levelOption : Text := "--log-level".toList

def separator : Text := "--".toList

/-- The value of `option` where both are one argument, `option=value`. -/
def attached? (option argument : Text) : Option Text :=
  if (option ++ ['=']).isPrefixOf argument then some (argument.drop (option.length + 1)) else none

/-- A dash and a number with digits behind its point, if it has one. A line feed may follow. -/
def isNegativeNumber : Text → Bool
  | '-' :: rest =>
    let number := if rest.getLast? = some '\n' then rest.dropLast else rest
    match number.dropWhile Text.isDecimalDigit with
    | [] => number ≠ []
    | '.' :: fraction => fraction ≠ [] && fraction.all Text.isDecimalDigit
    | _ => false
  | _ => false

/-- Tells the arguments that are not taken as the value of an option in front of them, calls for
help aside. -/
def looksLikeOption (argument : Text) : Bool :=
  [tokensOption, promptOption, levelOption].any (fun option => (attached? option argument).isSome)
    || (argument.head? = some '-' && 1 < argument.length && !argument.contains ' '
      && !isNegativeNumber argument)

/-- The items of a command line without a call for help, unless it has an option with a value that
is missing, wrong or not wanted. -/
def ofArguments? : List Text → Option (List Item)
  | [] => some []
  | argument :: rest =>
    if argument = separator then some (rest.map expression)
    else if argument = tokensOption then (ofArguments? rest).map (tokens :: ·)
    else if argument = promptOption then
      match rest with
      | [] => none
      | value :: rest =>
        if looksLikeOption value then none else (ofArguments? rest).map (prompt value :: ·)
    else if argument = levelOption then
      match rest with
      | [] => none
      | value :: rest =>
        match Level.ofLabel? value with
        | some value => (ofArguments? rest).map (level value :: ·)
        | none => none
    else if (attached? tokensOption argument).isSome then none
    else
      match attached? promptOption argument, attached? levelOption argument with
      | some value, _ => (ofArguments? rest).map (prompt value :: ·)
      | none, some value =>
        match Level.ofLabel? value with
        | some value => (ofArguments? rest).map (level value :: ·)
        | none => none
      | none, none => (ofArguments? rest).map (expression argument :: ·)

end Item

structure Settings where
  prompt : Text
  showTokens : Bool
  level : Level
  expressions : List Text
deriving DecidableEq

namespace Settings

def default : Settings where
  prompt := ">> ".toList
  showTokens := false
  level := .warning
  expressions := []

/-- Of two items for one setting the later one counts. -/
def add (settings : Settings) : Item → Settings
  | .tokens => { settings with showTokens := true }
  | .prompt value => { settings with prompt := value }
  | .level value => { settings with level := value }
  | .expression source => { settings with expressions := settings.expressions ++ [source] }

def ofItems (items : List Item) : Settings := items.foldl add default

/-- The settings that a command line spells. -/
def ofArguments? (arguments : List Text) : Option Settings :=
  (Item.ofArguments? arguments).map ofItems

end Settings

end Abacus.Shell
