import Abacus.Shell.Settings

/-!
# How command lines are read

An accepted command line falls into the arguments of one item after the other.
What an item is does not depend on what follows it, so the command line can be
continued, and behind the separator it is continued with expressions.
-/

namespace Abacus.Shell

namespace Item

section Names

theorem separator_eq : separator = ['-', '-'] := rfl

theorem tokensOption_eq : tokensOption = ['-', '-', 't', 'o', 'k', 'e', 'n', 's'] := rfl

theorem promptOption_eq : promptOption = ['-', '-', 'p', 'r', 'o', 'm', 'p', 't'] := rfl

theorem levelOption_eq :
    levelOption = ['-', '-', 'l', 'o', 'g', '-', 'l', 'e', 'v', 'e', 'l'] := rfl

/-- The options whose value is another argument, or the same one. -/
inductive TakesValue : Text → Prop
  | prompt : TakesValue promptOption
  | level : TakesValue levelOption

variable {option value argument : Text}

theorem TakesValue.ne_separator (h : TakesValue option) : option ≠ separator := by
  cases h <;> simp [promptOption_eq, levelOption_eq, separator_eq]

theorem TakesValue.ne_tokensOption (h : TakesValue option) : option ≠ tokensOption := by
  cases h <;> simp [promptOption_eq, levelOption_eq, tokensOption_eq]

theorem levelOption_ne_promptOption : levelOption ≠ promptOption := by
  simp [promptOption_eq, levelOption_eq]

theorem TakesValue.attached_not_mem (h : TakesValue option) (value : Text) :
    option ++ '=' :: value ∉ [separator, tokensOption, promptOption, levelOption] := by
  cases h <;> simp [promptOption_eq, levelOption_eq, separator_eq, tokensOption_eq]

theorem attached?_append (option value : Text) :
    attached? option (option ++ '=' :: value) = some value := by
  have hstart : (option ++ ['=']) <+: option ++ '=' :: value := ⟨value, by simp⟩
  simp [attached?, List.isPrefixOf_iff_prefix.mpr hstart]

theorem eq_of_attached? (h : attached? option argument = some value) :
    argument = option ++ '=' :: value := by
  unfold attached? at h
  split at h
  next hstart =>
    obtain ⟨rest, rfl⟩ := List.isPrefixOf_iff_prefix.mp hstart
    simp_all
  next => cases h

theorem TakesValue.attached?_tokensOption (h : TakesValue option) (value : Text) :
    attached? tokensOption (option ++ '=' :: value) = none := by
  cases h <;> rfl

end Names

/-- The arguments that make up an item. -/
inductive Spelled : List Text → Item → Prop
  | tokens : Spelled [tokensOption] .tokens
  | prompt {value} : looksLikeOption value = false → Spelled [promptOption, value] (.prompt value)
  | level {label value} : Level.ofLabel? label = some value →
      Spelled [levelOption, label] (.level value)
  | attachedPrompt {value} : Spelled [promptOption ++ '=' :: value] (.prompt value)
  | attachedLevel {label value} : Level.ofLabel? label = some value →
      Spelled [levelOption ++ '=' :: label] (.level value)
  | expression {source} : source ∉ [separator, tokensOption, promptOption, levelOption] →
      (∀ option ∈ [tokensOption, promptOption, levelOption], attached? option source = none) →
      Spelled [source] (.expression source)

theorem ofArguments?_separator (sources : List Text) :
    ofArguments? (separator :: sources) = some (sources.map expression) := by
  rw [ofArguments?.eq_def]
  simp only [↓reduceIte]

theorem ofArguments?_cons {argument : Text}
    (h : argument ∉ [separator, tokensOption, promptOption, levelOption])
    (htokens : attached? tokensOption argument = none) (rest : List Text) :
    ofArguments? (argument :: rest) =
      match attached? promptOption argument, attached? levelOption argument with
      | some value, _ => (ofArguments? rest).map (prompt value :: ·)
      | none, some label =>
        match Level.ofLabel? label with
        | some value => (ofArguments? rest).map (level value :: ·)
        | none => none
      | none, none => (ofArguments? rest).map (expression argument :: ·) := by
  simp only [List.mem_cons, List.not_mem_nil, or_false, not_or] at h
  obtain ⟨hseparator, htokensOption, hprompt, hlevel⟩ := h
  have hread := ofArguments?.eq_def (argument :: rest)
  simp only [hseparator, htokensOption, hprompt, hlevel, htokens, ↓reduceIte, Option.isSome_none,
    Bool.false_eq_true] at hread
  exact hread

/-- An item is read, whatever follows it. -/
theorem Spelled.ofArguments?_append {arguments : List Text} {item : Item}
    (h : Spelled arguments item) (rest : List Text) :
    ofArguments? (arguments ++ rest) = (ofArguments? rest).map (item :: ·) := by
  cases h with
  | tokens =>
    have hseparator : tokensOption ≠ separator := by simp [tokensOption_eq, separator_eq]
    rw [List.singleton_append, ofArguments?.eq_def]
    simp only [hseparator, ↓reduceIte]
  | prompt hvalue =>
    rw [List.cons_append, List.singleton_append, ofArguments?.eq_def]
    simp only [TakesValue.prompt.ne_separator, TakesValue.prompt.ne_tokensOption, hvalue,
      ↓reduceIte, Bool.false_eq_true]
  | level hlevel =>
    rw [List.cons_append, List.singleton_append, ofArguments?.eq_def]
    simp only [TakesValue.level.ne_separator, TakesValue.level.ne_tokensOption,
      levelOption_ne_promptOption, hlevel, ↓reduceIte]
  | @attachedPrompt value =>
    rw [List.singleton_append, ofArguments?_cons (TakesValue.prompt.attached_not_mem value)
      (TakesValue.prompt.attached?_tokensOption value), attached?_append]
  | @attachedLevel label value hlevel =>
    have hprompt : attached? promptOption (levelOption ++ '=' :: label) = none := rfl
    rw [List.singleton_append, ofArguments?_cons (TakesValue.level.attached_not_mem label)
      (TakesValue.level.attached?_tokensOption label), attached?_append, hprompt]
    simp only [hlevel]
  | @expression source hother hattached =>
    rw [List.singleton_append, ofArguments?_cons hother (hattached _ (by simp)),
      hattached promptOption (by simp), hattached levelOption (by simp)]

/-- The arguments of some items, one after the other. -/
inductive SpelledAll : List Text → List Item → Prop
  | nil : SpelledAll [] []
  | cons {arguments item rest items} : Spelled arguments item → SpelledAll rest items →
      SpelledAll (arguments ++ rest) (item :: items)

theorem SpelledAll.ofArguments?_append {arguments : List Text} {items : List Item}
    (h : SpelledAll arguments items) (rest : List Text) :
    ofArguments? (arguments ++ rest) = (ofArguments? rest).map (items ++ ·) := by
  induction h with
  | nil => simp
  | cons hitem _ ih =>
    rw [List.append_assoc, hitem.ofArguments?_append, ih, Option.map_map]
    rfl

theorem Spelled.ne_nil {arguments : List Text} {item : Item} (h : Spelled arguments item) :
    arguments ≠ [] := by
  cases h <;> simp

/-- An item comes first in a command line, and some items are read behind it. -/
def Starts (arguments : List Text) (items : List Item) : Prop :=
  ∃ spelled item past later, arguments = spelled ++ past ∧ items = item :: later ∧
    Spelled spelled item ∧ ofArguments? past = some later

theorem Starts.of_map {spelled past : List Text} {item : Item} {items : List Item}
    (hitem : Spelled spelled item) (hpast : (ofArguments? past).map (item :: ·) = some items) :
    Starts (spelled ++ past) items := by
  obtain ⟨later, hlater, rfl⟩ := Option.map_eq_some_iff.mp hpast
  exact ⟨spelled, item, past, later, rfl, rfl, hitem, hlater⟩

theorem Starts.of_ofArguments? {argument : Text} {rest : List Text} {items : List Item}
    (h : ofArguments? (argument :: rest) = some items) (hseparator : argument ≠ separator) :
    Starts (argument :: rest) items := by
  by_cases htokens : argument = tokensOption
  · subst htokens
    exact .of_map .tokens (h ▸ (Spelled.tokens.ofArguments?_append rest).symm)
  by_cases hprompt : argument = promptOption
  · subst hprompt
    rw [ofArguments?.eq_def] at h
    simp only [hseparator, htokens, ↓reduceIte] at h
    match rest with
    | [] => cases h
    | value :: rest =>
      dsimp only at h
      split at h
      next => cases h
      next hvalue => exact .of_map (.prompt (Bool.eq_false_iff.mpr hvalue)) h
  by_cases hlevel : argument = levelOption
  · subst hlevel
    rw [ofArguments?.eq_def] at h
    simp only [hseparator, htokens, hprompt, ↓reduceIte] at h
    match rest with
    | [] => cases h
    | label :: rest =>
      dsimp only at h
      split at h
      next value hvalue => exact .of_map (.level hvalue) h
      next => cases h
  -- no option by itself, so it counts what is attached to one
  have hother : argument ∉ [separator, tokensOption, promptOption, levelOption] := by
    simp [hseparator, htokens, hprompt, hlevel]
  cases hattached : attached? tokensOption argument with
  | some value =>
    rw [ofArguments?.eq_def] at h
    simp [hseparator, htokens, hprompt, hlevel, hattached] at h
  | none =>
    rw [ofArguments?_cons hother hattached] at h
    split at h
    next value _ hvalue =>
      rw [eq_of_attached? hvalue]
      exact .of_map .attachedPrompt h
    next label _ hlabel =>
      rw [eq_of_attached? hlabel]
      split at h
      next value hvalue => exact .of_map (.attachedLevel hvalue) h
      next => cases h
    next hpromptNone hlevelNone =>
      refine .of_map (.expression hother ?_) h
      simp [hattached, hpromptNone, hlevelNone]

/-- In front of a separator, an accepted command line is all items. -/
theorem SpelledAll.of_ofArguments? {arguments : List Text} {items : List Item}
    (h : ofArguments? arguments = some items) (hseparator : separator ∉ arguments) :
    SpelledAll arguments items := by
  match arguments with
  | [] =>
    cases h
    exact .nil
  | argument :: rest =>
    have hne : argument ≠ separator := by
      rintro rfl
      exact hseparator List.mem_cons_self
    obtain ⟨spelled, item, past, later, heq, rfl, hitem, hpast⟩ := Starts.of_ofArguments? h hne
    have hshorter : past.length < (argument :: rest).length := by
      rw [heq, List.length_append]
      exact Nat.lt_add_of_pos_left (List.length_pos_iff.mpr hitem.ne_nil)
    rw [heq] at hseparator ⊢
    exact .cons hitem (of_ofArguments? hpast fun hmem => hseparator (List.mem_append_right _ hmem))
termination_by arguments.length
decreasing_by exact hshorter

end Item

namespace Settings

theorem foldl_add_expressions (settings : Settings) (sources : List Text) :
    (sources.map Item.expression).foldl add settings =
      { settings with expressions := settings.expressions ++ sources } := by
  induction sources generalizing settings with
  | nil => simp
  | cons source sources ih => simp [ih, add]

/-- All arguments behind the separator are expressions, whatever they look like. -/
theorem ofArguments?_append_separator {options : List Text} {settings : Settings}
    (h : ofArguments? options = some settings) (hseparator : Item.separator ∉ options)
    (sources : List Text) :
    ofArguments? (options ++ Item.separator :: sources) =
      some { settings with expressions := settings.expressions ++ sources } := by
  obtain ⟨items, hitems, rfl⟩ := Option.map_eq_some_iff.mp h
  have hspelled := Item.SpelledAll.of_ofArguments? hitems hseparator
  rw [ofArguments?, hspelled.ofArguments?_append, Item.ofArguments?_separator]
  simp only [Option.map_some, ofItems, List.foldl_append, foldl_add_expressions]

end Settings

end Abacus.Shell
