import Abacus.Proofs.Shell.Arguments

/-!
# Command lines read back

Items can be worded in any order, options in one argument or in two. A command
line made of such wordings is read back as the settings that it spells out,
although the same argument may be an option in one place, the value of one in
another and an expression in a third.
-/

namespace Abacus.Shell

namespace Item

/-- A dash in front of a whole number or of one with digits behind its point. -/
inductive NegativeNumber : Text → Prop
  | whole {digits} : digits ≠ [] → digits.all Text.isDecimalDigit → NegativeNumber ('-' :: digits)
  | fraction {digits decimals} : digits.all Text.isDecimalDigit → decimals ≠ [] →
      decimals.all Text.isDecimalDigit → NegativeNumber ('-' :: (digits ++ '.' :: decimals))

/-- The texts that an option in front of them takes as its value, as they are nothing else. -/
def IsValue (text : Text) : Prop :=
  text.head? ≠ some '-' ∨ text = ['-'] ∨ NegativeNumber text

/-- The texts that are expressions where no value is wanted. What starts like a call for help is
none, and what is attached to the name of an option belongs to the option. -/
structure IsSource (text : Text) : Prop where
  not_name : text ∉ [separator, tokensOption, promptOption, levelOption]
  not_help : ¬ "-h".toList <+: text ∧ ¬ "--h".toList <+: text
  not_attached : ∀ option ∈ [tokensOption, promptOption, levelOption], ¬ option ++ ['='] <+: text

section Values

variable {text : Text}

theorem NegativeNumber.exists_eq (h : NegativeNumber text) :
    ∃ number, text = '-' :: number ∧ ∀ c ∈ number, Text.isDecimalDigit c ∨ c = '.' := by
  cases h with
  | @whole digits _ hdigits =>
    exact ⟨digits, rfl, fun c hc => .inl (List.all_eq_true.mp hdigits c hc)⟩
  | @fraction digits decimals hdigits _ hdecimals =>
    refine ⟨digits ++ '.' :: decimals, rfl, fun c hc => ?_⟩
    rcases List.mem_append.mp hc with hdigit | hrest
    · exact .inl (List.all_eq_true.mp hdigits c hdigit)
    · rcases List.mem_cons.mp hrest with hpoint | hdecimal
      · exact .inr hpoint
      · exact .inl (List.all_eq_true.mp hdecimals c hdecimal)

theorem isNegativeNumber_cons {number : Text} (h : number.getLast? ≠ some '\n') :
    isNegativeNumber ('-' :: number) =
      match number.dropWhile Text.isDecimalDigit with
      | [] => decide (number ≠ [])
      | '.' :: fraction => fraction ≠ [] && fraction.all Text.isDecimalDigit
      | _ => false := by
  have hnumber : (if number.getLast? = some '\n' then number.dropLast else number) = number :=
    if_neg h
  exact congrArg
    (fun text : Text =>
      match text.dropWhile Text.isDecimalDigit with
      | [] => decide (text ≠ [])
      | '.' :: fraction => fraction ≠ [] && fraction.all Text.isDecimalDigit
      | _ => false)
    hnumber

theorem NegativeNumber.isNegativeNumber (h : NegativeNumber text) : isNegativeNumber text := by
  obtain ⟨number, rfl, hchars⟩ := h.exists_eq
  have hlast : number.getLast? ≠ some '\n' := by
    intro hlast
    have hnewline := hchars _ (List.mem_of_getLast? hlast)
    revert hnewline
    decide
  rw [isNegativeNumber_cons hlast]
  cases h with
  | whole hne hdigits =>
    have hdrop : number.dropWhile Text.isDecimalDigit = [] := by
      rw [← List.append_nil number, List.dropWhile_append_of_pos (List.all_eq_true.mp hdigits),
        List.dropWhile_nil]
    simp [hdrop, hne]
  | @fraction digits decimals hdigits hne hdecimals =>
    have hdrop : (digits ++ '.' :: decimals).dropWhile Text.isDecimalDigit = '.' :: decimals := by
      rw [List.dropWhile_append_of_pos (List.all_eq_true.mp hdigits)]
      rfl
    simp [hdrop, hne, hdecimals]

theorem attached?_eq_none_iff {option : Text} :
    attached? option text = none ↔ ¬ option ++ ['='] <+: text := by
  simp [attached?, List.isPrefixOf_iff_prefix]

theorem attached?_eq_none (h : ¬ separator <+: text) :
    ∀ option ∈ [tokensOption, promptOption, levelOption], attached? option text = none := by
  intro option hoption
  rw [attached?_eq_none_iff]
  intro hattached
  have hdashes : separator <+: option := by
    simp only [List.mem_cons, List.not_mem_nil, or_false] at hoption
    rcases hoption with rfl | rfl | rfl <;> decide
  exact h ((hdashes.trans (List.prefix_append option ['='])).trans hattached)

theorem IsValue.not_separator_prefix (h : IsValue text) : ¬ separator <+: text := by
  rintro ⟨rest, rfl⟩
  rcases h with hhead | hdash | hnumber
  · exact hhead rfl
  · simp [separator_eq] at hdash
  · obtain ⟨number, hnumber, hchars⟩ := hnumber.exists_eq
    obtain rfl : '-' :: rest = number := (List.cons.inj hnumber).2
    have hdash := hchars '-' List.mem_cons_self
    revert hdash
    decide

theorem IsValue.looksLikeOption_eq_false (h : IsValue text) : looksLikeOption text = false := by
  have hattached := attached?_eq_none h.not_separator_prefix
  have hnone : [tokensOption, promptOption, levelOption].any
      (fun option => (attached? option text).isSome) = false := by
    rw [List.any_eq_false]
    intro option hoption
    simp [hattached option hoption]
  rw [looksLikeOption, hnone, Bool.false_or]
  rcases h with hhead | rfl | hnumber
  · simp [hhead]
  · rfl
  · simp [hnumber.isNegativeNumber]

end Values

def source? : Item → Option Text
  | expression source => some source
  | _ => none

def prompt? : Item → Option Text
  | prompt value => some value
  | _ => none

def level? : Item → Option Level
  | level value => some value
  | _ => none

end Item

/-- An item in one of the ways to put it on a command line. -/
inductive Wording where
  | tokens
  | prompt (value : Text)
  | attachedPrompt (value : Text)
  | level (value : Level)
  | attachedLevel (value : Level)
  | expression (source : Text)
deriving DecidableEq

namespace Wording

open Item

def item : Wording → Item
  | tokens => .tokens
  | prompt value | attachedPrompt value => .prompt value
  | level value | attachedLevel value => .level value
  | expression source => .expression source

def arguments : Wording → List Text
  | tokens => [tokensOption]
  | prompt value => [promptOption, value]
  | attachedPrompt value => [promptOption ++ '=' :: value]
  | level value => [levelOption, value.label]
  | attachedLevel value => [levelOption ++ '=' :: value.label]
  | expression source => [source]

/-- The texts in a wording stand where nothing else can be meant by them. -/
def IsClear : Wording → Prop
  | prompt value => IsValue value
  | expression source => IsSource source
  | _ => True

theorem IsClear.spelled {wording : Wording} (h : wording.IsClear) :
    Spelled wording.arguments wording.item := by
  cases wording with
  | tokens => exact .tokens
  | prompt value => exact .prompt (IsValue.looksLikeOption_eq_false h)
  | attachedPrompt value => exact .attachedPrompt
  | level value => exact .level value.ofLabel?_label
  | attachedLevel value => exact .attachedLevel value.ofLabel?_label
  | expression source =>
    exact .expression h.not_name fun option hoption =>
      attached?_eq_none_iff.mpr (h.not_attached option hoption)

theorem spelledAll {wordings : List Wording} (h : ∀ wording ∈ wordings, wording.IsClear) :
    SpelledAll (wordings.flatMap arguments) (wordings.map item) := by
  induction wordings with
  | nil => exact .nil
  | cons wording wordings ih =>
    rw [List.flatMap_cons, List.map_cons]
    exact .cons (h wording List.mem_cons_self).spelled
      (ih fun other hmem => h other (List.mem_cons_of_mem _ hmem))

end Wording

namespace Settings

/-- A setting that items overwrite is that of the last item for it. -/
theorem foldl_add_last {α : Type} (field : Settings → α) (new? : Item → Option α)
    (h : ∀ settings item, field (settings.add item) = (new? item).getD (field settings))
    (settings : Settings) (items : List Item) :
    field (items.foldl add settings) = (items.filterMap new?).getLast?.getD (field settings) := by
  induction items generalizing settings with
  | nil => rfl
  | cons item items ih =>
    rw [List.foldl_cons, ih, h, List.filterMap_cons]
    cases new? item with
    | none => rfl
    | some value => simp [List.getLast?_cons]

theorem foldl_add_sources (settings : Settings) (items : List Item) :
    (items.foldl add settings).expressions =
      settings.expressions ++ items.filterMap Item.source? := by
  induction items generalizing settings with
  | nil => simp
  | cons item items ih =>
    rw [List.foldl_cons, ih, List.filterMap_cons]
    cases item <;> simp [add, Item.source?]

theorem foldl_add_showTokens (settings : Settings) (items : List Item) :
    (items.foldl add settings).showTokens = (settings.showTokens || items.contains .tokens) := by
  induction items generalizing settings with
  | nil => simp
  | cons item items ih =>
    rw [List.foldl_cons, ih]
    cases item <;> simp [add]

theorem prompt_ofItems (items : List Item) :
    (ofItems items).prompt = (items.filterMap Item.prompt?).getLast?.getD ">> ".toList := by
  refine foldl_add_last Settings.prompt Item.prompt? (fun settings item => ?_) default items
  cases item <;> rfl

theorem expressions_ofItems (items : List Item) :
    (ofItems items).expressions = items.filterMap Item.source? :=
  foldl_add_sources default items

theorem ofArguments?_behind (behind : Option (List Text)) :
    Item.ofArguments? (behind.elim [] (Item.separator :: ·)) =
      some ((behind.getD []).map Item.expression) := by
  cases behind with
  | none => rw [Option.elim, Item.ofArguments?.eq_def]; rfl
  | some sources => exact Item.ofArguments?_separator sources

/-- Whatever is worded on a command line is read back from it. Behind a separator there may be any
arguments, and all of them are expressions. -/
theorem ofArguments?_wordings {wordings : List Wording}
    (h : ∀ wording ∈ wordings, wording.IsClear) (behind : Option (List Text)) :
    let items := wordings.map Wording.item
    ∃ settings,
      ofArguments? (wordings.flatMap Wording.arguments ++ behind.elim [] (Item.separator :: ·)) =
        some settings ∧
      settings.expressions = items.filterMap Item.source? ++ behind.getD [] ∧
      (settings.showTokens ↔ .tokens ∈ items) ∧
      settings.prompt = (items.filterMap Item.prompt?).getLast?.getD ">> ".toList ∧
      settings.level = (items.filterMap Item.level?).getLast?.getD .warning := by
  intro items
  have hread : ofArguments?
      (wordings.flatMap Wording.arguments ++ behind.elim [] (Item.separator :: ·)) =
        some { ofItems items with
          expressions := (ofItems items).expressions ++ behind.getD [] } := by
    rw [ofArguments?, (Wording.spelledAll h).ofArguments?_append, ofArguments?_behind]
    simp only [Option.map_some, ofItems, List.foldl_append, foldl_add_expressions, items]
  refine ⟨_, hread, ?_, ?_, ?_, ?_⟩
  · change (ofItems items).expressions ++ _ = _
    rw [ofItems, foldl_add_sources]
    rfl
  · change (ofItems items).showTokens = true ↔ _
    rw [ofItems, foldl_add_showTokens]
    simp [default]
  · refine foldl_add_last Settings.prompt Item.prompt? (fun settings item => ?_) default items
    cases item <;> rfl
  · refine foldl_add_last Settings.level Item.level? (fun settings item => ?_) default items
    cases item <;> rfl

theorem wordings_of_dashes :
    let wordings : List Wording :=
      [.expression "--5".toList, .prompt "-.5".toList, .level .debug, .expression [],
        .attachedPrompt "--tokens".toList, .tokens, .expression "-(3+4)".toList]
    let behind : List Text := ["1".toList, "--".toList, "--tokens".toList]
    ∃ settings,
      ofArguments? (wordings.flatMap Wording.arguments ++ Item.separator :: behind) =
        some settings ∧
      settings.prompt = "--tokens".toList ∧ settings.showTokens ∧ settings.level = .debug ∧
      settings.expressions = ["--5".toList, [], "-(3+4)".toList] ++ behind := by
  intro wordings behind
  have hnumber : Item.NegativeNumber "-.5".toList :=
    @Item.NegativeNumber.fraction [] ['5'] rfl (by decide) (by decide)
  have hclear : ∀ wording ∈ wordings, wording.IsClear := by
    simp only [wordings, List.forall_mem_cons]
    refine ⟨⟨?_, ?_, ?_⟩, .inr (.inr hnumber), trivial, ⟨?_, ?_, ?_⟩, trivial, trivial,
      ⟨?_, ?_, ?_⟩, by simp⟩ <;> decide
  obtain ⟨settings, hread, hexpressions, htokens, hprompt, hlevel⟩ :=
    ofArguments?_wordings hclear (some behind)
  exact ⟨settings, hread, hprompt, htokens.mpr (by decide), hlevel, hexpressions⟩

end Settings

end Abacus.Shell
