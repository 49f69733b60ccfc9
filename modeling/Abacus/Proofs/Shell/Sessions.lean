import Abacus.Proofs.Shell.MissingTokens
import Mathlib.Data.List.DropRight

/-!
# Sessions line by line

A session is the answers to its lines up to the first read that ends it. What a
line adds depends on nothing but the text between its blanks, so no line, failed
or not, changes what is written for another one.
-/

namespace Abacus

theorem Text.strip_strip (text : Text) : text.strip.strip = text.strip := by
  have hstrip (text : Text) : text.strip = (text.dropWhile isBlank).rdropWhile isBlank := rfl
  have hfront : text.strip.dropWhile isBlank = text.strip := by
    rw [List.dropWhile_eq_self_iff]
    intro hpos hblank
    have hprefix : text.strip <+: text.dropWhile isBlank := List.rdropWhile_prefix isBlank _
    have hhead : (text.dropWhile isBlank).head? = some text.strip[0] := by
      rw [List.head?_eq_getElem?]
      exact List.prefix_iff_getElem?.mp hprefix 0 hpos
    have hnot := List.head?_dropWhile_not isBlank text
    rw [hhead] at hnot
    simp [hblank] at hnot
  rw [hstrip text.strip, hfront, hstrip text, List.rdropWhile_idempotent]

namespace Shell

variable {showTokens : Bool}

/-- A session ends with an interrupt and with the exit command. -/
def Read.ends : Read → Bool
  | .line text => isExitCommand text
  | .interrupt => true

/-- What is written for a line that holds `source` between its blanks. -/
def written (showTokens : Bool) (source : Text) : List Text :=
  if source = [] then []
  else (if showTokens then (tokensLine? source).toList else []) ++ [calculate source]

/-- What is written for a read that does not end the session. -/
def Read.written (showTokens : Bool) : Read → List Text
  | .line text => Shell.written showTokens text.strip
  | .interrupt => []

@[simp] theorem lines_asked (prompt : Text) (journal : Journal) :
    Journal.lines (.asked prompt :: journal) = journal.lines := rfl

@[simp] theorem prompts_asked (prompt : Text) (journal : Journal) :
    Journal.prompts (.asked prompt :: journal) = prompt :: journal.prompts := rfl

theorem isExitCommand_strip (text : Text) : isExitCommand text.strip = isExitCommand text := by
  rw [isExitCommand, Text.strip_strip, isExitCommand]

theorem respond_eq_none_iff {text : Text} :
    respond showTokens text = none ↔ isExitCommand text := by
  simp only [respond, isExitCommand_strip]
  split
  next h => simp [h]
  next h => split <;> simp [h]

theorem prompts_block (showTokens : Bool) (source : Text) (outcome : Except Fault Float) :
    (block showTokens source outcome).prompts = [] := by
  simp only [block, Journal.prompts_append]
  cases showTokens with
  | false => simp [Journal.prompts, Event.prompt?]
  | true => simp [Journal.prompts, Event.prompt?]

theorem of_respond {text : Text} {shown : Journal} (h : respond showTokens text = some shown) :
    shown.prompts = [] ∧ shown.lines = written showTokens text.strip := by
  unfold respond at h
  dsimp only at h
  split at h
  · cases h
  · unfold written
    split at h
    next hblank =>
      obtain rfl := Option.some.inj h
      rw [if_pos hblank]
      exact ⟨rfl, rfl⟩
    next hblank =>
      obtain rfl := Option.some.inj h
      rw [if_neg hblank, lines_block]
      exact ⟨prompts_block _ _ _, rfl⟩

theorem session_ends {read : Read} (h : read.ends) (prompt : Text) (rest : List Read) :
    session prompt showTokens (read :: rest) = ([.asked prompt], rest) := by
  cases read with
  | interrupt => rfl
  | line text => rw [session, respond_eq_none_iff.mpr h]

theorem session_line {read : Read} (h : read.ends = false) (prompt : Text) (rest : List Read) :
    ∃ shown : Journal, shown.prompts = [] ∧ shown.lines = read.written showTokens ∧
      session prompt showTokens (read :: rest) =
        (.asked prompt :: shown ++ (session prompt showTokens rest).1,
          (session prompt showTokens rest).2) := by
  cases read with
  | interrupt => cases h
  | line text =>
    cases hrespond : respond showTokens text with
    | none =>
      rw [Read.ends, respond_eq_none_iff.mp hrespond] at h
      cases h
    | some shown =>
      obtain ⟨hprompts, hlines⟩ := of_respond hrespond
      refine ⟨shown, hprompts, hlines, ?_⟩
      rw [session, hrespond]

/-- A session writes what each of its lines up to the first end asks for, one after the other, and
leaves what is behind that end unread. There is one more prompt than there are such lines. -/
theorem session_eq_lines (prompt : Text) (showTokens : Bool) (reads : List Read) :
    let first := reads.findIdx Read.ends
    (session prompt showTokens reads).1.lines =
        (reads.take first).flatMap (Read.written showTokens) ∧
      (session prompt showTokens reads).1.prompts = List.replicate (first + 1) prompt ∧
      (session prompt showTokens reads).2 = reads.drop (first + 1) := by
  induction reads with
  | nil => exact ⟨rfl, rfl, rfl⟩
  | cons read rest ih =>
    cases hends : read.ends with
    | true =>
      rw [session_ends hends, List.findIdx_cons, hends]
      exact ⟨rfl, rfl, rfl⟩
    | false =>
      obtain ⟨shown, hprompts, hlines, hsession⟩ := @session_line showTokens read hends prompt rest
      obtain ⟨hlater, hlaterPrompts, hunread⟩ := ih
      rw [hsession, List.findIdx_cons, hends]
      refine ⟨?_, ?_, hunread⟩
      · simp only [List.cons_append, lines_asked, Journal.lines_append, hlines, hlater]
        rfl
      · simp only [List.cons_append, prompts_asked, Journal.prompts_append, hprompts, hlaterPrompts]
        rfl

end Shell

end Abacus
