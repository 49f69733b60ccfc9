import Abacus.Proofs.Reader.Steps
import Abacus.Proofs.Token.Advance

/-!
# Readers in use

A reader can be used on after any fault, and by any of its actions. Whatever is
asked of it, the token ahead stays a part of the source with the cursor behind
it, nothing moves back, and the end of the source is final. A bracket that a
fault has left open is never closed again.

Between the brackets of a factor the count of open ones is higher than before
it. So what is kept is told of whole actions: the count is as it was behind an
action that yields a value, and no lower behind one that fails.
-/

namespace Abacus.Reader

/-- The token ahead is a part of the source, and the cursor stands behind it. -/
structure At (source : Text) (reader : Reader) : Prop where
  on : reader.cursor.On source
  lexeme_at : reader.ahead.lexeme <+: source.drop reader.ahead.position
  end_le : reader.ahead.position + reader.ahead.lexeme.length ≤ reader.cursor.position
  spelled : reader.ahead.kind ≠ .exprEnd → reader.ahead.Spelled
  at_end : reader.ahead.kind = .exprEnd →
    reader.ahead = .atEnd source.length ∧ reader.cursor.position = source.length

/-- Where a use of the reader may leave it. -/
structure Moves (source : Text) (reader past : Reader) : Prop where
  stands : At source past
  cursor_le : reader.cursor.position ≤ past.cursor.position
  ahead_le : reader.ahead.position ≤ past.ahead.position
  eq_of_end : reader.ahead.kind = .exprEnd → past = reader

/-- `yields` holds of the reader behind an action with a value, `fails` of that behind a fault. -/
def Leaves {α : Type} (yields fails : Reader → Prop) : EStateM.Result Fault Reader α → Prop
  | .ok _ past => yields past
  | .error _ past => fails past

/-- The action moves a reader on. It leaves no bracket open, unless it fails. -/
def Keeps {α : Type} (source : Text) (action : Reading α) : Prop :=
  ∀ reader, At source reader →
    Leaves (fun past => Moves source reader past ∧ past.opened = reader.opened)
      (fun past => Moves source reader past ∧ reader.opened ≤ past.opened) (action reader)

variable {α β : Type} {source : Text} {reader past next : Reader} {frames : Nat}

theorem At.of_passes {cursor past : Cursor} {token : Token}
    (h : Cursor.Passes source cursor token past) (opened : Nat) :
    At source ⟨past, token, opened⟩ where
  on := h.on
  lexeme_at := h.lexeme_at
  end_le := Nat.le_of_eq h.position_eq.symm
  spelled hend := by
    rcases h.kind with hlast | hspelled
    · rw [hlast] at hend
      exact absurd rfl hend
    · exact hspelled
  at_end hend := by
    rcases h.kind with rfl | hspelled
    · exact ⟨rfl, h.position_eq⟩
    · exact absurd hend hspelled.kind_ne

theorem At.of_start {cursor : Cursor} (h : start (.start source) = .ok reader cursor) :
    At source reader := by
  cases hnext : (Cursor.start source).next with
  | error fault past => simp [start, bind, EStateM.bind, hnext] at h
  | ok token past =>
    simp only [start, bind, EStateM.bind, hnext] at h
    cases h
    exact .of_passes ((Cursor.on_start source).passes hnext) 0

theorem At.next_of_end (h : At source reader) (hend : reader.ahead.kind = .exprEnd) :
    reader.cursor.next = .ok reader.ahead reader.cursor := by
  obtain ⟨hahead, hposition⟩ := h.at_end hend
  have hrest : reader.cursor.rest = [] := by
    rw [h.on.rest_eq, hposition]
    exact List.drop_length
  have hcursor : reader.cursor = ⟨source.length, []⟩ := by rw [← hposition, ← hrest]
  rw [hcursor, hahead, Cursor.next_nil]
  rfl

theorem At.recount (h : At source reader) (opened : Nat) :
    At source { reader with opened := opened } :=
  ⟨h.on, h.lexeme_at, h.end_le, h.spelled, h.at_end⟩

theorem Moves.refl (h : At source reader) : Moves source reader reader :=
  ⟨h, Nat.le_refl _, Nat.le_refl _, fun _ => rfl⟩

theorem Moves.trans (h : Moves source reader past) (hnext : Moves source past next) :
    Moves source reader next := by
  refine ⟨hnext.stands, Nat.le_trans h.cursor_le hnext.cursor_le,
    Nat.le_trans h.ahead_le hnext.ahead_le, fun hend => ?_⟩
  have heq := h.eq_of_end hend
  rw [← heq] at hend
  exact (hnext.eq_of_end hend).trans heq

theorem Moves.recount (h : Moves source reader past) (hend : reader.ahead.kind ≠ .exprEnd)
    (opened others : Nat) :
    Moves source { reader with opened := opened } { past with opened := others } :=
  ⟨h.stands.recount others, h.cursor_le, h.ahead_le, fun hkind => absurd hkind hend⟩

theorem Leaves.imp {yields fails yields' fails' : Reader → Prop}
    {result : EStateM.Result Fault Reader α} (h : Leaves yields fails result)
    (hyields : ∀ past, yields past → yields' past) (hfails : ∀ past, fails past → fails' past) :
    Leaves yields' fails' result := by
  cases result with
  | ok value past => exact hyields past h
  | error fault past => exact hfails past h

theorem Leaves.bind {yields fails between : Reader → Prop} {first : Reading α}
    {next : α → Reading β} (hfirst : Leaves between fails (first reader))
    (hnext : ∀ value past, between past → Leaves yields fails (next value past)) :
    Leaves yields fails ((first >>= next) reader) := by
  cases hresult : first reader with
  | ok value past =>
    rw [hresult] at hfirst
    rw [bind_of_ok hresult]
    exact hnext value past hfirst
  | error fault past =>
    rw [hresult] at hfirst
    rw [bind_of_error hresult]
    exact hfirst

namespace Keeps

theorem pure (value : α) : Keeps source (Pure.pure value : Reading α) :=
  fun _ h => ⟨.refl h, rfl⟩

theorem throw (fault : Fault) : Keeps source (throw fault : Reading α) :=
  fun _ h => ⟨.refl h, Nat.le_refl _⟩

theorem ofExcept (result : Except Fault α) : Keeps source (ofExcept result : Reading α) := by
  cases result with
  | ok value => exact pure value
  | error fault => exact throw fault

theorem bind {first : Reading α} {next : α → Reading β} (hfirst : Keeps source first)
    (hnext : ∀ value, Keeps source (next value)) : Keeps source (first >>= next) := by
  intro reader h
  refine (hfirst reader h).bind ?_
  rintro value past ⟨hmoves, hopened⟩
  rw [← hopened]
  refine (hnext value past hmoves.stands).imp ?_ ?_
  · rintro last ⟨hlast, heq⟩
    exact ⟨hmoves.trans hlast, heq⟩
  · rintro last ⟨hlast, hle⟩
    exact ⟨hmoves.trans hlast, hle⟩

theorem map {action : Reading α} (f : α → β) (h : Keeps source action) :
    Keeps source (f <$> action) := by
  rw [map_eq_pure_bind]
  exact h.bind fun value => pure (f value)

theorem of_choice {action : Reading α}
    (h : ∀ reader, ∃ chosen, Keeps source chosen ∧ action reader = chosen reader) :
    Keeps source action := by
  intro reader hstands
  obtain ⟨chosen, hkeeps, heq⟩ := h reader
  rw [heq]
  exact hkeeps reader hstands

end Keeps

theorem leaves_eat (h : At source reader) (kind : Kind) :
    Leaves (fun past => Moves source reader past ∧ past.opened = reader.opened)
      (fun past => Moves source reader past ∧ past.ahead = reader.ahead ∧
        past.opened = reader.opened) (eat kind reader) := by
  by_cases hkind : reader.ahead.kind = kind
  · cases hnext : reader.cursor.next with
    | ok token cursor =>
      rw [eat_of_ok hkind hnext]
      have hpasses := h.on.passes hnext
      have hbefore := h.end_le
      have hfront := hpasses.position_le
      have hbehind := hpasses.position_eq
      refine ⟨⟨.of_passes hpasses reader.opened, ?_, ?_, ?_⟩, rfl⟩
      · change reader.cursor.position ≤ cursor.position
        omega
      · change reader.ahead.position ≤ token.position
        omega
      · intro hend
        rw [h.next_of_end hend] at hnext
        cases hnext
        rfl
    | error fault cursor =>
      rw [eat_of_error hkind hnext]
      have hon := h.on.next
      have hle := reader.cursor.position_le_next
      rw [hnext] at hon hle
      have hend : reader.ahead.kind ≠ .exprEnd := by
        intro hend
        rw [h.next_of_end hend] at hnext
        cases hnext
      have hstands : At source { reader with cursor := cursor } :=
        ⟨hon, h.lexeme_at, Nat.le_trans h.end_le hle, h.spelled, fun hkind => absurd hkind hend⟩
      exact ⟨⟨hstands, hle, Nat.le_refl _, fun hkind => absurd hkind hend⟩, rfl, rfl⟩
  · rw [eat_other hkind]
    exact ⟨.refl h, rfl, rfl⟩

theorem keeps_eat (kind : Kind) : Keeps source (eat kind) := by
  intro reader h
  refine (leaves_eat h kind).imp (fun _ => id) ?_
  rintro past ⟨hmoves, -, hopened⟩
  exact ⟨hmoves, Nat.le_of_eq hopened.symm⟩

section Rules

theorem keeps_chain {rank : Rank} {operand : Reading Float} (hoperand : Keeps source operand)
    (unread : Text) (left : Float) : Keeps source (chain rank operand unread left) := by
  induction unread generalizing left with
  | nil => exact .pure left
  | cons c unread ih =>
    refine .of_choice fun reader => ?_
    rcases reader.ahead.kind.operator?_cases rank with hnone | ⟨operator, hoperator, rfl⟩
    · exact ⟨_, .pure left, chain_stop hnone (c :: unread) left⟩
    · exact ⟨_, (keeps_eat reader.ahead.kind).bind fun _ => hoperand.bind fun right =>
        (Keeps.ofExcept (operator.apply reader.ahead.position left right)).bind ih,
        chain_operator hoperator c unread left⟩

theorem leaves_close (h : At source reader) (position : Nat) (value : Float) :
    Leaves (fun past => Moves source reader past ∧ past.opened = reader.opened - 1)
      (fun past => Moves source reader past ∧ reader.opened ≤ past.opened)
      (close position value reader) := by
  by_cases hend : reader.ahead.kind = .exprEnd
  · rw [close_end hend]
    exact ⟨.refl h, Nat.le_refl _⟩
  · rw [close_token hend]
    refine (keeps_eat .bracketClose reader h).bind ?_
    rintro token past ⟨hmoves, hopened⟩
    exact ⟨hmoves.recount hend reader.opened _, congrArg (· - 1) hopened⟩

/-- Brackets are counted before they are read, so the count stays higher after a fault in them. -/
theorem leaves_bracketed (hexpression : Keeps source (expression frames)) (h : At source reader)
    (hkind : reader.ahead.kind = .bracketOpen) :
    Leaves (fun past => Moves source reader past ∧ past.opened = reader.opened)
      (fun past => Moves source reader past ∧ reader.opened ≤ past.opened)
      (factor (frames + 1) reader) := by
  have hend : reader.ahead.kind ≠ .exprEnd := by simp [hkind]
  have hmoves {past : Reader} (hpast : Moves source reader.opening past) :
      Moves source reader past := hpast.recount hend reader.opened past.opened
  have hinside : Keeps source (eat .bracketOpen >>= fun _ => expression frames) :=
    (keeps_eat .bracketOpen).bind fun _ => hexpression
  rw [factor_bracketOpen hkind, ← bind_assoc]
  refine ((hinside reader.opening (h.recount _)).imp (fun _ => id) ?_).bind ?_
  · rintro past ⟨hpast, hle⟩
    exact ⟨hmoves hpast, Nat.le_of_succ_le hle⟩
  · rintro value past ⟨hpast, hopened⟩
    refine (leaves_close hpast.stands reader.ahead.position value).imp ?_ ?_
    · rintro closed ⟨hclosed, hcount⟩
      rw [hopened] at hcount
      exact ⟨hmoves (hpast.trans hclosed), hcount⟩
    · rintro closed ⟨hclosed, hle⟩
      rw [hopened] at hle
      exact ⟨hmoves (hpast.trans hclosed), Nat.le_of_succ_le hle⟩

theorem keeps_factor (hfactor : Keeps source (factor frames))
    (hexpression : Keeps source (expression frames)) : Keeps source (factor (frames + 1)) := by
  intro reader h
  by_cases hnumber : reader.ahead.kind = .number
  · rw [factor_number hnumber]
    exact (keeps_eat .number).bind (fun token => .pure token.value) reader h
  by_cases hminus : reader.ahead.kind = .minus
  · rw [factor_minus hminus]
    have hoperand : Keeps source (factor frames >>= fun value => pure (-value)) :=
      hfactor.bind fun value => .pure (-value)
    exact (keeps_eat .minus).bind (fun _ => hoperand) reader h
  by_cases hbracket : reader.ahead.kind = .bracketOpen
  · exact leaves_bracketed hexpression h hbracket
  · rw [factor_other hnumber hminus hbracket]
    exact ⟨.refl h, Nat.le_refl _⟩

theorem keeps_read (rule : Rule) (frames : Nat) : Keeps source (rule.read frames) := by
  induction frames generalizing rule with
  | zero => exact .of_choice fun reader => ⟨_, .throw .nestingTooDeep, read_zero rule⟩
  | succ frames ih =>
    have hrank (rank : Rank) : Keeps source (rank.rule.read (frames + 1)) := by
      refine .of_choice fun reader => ⟨_, ?_, read_rank rank frames reader⟩
      refine (ih rank.operand).bind fun left => .of_choice fun past => ?_
      exact ⟨_, keeps_chain (ih rank.operand) past.unread left, rfl⟩
    cases rule with
    | expression => exact hrank .additive
    | term => exact hrank .multiplicative
    | factor => exact keeps_factor (ih .factor) (ih .expression)

theorem keeps_complete (value : Float) : Keeps source (complete value) := by
  refine .of_choice fun reader => ?_
  by_cases hend : reader.ahead.kind = .exprEnd
  · by_cases hopened : reader.opened = 0
    · exact ⟨_, .pure value, complete_end hend hopened value⟩
    · exact ⟨_, .throw ⟨.unbalancedParentheses, none⟩, complete_opened hend hopened value⟩
  · exact ⟨_, .throw (.trailing reader.ahead), complete_token hend value⟩

theorem keeps_parse (frames : Nat) : Keeps source (parse frames) :=
  (keeps_read .expression frames).bind keeps_complete

/-- A bracket that is left open stays open, so there is no value for a whole source any more. -/
theorem parse_ne_ok (h : At source reader) (hopened : 0 < reader.opened) (value : Float)
    (past : Reader) : parse frames reader ≠ .ok value past := by
  rw [parse_eq]
  have hkeeps := keeps_read .expression frames reader h
  change Leaves _ _ (expression frames reader) at hkeeps
  cases hexpression : expression frames reader with
  | error fault middle =>
    rw [bind_of_error hexpression]
    intro hparse
    cases hparse
  | ok inner middle =>
    rw [hexpression] at hkeeps
    have hmiddle : middle.opened ≠ 0 := by
      rw [hkeeps.2]
      exact Nat.ne_of_gt hopened
    rw [bind_of_ok hexpression]
    by_cases hend : middle.ahead.kind = .exprEnd
    · rw [complete_opened hend hmiddle]
      intro hparse
      cases hparse
    · rw [complete_token hend]
      intro hparse
      cases hparse

end Rules

section Uses

/-- What can be asked of a reader. -/
inductive Use where
  | parse (limit : Nat)
  | read (rule : Rule) (limit : Nat)
  | eat (kind : Kind)

/-- A use answers with a value or with the token that is eaten. -/
def Use.action : Use → Reading (Float ⊕ Token)
  | parse limit => Sum.inl <$> Reader.parse limit
  | read rule limit => Sum.inl <$> rule.read limit
  | eat kind => Sum.inr <$> Reader.eat kind

/-- The reader behind some uses, one after the other, failed ones among them. -/
def afterUses (reader : Reader) (uses : List Use) : Reader :=
  uses.foldl (fun reader use => stateOf (use.action reader)) reader

theorem Use.keeps (use : Use) : Keeps source use.action := by
  cases use with
  | parse limit => exact (keeps_parse limit).map Sum.inl
  | read rule limit => exact (keeps_read rule limit).map Sum.inl
  | eat kind => exact (keeps_eat kind).map Sum.inr

theorem Use.moves (h : At source reader) (use : Use) :
    Moves source reader (stateOf (use.action reader)) ∧
      reader.opened ≤ (stateOf (use.action reader)).opened := by
  have hkeeps := use.keeps reader h
  cases hresult : use.action reader with
  | ok value past =>
    rw [hresult] at hkeeps
    exact ⟨hkeeps.1, Nat.le_of_eq hkeeps.2.symm⟩
  | error fault past =>
    rw [hresult] at hkeeps
    exact hkeeps

theorem moves_afterUses (h : At source reader) (uses : List Use) :
    Moves source reader (reader.afterUses uses) ∧
      reader.opened ≤ (reader.afterUses uses).opened := by
  induction uses generalizing reader with
  | nil => exact ⟨.refl h, Nat.le_refl _⟩
  | cons use uses ih =>
    obtain ⟨hfirst, hopened⟩ := use.moves h
    obtain ⟨hlater, hle⟩ := ih hfirst.stands
    exact ⟨hfirst.trans hlater, Nat.le_trans hopened hle⟩

/-- The reader has started in front of the source, and some uses have been made of it. -/
def Reached (source : Text) (reader : Reader) : Prop :=
  ∃ first cursor uses, start (.start source) = .ok first cursor ∧ first.afterUses uses = reader

theorem Reached.stands (h : Reached source reader) : At source reader := by
  obtain ⟨first, cursor, uses, hstart, rfl⟩ := h
  exact (moves_afterUses (.of_start hstart) uses).1.stands

/-- In any use, faults included, a reader stays in its source, moves forward only, and closes no
bracket that it has left open. At the end of the source it stays as it is. -/
theorem reached_keeps (h : Reached source reader) :
    At source reader ∧
    (∀ use : Use, Leaves (fun past => past.opened = reader.opened)
      (fun past => reader.opened ≤ past.opened) (use.action reader)) ∧
    (∀ kind fault past, eat kind reader = .error fault past →
      past.ahead = reader.ahead ∧ past.opened = reader.opened) ∧
    ∀ later : List Use,
      reader.cursor.position ≤ (reader.afterUses later).cursor.position ∧
      reader.ahead.position ≤ (reader.afterUses later).ahead.position ∧
      (0 < reader.opened → ∀ limit value past,
        parse limit (reader.afterUses later) ≠ .ok value past) ∧
      (reader.ahead.kind = .exprEnd → reader.afterUses later = reader) := by
  refine ⟨h.stands, ?_, ?_, ?_⟩
  · intro use
    exact (use.keeps reader h.stands).imp (fun _ => And.right) (fun _ => And.right)
  · intro kind fault past hfault
    have hleaves := leaves_eat h.stands kind
    rw [hfault] at hleaves
    exact hleaves.2
  · intro later
    obtain ⟨hmoves, hopened⟩ := moves_afterUses h.stands later
    refine ⟨hmoves.cursor_le, hmoves.ahead_le, ?_, hmoves.eq_of_end⟩
    intro hpositive limit value past
    exact parse_ne_ok hmoves.stands (Nat.lt_of_lt_of_le hpositive hopened) value past

/-- The run that is no numeral is passed over, so the number in front of it can be read once more.
The two brackets in front of that stay open. -/
theorem reached_behind_unclosed :
    let source := "((1 ..2) + 3".toList
    let reader : Reader := ⟨⟨8, " + 3".toList⟩, ⟨.bracketClose, [')'], 7⟩, 2⟩
    Reached source reader ∧ ∀ later limit value past,
      parse limit (reader.afterUses later) ≠ .ok value past := by
  intro source reader
  let first : Reader := ⟨⟨1, "(1 ..2) + 3".toList⟩, ⟨.bracketOpen, ['('], 0⟩, 0⟩
  have hreached : Reached source reader :=
    ⟨first, first.cursor, [.parse 9, .read .factor 9], rfl, by decide +kernel⟩
  refine ⟨hreached, fun later => ?_⟩
  obtain ⟨-, -, -, hlater⟩ := reached_keeps hreached
  exact (hlater later).2.2.1 (by decide)

end Uses

end Abacus.Reader
