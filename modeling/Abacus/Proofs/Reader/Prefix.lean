import Abacus.Proofs.Reader.Phrases
import Abacus.Proofs.Token.Prefix

/-!
# What a reader has seen

An action is local if it looks no further than its cursor: readers that agree on
the token ahead and on the text up to a bound do the same, as long as the cursor
stays in front of the bound. All rules are local. Their operators are counted by
the text that is unread, which differs between such readers, but any bound that
is long enough gives the same chain.
-/

namespace Abacus.Reader

structure Agree (bound : Nat) (reader other : Reader) : Prop where
  wellFormed : reader.WellFormed
  ahead_eq : other.ahead = reader.ahead
  opened_eq : other.opened = reader.opened
  cursor : Cursor.Agree bound reader.cursor other.cursor

variable {α β : Type} {bound frames : Nat}

theorem Agree.other_wellFormed {reader other : Reader} (h : Agree bound reader other) :
    other.WellFormed := by
  unfold WellFormed
  rw [h.ahead_eq]
  exact h.wellFormed

structure Local (action : Reading α) : Prop where
  position_le : ∀ reader, reader.cursor.position ≤ (stateOf (action reader)).cursor.position
  same : ∀ {bound reader other}, Agree bound reader other →
    (stateOf (action reader)).cursor.position < bound →
    Same (Agree bound) (action reader) (action other)

namespace Local

theorem pure (value : α) : Local (Pure.pure value) where
  position_le _ := Nat.le_refl _
  same h _ := .ok h

theorem throw (fault : Fault) : Local (throw fault : Reading α) where
  position_le _ := Nat.le_refl _
  same h _ := .error h

theorem ofExcept (result : Except Fault α) : Local (ofExcept result : Reading α) := by
  cases result with
  | ok value => exact pure value
  | error fault => exact throw fault

theorem bind {first : Reading α} {next : α → Reading β} (hfirst : Local first)
    (hnext : ∀ value, Local (next value)) : Local (first >>= next) where
  position_le reader := by
    have hle := hfirst.position_le reader
    cases hresult : first reader with
    | ok value past =>
      rw [hresult] at hle
      rw [bind_of_ok hresult]
      exact Nat.le_trans hle ((hnext value).position_le past)
    | error fault past =>
      rw [hresult] at hle
      rw [bind_of_error hresult]
      exact hle
  same := by
    intro bound reader other h hbound
    cases hresult : first reader with
    | ok value past =>
      rw [bind_of_ok hresult] at hbound ⊢
      -- the cursor does not move back, so it was in front of the bound before, too
      have hfront : (stateOf (first reader)).cursor.position < bound := by
        rw [hresult]
        exact Nat.lt_of_le_of_lt ((hnext value).position_le past) hbound
      have hsame := hfirst.same h hfront
      rw [hresult] at hsame
      obtain ⟨pastOther, hother, hpast⟩ := hsame.of_ok
      rw [bind_of_ok hother]
      exact (hnext value).same hpast hbound
    | error fault past =>
      rw [bind_of_error hresult] at hbound ⊢
      have hsame := hfirst.same h (by rw [hresult]; exact hbound)
      rw [hresult] at hsame
      obtain ⟨pastOther, hother, hpast⟩ := hsame.of_error
      rw [bind_of_error hother]
      exact .error hpast

theorem of_ahead {action : Reading α}
    (h : ∀ reader : Reader, ∃ chosen, Local chosen ∧ ∀ other : Reader,
      other.ahead = reader.ahead → other.opened = reader.opened → action other = chosen other) :
    Local action where
  position_le reader := by
    obtain ⟨chosen, hlocal, heq⟩ := h reader
    rw [heq reader rfl rfl]
    exact hlocal.position_le reader
  same := by
    intro bound reader other hagree hbound
    obtain ⟨chosen, hlocal, heq⟩ := h reader
    rw [heq reader rfl rfl] at hbound ⊢
    rw [heq other hagree.ahead_eq hagree.opened_eq]
    exact hlocal.same hagree hbound

theorem opening {action : Reading α} (h : Local action) :
    Local fun reader => action reader.opening where
  position_le reader := h.position_le reader.opening
  same hagree hbound := by
    refine h.same ⟨hagree.wellFormed, hagree.ahead_eq, ?_, hagree.cursor⟩ hbound
    exact congrArg (· + 1) hagree.opened_eq

end Local

theorem local_closing (value : Float) :
    Local (modifyGet fun past => (value, { past with opened := past.opened - 1 }) :
      Reading Float) where
  position_le _ := Nat.le_refl _
  same hagree _ := by
    refine .ok ⟨hagree.wellFormed, hagree.ahead_eq, ?_, hagree.cursor⟩
    exact congrArg (· - 1) hagree.opened_eq

theorem local_eat (kind : Kind) : Local (eat kind) where
  position_le reader := by
    by_cases hkind : reader.ahead.kind = kind
    · have hle := reader.cursor.position_le_next
      cases hnext : reader.cursor.next with
      | ok token cursor =>
        rw [hnext] at hle
        rw [eat_of_ok hkind hnext]
        exact hle
      | error fault cursor =>
        rw [hnext] at hle
        rw [eat_of_error hkind hnext]
        exact hle
    · rw [eat_other hkind]
      exact Nat.le_refl _
  same := by
    intro bound reader other h hbound
    by_cases hkind : reader.ahead.kind = kind
    · have hkindOther : other.ahead.kind = kind := by rw [h.ahead_eq, hkind]
      have hsame := Cursor.next_same h.cursor
      cases hnext : reader.cursor.next with
      | ok token cursor =>
        rw [eat_of_ok hkind hnext] at hbound ⊢
        rw [hnext] at hsame
        obtain ⟨cursorOther, hother, hcursor⟩ := (hsame hbound).of_ok
        rw [eat_of_ok hkindOther hother, h.ahead_eq]
        exact .ok ⟨(Cursor.lexeme_of_next hnext).1, rfl, h.opened_eq, hcursor⟩
      | error fault cursor =>
        rw [eat_of_error hkind hnext] at hbound ⊢
        rw [hnext] at hsame
        obtain ⟨cursorOther, hother, hcursor⟩ := (hsame hbound).of_error
        rw [eat_of_error hkindOther hother]
        exact .error ⟨h.wellFormed, h.ahead_eq, h.opened_eq, hcursor⟩
    · have hkindOther : other.ahead.kind ≠ kind := by rwa [h.ahead_eq]
      rw [eat_other hkind, eat_other hkindOther, h.ahead_eq]
      exact .error h

section Chains

variable {rank : Rank} {reader : Reader}

theorem chain_of_unread_eq_nil {operand : Reading Float} (h : reader.WellFormed)
    (hunread : reader.unread.length ≤ 0) (unread : Text) (left : Float) :
    chain rank operand unread left reader = .ok left reader :=
  chain_stop (by simp [h.kind_eq_exprEnd hunread, Kind.operator?]) unread left

/-- How the operators are counted does not matter, as long as none is left out. -/
theorem chain_unread (unread other : Text) (left : Float) (h : reader.WellFormed)
    (hunread : reader.unread.length ≤ unread.length)
    (hother : reader.unread.length ≤ other.length) :
    chain rank (rank.operand.read frames) unread left reader =
      chain rank (rank.operand.read frames) other left reader := by
  induction unread generalizing other left reader with
  | nil => rw [chain_of_unread_eq_nil h hunread, chain_of_unread_eq_nil h hunread]
  | cons c unread ih =>
    cases other with
    | nil => rw [chain_of_unread_eq_nil h hother, chain_of_unread_eq_nil h hother]
    | cons d other =>
      rcases reader.ahead.kind.operator?_cases rank with hnone | ⟨operator, hoperator, rfl⟩
      · rw [chain_stop hnone, chain_stop hnone]
      · have hend : reader.ahead.kind ≠ .exprEnd := Kind.ne_of_operator? hoperator rfl
        rw [chain_operator hoperator, chain_operator hoperator]
        refine After.bind_congr ((after_eat rfl hend).imp ?_ fun _ => id)
        intro token eaten heaten
        refine After.bind_congr ((reads operator.rank.operand frames heaten.wellFormed).imp ?_
          fun _ => id)
        rintro right past ⟨hright, -⟩
        have hlexeme := List.length_pos_of_ne_nil (h hend)
        have hshorter := heaten.unread_le
        have hrest := hright.unread_le
        rw [List.length_cons] at hunread hother
        cases hvalue : operator.apply reader.ahead.position left right with
        | error fault => rfl
        | ok value => exact ih other value hright.wellFormed (by omega) (by omega)

theorem local_chain {operand : Reading Float} (hoperand : Local operand) (unread : Text)
    (left : Float) : Local (chain rank operand unread left) := by
  induction unread generalizing left with
  | nil => exact .pure left
  | cons c unread ih =>
    refine .of_ahead fun reader => ?_
    rcases reader.ahead.kind.operator?_cases rank with hnone | ⟨operator, hoperator, rfl⟩
    · refine ⟨_, .pure left, fun other hahead _ => ?_⟩
      exact chain_stop (by rwa [hahead]) (c :: unread) left
    · refine ⟨_, (local_eat reader.ahead.kind).bind fun _ => hoperand.bind fun right =>
        (Local.ofExcept (operator.apply reader.ahead.position left right)).bind ih, ?_⟩
      intro other hahead _
      rw [← hahead] at hoperator ⊢
      exact chain_operator hoperator c unread left

end Chains

section Rules

theorem local_operations {rank : Rank} (hoperand : Local (rank.operand.read frames))
    (left : Float) :
    Local (get >>= fun reader => chain rank (rank.operand.read frames) reader.unread left) where
  position_le reader := (local_chain hoperand reader.unread left).position_le reader
  same := by
    intro bound reader other h hbound
    rw [get_bind] at hbound ⊢
    rw [get_bind]
    have hunread : reader.unread.length ≤ (reader.unread ++ other.unread).length := by simp
    have hother : other.unread.length ≤ (reader.unread ++ other.unread).length := by simp
    rw [chain_unread _ _ left h.wellFormed (Nat.le_refl _) hunread] at hbound ⊢
    rw [chain_unread _ _ left h.other_wellFormed (Nat.le_refl _) hother]
    exact (local_chain hoperand _ left).same h hbound

theorem local_close (position : Nat) (value : Float) : Local (close position value) := by
  refine .of_ahead fun reader => ?_
  by_cases hend : reader.ahead.kind = .exprEnd
  · refine ⟨_, .throw (.unclosed position), fun other hahead _ => ?_⟩
    exact close_end (by rwa [hahead]) position value
  · refine ⟨_, (local_eat .bracketClose).bind fun _ => local_closing value, ?_⟩
    intro other hahead _
    exact close_token (by rwa [hahead]) position value

theorem local_factor (hfactor : Local (factor frames)) (hexpression : Local (expression frames)) :
    Local (factor (frames + 1)) := by
  refine .of_ahead fun reader => ?_
  by_cases hnumber : reader.ahead.kind = .number
  · refine ⟨_, (local_eat .number).bind fun token => .pure token.value, fun other hahead _ => ?_⟩
    exact factor_number (by rwa [hahead])
  by_cases hminus : reader.ahead.kind = .minus
  · refine ⟨_, (local_eat .minus).bind fun _ => hfactor.bind fun value => .pure (-value), ?_⟩
    intro other hahead _
    exact factor_minus (by rwa [hahead])
  by_cases hbracket : reader.ahead.kind = .bracketOpen
  · refine ⟨_, ((local_eat .bracketOpen).bind fun _ => hexpression.bind
      (local_close reader.ahead.position)).opening, fun other hahead _ => ?_⟩
    rw [← hahead] at hbracket ⊢
    exact factor_bracketOpen hbracket
  · refine ⟨_, .throw (.unexpectedToken reader.ahead), fun other hahead _ => ?_⟩
    rw [← hahead] at hnumber hminus hbracket ⊢
    exact factor_other hnumber hminus hbracket

theorem local_read (rule : Rule) (frames : Nat) : Local (rule.read frames) := by
  induction frames generalizing rule with
  | zero =>
    have heq : rule.read 0 = throw .nestingTooDeep := funext fun reader => read_zero rule
    rw [heq]
    exact .throw _
  | succ frames ih =>
    have hrank (rank : Rank) : Local (rank.rule.read (frames + 1)) := by
      have heq := funext fun reader => read_rank rank frames reader
      rw [heq]
      exact (ih rank.operand).bind (local_operations (ih rank.operand))
    cases rule with
    | expression => exact hrank .additive
    | term => exact hrank .multiplicative
    | factor => exact local_factor (ih .factor) (ih .expression)

theorem local_complete (value : Float) : Local (complete value) := by
  refine .of_ahead fun reader => ?_
  by_cases hend : reader.ahead.kind = .exprEnd
  · by_cases hzero : reader.opened = 0
    · refine ⟨_, .pure value, fun other hahead hopened => ?_⟩
      exact complete_end (by rwa [hahead]) (by rwa [hopened]) value
    · refine ⟨_, .throw ⟨.unbalancedParentheses, none⟩, fun other hahead hopened => ?_⟩
      exact complete_opened (by rwa [hahead]) (by rwa [hopened]) value
  · refine ⟨_, .throw (.trailing reader.ahead), fun other hahead _ => ?_⟩
    rw [← hahead] at hend ⊢
    exact complete_token hend value

theorem local_parse (frames : Nat) : Local (parse frames) :=
  (local_read .expression frames).bind local_complete

end Rules

section Runs

variable {cursor other past : Cursor}

/-- What is left of a reader when it is done. -/
def cursorOnly : EStateM.Result Fault Reader α → EStateM.Result Fault Cursor α
  | .ok value reader => .ok value reader.cursor
  | .error fault reader => .error fault reader.cursor

theorem position_cursorOnly (result : EStateM.Result Fault Reader α) :
    (stateOf (cursorOnly result)).position = (stateOf result).cursor.position := by
  cases result <;> rfl

theorem same_cursorOnly {result other : EStateM.Result Fault Reader α}
    (h : Same (Agree bound) result other) :
    Same (Cursor.Agree bound) (cursorOnly result) (cursorOnly other) := by
  cases h with
  | ok hagree => exact .ok hagree.cursor
  | error hagree => exact .error hagree.cursor

theorem run_of_ok {token : Token} (h : cursor.next = .ok token past) :
    run frames cursor = cursorOnly (parse frames ⟨past, token, 0⟩) := by
  have hstart : start cursor = .ok ⟨past, token, 0⟩ past := by
    simp only [start, bind, EStateM.bind, h]
    rfl
  simp only [run, hstart]
  cases parse frames ⟨past, token, 0⟩ <;> rfl

theorem run_of_error {fault : Fault} (h : cursor.next = .error fault past) :
    run frames cursor = .error fault past := by
  have hstart : start cursor = .error fault past := by
    simp only [start, bind, EStateM.bind, h]
  simp only [run, hstart]

theorem next_position_le_run {token : Token} (h : cursor.next = .ok token past) :
    past.position ≤ (stateOf (run frames cursor)).position := by
  rw [run_of_ok h, position_cursorOnly]
  exact (local_parse frames).position_le ⟨past, token, 0⟩

/-- Cursors that agree up to a bound do the same in front of it. -/
theorem run_same (h : Cursor.Agree bound cursor other)
    (hbound : (stateOf (run frames cursor)).position < bound) :
    Same (Cursor.Agree bound) (run frames cursor) (run frames other) := by
  have hsame := Cursor.next_same h
  cases hnext : cursor.next with
  | error fault past =>
    rw [run_of_error hnext] at hbound ⊢
    rw [hnext] at hsame
    obtain ⟨pastOther, hother, hpast⟩ := (hsame hbound).of_error
    rw [run_of_error hother]
    exact .error hpast
  | ok token past =>
    have hfront := Nat.lt_of_le_of_lt (next_position_le_run hnext) hbound
    rw [hnext] at hsame
    obtain ⟨pastOther, hother, hpast⟩ := (hsame hfront).of_ok
    have hagree : Agree bound ⟨past, token, 0⟩ ⟨pastOther, token, 0⟩ :=
      ⟨(Cursor.lexeme_of_next hnext).1, rfl, rfl, hpast⟩
    rw [run_of_ok hnext, position_cursorOnly] at hbound
    rw [run_of_ok hnext, run_of_ok hother]
    exact same_cursorOnly ((local_parse frames).same hagree hbound)

end Runs

end Abacus.Reader
