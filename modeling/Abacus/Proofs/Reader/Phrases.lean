import Abacus.Proofs.Flat.Phrases
import Abacus.Proofs.Reader.Steps

/-!
# What the rules read

A rule that yields a value has read a phrase, and the machine with the stack
comes from the same tokens to the same value. A rule that fails does so with
the fault of the machine. Both are kept for as long as operators follow, and
the rules are taken together by induction on the frames that they are given.

The limit of the machine counts all active rules, the frames of a rule only
those that may still be added. `Call` says which of them go together.
-/

namespace Abacus.Reader

open Flat

/-- A call of `rule` with `frames` left, while `pending` waits, under the limit of the machine. -/
structure Call (rule : Rule) (frames limit : Nat) (pending : List Pending) : Prop where
  fits : Fits rule pending
  frames_eq : frames + rule.level + active pending = limit + 3

namespace Call

variable {frames limit : Nat} {pending : List Pending}

theorem operand {rank : Rank} (h : Call rank.rule (frames + 1) limit pending) :
    Call rank.operand frames limit pending := by
  have hframes := h.frames_eq
  refine ⟨h.fits.operand, ?_⟩
  simp only [Rank.level_rule, Rank.level_operand] at hframes ⊢
  omega

theorem right {operator : Operator} (h : Call operator.rank.rule (frames + 1) limit pending)
    (position : Nat) (left : Float) :
    Call operator.rank.operand frames limit (.operation operator position left :: pending) := by
  have hframes := h.operand.frames_eq
  refine ⟨fits_operand _ _ _ _, ?_⟩
  simpa [active, Pending.weight] using hframes

theorem negation (h : Call .factor (frames + 1) limit pending) :
    Call .factor frames limit (.negation :: pending) := by
  have hframes := h.frames_eq
  refine ⟨fits_factor _, ?_⟩
  simp only [active, Pending.weight] at hframes ⊢
  omega

theorem bracket (h : Call .factor (frames + 1) limit pending) (position : Nat) :
    Call .expression frames limit (.bracket position :: pending) := by
  have hframes := h.frames_eq
  refine ⟨fits_bracket _ _ _, ?_⟩
  simp only [active, Pending.weight, Rule.level] at hframes ⊢
  omega

theorem exceeds {rule : Rule} (h : Call rule 0 limit pending) :
    exceeds (some limit) pending = true := by
  have hframes := h.frames_eq
  have hlevel : rule.level ≤ 2 := by cases rule <;> decide
  simp only [Flat.exceeds, Option.any_some, decide_eq_true_eq]
  omega

theorem not_exceeds (h : Call .factor (frames + 1) limit pending) :
    Flat.exceeds (some limit) pending = false := by
  have hframes := h.frames_eq
  simp only [Rule.level] at hframes
  simp only [Flat.exceeds, Option.any_some, decide_eq_false_iff_not]
  omega

end Call

/-- A reader went from `origin` to `past` over a phrase of the rule with this value. -/
structure Read (rule : Rule) (frames : Nat) (origin : Reader) (value : Float) (past : Reader) :
    Prop where
  wellFormed : past.WellFormed
  opened_eq : past.opened = origin.opened
  unread_le : past.unread.length ≤ origin.unread.length
  derives : ∃ tokens tree, origin.stream = past.stream.prepend tokens ∧
    Derives rule tokens tree ∧ tree.outcome Token.value = .ok value
  run_eq : ∀ limit pending, Call rule frames limit pending →
    Flat.run (some limit) ⟨pending, none⟩ origin.stream =
      Flat.run (some limit) ⟨pending, some value⟩ past.stream

/-- The machine finds the fault, too. -/
def Refused (rule : Rule) (frames : Nat) (origin : Reader) (fault : Fault) : Prop :=
  ∀ limit pending, Call rule frames limit pending →
    Flat.run (some limit) ⟨pending, none⟩ origin.stream = .error fault

/-- What holds after a rule: a phrase is read up to a token that is left to others. -/
def Reads (rule : Rule) (frames : Nat) (reader : Reader) :
    EStateM.Result Fault Reader Float → Prop :=
  After (fun value past => Read rule frames reader value past ∧ rule.EndsAt past.ahead.kind)
    (Refused rule frames reader)

theorem reads_zero (rule : Rule) (reader : Reader) :
    Reads rule 0 reader (rule.read 0 reader) := by
  rw [read_zero]
  intro limit pending hcall
  refine Stream.fold_error_head _ _ (head_stream reader) ?_ ?_
  · simp [step, hcall.exceeds]
  · simp [finish, hcall.exceeds]

theorem Read.operand {rank : Rank} {frames : Nat} {origin past : Reader} {value : Float}
    (h : Read rank.operand frames origin value past) :
    Read rank.rule (frames + 1) origin value past where
  wellFormed := h.wellFormed
  opened_eq := h.opened_eq
  unread_le := h.unread_le
  derives := by
    obtain ⟨tokens, tree, hstream, htree, hvalue⟩ := h.derives
    exact ⟨tokens, tree, hstream, .operand htree, hvalue⟩
  run_eq limit pending hcall := h.run_eq limit pending hcall.operand

section Operations

variable {operator : Operator} {frames : Nat} {origin reader eaten past : Reader}
  {left right : Float} {token : Token}

/-- The machine waits for the right operand as soon as the operator is eaten. -/
theorem run_operator_ahead (h : Read operator.rank.rule (frames + 1) origin left reader)
    (hoperator : reader.ahead.kind.operator? = some operator) {limit : Nat}
    {pending : List Pending} (hcall : Call operator.rank.rule (frames + 1) limit pending)
    (stream : Stream) (hstream : reader.stream = stream.prepend [reader.ahead]) :
    Flat.run (some limit) ⟨pending, none⟩ origin.stream =
      Flat.run (some limit) ⟨.operation operator reader.ahead.position left :: pending, none⟩
        stream := by
  rw [h.run_eq limit pending hcall, hstream, run_operator hoperator hcall.fits]

theorem Read.run_operand (h : Read operator.rank.rule (frames + 1) origin left reader)
    (hoperator : reader.ahead.kind.operator? = some operator) (heaten : Eaten reader token eaten)
    (hright : Read operator.rank.operand frames eaten right past)
    (hends : operator.rank.operand.EndsAt past.ahead.kind) {limit : Nat} {pending : List Pending}
    (hcall : Call operator.rank.rule (frames + 1) limit pending) :
    Flat.run (some limit) ⟨pending, none⟩ origin.stream =
      operator.apply reader.ahead.position left right >>= fun value =>
        Flat.run (some limit) ⟨pending, some value⟩ past.stream := by
  rw [run_operator_ahead h hoperator hcall _ heaten.stream_eq,
    hright.run_eq limit _ (hcall.right _ _),
    run_operation (head_stream past) hends.level_le hcall.fits]

theorem Read.operation (h : Read operator.rank.rule (frames + 1) origin left reader)
    (hoperator : reader.ahead.kind.operator? = some operator) (heaten : Eaten reader token eaten)
    (hright : Read operator.rank.operand frames eaten right past)
    (hends : operator.rank.operand.EndsAt past.ahead.kind) {value : Float}
    (hvalue : operator.apply reader.ahead.position left right = .ok value) :
    Read operator.rank.rule (frames + 1) origin value past where
  wellFormed := hright.wellFormed
  opened_eq := hright.opened_eq.trans (heaten.opened_eq.trans h.opened_eq)
  unread_le := by
    have hshorter := heaten.unread_le
    have hrest := hright.unread_le
    have hstart := h.unread_le
    omega
  derives := by
    obtain ⟨tokens, l, hstream, hl, hleft⟩ := h.derives
    obtain ⟨others, r, hrest, hr, hother⟩ := hright.derives
    refine ⟨tokens ++ reader.ahead :: others, _, ?_, .operation hl hoperator hr, ?_⟩
    · rw [hstream, heaten.stream_eq, hrest, ← Stream.prepend_append, ← Stream.prepend_append]
      simp
    · rw [Expr.outcome_operation, hleft, hother]
      exact hvalue
  run_eq limit pending hcall := by
    rw [h.run_operand hoperator heaten hright hends hcall, hvalue]
    rfl

/-- The operators of a rank are read for as long as there are any. The text that is unread
bounds their number. -/
theorem after_chain {rank : Rank} {operand : Reading Float}
    (hoperand : ∀ reader : Reader, reader.WellFormed →
      Reads rank.operand frames reader (operand reader)) (unread : Text)
    (h : Read rank.rule (frames + 1) origin left reader)
    (hends : rank.operand.EndsAt reader.ahead.kind)
    (hunread : reader.unread.length ≤ unread.length) :
    Reads rank.rule (frames + 1) origin (chain rank operand unread left reader) := by
  induction unread generalizing left reader with
  | nil =>
    have hend := h.wellFormed.kind_eq_exprEnd hunread
    rw [chain_stop (by simp [hend, Kind.operator?])]
    exact ⟨h, by simp [hend, Rule.EndsAt, Kind.operator?]⟩
  | cons c unread ih =>
    rcases reader.ahead.kind.operator?_cases rank with hnone | ⟨operator, hoperator, rfl⟩
    · rw [chain_stop hnone]
      exact ⟨h, hends.of_rank_ne hnone⟩
    · have hend : reader.ahead.kind ≠ .exprEnd := Kind.ne_of_operator? hoperator rfl
      rw [chain_operator hoperator]
      refine After.bind ((after_eat rfl hend).imp ?_ ?_)
      · intro token eaten heaten
        refine After.bind ((hoperand eaten heaten.wellFormed).imp ?_ ?_)
        · rintro right past ⟨hright, hrightEnds⟩
          refine After.bind ?_
          cases hvalue : operator.apply reader.ahead.position left right with
          | error fault =>
            intro limit pending hcall
            rw [h.run_operand hoperator heaten hright hrightEnds hcall, hvalue]
            rfl
          | ok value =>
            refine ih (h.operation hoperator heaten hright hrightEnds hvalue) hrightEnds ?_
            have hlexeme := List.length_pos_of_ne_nil (h.wellFormed hend)
            have hshorter := heaten.unread_le
            have hrest := hright.unread_le
            simp only [List.length_cons] at hunread
            omega
        · intro fault hfault limit pending hcall
          rw [run_operator_ahead h hoperator hcall _ heaten.stream_eq]
          exact hfault limit _ (hcall.right _ _)
      · intro fault hstream limit pending hcall
        rw [run_operator_ahead h hoperator hcall ⟨[], .error fault⟩ hstream]
        rfl

end Operations

section Factors

variable {frames limit : Nat} {pending : List Pending} {reader eaten past closed : Reader}
  {token closing : Token} {value : Float}

theorem Read.number (h : reader.ahead.kind = .number) (heaten : Eaten reader token eaten) :
    Read .factor (frames + 1) reader token.value eaten where
  wellFormed := heaten.wellFormed
  opened_eq := heaten.opened_eq
  unread_le := Nat.le_of_add_left_le heaten.unread_le
  derives := by
    obtain rfl := heaten.token_eq
    exact ⟨[reader.ahead], .leaf reader.ahead, heaten.stream_eq, .number h, rfl⟩
  run_eq limit pending hcall := by
    rw [heaten.stream_eq, run_shift hcall.not_exceeds (shift_number h pending), heaten.token_eq]

theorem reads_number (h : reader.ahead.kind = .number) :
    Reads .factor (frames + 1) reader (factor (frames + 1) reader) := by
  rw [factor_number h]
  refine After.bind ((after_eat h (by decide)).imp ?_ ?_)
  · intro token eaten heaten
    exact ⟨.number h heaten, Rule.endsAt_factor _⟩
  · intro fault hstream limit pending hcall
    rw [hstream]
    exact run_shift hcall.not_exceeds (shift_number h pending) ⟨[], .error fault⟩

theorem Read.negation (h : reader.ahead.kind = .minus) (heaten : Eaten reader token eaten)
    (hread : Read .factor frames eaten value past) :
    Read .factor (frames + 1) reader (-value) past where
  wellFormed := hread.wellFormed
  opened_eq := hread.opened_eq.trans heaten.opened_eq
  unread_le := Nat.le_trans hread.unread_le (Nat.le_of_add_left_le heaten.unread_le)
  derives := by
    obtain ⟨tokens, tree, hstream, htree, hvalue⟩ := hread.derives
    refine ⟨reader.ahead :: tokens, .negation tree, ?_, .negation h htree, ?_⟩
    · rw [heaten.stream_eq, hstream, ← Stream.prepend_append]
      rfl
    · rw [Expr.outcome_negation, hvalue]
      rfl
  run_eq limit pending hcall := by
    rw [heaten.stream_eq, run_shift hcall.not_exceeds (shift_minus h pending),
      hread.run_eq limit _ hcall.negation, run_negation (head_stream past)]

theorem reads_minus (h : reader.ahead.kind = .minus)
    (ih : ∀ reader : Reader, reader.WellFormed →
      Reads .factor frames reader (factor frames reader)) :
    Reads .factor (frames + 1) reader (factor (frames + 1) reader) := by
  rw [factor_minus h]
  refine After.bind ((after_eat h (by decide)).imp ?_ ?_)
  · intro token eaten heaten
    refine After.bind ((ih eaten heaten.wellFormed).imp ?_ ?_)
    · rintro value past ⟨hread, -⟩
      exact ⟨.negation h heaten hread, Rule.endsAt_factor _⟩
    · intro fault hfault limit pending hcall
      rw [heaten.stream_eq, run_shift hcall.not_exceeds (shift_minus h pending)]
      exact hfault limit _ hcall.negation
  · intro fault hstream limit pending hcall
    rw [hstream]
    exact run_shift hcall.not_exceeds (shift_minus h pending) ⟨[], .error fault⟩

theorem operator?_eq_none_of_endsAt {kind : Kind} (h : Rule.expression.EndsAt kind) :
    kind.operator? = none := by
  cases hoperator : kind.operator? with
  | none => rfl
  | some operator => exact absurd (h operator hoperator) (Nat.not_lt_zero _)

theorem run_unclosed (hends : Rule.expression.EndsAt past.ahead.kind)
    (hkind : past.ahead.kind ≠ .exprEnd) (hclose : past.ahead.kind ≠ .bracketClose)
    (position : Nat) :
    Flat.run (some limit) ⟨.bracket position :: pending, some value⟩ past.stream =
      .error (.expected .bracketClose past.ahead) := by
  have hoperator := operator?_eq_none_of_endsAt hends
  rw [stream, if_neg hkind, Flat.run, Stream.fold_cons]
  simp only [step, settle, receive, hoperator, hclose, ↓reduceIte, bind, Except.bind]

theorem run_unclosed_end (hkind : past.ahead.kind = .exprEnd) (position : Nat) :
    Flat.run (some limit) ⟨.bracket position :: pending, some value⟩ past.stream =
      .error (.unclosed position) := by
  rw [stream, if_pos hkind]
  rfl

theorem Read.run_inner (h : reader.ahead.kind = .bracketOpen)
    (heaten : Eaten reader.opening token eaten) (hread : Read .expression frames eaten value past)
    (hcall : Call .factor (frames + 1) limit pending) :
    Flat.run (some limit) ⟨pending, none⟩ reader.stream =
      Flat.run (some limit) ⟨.bracket reader.ahead.position :: pending, some value⟩
        past.stream := by
  have hstart : reader.stream = eaten.stream.prepend [reader.ahead] := heaten.stream_eq
  rw [hstart, run_shift hcall.not_exceeds (shift_bracketOpen h pending),
    hread.run_eq limit _ (hcall.bracket _)]

theorem Read.bracketed (h : reader.ahead.kind = .bracketOpen)
    (heaten : Eaten reader.opening token eaten) (hread : Read .expression frames eaten value past)
    (hclose : past.ahead.kind = .bracketClose) (hclosed : Eaten past closing closed) :
    Read .factor (frames + 1) reader value { closed with opened := closed.opened - 1 } where
  wellFormed := hclosed.wellFormed
  opened_eq := by
    have hopen : eaten.opened = reader.opened + 1 := heaten.opened_eq
    have hinner := hread.opened_eq
    have hend := hclosed.opened_eq
    change closed.opened - 1 = reader.opened
    omega
  unread_le := by
    have hshorter : eaten.unread.length ≤ reader.unread.length :=
      Nat.le_of_add_left_le heaten.unread_le
    have hend := Nat.le_of_add_left_le hclosed.unread_le
    exact Nat.le_trans hend (Nat.le_trans hread.unread_le hshorter)
  derives := by
    have hstart : reader.stream = eaten.stream.prepend [reader.ahead] := heaten.stream_eq
    obtain ⟨tokens, tree, hstream, htree, hvalue⟩ := hread.derives
    refine ⟨reader.ahead :: (tokens ++ [past.ahead]), tree, ?_, .bracketed h htree hclose, hvalue⟩
    rw [hstart, hstream, hclosed.stream_eq, ← Stream.prepend_append, ← Stream.prepend_append]
    rfl
  run_eq limit pending hcall := by
    rw [hread.run_inner h heaten hcall, hclosed.stream_eq, run_bracketClose hclose]
    rfl

theorem reads_close (h : reader.ahead.kind = .bracketOpen)
    (heaten : Eaten reader.opening token eaten) (hread : Read .expression frames eaten value past)
    (hends : Rule.expression.EndsAt past.ahead.kind) :
    Reads .factor (frames + 1) reader (close reader.ahead.position value past) := by
  by_cases hkind : past.ahead.kind = .exprEnd
  · rw [close_end hkind]
    intro limit pending hcall
    rw [hread.run_inner h heaten hcall, run_unclosed_end hkind]
  rw [close_token hkind]
  by_cases hclose : past.ahead.kind = .bracketClose
  · refine After.bind ((after_eat hclose (by decide)).imp ?_ ?_)
    · intro closing closed hclosed
      exact ⟨.bracketed h heaten hread hclose hclosed, Rule.endsAt_factor _⟩
    · intro fault hstream limit pending hcall
      rw [hread.run_inner h heaten hcall, hstream]
      exact run_bracketClose hclose value ⟨[], .error fault⟩
  · refine After.bind ?_
    rw [eat_other hclose]
    intro limit pending hcall
    rw [hread.run_inner h heaten hcall, run_unclosed hends hkind hclose]

theorem reads_bracketOpen (h : reader.ahead.kind = .bracketOpen)
    (ih : ∀ reader : Reader, reader.WellFormed →
      Reads .expression frames reader (expression frames reader)) :
    Reads .factor (frames + 1) reader (factor (frames + 1) reader) := by
  have heat := @after_eat reader.opening .bracketOpen h (by decide)
  rw [factor_bracketOpen h]
  refine After.bind (heat.imp ?_ ?_)
  · intro token eaten heaten
    refine After.bind ((ih eaten heaten.wellFormed).imp ?_ ?_)
    · rintro value past ⟨hread, hends⟩
      exact reads_close h heaten hread hends
    · intro fault hfault limit pending hcall
      have hstart : reader.stream = eaten.stream.prepend [reader.ahead] := heaten.stream_eq
      rw [hstart, run_shift hcall.not_exceeds (shift_bracketOpen h pending)]
      exact hfault limit _ (hcall.bracket _)
  · intro fault hstream limit pending hcall
    change reader.stream = _ at hstream
    rw [hstream]
    exact run_shift hcall.not_exceeds (shift_bracketOpen h pending) ⟨[], .error fault⟩

theorem reads_other (hnumber : reader.ahead.kind ≠ .number) (hminus : reader.ahead.kind ≠ .minus)
    (hbracket : reader.ahead.kind ≠ .bracketOpen) :
    Reads .factor (frames + 1) reader (factor (frames + 1) reader) := by
  rw [factor_other hnumber hminus hbracket]
  intro limit pending hcall
  have hshift : shift pending reader.ahead = .error (.unexpectedToken reader.ahead) := by
    unfold shift
    cases h : reader.ahead.kind <;> first | contradiction | rfl
  refine Stream.fold_error_head _ _ (head_stream reader) ?_ ?_
  · simp [step, hcall.not_exceeds, hshift]
  · simp [finish, hcall.not_exceeds]

end Factors

/-- Each rule reads a phrase or fails as the machine does, whatever the frames. -/
theorem reads (rule : Rule) (frames : Nat) {reader : Reader} (h : reader.WellFormed) :
    Reads rule frames reader (rule.read frames reader) := by
  induction frames generalizing rule reader with
  | zero => exact reads_zero rule reader
  | succ frames ih =>
    -- expressions and terms differ in their rank only, both read an operand first
    have hrank (rank : Rank) :
        Reads rank.rule (frames + 1) reader (rank.rule.read (frames + 1) reader) := by
      rw [read_rank]
      refine After.bind ((ih rank.operand h).imp ?_ ?_)
      · rintro left past ⟨hread, hends⟩
        rw [get_bind]
        exact after_chain (fun _ => ih rank.operand) past.unread hread.operand hends (Nat.le_refl _)
      · intro fault hfault limit pending hcall
        exact hfault limit pending hcall.operand
    cases rule with
    | expression => exact hrank .additive
    | term => exact hrank .multiplicative
    | factor =>
      by_cases hnumber : reader.ahead.kind = .number
      · exact reads_number hnumber
      by_cases hminus : reader.ahead.kind = .minus
      · exact reads_minus hminus fun _ => ih .factor
      by_cases hbracket : reader.ahead.kind = .bracketOpen
      · exact reads_bracketOpen hbracket fun _ => ih .expression
      exact reads_other hnumber hminus hbracket

end Abacus.Reader
