import Abacus.Proofs.Expr.Value
import Abacus.Proofs.Reader.Plans
import Abacus.Proofs.Token.Nest

/-!
# The calls that are active

Without a limit every call of a rule is carried out. All calls that are made are
written down in their order, and each with those that are not over when it is
made. The rules with a number of frames come to the same result if no more calls
than that are ever active, and they are nested too deeply otherwise.

The rules call each other for an operand, behind a minus and in a bracket. Behind
a minus or a bracket less is left to be read, so all calls come to an end.
-/

namespace Abacus.Reader

variable {α β : Type}

/-- A call of a rule, and the reader that it starts with. -/
structure Activation where
  rule : Rule
  reader : Reader

/-- The start of a call, and the calls that wait for it, the innermost first. -/
structure Entry where
  called : Activation
  callers : List Activation

/-- The calls that are active, the one that starts among them. -/
def Entry.depth (entry : Entry) : Nat := entry.callers.length + 1

/-- A course that is carried out for `callers` makes the calls of the entries, and no others. -/
inductive Performs : List Activation → Course Float → List Entry →
    EStateM.Result Fault Reader Float → Prop
  | done {callers result} : Performs callers (.done result) [] result
  | fails {callers rule reader resume inner fault past} :
      Performs (⟨rule, reader⟩ :: callers) (plan rule reader) inner (.error fault past) →
      Performs callers (.call rule reader resume) (⟨⟨rule, reader⟩, callers⟩ :: inner)
        (.error fault past)
  | yields {callers rule reader resume inner value past rest result} :
      Performs (⟨rule, reader⟩ :: callers) (plan rule reader) inner (.ok value past) →
      Performs callers (resume value past) rest result →
      Performs callers (.call rule reader resume) (⟨⟨rule, reader⟩, callers⟩ :: inner ++ rest)
        result

section Limits

variable {depth frames : Nat} {callers : List Activation} {rule : Rule} {reader : Reader}
  {course : Course Float} {entries rest : List Entry}
  {actual result : EStateM.Result Fault Reader Float}

/-- The result is that without a limit, unless a call is deeper than `depth`. -/
def Limited (depth : Nat) (entries : List Entry)
    (actual result : EStateM.Result Fault Reader Float) : Prop :=
  ((∀ entry ∈ entries, entry.depth ≤ depth) ∧ actual = result) ∨
    (∃ entry ∈ entries, depth < entry.depth) ∧ ∃ past, actual = .error .nestingTooDeep past

theorem Limited.append (h : ∀ entry ∈ entries, entry.depth ≤ depth)
    (hrest : Limited depth rest actual result) : Limited depth (entries ++ rest) actual result := by
  rcases hrest with ⟨hdepth, heq⟩ | ⟨⟨entry, hentry, hdeep⟩, herror⟩
  · left
    exact ⟨List.forall_mem_append.mpr ⟨h, hdepth⟩, heq⟩
  · right
    exact ⟨⟨entry, List.mem_append_right entries hentry, hdeep⟩, herror⟩

/-- A call takes one of the frames, its own calls have the others. -/
theorem Limited.call (h : ∀ frames, Limited (callers.length + 1 + frames) entries
      ((plan rule reader).run (·.read frames)) result) :
    Limited (callers.length + frames) (⟨⟨rule, reader⟩, callers⟩ :: entries)
      (rule.read frames reader) result := by
  cases frames with
  | zero =>
    right
    exact ⟨⟨_, List.mem_cons_self, Nat.lt_succ_self _⟩, reader, read_zero rule⟩
  | succ frames =>
    have hread : rule.read (frames + 1) reader = (plan rule reader).run (·.read frames) :=
      congrFun (read_succ rule frames) reader
    have hcall := h frames
    rw [Nat.add_assoc, Nat.add_comm 1, ← hread] at hcall
    have hfirst : ∀ entry ∈ [(⟨⟨rule, reader⟩, callers⟩ : Entry)],
        entry.depth ≤ callers.length + (frames + 1) := by
      rw [List.forall_mem_singleton]
      exact Nat.add_le_add_left (Nat.le_add_left 1 frames) callers.length
    exact Limited.append hfirst hcall

/-- Frames that are enough for all calls do not show in the result. With fewer frames the first
call too many is the end. -/
theorem Performs.limited (h : Performs callers course entries result) : ∀ frames,
    Limited (callers.length + frames) entries (course.run (·.read frames)) result := by
  induction h with
  | done =>
    intro frames
    left
    exact ⟨List.forall_mem_nil _, rfl⟩
  | fails _ ih =>
    intro frames
    rcases Limited.call ih with ⟨hdepth, hread⟩ | ⟨hdeep, past, hread⟩
    · left
      exact ⟨hdepth, Course.run_of_error hread⟩
    · right
      exact ⟨hdeep, past, Course.run_of_error hread⟩
  | @yields _ _ _ _ inner _ _ rest _ _ _ ihinner ihrest =>
    intro frames
    rcases Limited.call ihinner with ⟨hdepth, hread⟩ | ⟨⟨entry, hentry, hdeep⟩, past, hread⟩
    · rw [Course.run_of_ok hread]
      exact (ihrest frames).append hdepth
    · right
      exact ⟨⟨entry, List.mem_append_left rest hentry, hdeep⟩, past, Course.run_of_error hread⟩

end Limits

section Meets

/-- A reader goes over tokens that lead from one nest to another. -/
structure Passes (reader : Reader) (nest : Nest) (past : Reader) (inner : Nest) : Prop where
  wellFormed : past.WellFormed
  unread_le : past.unread.length ≤ reader.unread.length
  stream_eq : ∃ tokens, reader.stream = past.stream.prepend tokens ∧
    tokens.foldl Nest.behind nest = inner

/-- A rule that yields a value has read an operand, for which nothing waits any longer. -/
def Completes (reader past : Reader) : Prop :=
  ∀ minuses outer, Passes reader ⟨true, minuses, outer⟩ past ⟨false, 0, outer⟩

variable {reader past next eaten : Reader} {nest inner innermost : Nest} {token : Token}

theorem Passes.refl (h : reader.WellFormed) (nest : Nest) : Passes reader nest reader nest :=
  ⟨h, Nat.le_refl _, [], rfl, rfl⟩

theorem Passes.trans (h : Passes reader nest past inner)
    (hnext : Passes past inner next innermost) : Passes reader nest next innermost := by
  obtain ⟨tokens, hstream, hinner⟩ := h.stream_eq
  obtain ⟨others, hrest, hinnermost⟩ := hnext.stream_eq
  refine ⟨hnext.wellFormed, Nat.le_trans hnext.unread_le h.unread_le, tokens ++ others, ?_, ?_⟩
  · rw [hstream, hrest, Stream.prepend_append]
  · rw [List.foldl_append, hinner, hinnermost]

theorem Passes.recount (h : Passes reader nest past inner) (opened others : Nat) :
    Passes { reader with opened := opened } nest { past with opened := others } inner :=
  ⟨h.wellFormed, h.unread_le, h.stream_eq⟩

theorem Eaten.passes (h : Eaten reader token eaten) (nest : Nest) :
    Passes reader nest eaten (nest.behind reader.ahead) :=
  ⟨h.wellFormed, Nat.le_of_add_left_le h.unread_le, [reader.ahead], h.stream_eq, rfl⟩

/-- All calls of a course are `allowed`, and it ends with what `yields` says, provided that the
rules read the operands that they are called for. No fault of its own is that of a limit. -/
def Course.Meets (allowed : Rule → Reader → Prop) (yields : α → Reader → Prop) : Course α → Prop
  | done result => After yields (· ≠ .nestingTooDeep) result
  | call rule reader resume => allowed rule reader ∧
      ∀ value past, Completes reader past → (resume value past).Meets allowed yields

variable {allowed : Rule → Reader → Prop} {yields : α → Reader → Prop}

theorem Course.Meets.imp {allowed' : Rule → Reader → Prop} {course : Course α}
    (h : course.Meets allowed yields)
    (hallowed : ∀ rule reader, allowed rule reader → allowed' rule reader) :
    course.Meets allowed' yields := by
  induction course with
  | done result => exact h
  | call rule reader resume ih =>
    exact ⟨hallowed rule reader h.1, fun value past hpast => ih value past (h.2 value past hpast)⟩

theorem meets_bind {plan : Plan β} {next : β → Plan α}
    (h : (plan reader).Meets allowed fun value past => (next value past).Meets allowed yields) :
    ((plan >>= next) reader).Meets allowed yields := by
  change ((plan reader).bind next).Meets allowed yields
  revert h
  generalize plan reader = course
  intro h
  induction course with
  | done result => cases result <;> exact h
  | call rule reader resume ih =>
    exact ⟨h.1, fun value past hpast => ih value past (h.2 value past hpast)⟩

theorem meets_call {rule : Rule} {yields : Float → Reader → Prop} (h : allowed rule reader)
    (hyields : ∀ value past, Completes reader past → yields value past) :
    (Plan.call rule reader).Meets allowed yields := ⟨h, hyields⟩

theorem ne_nestingTooDeep_of_last {cursor : Cursor} {fault : Fault}
    (h : cursor.stream.last = .error fault) : fault ≠ .nestingTooDeep := by
  rcases Cursor.stream_fault_cases h with ⟨run, index, rfl⟩ | ⟨c, index, rfl⟩
  · intro h
    cases h
  · intro h
    cases h

/-- Whatever is wrong with the next token, it is no matter of a limit. -/
theorem after_eat_within {kind : Kind} (hend : kind ≠ .exprEnd) :
    After (Eaten reader) (· ≠ .nestingTooDeep) (eat kind reader) := by
  by_cases hkind : reader.ahead.kind = kind
  · have hahead : reader.ahead.kind ≠ .exprEnd := hkind ▸ hend
    apply (after_eat hkind hend).imp (fun _ _ => id)
    intro fault hstream
    rw [stream, if_neg hahead] at hstream
    exact ne_nestingTooDeep_of_last (congrArg Stream.last hstream)
  · rw [eat_other hkind]
    change Fault.expected _ _ ≠ Fault.nestingTooDeep
    intro h
    cases h

theorem meets_eat {kind : Kind} (hend : kind ≠ .exprEnd) {yields : Token → Reader → Prop}
    (h : ∀ token past, Eaten reader token past → yields token past) :
    ((liftM (eat kind) : Plan Token) reader).Meets allowed yields :=
  (after_eat_within hend).imp h fun _ => id

end Meets

section Plans

/-- What one rule calls another for: an operand, possibly behind operators, or what is behind a
minus or in a bracket. -/
inductive Calls : Activation → Activation → Prop
  | operand {rank : Rank} {reader past} :
      (∀ outer, Passes reader ⟨true, 0, outer⟩ past ⟨true, 0, outer⟩) →
      Calls ⟨rank.rule, reader⟩ ⟨rank.operand, past⟩
  | negation {reader past} :
      (∀ minuses outer, Passes reader ⟨true, minuses, outer⟩ past ⟨true, minuses + 1, outer⟩) →
      past.unread.length < reader.unread.length → Calls ⟨.factor, reader⟩ ⟨.factor, past⟩
  | bracket {reader past} :
      (∀ minuses outer, Passes reader ⟨true, minuses, outer⟩ past ⟨true, 0, minuses :: outer⟩) →
      past.unread.length < reader.unread.length → Calls ⟨.factor, reader⟩ ⟨.expression, past⟩

variable {reader origin past : Reader} {rule : Rule} {rank : Rank}

/-- A course calls other rules as `rule` may, and reads an operand of it. -/
def MeetsRule (rule : Rule) (origin : Reader) (course : Course Float) : Prop :=
  course.Meets (fun callee called => Calls ⟨rule, origin⟩ ⟨callee, called⟩)
    fun _ past => Completes origin past

theorem meets_operations (unread : Text) : ∀ (left : Float) (reader : Reader),
    Completes origin reader → MeetsRule rank.rule origin (operations rank unread left reader) := by
  induction unread with
  | nil =>
    intro left reader hleft
    exact hleft
  | cons c unread ih =>
    intro left reader hleft
    rcases reader.ahead.kind.operator?_cases rank with hnone | ⟨operator, hoperator, rfl⟩
    · rw [operations_stop hnone]
      exact hleft
    · rw [operations_operator hoperator]
      apply meets_bind
      apply meets_eat (Kind.ne_of_operator? hoperator rfl)
      intro token eaten heaten
      have hoperand (minuses : Nat) (outer : List Nat) :
          Passes origin ⟨true, minuses, outer⟩ eaten ⟨true, 0, outer⟩ := by
        have hpasses := heaten.passes ⟨false, 0, outer⟩
        rw [Nest.behind_operator outer hoperator] at hpasses
        exact (hleft minuses outer).trans hpasses
      apply meets_bind
      apply meets_call (.operand (hoperand 0))
      intro right past hright
      apply meets_bind
      cases hvalue : operator.apply reader.ahead.position left right with
      | error fault =>
        obtain ⟨_, rfl⟩ := Operator.apply_error hvalue
        change Fault.divisionByZero _ ≠ Fault.nestingTooDeep
        intro h
        cases h
      | ok value =>
        apply ih
        intro minuses outer
        exact (hoperand minuses outer).trans (hright 0 outer)

theorem meets_ranked (h : reader.WellFormed) : MeetsRule rank.rule reader (ranked rank reader) := by
  apply meets_bind
  apply meets_call (.operand fun outer => .refl h _)
  intro left past hpast
  exact meets_operations past.unread left past hpast

theorem after_close (position : Nat) (value : Float)
    (h : ∀ minuses outer,
      Passes origin ⟨true, minuses, outer⟩ reader ⟨false, 0, minuses :: outer⟩) :
    After (fun _ past => Completes origin past) (· ≠ .nestingTooDeep)
      (close position value reader) := by
  by_cases hend : reader.ahead.kind = .exprEnd
  · rw [close_end hend]
    change Fault.unclosed _ ≠ Fault.nestingTooDeep
    intro h
    cases h
  · rw [close_token hend]
    apply After.bind
    by_cases hclose : reader.ahead.kind = .bracketClose
    · apply (after_eat_within (by decide)).imp
      · intro token closed hclosed minuses outer
        have hpasses := hclosed.passes ⟨false, 0, minuses :: outer⟩
        rw [Nest.behind_bracketClose minuses outer hclose] at hpasses
        exact ((h minuses outer).trans hpasses).recount origin.opened (closed.opened - 1)
      · exact fun _ => id
    · rw [eat_other hclose]
      change Fault.expected _ _ ≠ Fault.nestingTooDeep
      intro h
      cases h

theorem meets_factor (h : reader.WellFormed) : MeetsRule .factor reader (plan .factor reader) := by
  by_cases hnumber : reader.ahead.kind = .number
  · rw [plan_number hnumber]
    apply meets_bind
    apply meets_eat (by decide)
    intro token past hpast minuses outer
    rw [← Nest.behind_number minuses outer hnumber]
    exact hpast.passes _
  by_cases hminus : reader.ahead.kind = .minus
  · rw [plan_minus hminus]
    apply meets_bind
    apply meets_eat (by decide)
    intro token eaten heaten
    have hpasses (minuses : Nat) (outer : List Nat) :
        Passes reader ⟨true, minuses, outer⟩ eaten ⟨true, minuses + 1, outer⟩ := by
      rw [← Nest.behind_minus minuses outer hminus]
      exact heaten.passes _
    have hlexeme := List.length_pos_of_ne_nil (h (by simp [hminus]))
    have hunread := heaten.unread_le
    apply meets_bind
    apply meets_call (.negation hpasses (by omega))
    intro value past hpast minuses outer
    exact (hpasses minuses outer).trans (hpast (minuses + 1) outer)
  by_cases hbracket : reader.ahead.kind = .bracketOpen
  · rw [plan_bracketOpen hbracket]
    apply meets_bind
    apply meets_eat (by decide)
    intro token eaten heaten
    have hpasses (minuses : Nat) (outer : List Nat) :
        Passes reader ⟨true, minuses, outer⟩ eaten ⟨true, 0, minuses :: outer⟩ := by
      rw [← Nest.behind_bracketOpen minuses outer hbracket]
      exact (heaten.passes _).recount reader.opened eaten.opened
    have hlexeme := List.length_pos_of_ne_nil (h (by simp [hbracket]))
    have hunread : reader.ahead.lexeme.length + eaten.unread.length ≤ reader.unread.length :=
      heaten.unread_le
    apply meets_bind
    apply meets_call (.bracket hpasses (by omega))
    intro value past hpast
    apply after_close
    intro minuses outer
    exact (hpasses minuses outer).trans (hpast 0 (minuses :: outer))
  · rw [plan_other hnumber hminus hbracket]
    change Fault.unexpectedToken _ ≠ Fault.nestingTooDeep
    intro h
    cases h

theorem meets_plan (rule : Rule) (h : reader.WellFormed) :
    MeetsRule rule reader (plan rule reader) := by
  cases rule with
  | expression => exact @meets_ranked reader .additive h
  | term => exact @meets_ranked reader .multiplicative h
  | factor => exact meets_factor h

end Plans

section Traces

variable {callers : List Activation} {call caller : Activation} {course : Course Float}
  {entries : List Entry} {result : EStateM.Result Fault Reader Float}

/-- What is left to be read, and the rules that may still be called in front of it. -/
def Activation.measure (call : Activation) : Nat :=
  3 * call.reader.unread.length + (2 - call.rule.level)

theorem Calls.measure_lt (h : Calls caller call) : call.measure < caller.measure := by
  unfold Activation.measure
  cases h with
  | @operand rank reader past hpasses =>
    have hunread := (hpasses []).unread_le
    have hlevel := rank.level_lt
    simp only [Rank.level_rule, Rank.level_operand]
    omega
  | negation _ hunread =>
    simp only
    omega
  | bracket _ hunread =>
    simp only [Rule.level]
    omega

theorem Calls.wellFormed (h : Calls caller call) : call.reader.WellFormed := by
  cases h with
  | operand hpasses => exact (hpasses []).wellFormed
  | negation hpasses _ | bracket hpasses _ => exact (hpasses 0 []).wellFormed

theorem exists_performs_of_meets {yields : Float → Reader → Prop}
    (h : course.Meets (fun rule reader => ∃ inner result,
      Performs (⟨rule, reader⟩ :: callers) (plan rule reader) inner result ∧
        After (fun _ past => Completes reader past) (· ≠ .nestingTooDeep) result) yields) :
    ∃ entries result, Performs callers course entries result ∧
      After yields (· ≠ .nestingTooDeep) result := by
  induction course with
  | done result => exact ⟨[], result, .done, h⟩
  | call rule reader resume ih =>
    obtain ⟨⟨inner, result, hcall, hresult⟩, hresume⟩ := h
    cases result with
    | ok value past =>
      obtain ⟨rest, result, hrest, hafter⟩ := ih value past (hresume value past hresult)
      exact ⟨_, result, .yields hcall hrest, hafter⟩
    | error fault past => exact ⟨_, _, .fails hcall, hresult⟩

/-- Without a limit every call comes to an end, since less is left to be read behind a minus or a
bracket. -/
theorem exists_performs (bound : Nat) : ∀ (rule : Rule) (reader : Reader)
    (callers : List Activation), (Activation.mk rule reader).measure < bound → reader.WellFormed →
      ∃ entries result, Performs callers (plan rule reader) entries result ∧
        After (fun _ past => Completes reader past) (· ≠ .nestingTooDeep) result := by
  induction bound with
  | zero =>
    intro rule reader callers hmeasure
    exact absurd hmeasure (Nat.not_lt_zero _)
  | succ bound ih =>
    intro rule reader callers hmeasure hformed
    apply exists_performs_of_meets
    apply (meets_plan rule hformed).imp
    intro callee called hcalls
    have hless := hcalls.measure_lt
    exact ih callee called _ (by omega) hcalls.wellFormed

end Traces

end Abacus.Reader
