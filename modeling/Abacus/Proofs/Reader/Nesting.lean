import Abacus.Proofs.Reader.Calls

/-!
# How deep calls are nested

What is open in front of a call tells how many others are active: three rules for
each bracket, the factor of each unary minus, and the rules above its own.
Operands are read by the last of the rules, so most calls are active where an
operand starts.
-/

namespace Abacus.Reader

/-- The active calls, from the innermost to the one that reads all that is in front of `start`. -/
inductive Stacked (start : Reader) : Activation → List Activation → Prop
  | first : Stacked start ⟨.expression, start⟩ []
  | inner {caller callers call} : Stacked start caller callers → Calls caller call →
      Stacked start call (caller :: callers)

namespace Entry

/-- An operand starts, be it a number, a bracket or a unary minus. -/
def isOperand (entry : Entry) : Bool := entry.called.rule = .factor

/-- The tokens of a stream in front of a call. -/
def before (stream : Stream) (entry : Entry) : List Token :=
  stream.tokens.take (stream.tokens.length - entry.called.reader.stream.tokens.length)

/-- What is open in front of a call. -/
def nest (stream : Stream) (entry : Entry) : Nest :=
  (entry.before stream).foldl Nest.behind .initial

theorem before_eq {stream : Stream} {entry : Entry} {tokens : List Token}
    (h : stream = entry.called.reader.stream.prepend tokens) : entry.before stream = tokens := by
  rw [before, h, Stream.prepend, List.length_append, Nat.add_sub_cancel_right, List.take_left]

end Entry

section Stacks

variable {start : Reader} {callers : List Activation} {call : Activation} {entry : Entry}
  {course : Course Float} {entries : List Entry} {result : EStateM.Result Fault Reader Float}

theorem Stacked.wellFormed (hformed : start.WellFormed) (h : Stacked start call callers) :
    call.reader.WellFormed := by
  cases h with
  | first => exact hformed
  | inner _ hcalls => exact hcalls.wellFormed

/-- A call is made by as many others as are active for the brackets and minuses around it. Only a
factor may be the operand of a minus. -/
theorem Stacked.exists_nest (hformed : start.WellFormed) (h : Stacked start call callers) :
    ∃ minuses outer, Passes start .initial call.reader ⟨true, minuses, outer⟩ ∧
      (call.rule ≠ .factor → minuses = 0) ∧
      callers.length = call.rule.level + Nest.weight ⟨true, minuses, outer⟩ := by
  induction h with
  | first => exact ⟨0, [], .refl hformed _, fun _ => rfl, rfl⟩
  | inner _ hcalls ih =>
    obtain ⟨minuses, outer, hpasses, hfactor, hlength⟩ := ih
    cases hcalls with
    | @operand rank reader past hinner =>
      have hrule : rank.rule ≠ .factor := by cases rank <;> decide
      obtain rfl := hfactor hrule
      refine ⟨0, outer, hpasses.trans (hinner outer), fun _ => rfl, ?_⟩
      rw [List.length_cons, hlength, Rank.level_rule, Rank.level_operand]
      omega
    | negation hinner _ =>
      refine ⟨minuses + 1, outer, hpasses.trans (hinner minuses outer), ?_, ?_⟩
      · exact fun hrule => absurd rfl hrule
      · rw [List.length_cons, hlength]
        simp only [Nest.weight]
        omega
    | bracket hinner _ =>
      refine ⟨0, minuses :: outer, hpasses.trans (hinner minuses outer), fun _ => rfl, ?_⟩
      rw [List.length_cons, hlength]
      simp only [Nest.weight, Rule.level, List.foldr_cons]
      omega

theorem Stacked.stream_eq (hformed : start.WellFormed)
    (h : Stacked start entry.called entry.callers) :
    start.stream = entry.called.reader.stream.prepend (entry.before start.stream) := by
  obtain ⟨minuses, outer, hpasses, _, _⟩ := h.exists_nest hformed
  obtain ⟨tokens, hstream, _⟩ := hpasses.stream_eq
  rw [Entry.before_eq hstream]
  exact hstream

theorem Stacked.depth_eq (hformed : start.WellFormed)
    (h : Stacked start entry.called entry.callers) (hoperand : entry.isOperand) :
    entry.depth = 3 + (entry.nest start.stream).weight := by
  have hrule : entry.called.rule = .factor := of_decide_eq_true hoperand
  obtain ⟨minuses, outer, hpasses, _, hlength⟩ := h.exists_nest hformed
  obtain ⟨tokens, hstream, hnest⟩ := hpasses.stream_eq
  rw [Entry.depth, Entry.nest, Entry.before_eq hstream, hnest, hlength, hrule, Rule.level]
  omega

theorem Performs.stacked (hformed : start.WellFormed)
    (h : Performs callers course entries result) : ∀ yields : Float → Reader → Prop,
      course.Meets (fun rule reader => Stacked start ⟨rule, reader⟩ callers) yields →
        After yields (· ≠ .nestingTooDeep) result ∧
          ∀ entry ∈ entries, Stacked start entry.called entry.callers := by
  -- the plan of a rule that is stacked calls others to be stacked on it
  have hplan {rule : Rule} {reader : Reader} {callers : List Activation}
      (hstacked : Stacked start ⟨rule, reader⟩ callers) :
      (plan rule reader).Meets
        (fun callee called => Stacked start ⟨callee, called⟩ (⟨rule, reader⟩ :: callers))
        fun _ past => Completes reader past :=
    (meets_plan rule (hstacked.wellFormed hformed)).imp fun _ _ => hstacked.inner
  induction h with
  | done =>
    intro yields hmeets
    exact ⟨hmeets, List.forall_mem_nil _⟩
  | fails _ ih =>
    intro yields hmeets
    obtain ⟨hfault, hinner⟩ := ih _ (hplan hmeets.1)
    exact ⟨hfault, List.forall_mem_cons.mpr ⟨hmeets.1, hinner⟩⟩
  | yields _ _ ihinner ihrest =>
    intro yields hmeets
    obtain ⟨hoperand, hinner⟩ := ihinner _ (hplan hmeets.1)
    obtain ⟨hresult, hrest⟩ := ihrest yields (hmeets.2 _ _ hoperand)
    exact ⟨hresult,
      List.forall_mem_append.mpr ⟨List.forall_mem_cons.mpr ⟨hmeets.1, hinner⟩, hrest⟩⟩

theorem Performs.operand_mem {rank : Rank} {reader : Reader}
    (h : Performs callers (plan rank.rule reader) entries result) :
    ⟨⟨rank.operand, reader⟩, callers⟩ ∈ entries := by
  rw [plan_rank] at h
  change Performs callers (.call rank.operand reader _) entries result at h
  cases h with
  | fails _ => exact List.mem_cons_self
  | yields _ _ => exact List.mem_cons_self

/-- A call is an operand itself, or its rule calls others until one is. -/
theorem Performs.exists_operand_of_plan {rule : Rule} {reader : Reader}
    (h : Performs (⟨rule, reader⟩ :: callers) (plan rule reader) entries result)
    (hentries : ∀ entry ∈ entries, ∃ operand ∈ entries, operand.isOperand ∧
      entry.depth ≤ operand.depth) :
    ∀ entry ∈ (⟨⟨rule, reader⟩, callers⟩ : Entry) :: entries,
      ∃ operand ∈ (⟨⟨rule, reader⟩, callers⟩ : Entry) :: entries, operand.isOperand ∧
        entry.depth ≤ operand.depth := by
  have hinner {entry : Entry} (hentry : entry ∈ entries) :
      ∃ operand ∈ (⟨⟨rule, reader⟩, callers⟩ : Entry) :: entries, operand.isOperand ∧
        entry.depth ≤ operand.depth := by
    obtain ⟨operand, hmem, hoperand⟩ := hentries entry hentry
    exact ⟨operand, List.mem_cons_of_mem _ hmem, hoperand⟩
  have hrank (rank : Rank)
      (h : Performs (⟨rule, reader⟩ :: callers) (plan rank.rule reader) entries result) :
      ∃ operand ∈ (⟨⟨rule, reader⟩, callers⟩ : Entry) :: entries, operand.isOperand ∧
        callers.length + 1 ≤ operand.depth := by
    obtain ⟨operand, hmem, hoperand, hdepth⟩ := hinner h.operand_mem
    exact ⟨operand, hmem, hoperand, Nat.le_of_succ_le hdepth⟩
  intro entry hentry
  rcases List.mem_cons.mp hentry with rfl | hentry
  · cases rule with
    | expression => exact hrank .additive h
    | term => exact hrank .multiplicative h
    | factor => exact ⟨_, List.mem_cons_self, rfl, Nat.le_refl _⟩
  · exact hinner hentry

/-- The deepest calls are those of operands. -/
theorem Performs.exists_operand (h : Performs callers course entries result) :
    ∀ entry ∈ entries, ∃ operand ∈ entries, operand.isOperand ∧ entry.depth ≤ operand.depth := by
  induction h with
  | done => exact List.forall_mem_nil _
  | fails hcall ih => exact hcall.exists_operand_of_plan ih
  | @yields _ _ _ _ inner _ _ rest _ hcall _ ihinner ihrest =>
    intro entry hentry
    rcases List.mem_append.mp hentry with hentry | hentry
    · obtain ⟨operand, hmem, hoperand⟩ := hcall.exists_operand_of_plan ihinner entry hentry
      exact ⟨operand, List.mem_append_left rest hmem, hoperand⟩
    · obtain ⟨operand, hmem, hoperand⟩ := ihrest entry hentry
      exact ⟨operand, List.mem_append_right _ hmem, hoperand⟩

theorem after_complete {reader : Reader} (value : Float) :
    After (fun _ _ => True) (· ≠ .nestingTooDeep) (complete value reader) := by
  by_cases hend : reader.ahead.kind = .exprEnd
  · by_cases hopened : reader.opened = 0
    · rw [complete_end hend hopened]
      trivial
    · rw [complete_opened hend hopened]
      change Fault.mk _ _ ≠ Fault.nestingTooDeep
      intro h
      cases h
  · rw [complete_token hend]
    change Fault.trailing _ ≠ Fault.nestingTooDeep
    intro h
    cases h

theorem meets_whole (start : Reader) :
    (whole start).Meets (fun rule reader => Stacked start ⟨rule, reader⟩ []) fun _ _ => True := by
  apply meets_bind
  apply meets_call .first
  intro value past _
  exact after_complete value

theorem exists_performs_whole (hformed : start.WellFormed) :
    ∃ entries result, Performs [] (whole start) entries result := by
  have hmeets := (meets_whole start).imp fun rule reader hstacked =>
    exists_performs _ rule reader [⟨rule, reader⟩] (Nat.lt_succ_self _)
      (hstacked.wellFormed hformed)
  obtain ⟨entries, result, hperforms, _⟩ := exists_performs_of_meets hmeets
  exact ⟨entries, result, hperforms⟩

end Stacks

section Peaks

variable {numbers : List Nat} {entries : List Entry} {bound : Nat}

/-- The largest of some numbers, or zero. -/
def highest (numbers : List Nat) : Nat := numbers.max?.getD 0

theorem highest_le_iff : highest numbers ≤ bound ↔ ∀ number ∈ numbers, number ≤ bound := by
  unfold highest
  cases hmax : numbers.max? with
  | none =>
    rw [List.max?_eq_none_iff] at hmax
    simp [hmax]
  | some number =>
    rw [Option.getD_some]
    exact List.max?_le_iff hmax

theorem add_highest_le_iff (hne : numbers ≠ []) (base : Nat) :
    base + highest numbers ≤ bound ↔ ∀ number ∈ numbers, base + number ≤ bound := by
  constructor
  · intro h number hnumber
    have hle := highest_le_iff.mp (Nat.le_refl _) number hnumber
    omega
  · intro h
    obtain ⟨first, hfirst⟩ := List.exists_mem_of_ne_nil numbers hne
    have hbase := h first hfirst
    have hhighest : highest numbers ≤ bound - base := by
      rw [highest_le_iff]
      intro number hnumber
      have hle := h number hnumber
      omega
    omega

/-- The largest number of calls that are active at the same time. -/
def peak (entries : List Entry) : Nat := highest (entries.map Entry.depth)

def operands (entries : List Entry) : List Entry := entries.filter Entry.isOperand

theorem peak_le_iff : peak entries ≤ bound ↔ ∀ entry ∈ entries, entry.depth ≤ bound := by
  unfold peak
  rw [highest_le_iff, List.forall_mem_map]

theorem peak_le_iff_operands {start : Reader} {course : Course Float}
    {result : EStateM.Result Fault Reader Float} (hformed : start.WellFormed)
    (hperforms : Performs [] course entries result)
    (hstacked : ∀ entry ∈ entries, Stacked start entry.called entry.callers) :
    peak entries ≤ bound ↔
      ∀ operand ∈ operands entries, 3 + (operand.nest start.stream).weight ≤ bound := by
  rw [peak_le_iff]
  constructor
  · intro h operand hoperand
    obtain ⟨hmem, hfactor⟩ := List.mem_filter.mp hoperand
    rw [← (hstacked operand hmem).depth_eq hformed hfactor]
    exact h operand hmem
  · intro h entry hentry
    obtain ⟨operand, hmem, hfactor, hdepth⟩ := hperforms.exists_operand entry hentry
    rw [(hstacked operand hmem).depth_eq hformed hfactor] at hdepth
    exact Nat.le_trans hdepth (h operand (List.mem_filter.mpr ⟨hmem, hfactor⟩))

/-- The heaviest operand tells how many calls are ever active. -/
theorem peak_eq {weight : Entry → Nat} (h : ∀ bound, peak entries ≤ bound ↔
    ∀ operand ∈ operands entries, 3 + weight operand ≤ bound) :
    peak entries =
      if operands entries = [] then 0 else 3 + highest ((operands entries).map weight) := by
  split
  next hnone =>
    rw [← Nat.le_zero, h, hnone]
    exact List.forall_mem_nil _
  next hsome =>
    have hiff (bound : Nat) : peak entries ≤ bound ↔
        3 + highest ((operands entries).map weight) ≤ bound := by
      rw [h, add_highest_le_iff (by simpa using hsome), List.forall_mem_map]
    exact Nat.le_antisymm ((hiff _).mpr (Nat.le_refl _)) ((hiff _).mp (Nat.le_refl _))

end Peaks

end Abacus.Reader
