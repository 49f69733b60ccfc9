import Abacus.Proofs.Evaluation.Machine
import Abacus.Proofs.Reader.Nesting

/-!
# The limit on active rules

The evaluation without a limit comes to an end, and tells of all calls that it
makes. A limit that is never exceeded does not change its outcome, any other
limit replaces it. How many calls are active depends on the brackets and unary
minuses that are open in front of the operands, and not on how long the source is.
-/

namespace Abacus

open Reader

/-- The evaluation of a source without a limit, and the calls of rules that it makes. -/
inductive Evaluates (source : Text) : List Entry → Except Fault Float → Prop
  | blank : source.isAllBlank → Evaluates source [] (.error .emptyExpression)
  | unreadable {fault cursor} : source.isAllBlank = false →
      Reader.start (.start source) = .error fault cursor → Evaluates source [] (.error fault)
  | parse {reader cursor entries result} : source.isAllBlank = false →
      Reader.start (.start source) = .ok reader cursor → Performs [] (whole reader) entries result →
      Evaluates source entries (Reader.outcome result)

theorem exists_evaluates (source : Text) : ∃ entries outcome, Evaluates source entries outcome := by
  cases hblank : source.isAllBlank with
  | true => exact ⟨_, _, .blank hblank⟩
  | false =>
    cases hstart : Reader.start (.start source) with
    | error fault cursor => exact ⟨_, _, .unreadable hblank hstart⟩
    | ok reader cursor =>
      obtain ⟨_, _, hformed⟩ := stream_of_start hstart
      obtain ⟨entries, result, hperforms⟩ := exists_performs_whole hformed
      exact ⟨_, _, .parse hblank hstart hperforms⟩

namespace Evaluates

variable {source : Text} {entries : List Entry} {outcome : Except Fault Float}

theorem ne_nestingTooDeep (h : Evaluates source entries outcome) :
    outcome ≠ .error .nestingTooDeep := by
  cases h with
  | blank _ =>
    intro h
    cases h
  | unreadable _ hstart =>
    have hfault := stream_of_start_fault hstart
    have hne := ne_nestingTooDeep_of_last (congrArg Stream.last hfault)
    exact mt Except.error.inj hne
  | @parse reader cursor entries result _ hstart hperforms =>
    obtain ⟨_, _, hformed⟩ := stream_of_start hstart
    obtain ⟨hafter, _⟩ := hperforms.stacked hformed _ (meets_whole _)
    cases result with
    | ok value past =>
      intro h
      cases h
    | error fault past => exact mt Except.error.inj hafter

theorem evaluateWithin_eq (h : Evaluates source entries outcome) (limit : Nat) :
    evaluateWithin limit source =
      if peak entries ≤ limit then outcome else .error .nestingTooDeep := by
  cases h with
  | blank hblank =>
    rw [evaluateWithin_blank hblank]
    rfl
  | unreadable hblank hstart =>
    rw [evaluateWithin_of_start_fault hblank hstart]
    rfl
  | @parse reader cursor entries result hblank hstart hperforms =>
    rw [evaluateWithin_of_start hblank hstart, parse_eq_answered]
    have hrun := hperforms.limited limit
    rw [List.length_nil, Nat.zero_add] at hrun
    rcases hrun with ⟨hdepth, hresult⟩ | ⟨⟨entry, hentry, hdeep⟩, past, herror⟩
    · rw [if_pos (peak_le_iff.mpr hdepth)]
      exact congrArg Reader.outcome hresult
    · have hpeak : ¬ peak entries ≤ limit := by
        intro hle
        exact absurd (peak_le_iff.mp hle entry hentry) (Nat.not_le.mpr hdeep)
      rw [if_neg hpeak]
      exact congrArg Reader.outcome herror

theorem stream_eq (h : Evaluates source entries outcome) : ∀ entry ∈ entries,
    (Cursor.start source).stream = entry.called.reader.stream.prepend
      (entry.before (Cursor.start source).stream) := by
  cases h with
  | blank _ | unreadable _ _ => exact List.forall_mem_nil _
  | @parse reader cursor entries result _ hstart hperforms =>
    obtain ⟨hstream, _, hformed⟩ := stream_of_start hstart
    obtain ⟨_, hstacked⟩ := hperforms.stacked hformed _ (meets_whole _)
    intro entry hentry
    rw [← hstream]
    exact (hstacked entry hentry).stream_eq hformed

theorem peak_le_iff_operands (h : Evaluates source entries outcome) (bound : Nat) :
    peak entries ≤ bound ↔ ∀ operand ∈ operands entries,
      3 + (operand.nest (Cursor.start source).stream).weight ≤ bound := by
  cases h with
  | blank _ | unreadable _ _ => exact iff_of_true (Nat.zero_le _) (List.forall_mem_nil _)
  | @parse reader cursor entries result _ hstart hperforms =>
    obtain ⟨hstream, _, hformed⟩ := stream_of_start hstart
    obtain ⟨_, hstacked⟩ := hperforms.stacked hformed _ (meets_whole _)
    rw [← hstream]
    exact Reader.peak_le_iff_operands hformed hperforms hstacked

end Evaluates

/-- A limit only replaces the outcome of a source, when more calls would be active. How many calls
are ever active is told by the brackets and unary minuses that are open in front of the operands:
what is closed or complete counts no longer, so length alone meets no limit. -/
theorem evaluateWithin_limit (source : Text) :
    (∃ entries outcome, Evaluates source entries outcome) ∧
    ∀ entries outcome, Evaluates source entries outcome →
      outcome ≠ .error .nestingTooDeep ∧
      (∀ entry ∈ entries, (Cursor.start source).stream =
        entry.called.reader.stream.prepend (entry.before (Cursor.start source).stream)) ∧
      (peak entries =
        if operands entries = [] then 0
        else 3 + highest ((operands entries).map fun operand =>
          (operand.nest (Cursor.start source).stream).weight)) ∧
      ∀ limit,
        (evaluateWithin limit source =
          if peak entries ≤ limit then outcome else .error .nestingTooDeep) ∧
        ((∀ operand ∈ operands entries,
            3 + (operand.nest (Cursor.start source).stream).weight ≤ limit) →
          evaluateWithin limit source = outcome) ∧
        (evaluateWithin limit source ≠ .error .nestingTooDeep → ∀ higher, limit ≤ higher →
          evaluateWithin higher source = evaluateWithin limit source) := by
  refine ⟨exists_evaluates source, ?_⟩
  intro entries outcome h
  refine ⟨h.ne_nestingTooDeep, h.stream_eq, peak_eq h.peak_le_iff_operands, ?_⟩
  intro limit
  refine ⟨h.evaluateWithin_eq limit, ?_, ?_⟩
  · intro hoperands
    rw [h.evaluateWithin_eq, if_pos ((h.peak_le_iff_operands limit).mpr hoperands)]
  · intro hdeep higher hle
    have hpeak : peak entries ≤ limit := by
      by_contra hlt
      rw [h.evaluateWithin_eq, if_neg hlt] at hdeep
      exact hdeep rfl
    rw [h.evaluateWithin_eq, h.evaluateWithin_eq, if_pos hpeak, if_pos (Nat.le_trans hpeak hle)]

/-- The operand in the bracket behind the minus is the deepest one. -/
theorem limit_of_negated_bracket :
    evaluateWithin 6 "-(1)".toList = .error .nestingTooDeep ∧
      evaluateWithin 7 "-(1)".toList ≠ .error .nestingTooDeep ∧
      ∃ entries outcome, Evaluates "-(1)".toList entries outcome ∧ peak entries = 7 := by
  have hsix : evaluateWithin 6 "-(1)".toList = .error .nestingTooDeep := by decide +kernel
  have hseven : evaluateWithin 7 "-(1)".toList ≠ .error .nestingTooDeep := by decide +kernel
  obtain ⟨⟨entries, outcome, hevaluates⟩, hall⟩ := evaluateWithin_limit "-(1)".toList
  obtain ⟨hne, -, -, hlimit⟩ := hall entries outcome hevaluates
  refine ⟨hsix, hseven, entries, outcome, hevaluates, ?_⟩
  have hlower : ¬ peak entries ≤ 6 := by
    intro hle
    rw [(hlimit 6).1, if_pos hle] at hsix
    exact hne hsix
  have hupper : peak entries ≤ 7 := by
    by_contra hlt
    rw [(hlimit 7).1, if_neg hlt] at hseven
    exact hseven rfl
  omega

end Abacus
