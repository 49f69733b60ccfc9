import Abacus.Proofs.Expr.Longest
import Abacus.Proofs.Reader.Phrases
import Abacus.Proofs.Reader.Uses

/-!
# The longest phrase

A rule that yields a value has read all that can be read by it from where it
started, in whatever state the uses before it have left the reader. The token ahead
is then the first one that the rule leaves to others.
-/

namespace Abacus

namespace Stream

/-- All tokens of a stream, the end among them if the stream comes to it. -/
def all (stream : Stream) : List Token := stream.tokens ++ stream.last.toOption.toList

theorem all_prepend (tokens : List Token) (stream : Stream) :
    (stream.prepend tokens).all = tokens ++ stream.all :=
  List.append_assoc tokens stream.tokens _

theorem head?_all {stream : Stream} {token : Token} (h : stream.head = .ok token) :
    stream.all.head? = some token := by
  obtain ⟨tokens, last⟩ := stream
  cases tokens with
  | nil =>
    change last = .ok token at h
    rw [h]
    rfl
  | cons first tokens =>
    cases h
    rfl

end Stream

theorem Rule.EndsAt.of_term {kind : Kind} (h : Rule.term.EndsAt kind) :
    kind ≠ .star ∧ kind ≠ .slash := by
  constructor
  · rintro rfl
    exact absurd (h .multiply rfl) (by decide)
  · rintro rfl
    exact absurd (h .divide rfl) (by decide)

theorem Rule.EndsAt.of_expression {kind : Kind} (h : Rule.expression.EndsAt kind) :
    kind ∉ [.plus, .minus, .star, .slash] := by
  intro hmem
  have hoperator : ∃ operator, kind.operator? = some operator := by
    cases kind <;> simp_all [Kind.operator?]
  obtain ⟨operator, hoperator⟩ := hoperator
  exact absurd (h operator hoperator) (Nat.not_lt_zero _)

namespace Reader

variable {source : Text} {reader past : Reader}

theorem At.wellFormed (h : At source reader) : reader.WellFormed :=
  fun hkind => (h.spelled hkind).lexeme_ne_nil

/-- Whatever was asked of the reader before, a rule that yields a value has read the longest phrase
of the rule. The value is that of the phrase, no operator of the rule is ahead, and as many brackets
are counted as open as before. -/
theorem read_longest {rule : Rule} {limit : Nat} {value : Float} (h : Reached source reader)
    (hread : rule.read limit reader = .ok value past) :
    ∃ tokens tree, reader.stream = past.stream.prepend tokens ∧
      past.stream.all.head? = some past.ahead ∧
      Derives rule tokens tree ∧ tree.zeroDivisions Token.value = [] ∧
      tree.value Token.value = value ∧
      (rule = .term → past.ahead.kind ≠ .star ∧ past.ahead.kind ≠ .slash) ∧
      (rule = .expression → past.ahead.kind ∉ [.plus, .minus, .star, .slash]) ∧
      (∀ longer other, longer <+: reader.stream.all → Derives rule longer other →
        longer.length ≤ tokens.length) ∧
      past.opened = reader.opened := by
  obtain ⟨hpast, hends⟩ := (reads rule limit h.stands.wellFormed).of_ok hread
  obtain ⟨tokens, tree, hstream, htree, houtcome⟩ := hpast.derives
  have hahead : past.stream.all.head? = some past.ahead := Stream.head?_all (head_stream past)
  obtain ⟨hzero, hvalue⟩ := (Expr.outcome_eq_ok_iff Token.value).mp houtcome
  refine ⟨tokens, tree, hstream, hahead, htree, hzero, hvalue, ?_, ?_, ?_, hpast.opened_eq⟩
  · rintro rfl
    exact hends.of_term
  · rintro rfl
    exact hends.of_expression
  · intro longer other hstart hlonger
    rw [hstream, Stream.all_prepend] at hstart
    refine htree.length_le_of_endsAt ?_ hends hlonger hstart
    intro token htoken
    rw [hahead] at htoken
    exact (Option.some.inj htoken).symm

theorem eq_ok_of_run' {α : Type} {action : Reading α} {value : α}
    (hvalue : action.run' reader = some value) (hpast : stateOf (action reader) = past) :
    action reader = .ok value past := by
  unfold EStateM.run' EStateM.run at hvalue
  cases hresult : action reader with
  | ok other behind =>
    rw [hresult] at hvalue hpast
    cases hvalue
    cases hpast
    rfl
  | error fault behind =>
    rw [hresult] at hvalue
    cases hvalue

/-- The run of points is passed over when the first reading fails, so the term goes on behind it. -/
theorem longest_behind_bad_run :
    let source : Text := "1 .. *2*3-4".toList
    let reader : Reader := ⟨⟨4, " *2*3-4".toList⟩, ⟨.number, ['1'], 0⟩, 0⟩
    let past : Reader := ⟨⟨10, "4".toList⟩, ⟨.minus, ['-'], 9⟩, 0⟩
    Reached source reader ∧ term 9 reader = .ok 6 past ∧
      ∃ tokens tree, reader.stream = past.stream.prepend tokens ∧ Derives .term tokens tree ∧
        tree.value Token.value = 6 ∧
        ∀ longer other, longer <+: reader.stream.all → Derives .term longer other →
          longer.length ≤ tokens.length := by
  intro source reader past
  let first : Reader := ⟨⟨1, " .. *2*3-4".toList⟩, ⟨.number, ['1'], 0⟩, 0⟩
  have hreached : Reached source reader :=
    ⟨first, first.cursor, [.parse 9], rfl, by decide +kernel⟩
  have hread : Rule.term.read 9 reader = .ok 6 past :=
    eq_ok_of_run' (by decide +kernel) (by decide +kernel)
  obtain ⟨tokens, tree, hstream, -, htree, -, hvalue, -, -, hlongest, -⟩ :=
    read_longest hreached hread
  exact ⟨hreached, hread, tokens, tree, hstream, htree, hvalue, hlongest⟩

end Reader

end Abacus
