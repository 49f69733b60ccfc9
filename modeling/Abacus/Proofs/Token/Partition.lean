import Abacus.Proofs.Token.Offenders

/-!
# The tokens of a source as its parts

A source consists of tokens exactly if nothing in it offends. Its tokens are
then all of it but the blanks: slices of the source, one behind the other, in
which no run of digits and points is cut. A source that does not consist of
tokens has the first of its offenders for a fault.
-/

namespace Abacus

/-- The place is one of those that the token takes up. -/
def Token.Covers (token : Token) (place : Nat) : Prop :=
  token.position ≤ place ∧ place < token.position + token.lexeme.length

/-- The token starts and ends in front of another one. -/
def Token.Before (token later : Token) : Prop :=
  token.position < later.position ∧ token.position + token.lexeme.length ≤ later.position

/-- The words are what the source consists of between blanks, in their order. -/
structure Partition (source : Text) (words : List Token) : Prop where
  kind_ne : ∀ token ∈ words, token.kind ≠ .exprEnd
  lexeme_ne : ∀ token ∈ words, token.lexeme ≠ []
  spelled : ∀ token ∈ words, token.Spelled
  lexeme_at : ∀ token ∈ words, token.lexeme <+: source.drop token.position
  number_run : ∀ token ∈ words, token.kind = .number →
    ∃ before after, Text.Run source before token.lexeme after ∧ before.length = token.position
  ordered : (words ++ [Token.atEnd source.length]).Pairwise Token.Before
  blank : ∀ place c, source[place]? = some c → (∀ token ∈ words, ¬ token.Covers place) →
    Text.isBlank c
  lexemes : words.flatMap Token.lexeme = source.filter (!Text.isBlank ·)

namespace Cursor.Yields

open Text

variable {start : Nat} {text : Text} {stream : Stream} {token : Token}

theorem spelled_of_mem (h : Yields start text stream) (hmem : token ∈ stream.tokens) :
    token.Spelled := by
  obtain ⟨_, _, _, _, hspelled⟩ := h.lexeme_of_mem hmem
  exact hspelled

theorem pairwise (h : Yields start text stream) (hlast : stream.last = .ok token) :
    (stream.tokens ++ [token]).Pairwise Token.Before := by
  induction h with
  | blank hblanks => exact List.pairwise_singleton _ _
  | fault hfault => cases hlast
  | @token start blanks first rest stream hblanks hspelled hposition hseam hrest ih =>
    have hlength := List.length_pos_of_ne_nil hspelled.lexeme_ne_nil
    refine List.pairwise_cons.mpr ⟨fun later hlater => ?_, ih hlast⟩
    have hbehind : start + blanks.length + first.lexeme.length ≤ later.position := by
      rcases List.mem_append.mp hlater with hlater | hend
      · obtain ⟨before, after, -, hplace, -⟩ := hrest.lexeme_of_mem hlater
        omega
      · rw [List.mem_singleton.mp hend, hrest.eq_of_last_ok hlast]
        exact Nat.le_add_right _ _
    unfold Token.Before
    omega

theorem isBlank_of_not_covers (h : Yields start text stream) (hlast : stream.last = .ok token)
    {place : Nat} {c : Char} (hc : text[place]? = some c)
    (hnone : ∀ token ∈ stream.tokens, ¬ token.Covers (start + place)) : isBlank c := by
  induction h generalizing place with
  | blank hblanks => exact List.all_eq_true.mp hblanks c (List.mem_of_getElem? hc)
  | fault hfault => cases hlast
  | @token start blanks first rest stream hblanks hspelled hposition hseam hrest ih =>
    have hfirst : ¬ first.Covers (start + place) := hnone first List.mem_cons_self
    unfold Token.Covers at hfirst
    by_cases hfront : place < blanks.length
    · rw [List.getElem?_append_left hfront] at hc
      exact List.all_eq_true.mp hblanks c (List.mem_of_getElem? hc)
    · have hbehind : blanks.length + first.lexeme.length ≤ place := by omega
      rw [List.getElem?_append_right (by omega), List.getElem?_append_right (by omega)] at hc
      refine ih hlast hc fun later hlater => ?_
      have hplace : start + blanks.length + first.lexeme.length +
          (place - blanks.length - first.lexeme.length) = start + place := by omega
      rw [hplace]
      exact hnone later (List.mem_cons_of_mem _ hlater)

theorem flatMap_lexeme (h : Yields start text stream) (hlast : stream.last = .ok token) :
    stream.tokens.flatMap Token.lexeme = text.filter (!isBlank ·) := by
  have hblank {blanks : Text} (hblanks : isAllBlank blanks) :
      blanks.filter (!isBlank ·) = [] := by
    rw [List.filter_eq_nil_iff]
    intro c hc
    have hc : isBlank c = true := List.all_eq_true.mp hblanks c hc
    simp [hc]
  induction h with
  | blank hblanks => exact (hblank hblanks).symm
  | fault hfault => cases hlast
  | @token start blanks first rest stream hblanks hspelled hposition hseam hrest ih =>
    have hlexeme : first.lexeme.filter (!isBlank ·) = first.lexeme := by
      rw [List.filter_eq_self]
      intro c hc
      simp [hspelled.isBlank_eq_false hc]
    rw [List.filter_append, List.filter_append, hblank hblanks, hlexeme, ← ih hlast]
    rfl

theorem partition (h : Yields 0 text stream) (hlast : stream.last = .ok token) :
    Partition text stream.tokens where
  kind_ne token hmem := (h.spelled_of_mem hmem).kind_ne
  lexeme_ne token hmem := (h.spelled_of_mem hmem).lexeme_ne_nil
  spelled token hmem := h.spelled_of_mem hmem
  lexeme_at token hmem := by
    obtain ⟨before, after, htext, hplace, -⟩ := h.lexeme_of_mem hmem
    rw [htext, hplace, Nat.zero_add, List.drop_left]
    exact List.prefix_append _ _
  number_run token hmem hkind := by
    obtain ⟨before, after, htext, hplace, hspelled, hbefore, hafter⟩ := h.seams_of_mem hmem
    have hall := hspelled.all_numeral hkind
    have hne := hspelled.lexeme_ne_nil
    rw [Nat.zero_add] at hplace
    exact ⟨before, after, ⟨htext, hne, hall, hbefore, hafter.endsRun hne hall⟩, hplace.symm⟩
  ordered := by
    have hend := h.eq_of_last_ok hlast
    rw [Nat.zero_add] at hend
    rw [← hend]
    exact h.pairwise hlast
  blank place c hc hnone := by
    refine h.isBlank_of_not_covers hlast hc fun token hmem => ?_
    rw [Nat.zero_add]
    exact hnone token hmem
  lexemes := h.flatMap_lexeme hlast

end Cursor.Yields

section Listing

variable {source : Text} {tokens : List Token} {fault : Fault}

theorem tokenize_eq (source : Text) :
    tokenize source = (Cursor.stream ⟨0, source⟩).last.map
      ((Cursor.stream ⟨0, source⟩).tokens ++ [·]) :=
  Cursor.tokens_eq_stream _

theorem last_of_tokenize_error (h : tokenize source = .error fault) :
    (Cursor.stream ⟨0, source⟩).last = .error fault := by
  rw [tokenize_eq] at h
  cases hlast : (Cursor.stream ⟨0, source⟩).last with
  | ok token =>
    rw [hlast] at h
    cases h
  | error other =>
    rw [hlast] at h
    cases h
    rfl

/-- A listing holds all tokens of the stream, which comes to the end of the source. -/
theorem stream_of_tokenize (h : tokenize source = .ok tokens) :
    ∃ words, tokens = words ++ [.atEnd source.length] ∧
      Cursor.stream ⟨0, source⟩ = ⟨words, .ok (.atEnd source.length)⟩ ∧
      Cursor.Yields 0 source ⟨words, .ok (.atEnd source.length)⟩ := by
  have hyields := Cursor.yields_stream 0 source
  rw [tokenize_eq] at h
  cases hstream : Cursor.stream ⟨0, source⟩ with
  | mk words last =>
    rw [hstream] at h hyields
    cases last with
    | error fault => cases h
    | ok token =>
      obtain rfl : token = .atEnd source.length := by simpa using hyields.eq_of_last_ok rfl
      cases h
      exact ⟨words, rfl, rfl, hyields⟩

theorem Partition.of_tokenize (h : tokenize source = .ok tokens) :
    ∃ words, tokens = words ++ [.atEnd source.length] ∧ Partition source words := by
  obtain ⟨words, rfl, -, hyields⟩ := stream_of_tokenize h
  exact ⟨words, rfl, hyields.partition rfl⟩

/-- The listing of the tokens fails exactly where there is an offender. -/
theorem exists_tokenize_iff :
    (∃ tokens, tokenize source = .ok tokens) ↔ ∀ fault, ¬ Text.Unreadable source 0 fault := by
  constructor
  · rintro ⟨tokens, h⟩ fault hfault
    obtain ⟨first, hlast, -⟩ := Cursor.stream_precedes hfault
    rw [tokenize_eq, hlast] at h
    cases h
  · intro h
    cases htokens : tokenize source with
    | ok tokens => exact ⟨tokens, rfl⟩
    | error fault =>
      have hlast := last_of_tokenize_error htokens
      exact absurd ((Cursor.yields_stream 0 source).unreadable hlast) (h fault)

theorem precedes_of_tokenize (h : tokenize source = .error fault) {other : Fault}
    (hother : Text.Unreadable source 0 other) : fault.Precedes other := by
  obtain ⟨first, hlast, hprecedes⟩ := Cursor.stream_precedes hother
  rw [last_of_tokenize_error h] at hlast
  cases hlast
  exact hprecedes

/-- A source consists of tokens if it has no other characters and all its runs are numerals. The
tokens are a partition of it, and otherwise the fault is the first offender. -/
theorem tokenize_partition (source : Text) :
    ((∃ tokens, tokenize source = .ok tokens) ↔
      (∀ c ∈ source, Text.isExpressionChar c) ∧ ∀ before run after,
        Text.Run source before run after → (∃ c ∈ run, c.isDigit) ∧ run.count '.' ≤ 1) ∧
    (∀ tokens, tokenize source = .ok tokens →
      ∃ words, tokens = words ++ [.atEnd source.length] ∧ Partition source words) ∧
    ∀ fault, tokenize source = .error fault → Text.Unreadable source 0 fault ∧
      ∀ other, Text.Unreadable source 0 other → fault.Precedes other := by
  refine ⟨?_, ?_, ?_⟩
  · rw [exists_tokenize_iff, Text.forall_not_unreadable_iff]
  · intro tokens h
    exact Partition.of_tokenize h
  · intro fault h
    have hfault := (Cursor.yields_stream 0 source).unreadable (last_of_tokenize_error h)
    exact ⟨hfault, fun other hother => precedes_of_tokenize h hother⟩

/-- The run with two points stands in front of the character of no token. -/
theorem partition_of_two_points :
    tokenize "2 + 1.5. @".toList = .error (.invalidNumber "1.5.".toList 4) ∧
      Fault.Precedes (.invalidNumber "1.5.".toList 4) (.invalidCharacter '@' 9) := by
  have htokenize : tokenize "2 + 1.5. @".toList = .error (.invalidNumber "1.5.".toList 4) := by
    decide +kernel
  refine ⟨htokenize, ((tokenize_partition _).2.2 _ htokenize).2 _ ?_⟩
  exact @Text.Unreadable.character _ 0 "2 + 1.5. ".toList '@' [] rfl (by decide) (by decide) rfl

end Listing

end Abacus
