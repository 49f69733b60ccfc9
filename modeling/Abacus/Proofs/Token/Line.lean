import Abacus.Proofs.Token.Partition

/-!
# Reading the line of tokens back

The texts of tokens hold no spaces, so the line falls apart into them where its
spaces are. In such a text the name of the kind goes up to the first angle
bracket that closes. So the line tells what its tokens are, but not where they stand.
-/

namespace Abacus

namespace Kind

theorem find?_label (kind : Kind) : all.find? (·.label = kind.label) = some kind := by
  cases kind <;> rfl

theorem label_injective : Function.Injective label := by
  intro kind other h
  have hfound := find?_label kind
  rw [h, find?_label other] at hfound
  exact (Option.some.inj hfound).symm

theorem forall_mem_label (kind : Kind) : ∀ c ∈ kind.label, c ≠ '>' ∧ c ≠ ' ' := by
  have hall : kind.label.all fun c => c != '>' && c != ' ' := by cases kind <;> rfl
  simpa using hall

end Kind

namespace Token

/-- What a token is, wherever it stands. -/
def content (token : Token) : Kind × Text := (token.kind, token.lexeme)

/-- The text of a token with the given content. -/
def shown (content : Kind × Text) : Text := '<' :: content.1.label ++ '>' :: content.2

theorem map_text (tokens : List Token) : tokens.map text = (tokens.map content).map shown := by
  rw [List.map_map]
  rfl

theorem takeWhile_label (kind : Kind) (lexeme : Text) :
    (kind.label ++ '>' :: lexeme).takeWhile (· ≠ '>') = kind.label := by
  rw [List.takeWhile_append_of_pos]
  · simp
  · intro c hc
    simpa using (kind.forall_mem_label c hc).1

theorem shown_injective : Function.Injective shown := by
  rintro ⟨kind, lexeme⟩ ⟨other, others⟩ h
  have htail : kind.label ++ '>' :: lexeme = other.label ++ '>' :: others := (List.cons.inj h).2
  obtain rfl : kind = other := by
    apply Kind.label_injective
    rw [← takeWhile_label kind lexeme, htail, takeWhile_label]
  obtain rfl : lexeme = others := (List.cons.inj (List.append_cancel_left htail)).2
  rfl

theorem space_not_mem_text {token : Token} (h : ' ' ∉ token.lexeme) : ' ' ∉ token.text := by
  have hlabel : ' ' ∉ token.kind.label := fun hmem => (token.kind.forall_mem_label ' ' hmem).2 rfl
  simp [text, hlabel, h]

end Token

variable {source other line : Text} {tokens : List Token}

/-- Where a line of tokens has its spaces, one token ends and the next one starts. -/
theorem splitOn_map_text (h : tokenize source = .ok tokens) :
    ([' '].intercalate (tokens.map Token.text)).splitOn ' ' = tokens.map Token.text := by
  obtain ⟨words, rfl, hpartition⟩ := Partition.of_tokenize h
  apply List.splitOn_intercalate
  · intro text hmem
    obtain ⟨token, htoken, rfl⟩ := List.mem_map.mp hmem
    apply Token.space_not_mem_text
    intro hspace
    rcases List.mem_append.mp htoken with hword | hend
    · have hblank := (hpartition.spelled token hword).isBlank_eq_false hspace
      revert hblank
      decide
    · rw [List.mem_singleton.mp hend] at hspace
      cases hspace
  · simp

theorem exists_tokenize_of_tokensLine? (h : tokensLine? source = some line) :
    ∃ tokens, tokenize source = .ok tokens ∧
      line = "tokens: ".toList ++ [' '].intercalate (tokens.map Token.text) := by
  unfold tokensLine? at h
  cases htokens : tokenize source with
  | error fault => simp [htokens] at h
  | ok tokens =>
    rw [htokens] at h
    exact ⟨tokens, rfl, (Option.some.inj h).symm⟩

theorem content_eq_of_tokensLine?_eq (h : tokensLine? source = some line)
    (hother : tokensLine? other = some line) :
    ∃ tokens others, tokenize source = .ok tokens ∧ tokenize other = .ok others ∧
      tokens.map Token.content = others.map Token.content := by
  obtain ⟨tokens, htokens, hline⟩ := exists_tokenize_of_tokensLine? h
  obtain ⟨others, hothers, hsame⟩ := exists_tokenize_of_tokensLine? hother
  refine ⟨tokens, others, htokens, hothers, List.map_injective_iff.mpr Token.shown_injective ?_⟩
  have htexts := List.append_cancel_left (hline.symm.trans hsame)
  rw [← Token.map_text, ← Token.map_text, ← splitOn_map_text htokens, htexts,
    splitOn_map_text hothers]

end Abacus
