import Abacus.Proofs.Evaluation.Blanks
import Abacus.Proofs.Evaluation.Places
import Abacus.Proofs.Token.Line

/-!
# Evaluation by ordinals

Evaluation looks at what the tokens are and at which of them comes first. The
positions of the tokens of one source are all different, so a map of positions
takes them to those of another source with the same tokens, and the outcome of
the one to that of the other. A fault stands at a token, since a map that
leaves all tokens in place moves no fault.
-/

namespace Abacus

variable {limit : Nat} {source other line : Text} {tokens others : List Token} {fault : Fault}

theorem Token.exists_relocate (hnodup : (tokens.map Token.position).Nodup)
    (h : tokens.map content = others.map content) : ∃ g, tokens.map (relocate g) = others := by
  induction tokens generalizing others with
  | nil => exact ⟨id, (List.map_eq_nil_iff.mp h.symm).symm⟩
  | cons token tokens ih =>
    obtain ⟨image, images, rfl, hcontent, htail⟩ := List.map_eq_cons_iff.mp h.symm
    obtain ⟨hfresh, hnodup⟩ := List.nodup_cons.mp hnodup
    obtain ⟨g, rfl⟩ := ih hnodup htail.symm
    refine ⟨Function.update g token.position image.position, ?_⟩
    have hhead : token.relocate (Function.update g token.position image.position) = image := by
      obtain ⟨kind, lexeme, position⟩ := image
      cases hcontent
      simp [relocate]
    have hrest : tokens.map (relocate (Function.update g token.position image.position)) =
        tokens.map (relocate g) := by
      refine List.map_congr_left fun later hmem => ?_
      have hne : later.position ≠ token.position := by
        intro heq
        exact hfresh (heq ▸ List.mem_map_of_mem hmem)
      simp [relocate, hne]
    rw [List.map_cons, hhead, hrest]

theorem nodup_position_of_tokenize (h : tokenize source = .ok tokens) :
    (tokens.map Token.position).Nodup := by
  obtain ⟨words, rfl, hpartition⟩ := Partition.of_tokenize h
  rw [List.Nodup, List.pairwise_map]
  exact hpartition.ordered.imp fun hbefore => Nat.ne_of_lt hbefore.1

theorem Cursor.Yields.isAllBlank {start : Nat} {stream : Stream} {token : Token}
    (h : Yields start source stream) (hlast : stream.last = .ok token)
    (htokens : stream.tokens = []) : source.isAllBlank := by
  cases h with
  | blank hblanks => exact hblanks
  | fault _ => cases hlast
  | token => simp [Stream.prepend] at htokens

theorem isAllBlank_iff_of_tokenize (h : tokenize source = .ok tokens) :
    source.isAllBlank ↔ tokens.length = 1 := by
  obtain ⟨words, rfl, hstream, hyields⟩ := stream_of_tokenize h
  constructor
  · intro hblank
    rw [Cursor.stream_blank hblank] at hstream
    obtain rfl : [] = words := congrArg Stream.tokens hstream
    rfl
  · intro hlength
    obtain rfl : words = [] := by simpa using hlength
    exact hyields.isAllBlank rfl rfl

/-- The streams of two sources are taken to each other as their tokens are. -/
theorem stream_relocate_of_tokenize {g : Nat → Nat} (h : tokenize source = .ok tokens)
    (hother : tokenize other = .ok (tokens.map (Token.relocate g))) :
    (Cursor.start source).stream.relocate g = (Cursor.start other).stream := by
  obtain ⟨words, rfl, hstream, -⟩ := stream_of_tokenize h
  obtain ⟨otherWords, heq, hotherStream, -⟩ := stream_of_tokenize hother
  rw [List.map_append, List.map_singleton] at heq
  obtain ⟨hwords, hend⟩ := List.append_inj' heq rfl
  rw [Cursor.start, Cursor.start, hstream, hotherStream, Stream.relocate, hwords]
  exact congrArg (Stream.mk otherWords ∘ Except.ok) (List.cons.inj hend).1

/-- A fault of a source that consists of tokens stands at one of them. -/
theorem exists_token_at_place (h : tokenize source = .ok tokens)
    (hfault : evaluateWithin limit source = .error fault) :
    ∀ i ∈ fault.places, ∃ token ∈ tokens, i = token.position := by
  intro i hi
  -- a map that leaves the tokens where they are leaves the fault as it is
  let g (n : Nat) : Nat := if n ∈ tokens.map Token.position then n else n + 1
  have htokens : tokens.map (Token.relocate g) = tokens := by
    have hfixed (token : Token) (hmem : token ∈ tokens) : token.relocate g = token := by
      have hposition : g token.position = token.position := if_pos (List.mem_map_of_mem hmem)
      simp [Token.relocate, hposition]
    simpa using List.map_congr_left hfixed
  have hstream : (Cursor.start source).stream.relocate g = (Cursor.start source).stream :=
    stream_relocate_of_tokenize h (htokens.symm ▸ h)
  have houtcome := @evaluateWithin_relocate limit source g source rfl hstream
  rw [hfault] at houtcome
  have hplace := Fault.eq_of_relocate_eq (Except.error.inj houtcome) i hi
  unfold indexMap at hplace
  by_contra hnone
  have hmoves : g i.toNat = i.toNat + 1 := by
    apply if_neg
    intro hmem
    obtain ⟨token, htoken, hposition⟩ := List.mem_map.mp hmem
    exact hnone ⟨token, htoken, by omega⟩
  omega

theorem place?_eq_none_of_tokenize (h : tokenize source = .ok tokens)
    (hfault : evaluateWithin limit source = .error fault) : fault.cause.place? = none := by
  cases designates_of_evaluateWithin hfault with
  | @invalidCharacter before c after hsource hblank hnumeral hkind =>
    have hoffender : Text.Unreadable source 0 (.invalidCharacter c (0 + before.length)) :=
      .character hsource hblank hnumeral hkind
    exact absurd hoffender (exists_tokenize_iff.mp ⟨tokens, h⟩ _)
  | _ => rfl

theorem Cause.relocate_eq {f : Int → Int} {cause : Cause} (h : cause.place? = none) :
    cause.relocate f = cause := by
  cases cause with
  | invalidCharacter char position => cases h
  | _ => rfl

/-- Moved to other positions, a fault stands at the token with the same ordinal number. -/
theorem ordinal_of_evaluateWithin (h : tokenize source = .ok tokens)
    (hfault : evaluateWithin limit source = .error fault) (g : Nat → Nat) :
    fault.index = none ∧ (fault.relocate (indexMap g)).index = none ∨
      ∃ (n : Nat) (token counterpart : Token), tokens[n]? = some token ∧
        (tokens.map (Token.relocate g))[n]? = some counterpart ∧
        fault.index = some (token.position : Int) ∧
        (fault.relocate (indexMap g)).index = some (counterpart.position : Int) := by
  cases hindex : fault.index with
  | none => exact .inl ⟨rfl, by simp [Fault.relocate, hindex]⟩
  | some i =>
    have hplace : i ∈ fault.places := by simp [Fault.places, hindex]
    obtain ⟨token, hmem, rfl⟩ := exists_token_at_place h hfault i hplace
    obtain ⟨n, hn⟩ := List.mem_iff_getElem?.mp hmem
    exact .inr ⟨n, token, token.relocate g, hn, by simp [hn], rfl,
      by simp [Fault.relocate, Token.relocate, hindex]⟩

/-- The line of tokens determines the outcome. The values are the same, and so are the causes of
faults, which stand at tokens with the same ordinal number. -/
theorem evaluateWithin_of_same_line (h : tokensLine? source = some line)
    (hother : tokensLine? other = some line) :
    ∃ tokens others, tokenize source = .ok tokens ∧ tokenize other = .ok others ∧
      tokens.map Token.kind = others.map Token.kind ∧
      tokens.map Token.lexeme = others.map Token.lexeme ∧
      ((∃ value, evaluateWithin limit source = .ok value ∧
          evaluateWithin limit other = .ok value) ∨
        ∃ fault found, evaluateWithin limit source = .error fault ∧
          evaluateWithin limit other = .error found ∧ fault.cause = found.cause ∧
          (fault.index = none ∧ found.index = none ∨
            ∃ (n : Nat) (token counterpart : Token), tokens[n]? = some token ∧
              others[n]? = some counterpart ∧ fault.index = some (token.position : Int) ∧
              found.index = some (counterpart.position : Int))) := by
  obtain ⟨tokens, others, htokens, hothers, hcontent⟩ := content_eq_of_tokensLine?_eq h hother
  have hblank : source.isAllBlank = other.isAllBlank := by
    have hlength : tokens.length = others.length := by simpa using congrArg List.length hcontent
    rw [Bool.eq_iff_iff, isAllBlank_iff_of_tokenize htokens, isAllBlank_iff_of_tokenize hothers,
      hlength]
  obtain ⟨g, rfl⟩ := Token.exists_relocate (nodup_position_of_tokenize htokens) hcontent
  have houtcome := @evaluateWithin_relocate limit source g other hblank
    (stream_relocate_of_tokenize htokens hothers)
  refine ⟨tokens, _, htokens, hothers, by simp [Token.relocate], by simp [Token.relocate], ?_⟩
  cases hrun : evaluateWithin limit source with
  | ok value =>
    rw [hrun] at houtcome
    exact .inl ⟨value, rfl, houtcome.symm⟩
  | error fault =>
    rw [hrun] at houtcome
    have hcause : fault.cause.relocate (indexMap g) = fault.cause :=
      Cause.relocate_eq (place?_eq_none_of_tokenize htokens hrun)
    exact .inr ⟨fault, _, rfl, houtcome.symm, hcause.symm,
      ordinal_of_evaluateWithin htokens hrun g⟩

/-- The slash is the second token in both sources. -/
theorem same_line_of_zero_division :
    let line := "tokens: <NUMBER>1 <SLASH>/ <MINUS>- <NUMBER>.0 <EXPR_END>".toList
    tokensLine? "1/-.0".toList = some line ∧ tokensLine? " 1 / - .0 ".toList = some line ∧
      ∃ found, evaluateWithin frames " 1 / - .0 ".toList = .error found ∧
        found.cause = .divisionByZero := by
  intro line
  have hline : tokensLine? "1/-.0".toList = some line := by decide +kernel
  have hother : tokensLine? " 1 / - .0 ".toList = some line := by decide +kernel
  have hzero : evaluateWithin frames "1/-.0".toList = .error (.divisionByZero 1) := by
    decide +kernel
  obtain ⟨_, _, -, -, -, -, ⟨value, hvalue, -⟩ | ⟨fault, found, hfault, hfound, hcause, -⟩⟩ :=
    @evaluateWithin_of_same_line frames _ _ line hline hother
  · rw [hzero] at hvalue
    cases hvalue
  · rw [hzero] at hfault
    cases hfault
    exact ⟨hline, hother, found, hfound, hcause.symm⟩

end Abacus
