import Abacus.Proofs.Token.Advance
import Abacus.Proofs.Token.Partition

/-!
# A cursor that is asked again and again

Whether it yields a token or a fault, a cursor can be asked once more. What it
passes over is blanks and what it has reported: tokens, and runs that are no
numerals. Each of these takes up characters, so there are no more of them than
the source has characters. Behind the last one the cursor stays where it is and
gives one answer for ever, the end or a character that belongs to no token.
-/

namespace Abacus.Cursor

open Text

/-- The cursor behind a number of calls, failed ones among them. -/
def afterCalls (cursor : Cursor) : Nat → Cursor
  | 0 => cursor
  | calls + 1 => stateOf (cursor.afterCalls calls).next

/-- The characters that an answer reports. A run that is no numeral is reported as a number. -/
def reported? : EStateM.Result Fault Cursor Token → Option Token
  | .ok token _ => if token.kind = .exprEnd then none else some token
  | .error fault _ =>
    match fault.cause with
    | .invalidNumber run => some ⟨.number, run, fault.index.elim 0 Int.toNat⟩
    | _ => none

/-- What a number of calls report, one after the other. -/
def reports (cursor : Cursor) : Nat → List Token
  | 0 => []
  | calls + 1 => cursor.reports calls ++ (reported? (cursor.afterCalls calls).next).toList

/-- The cursor has passed over `words` and nothing else but blanks. -/
inductive Passed (source : Text) : List Token → Cursor → Prop
  | start : Passed source [] (start source)
  | blanks {words position blanks rest} : Passed source words ⟨position, blanks ++ rest⟩ →
      isAllBlank blanks → Passed source words ⟨position + blanks.length, rest⟩
  | word {words word rest} : Passed source words ⟨word.position, word.lexeme ++ rest⟩ →
      word.lexeme ≠ [] → Passed source (words ++ [word]) ⟨word.position + word.lexeme.length, rest⟩

/-- One and the same answer is all that comes. -/
inductive Settled (source : Text) (cursor : Cursor) : Prop
  | atEnd : cursor.next = .ok (.atEnd source.length) cursor → Settled source cursor
  | character {c} : source[cursor.position]? = some c →
      cursor.next = .error (.invalidCharacter c cursor.position) cursor → Settled source cursor

/-- A call passes over blanks, and over a word if it reports one, or else it settles the cursor. -/
inductive Answers (source : Text) : Cursor → EStateM.Result Fault Cursor Token → Prop
  | reports {position blanks word rest result} : isAllBlank blanks →
      word.position = position + blanks.length → word.lexeme ≠ [] →
      reported? result = some word →
      stateOf result = ⟨word.position + word.lexeme.length, rest⟩ →
      Answers source ⟨position, blanks ++ (word.lexeme ++ rest)⟩ result
  | settles {position blanks rest result} : isAllBlank blanks → reported? result = none →
      stateOf result = ⟨position + blanks.length, rest⟩ → Settled source (stateOf result) →
      Answers source ⟨position, blanks ++ rest⟩ result

variable {source : Text} {cursor : Cursor} {words : List Token} {word : Token}

namespace On

theorem answers (h : cursor.On source) : Answers source cursor cursor.next := by
  obtain ⟨position, text⟩ := cursor
  cases pieces text with
  | blank hblanks =>
    rw [← List.append_nil text] at h ⊢
    rw [next_blanks hblanks, next_nil]
    refine .settles hblanks rfl rfl (.atEnd ?_)
    rw [← h.append.position_eq_length]
    exact next_nil _
  | @run blanks run rest hblanks hne hrun hrest =>
    rw [next_blanks hblanks, next_run hne hrun hrest]
    have hreports {result} := @Answers.reports source position blanks
      ⟨.number, run, position + blanks.length⟩ rest result hblanks rfl hne
    split
    · exact hreports rfl rfl
    · exact hreports rfl rfl
  | @char blanks c rest hblanks hblank hnumeral =>
    have hnext := next_char hblank hnumeral (position + blanks.length) rest
    rw [next_blanks hblanks, hnext]
    cases hkind : Kind.ofChar? c with
    | some kind =>
      have hne : kind ≠ .exprEnd := by
        rintro rfl
        exact Kind.ofChar?_ne_exprEnd c hkind
      exact @Answers.reports source position blanks ⟨kind, [c], position + blanks.length⟩ rest _
        hblanks rfl (List.cons_ne_nil c []) (if_neg hne) rfl
    | none =>
      rw [hkind] at hnext
      refine .settles hblanks rfl rfl (.character ?_ hnext)
      have hrest : c :: rest = source.drop (position + blanks.length) := h.append.rest_eq
      change source[position + blanks.length]? = some c
      rw [← List.head?_drop, ← hrest, List.head?_cons]

theorem position_of_reported (h : cursor.On source) (hword : reported? cursor.next = some word) :
    cursor.position < (stateOf cursor.next).position ∧
      (stateOf cursor.next).position = word.position + word.lexeme.length := by
  have hanswers := h.answers
  generalize cursor.next = result at hanswers hword ⊢
  cases hanswers with
  | reports hblanks hposition hne hreported hstate =>
    obtain rfl := Option.some.inj (hword.symm.trans hreported)
    have hlength := List.length_pos_of_ne_nil hne
    rw [hstate]
    refine ⟨?_, rfl⟩
    simp only [hposition]
    omega
  | settles _ hnone => simp [hnone] at hword

theorem settled_of_reported (h : cursor.On source) (hnone : reported? cursor.next = none) :
    Settled source (stateOf cursor.next) := by
  have hanswers := h.answers
  generalize cursor.next = result at hanswers hnone ⊢
  cases hanswers with
  | reports _ _ _ hreported => simp [hreported] at hnone
  | settles _ _ _ hsettled => exact hsettled

end On

namespace Passed

theorem on (h : Passed source words cursor) : cursor.On source := by
  induction h with
  | start => exact on_start source
  | blanks _ _ ih => exact ih.append
  | word _ _ ih => exact ih.append

theorem next (h : Passed source words cursor) :
    Passed source (words ++ (reported? cursor.next).toList) (stateOf cursor.next) := by
  have hanswers := h.on.answers
  generalize cursor.next = result at hanswers ⊢
  cases hanswers with
  | reports hblanks hposition hne hreported hstate =>
    rw [hreported, hstate]
    exact .word (hposition ▸ h.blanks hblanks) hne
  | settles hblanks hnone hstate =>
    rw [hnone, hstate, Option.toList_none, List.append_nil]
    exact h.blanks hblanks

/-- What has been reported stands in front of the cursor. -/
theorem before_cursor (h : Passed source words cursor) (hmem : word ∈ words) :
    word.position < cursor.position ∧ word.position + word.lexeme.length ≤ cursor.position := by
  induction h with
  | start => cases hmem
  | blanks _ _ ih =>
    obtain ⟨hlt, hle⟩ := ih hmem
    exact ⟨Nat.lt_add_right _ hlt, Nat.le_add_right_of_le hle⟩
  | word _ hne ih =>
    rcases List.mem_append.mp hmem with hmem | hlast
    · obtain ⟨hlt, hle⟩ := ih hmem
      exact ⟨Nat.lt_add_right _ hlt, Nat.le_add_right_of_le hle⟩
    · obtain rfl := List.mem_singleton.mp hlast
      exact ⟨Nat.lt_add_of_pos_right (List.length_pos_of_ne_nil hne), Nat.le_refl _⟩

theorem lexeme_at (h : Passed source words cursor) (hmem : word ∈ words) :
    word.lexeme <+: source.drop word.position := by
  induction h with
  | start => cases hmem
  | blanks _ _ ih => exact ih hmem
  | word hpassed _ ih =>
    rcases List.mem_append.mp hmem with hmem | hlast
    · exact ih hmem
    · obtain rfl := List.mem_singleton.mp hlast
      exact hpassed.on.prefix_drop

theorem pairwise (h : Passed source words cursor) : words.Pairwise Token.Before := by
  induction h with
  | start => exact .nil
  | blanks _ _ ih => exact ih
  | word hpassed _ ih =>
    refine List.pairwise_append.mpr ⟨ih, List.pairwise_singleton _ _, ?_⟩
    intro earlier hmem later hlast
    obtain rfl := List.mem_singleton.mp hlast
    exact hpassed.before_cursor hmem

theorem isBlank_of_not_covers (h : Passed source words cursor) {place : Nat} {c : Char}
    (hplace : place < cursor.position) (hc : source[place]? = some c)
    (hnone : ∀ word ∈ words, ¬ word.Covers place) : isBlank c := by
  induction h with
  | start => exact absurd hplace (Nat.not_lt_zero place)
  | @blanks words position blanks rest hpassed hblanks ih =>
    by_cases hfront : place < position
    · exact ih hfront hnone
    · have hrest : blanks ++ rest = source.drop position := hpassed.on.rest_eq
      have hinside : place - position < blanks.length := by
        change place < position + blanks.length at hplace
        omega
      have hc' : blanks[place - position]? = some c := by
        rw [← List.getElem?_append_left hinside, hrest, List.getElem?_drop, ← hc]
        congr 1
        omega
      exact List.all_eq_true.mp hblanks c (List.mem_of_getElem? hc')
  | @word words word rest _ _ ih =>
    by_cases hfront : place < word.position
    · exact ih hfront fun other hmem => hnone other (List.mem_append_left _ hmem)
    · have hcovers : word.Covers place := ⟨Nat.le_of_not_lt hfront, hplace⟩
      exact absurd hcovers (hnone word (by simp))

end Passed

theorem passed_afterCalls (source : Text) (calls : Nat) :
    Passed source ((start source).reports calls) ((start source).afterCalls calls) := by
  induction calls with
  | zero => exact .start
  | succ calls ih => exact ih.next

theorem Settled.stateOf_next (h : Settled source cursor) : stateOf cursor.next = cursor := by
  cases h with
  | atEnd hnext => rw [hnext, stateOf]
  | character _ hnext => rw [hnext, stateOf]

/-- As long as the cursor is not settled, each call has taken a character. -/
theorem settled_or_le_position (source : Text) (calls : Nat) :
    Settled source ((start source).afterCalls calls) ∨
      calls ≤ ((start source).afterCalls calls).position := by
  induction calls with
  | zero => exact .inr (Nat.zero_le _)
  | succ calls ih =>
    rw [afterCalls]
    rcases ih with hsettled | hle
    · rw [hsettled.stateOf_next]
      exact .inl hsettled
    · have hon := (passed_afterCalls source calls).on
      cases hreported : reported? ((start source).afterCalls calls).next with
      | some word =>
        exact .inr (Nat.lt_of_le_of_lt hle (hon.position_of_reported hreported).1)
      | none => exact .inl (hon.settled_of_reported hreported)

theorem settled_afterCalls_length (source : Text) :
    Settled source ((start source).afterCalls source.length) := by
  rcases settled_or_le_position source source.length with hsettled | hle
  · exact hsettled
  · have hon := (passed_afterCalls source source.length).on
    generalize (start source).afterCalls source.length = cursor at hon hle ⊢
    obtain ⟨position, rest⟩ := cursor
    obtain rfl : position = source.length := Nat.le_antisymm hon.position_le hle
    obtain rfl : rest = [] := by simpa using hon.rest_eq
    exact .atEnd (next_nil _)

theorem afterCalls_eq_of_length_le {calls : Nat} (h : source.length ≤ calls) :
    (start source).afterCalls calls = (start source).afterCalls source.length := by
  induction h with
  | refl => rfl
  | step _ ih => rw [afterCalls, ih, (settled_afterCalls_length source).stateOf_next]

/-- Over any number of calls the cursor moves forward only, and over nothing but what it reports
and blanks. Once it has been called as often as the source has characters, it gives one answer. -/
theorem afterCalls_settles (source : Text) (calls : Nat) :
    let cursor := (start source).afterCalls calls
    let words := (start source).reports calls
    (cursor.position ≤ source.length ∧ cursor.rest = source.drop cursor.position ∧
      cursor.rest.head? = source[cursor.position]? ∧
      (cursor.rest.head? = none ↔ cursor.position = source.length)) ∧
    cursor.position ≤ (stateOf cursor.next).position ∧
    (∀ word, reported? cursor.next = some word →
      cursor.position < (stateOf cursor.next).position ∧
      (stateOf cursor.next).position = word.position + word.lexeme.length) ∧
    (words.Pairwise Token.Before ∧
      (∀ word ∈ words, word.lexeme <+: source.drop word.position) ∧
      ∀ place c, place < cursor.position → source[place]? = some c →
        (∀ word ∈ words, ¬ word.Covers place) → isBlank c) ∧
    (source.length ≤ calls →
      cursor = (start source).afterCalls source.length ∧ Settled source cursor) := by
  intro cursor words
  have hpassed : Passed source words cursor := passed_afterCalls source calls
  have hon := hpassed.on
  have hhead : cursor.rest.head? = source[cursor.position]? := by
    rw [hon.rest_eq, List.head?_drop]
  refine ⟨⟨hon.position_le, hon.rest_eq, hhead, ?_⟩, position_le_next cursor,
    fun word hword => hon.position_of_reported hword, ?_, ?_⟩
  · rw [hhead, List.getElem?_eq_none_iff]
    exact ⟨fun hle => Nat.le_antisymm hon.position_le hle, fun heq => Nat.le_of_eq heq.symm⟩
  · exact ⟨hpassed.pairwise, fun word hmem => hpassed.lexeme_at hmem,
      fun place c hplace hc hnone => hpassed.isBlank_of_not_covers hplace hc hnone⟩
  · intro hcalls
    have heq : cursor = (start source).afterCalls source.length :=
      afterCalls_eq_of_length_le hcalls
    rw [heq]
    exact ⟨rfl, settled_afterCalls_length source⟩

/-- The run with two points is passed over, the character behind it is not. -/
theorem settles_behind_bad_run :
    let source := "1..2 @+".toList
    source.length ≤ 9 ∧ (start source).reports 9 = [⟨.number, "1..2".toList, 0⟩] ∧
      Settled source ⟨5, "@+".toList⟩ := by
  intro source
  have hcalls : source.length ≤ 9 := by decide
  have hcursor : (start source).afterCalls 9 = ⟨5, "@+".toList⟩ := by decide +kernel
  have hreports : (start source).reports 9 = [⟨.number, "1..2".toList, 0⟩] := by decide +kernel
  have hsettled := ((afterCalls_settles source 9).2.2.2.2 hcalls).2
  rw [hcursor] at hsettled
  exact ⟨hcalls, hreports, hsettled⟩

end Abacus.Cursor
