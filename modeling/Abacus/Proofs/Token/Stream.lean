import Abacus.Evaluation
import Abacus.Proofs.Token.Pieces

/-!
# Streams of tokens

The stream of a cursor holds all that `Cursor.next` yields, one token after the
other, up to the end of the source or to the first fault. Whoever takes tokens
in one at a time is a fold over the stream: a fault is met only when everything
in front of it has been taken in.
-/

namespace Abacus

/-- The end of a source of the given length. -/
def Token.atEnd (length : Nat) : Token := ⟨.exprEnd, [], length⟩

/-- The characters of a token, as its kind demands them. -/
def Token.Spelled (token : Token) : Prop :=
  (token.kind = .number ∧ token.lexeme ≠ [] ∧ token.lexeme.all Text.isNumeralChar) ∨
    ∃ c, token.lexeme = [c] ∧ Kind.ofChar? c = some token.kind

namespace Token.Spelled

variable {token : Token}

theorem lexeme_ne_nil (h : token.Spelled) : token.lexeme ≠ [] := by
  rcases h with ⟨-, hne, -⟩ | ⟨c, hlexeme, -⟩
  · exact hne
  · simp [hlexeme]

theorem kind_ne (h : token.Spelled) : token.kind ≠ .exprEnd := by
  intro hend
  rcases h with ⟨hnumber, -, -⟩ | ⟨c, -, hc⟩
  · rw [hend] at hnumber
    cases hnumber
  · rw [hend] at hc
    exact Kind.ofChar?_ne_exprEnd c hc

theorem isBlank_eq_false (h : token.Spelled) {c : Char} (hc : c ∈ token.lexeme) :
    Text.isBlank c = false := by
  rcases h with ⟨-, -, hnumeral⟩ | ⟨d, hlexeme, hd⟩
  · exact Text.isBlank_eq_false_of_isNumeralChar (List.all_eq_true.mp hnumeral c hc)
  · obtain rfl : c = d := by simpa [hlexeme] using hc
    exact Text.isBlank_eq_false_of_ofChar? hd

theorem all_numeral (h : token.Spelled) (hkind : token.kind = .number) :
    token.lexeme.all Text.isNumeralChar := by
  rcases h with ⟨-, -, hnumeral⟩ | ⟨c, -, hc⟩
  · exact hnumeral
  · rw [hkind] at hc
    exact absurd hc (Kind.ofChar?_ne_number c)

end Token.Spelled

/-- The tokens in front of a cursor, and the end or the fault that comes behind them. -/
structure Stream where
  tokens : List Token
  last : Except Fault Token

namespace Stream

variable {σ α : Type}

def prepend (tokens : List Token) (stream : Stream) : Stream :=
  ⟨tokens ++ stream.tokens, stream.last⟩

/-- One stream behind the other, which is never come to behind a fault. -/
def append (stream rest : Stream) : Stream :=
  match stream.last with
  | .ok _ => rest.prepend stream.tokens
  | .error _ => stream

/-- What comes first. -/
def head (stream : Stream) : Except Fault Token :=
  match stream.tokens with
  | token :: _ => .ok token
  | [] => stream.last

/-- Takes in the tokens with `step` and what is behind them with `finish`. -/
def fold (step : σ → Token → Except Fault σ) (finish : σ → Token → Except Fault α) (state : σ)
    (stream : Stream) : Except Fault α := do
  let state ← stream.tokens.foldlM step state
  finish state (← stream.last)

@[simp] theorem prepend_append (tokens others : List Token) (stream : Stream) :
    stream.prepend (tokens ++ others) = (stream.prepend others).prepend tokens := by
  simp [prepend]

theorem append_prepend (tokens : List Token) (stream rest : Stream) :
    (stream.prepend tokens).append rest = (stream.append rest).prepend tokens := by
  obtain ⟨others, last⟩ := stream
  cases last with
  | error fault => rfl
  | ok token => simp [append, prepend]

@[simp] theorem head_prepend_cons (token : Token) (tokens : List Token) (stream : Stream) :
    (stream.prepend (token :: tokens)).head = .ok token := rfl

variable (step : σ → Token → Except Fault σ) (finish : σ → Token → Except Fault α)

theorem fold_prepend (tokens : List Token) (state : σ) (stream : Stream) :
    (stream.prepend tokens).fold step finish state =
      tokens.foldlM step state >>= fun state => stream.fold step finish state := by
  simp [fold, prepend, List.foldlM_append]

theorem fold_mk_cons (token : Token) (tokens : List Token) (last : Except Fault Token)
    (state : σ) :
    fold step finish state ⟨token :: tokens, last⟩ =
      step state token >>= fun state => fold step finish state ⟨tokens, last⟩ := by
  simp [fold]

theorem fold_cons (token : Token) (tokens : List Token) (state : σ) (stream : Stream) :
    (stream.prepend (token :: tokens)).fold step finish state =
      step state token >>= fun state => (stream.prepend tokens).fold step finish state :=
  fold_mk_cons step finish token (tokens ++ stream.tokens) stream.last state

theorem fold_end (state : σ) (token : Token) :
    fold step finish state ⟨[], .ok token⟩ = finish state token := rfl

theorem fold_fault (state : σ) (fault : Fault) :
    fold step finish state ⟨[], .error fault⟩ = .error fault := rfl

theorem fold_congr_head {state other : σ} {token : Token} {stream : Stream}
    (hhead : stream.head = .ok token) (hstep : step state token = step other token)
    (hfinish : finish state token = finish other token) :
    stream.fold step finish state = stream.fold step finish other := by
  obtain ⟨tokens, last⟩ := stream
  cases tokens with
  | nil =>
    subst hhead
    exact hfinish
  | cons first tokens =>
    cases hhead
    simp [fold, hstep]

theorem fold_error_head {state : σ} {token : Token} {fault : Fault} {stream : Stream}
    (hhead : stream.head = .ok token) (hstep : step state token = .error fault)
    (hfinish : finish state token = .error fault) :
    stream.fold step finish state = .error fault := by
  obtain ⟨tokens, last⟩ := stream
  cases tokens with
  | nil =>
    subst hhead
    exact hfinish
  | cons first tokens =>
    cases hhead
    simp [fold, hstep, bind, Except.bind]

/-- A fault of a fold is that of the stream behind all tokens, or of a step, or of the end. -/
theorem fold_error {state : σ} {stream : Stream} {fault : Fault}
    (h : stream.fold step finish state = .error fault) :
    stream.last = .error fault ∨
      (∃ token ∈ stream.tokens, ∃ state, step state token = .error fault) ∨
      ∃ past token, stream.tokens.foldlM step state = .ok past ∧ stream.last = .ok token ∧
        finish past token = .error fault := by
  obtain ⟨tokens, last⟩ := stream
  induction tokens generalizing state with
  | nil =>
    cases last with
    | error other =>
      rw [fold_fault] at h
      cases h
      exact .inl rfl
    | ok token => exact .inr (.inr ⟨state, token, rfl, rfl, h⟩)
  | cons token tokens ih =>
    rw [fold_mk_cons] at h
    cases hstep : step state token with
    | error other =>
      rw [hstep] at h
      cases h
      exact .inr (.inl ⟨token, List.mem_cons_self, state, hstep⟩)
    | ok next =>
      rw [hstep] at h
      rcases ih h with hlast | ⟨other, hmem, hother⟩ | ⟨past, other, hfold, hlast⟩
      · exact .inl hlast
      · exact .inr (.inl ⟨other, List.mem_cons_of_mem _ hmem, hother⟩)
      · refine .inr (.inr ⟨past, other, ?_, hlast⟩)
        rw [List.foldlM_cons, hstep]
        exact hfold

end Stream

namespace Cursor

/-- All that a cursor yields up to the end or to the first fault. -/
def stream (cursor : Cursor) : Stream :=
  match _ : cursor.next with
  | .error fault _ => ⟨[], .error fault⟩
  | .ok token past =>
    if _ : token.kind = .exprEnd then ⟨[], .ok token⟩
    else past.stream.prepend [token]
termination_by cursor.rest.length
decreasing_by exact Cursor.length_rest_lt ‹_› ‹_›

variable {cursor past : Cursor} {token : Token}

theorem stream_fault {fault : Fault} (h : cursor.next = .error fault past) :
    cursor.stream = ⟨[], .error fault⟩ := by
  rw [stream]
  split
  · simp_all
  · simp_all

theorem stream_end (h : cursor.next = .ok token past) (hkind : token.kind = .exprEnd) :
    cursor.stream = ⟨[], .ok token⟩ := by
  rw [stream]
  split <;> simp_all

theorem stream_token (h : cursor.next = .ok token past) (hkind : token.kind ≠ .exprEnd) :
    cursor.stream = past.stream.prepend [token] := by
  rw [stream]
  split <;> simp_all

theorem stream_eq_of_next_eq {other : Cursor} (h : cursor.next = other.next) :
    cursor.stream = other.stream := by
  cases hnext : other.next with
  | error fault past => rw [stream_fault hnext, stream_fault (h.trans hnext)]
  | ok token past =>
    by_cases hkind : token.kind = .exprEnd
    · rw [stream_end hnext hkind, stream_end (h.trans hnext) hkind]
    · rw [stream_token hnext hkind, stream_token (h.trans hnext) hkind]

section Pieces

open Text

theorem stream_blank {blanks : Text} (h : isAllBlank blanks) (position : Nat) :
    stream ⟨position, blanks⟩ = ⟨[], .ok (.atEnd (position + blanks.length))⟩ := by
  have hnext := next_blanks h position []
  rw [List.append_nil] at hnext
  exact stream_end (hnext.trans (next_nil _)) rfl

theorem stream_run {blanks run rest : Text} (hblanks : isAllBlank blanks) (hne : run ≠ [])
    (hrun : run.all isNumeralChar) (hrest : EndsRun rest) (position : Nat) :
    stream ⟨position, blanks ++ (run ++ rest)⟩ =
      if isNumeral run then
        (stream ⟨position + blanks.length + run.length, rest⟩).prepend
          [⟨.number, run, position + blanks.length⟩]
      else ⟨[], .error (.invalidNumber run (position + blanks.length))⟩ := by
  have hnext := (next_blanks hblanks position (run ++ rest)).trans (next_run hne hrun hrest _)
  split
  next h =>
    rw [if_pos h] at hnext
    exact stream_token hnext (by simp)
  next h =>
    rw [if_neg h] at hnext
    exact stream_fault hnext

theorem stream_char {blanks : Text} {c : Char} (hblanks : isAllBlank blanks)
    (hblank : isBlank c = false) (hnumeral : isNumeralChar c = false) (position : Nat)
    (rest : Text) :
    stream ⟨position, blanks ++ c :: rest⟩ =
      match Kind.ofChar? c with
      | some kind =>
        (stream ⟨position + blanks.length + 1, rest⟩).prepend
          [⟨kind, [c], position + blanks.length⟩]
      | none => ⟨[], .error (.invalidCharacter c (position + blanks.length))⟩ := by
  have hnext := (next_blanks hblanks position (c :: rest)).trans (next_char hblank hnumeral _ _)
  cases hkind : Kind.ofChar? c with
  | none =>
    rw [hkind] at hnext
    exact stream_fault hnext
  | some kind =>
    rw [hkind] at hnext
    apply stream_token hnext
    intro h
    exact Kind.ofChar?_ne_exprEnd c (h ▸ hkind)

theorem stream_symbol {blanks : Text} (hblanks : isAllBlank blanks) {c : Char} {kind : Kind}
    (h : Kind.ofChar? c = some kind) (position : Nat) (rest : Text) :
    stream ⟨position, blanks ++ c :: rest⟩ =
      (stream ⟨position + blanks.length + 1, rest⟩).prepend
        [⟨kind, [c], position + blanks.length⟩] := by
  rw [stream_char hblanks (isBlank_eq_false_of_ofChar? h) (isNumeralChar_eq_false_of_ofChar? h), h]

theorem stream_append_of_seam {position : Nat} (text : Text) {rest : Text} (h : Seam text rest) :
    stream ⟨position, text ++ rest⟩ =
      (stream ⟨position, text⟩).append (stream ⟨position + text.length, rest⟩) := by
  induction pieces text generalizing position with
  | blank hblanks =>
    rw [stream_eq_of_next_eq (next_blanks hblanks position rest), stream_blank hblanks]
    rfl
  | @run blanks run others hblanks hne hrun hothers _ ih =>
    have hseam : Seam (run ++ others) rest := h.of_append
    have hends : EndsRun (others ++ rest) := by
      cases others with
      | nil =>
        rw [List.append_nil] at hseam
        exact hseam.endsRun hne hrun
      | cons c others => exact hothers
    rw [List.append_assoc, List.append_assoc, stream_run hblanks hne hrun hends,
      stream_run hblanks hne hrun hothers]
    split
    · rw [ih hseam.of_append, Stream.append_prepend]
      simp only [List.length_append, Nat.add_assoc]
    · rfl
  | @char blanks c others hblanks hblank hnumeral _ ih =>
    have hseam : Seam others rest := by
      rw [List.append_cons] at h
      exact h.of_append
    rw [List.append_assoc, List.cons_append, stream_char hblanks hblank hnumeral,
      stream_char hblanks hblank hnumeral]
    split
    · rw [ih hseam, Stream.append_prepend]
      simp only [List.length_append, List.length_cons, Nat.add_assoc, Nat.add_comm 1]
    · rfl

/-- A text may be cut in front of anything that no run of digits and points reaches into. -/
theorem stream_append {position : Nat} (text : Text) {rest : Text} (h : EndsRun rest) :
    stream ⟨position, text ++ rest⟩ =
      (stream ⟨position, text⟩).append (stream ⟨position + text.length, rest⟩) :=
  stream_append_of_seam text (h.seam text)

/-- How a text that starts at `start` is read: token after token, with blanks in front of each. -/
inductive Yields : Nat → Text → Stream → Prop
  | blank {start blanks} : isAllBlank blanks →
      Yields start blanks ⟨[], .ok (.atEnd (start + blanks.length))⟩
  | fault {start text fault} : Unreadable text start fault → Yields start text ⟨[], .error fault⟩
  | token {start blanks token rest stream} : isAllBlank blanks → token.Spelled →
      token.position = start + blanks.length → Seam token.lexeme rest →
      Yields (start + blanks.length + token.lexeme.length) rest stream →
      Yields start (blanks ++ (token.lexeme ++ rest)) (stream.prepend [token])

theorem yields_stream (start : Nat) (text : Text) : Yields start text (stream ⟨start, text⟩) := by
  induction pieces text generalizing start with
  | blank hblanks =>
    rw [stream_blank hblanks]
    exact .blank hblanks
  | @run blanks run rest hblanks hne hrun hrest _ ih =>
    rw [stream_run hblanks hne hrun hrest]
    split
    next =>
      exact @Yields.token start blanks ⟨.number, run, start + blanks.length⟩ rest _ hblanks
        (.inl ⟨rfl, hne, hrun⟩) rfl (hrest.seam run) (ih _)
    next hnumeral =>
      exact .fault (.number rfl hne hrun (seam_blanks hblanks run) hrest
        (Bool.eq_false_iff.mpr hnumeral))
  | @char blanks c rest hblanks hblank hnumeral _ ih =>
    rw [stream_char hblanks hblank hnumeral]
    split
    next kind hkind =>
      exact @Yields.token start blanks ⟨kind, [c], start + blanks.length⟩ rest _ hblanks
        (.inr ⟨c, rfl, hkind⟩) rfl (seam_singleton hnumeral rest) (ih _)
    next hkind => exact .fault (.character rfl hblank hnumeral hkind)

namespace Yields

variable {start : Nat} {text : Text} {stream : Stream} {token : Token}

theorem eq_of_last_ok (h : Yields start text stream) (hlast : stream.last = .ok token) :
    token = .atEnd (start + text.length) := by
  induction h with
  | blank hblanks =>
    cases hlast
    rfl
  | fault hfault => cases hlast
  | token hblanks hspelled hposition hseam _ ih => simpa [Nat.add_assoc] using ih hlast

/-- A fault of a stream stands where the text cannot be read on. -/
theorem unreadable {fault : Fault} (h : Yields start text stream)
    (hlast : stream.last = .error fault) : Unreadable text start fault := by
  induction h with
  | blank hblanks => cases hlast
  | fault hfault =>
    cases hlast
    exact hfault
  | token hblanks hspelled hposition hseam _ ih =>
    rw [← List.append_assoc]
    refine Unreadable.append (hseam.append hspelled.lexeme_ne_nil _) ?_
    rw [List.length_append, ← Nat.add_assoc]
    exact ih hlast

theorem seams_of_mem (h : Yields start text stream) (hmem : token ∈ stream.tokens) :
    ∃ before after, text = before ++ (token.lexeme ++ after) ∧
      token.position = start + before.length ∧ token.Spelled ∧
      Seam before token.lexeme ∧ Seam token.lexeme after := by
  induction h with
  | blank hblanks => cases hmem
  | fault hfault => cases hmem
  | @token start blanks first rest stream hblanks hspelled hposition hseam _ ih =>
    rcases List.mem_cons.mp hmem with rfl | hmem
    · exact ⟨blanks, rest, rfl, hposition, hspelled, seam_blanks hblanks _, hseam⟩
    · obtain ⟨before, after, rfl, hplace, hkind, hbefore, hafter⟩ := ih hmem
      refine ⟨blanks ++ (first.lexeme ++ before), after, by simp, ?_, hkind, ?_, hafter⟩
      · simp only [hplace, List.length_append]
        omega
      · rw [← List.append_assoc]
        exact (hseam.append hspelled.lexeme_ne_nil blanks).prepend hbefore hkind.lexeme_ne_nil

/-- A token stands where its position says, and is spelled as its kind demands. -/
theorem lexeme_of_mem (h : Yields start text stream) (hmem : token ∈ stream.tokens) :
    ∃ before after, text = before ++ (token.lexeme ++ after) ∧
      token.position = start + before.length ∧ token.Spelled := by
  obtain ⟨before, after, htext, hplace, hkind, -, -⟩ := h.seams_of_mem hmem
  exact ⟨before, after, htext, hplace, hkind⟩

end Yields

/-- A fault of a stream is a run that is no numeral, or a character of no token. -/
theorem stream_fault_cases {position : Nat} {text : Text} {fault : Fault}
    (h : (stream ⟨position, text⟩).last = .error fault) :
    (∃ run index, fault = .invalidNumber run index) ∨
      ∃ c index, fault = .invalidCharacter c index := by
  cases (yields_stream position text).unreadable h with
  | number => exact .inl ⟨_, _, rfl⟩
  | character => exact .inr ⟨_, _, rfl⟩

end Pieces

/-- Listing all tokens is reading the stream as a whole. -/
theorem tokens_eq_stream (cursor : Cursor) :
    cursor.tokens = cursor.stream.last.map (cursor.stream.tokens ++ [·]) := by
  rw [Cursor.tokens]
  split
  next fault past h => simp [stream_fault h, Except.map]
  next token past h =>
    split
    next hkind => simp [stream_end h hkind, Except.map]
    next hkind =>
      rw [tokens_eq_stream past, stream_token h hkind]
      cases hlast : past.stream.last <;> simp [Stream.prepend, Except.map, hlast]
termination_by cursor.rest.length
decreasing_by exact Cursor.length_rest_lt ‹_› ‹_›

end Cursor

namespace Reader

/-- The token ahead and all that the cursor yields behind it. -/
def stream (reader : Reader) : Stream :=
  if reader.ahead.kind = .exprEnd then ⟨[], .ok reader.ahead⟩
  else reader.cursor.stream.prepend [reader.ahead]

/-- A token other than the end has characters. -/
def WellFormed (reader : Reader) : Prop :=
  reader.ahead.kind ≠ .exprEnd → reader.ahead.lexeme ≠ []

theorem WellFormed.kind_eq_exprEnd {reader : Reader} (h : reader.WellFormed)
    (hunread : reader.unread.length ≤ 0) : reader.ahead.kind = .exprEnd := by
  by_contra hne
  have hlexeme := h hne
  simp_all [Reader.unread]

@[simp] theorem head_stream (reader : Reader) : reader.stream.head = .ok reader.ahead := by
  unfold stream
  split <;> rfl

theorem stream_of_start {cursor past : Cursor} {reader : Reader}
    (h : start cursor = .ok reader past) :
    reader.stream = cursor.stream ∧ reader.opened = 0 ∧ reader.WellFormed := by
  cases hnext : cursor.next with
  | error fault past => simp [start, bind, EStateM.bind, hnext] at h
  | ok token past =>
    simp only [start, bind, EStateM.bind, hnext] at h
    cases h
    refine ⟨?_, rfl, (Cursor.lexeme_of_next hnext).1⟩
    by_cases hkind : token.kind = .exprEnd
    · simp [stream, hkind, Cursor.stream_end hnext hkind]
    · simp [stream, hkind, Cursor.stream_token hnext hkind]

theorem stream_of_start_fault {cursor past : Cursor} {fault : Fault}
    (h : start cursor = .error fault past) : cursor.stream = ⟨[], .error fault⟩ := by
  cases hnext : cursor.next with
  | error other past =>
    simp only [start, bind, EStateM.bind, hnext] at h
    cases h
    exact Cursor.stream_fault hnext
  | ok token past =>
    simp only [start, bind, EStateM.bind, hnext] at h
    cases h

end Reader

end Abacus
