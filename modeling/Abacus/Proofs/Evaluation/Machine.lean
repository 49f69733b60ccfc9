import Abacus.Proofs.Reader.Phrases

/-!
# Evaluation as a run of the machine

What the rules yield for a source is what the machine with the stack yields for
its stream. Where the limit on the active rules is not exceeded, it is what the
machine yields without a limit.
-/

namespace Abacus

/-- A stream that comes to the end of its source with an expression in front of it. -/
def Stream.Expresses (stream : Stream) (tree : Expr Token) : Prop :=
  ∃ tokens token, stream = ⟨tokens, .ok token⟩ ∧ token.kind = .exprEnd ∧
    Derives .expression tokens tree

/-- The machine takes in an expression as the outcome of its tree. -/
theorem Stream.Expresses.run_eq {stream : Stream} {tree : Expr Token} (h : stream.Expresses tree) :
    Flat.run none .initial stream = tree.outcome Token.value := by
  obtain ⟨tokens, token, rfl, hkind, htree⟩ := h
  have hlevel : token.kind.level ≤ Rule.expression.level := by
    simp [hkind, Kind.level, Kind.operator?]
  have hhead : Stream.head ⟨[], .ok token⟩ = .ok token := rfl
  have hrun := Flat.run_derives htree (Flat.fits_nil _) hhead hlevel
  rw [Stream.prepend, List.append_nil] at hrun
  rw [Flat.State.initial, hrun]
  cases tree.outcome Token.value with
  | error fault => rfl
  | ok value => rfl

namespace Reader

theorem call_initial (limit : Nat) : Call .expression limit limit [] := ⟨Flat.fits_nil _, rfl⟩

theorem after_parse {reader : Reader} (hformed : reader.WellFormed) (hopened : reader.opened = 0)
    (limit : Nat) :
    After
      (fun value _ => Flat.run (some limit) .initial reader.stream = .ok value ∧
        ∃ tree, reader.stream.Expresses tree ∧ tree.outcome Token.value = .ok value)
      (fun fault => Flat.run (some limit) .initial reader.stream = .error fault)
      (parse limit reader) := by
  unfold parse
  refine After.bind ((reads .expression limit hformed).imp ?_ ?_)
  · rintro value past ⟨hread, hends⟩
    have hrun := hread.run_eq limit [] (call_initial limit)
    change Flat.run (some limit) .initial reader.stream = _ at hrun
    by_cases hkind : past.ahead.kind = .exprEnd
    · have hend : past.stream = ⟨[], .ok past.ahead⟩ := by rw [stream, if_pos hkind]
      have hzero : past.opened = 0 := hread.opened_eq.trans hopened
      obtain ⟨tokens, tree, hstream, htree, hvalue⟩ := hread.derives
      rw [hend] at hstream hrun
      rw [get_bind]
      simp only [hkind, hzero]
      refine ⟨hrun, tree, ⟨tokens, past.ahead, ?_, hkind, htree⟩, hvalue⟩
      rw [hstream, Stream.prepend, List.append_nil]
    · rw [get_bind]
      simp only [ne_eq, hkind]
      change Flat.run (some limit) .initial reader.stream = .error (.trailing past.ahead)
      have hoperator := operator?_eq_none_of_endsAt hends
      rw [hrun, stream, if_neg hkind, Flat.run, Stream.fold_cons]
      simp only [Flat.step, Flat.settle, Flat.receive, hoperator, bind, Except.bind]
  · intro fault hfault
    exact hfault limit [] (call_initial limit)

end Reader

variable {limit : Nat} {source : Text} {value : Float}

theorem evaluateWithin_blank (h : source.isAllBlank) :
    evaluateWithin limit source = .error .emptyExpression := by
  rw [evaluateWithin, if_pos h]

/-- What an evaluation keeps of the result of the rules. -/
def Reader.outcome : EStateM.Result Fault Reader Float → Except Fault Float
  | .ok value _ => .ok value
  | .error fault _ => .error fault

section Starts

variable {fault : Fault} {cursor : Cursor} {reader : Reader}

theorem evaluateWithin_of_start_fault (h : source.isAllBlank = false)
    (hstart : Reader.start (Cursor.start source) = .error fault cursor) :
    evaluateWithin limit source = .error fault := by
  simp [evaluateWithin, h, Reader.run, hstart]

theorem evaluateWithin_of_start (h : source.isAllBlank = false)
    (hstart : Reader.start (Cursor.start source) = .ok reader cursor) :
    evaluateWithin limit source = Reader.outcome (Reader.parse limit reader) := by
  simp only [evaluateWithin, h, Bool.false_eq_true, ↓reduceIte, Reader.run, hstart]
  cases Reader.parse limit reader <;> rfl

end Starts

theorem evaluateWithin_spec (h : source.isAllBlank = false) :
    evaluateWithin limit source =
        Flat.run (some limit) .initial (Cursor.start source).stream ∧
      ∀ value, evaluateWithin limit source = .ok value →
        ∃ tree, (Cursor.start source).stream.Expresses tree ∧
          tree.outcome Token.value = .ok value := by
  cases hstart : Reader.start (Cursor.start source) with
  | error fault cursor =>
    rw [evaluateWithin_of_start_fault h hstart, Reader.stream_of_start_fault hstart]
    exact ⟨rfl, fun value hvalue => by cases hvalue⟩
  | ok reader cursor =>
    obtain ⟨hstream, hopened, hformed⟩ := Reader.stream_of_start hstart
    have hafter := Reader.after_parse hformed hopened limit
    rw [evaluateWithin_of_start h hstart, ← hstream]
    cases hparse : Reader.parse limit reader with
    | error fault past =>
      rw [hafter.of_error hparse]
      exact ⟨rfl, fun value hvalue => by cases hvalue⟩
    | ok value past =>
      obtain ⟨hrun, hexpresses⟩ := hafter.of_ok hparse
      rw [hrun]
      constructor
      · rfl
      · intro other hother
        obtain rfl := Except.ok.inj hother
        exact hexpresses

/-- The rules and the machine come to the same outcome. -/
theorem evaluateWithin_eq_run (h : source.isAllBlank = false) :
    evaluateWithin limit source =
      Flat.run (some limit) .initial (Cursor.start source).stream :=
  (evaluateWithin_spec h).1

/-- A value is that of an expression which takes up all tokens. -/
theorem expresses_of_evaluateWithin (h : evaluateWithin limit source = .ok value) :
    ∃ tree, (Cursor.start source).stream.Expresses tree ∧
      tree.outcome Token.value = .ok value := by
  cases hblank : source.isAllBlank with
  | true =>
    rw [evaluateWithin_blank hblank] at h
    cases h
  | false => exact (evaluateWithin_spec hblank).2 value h

theorem evaluateWithin_eq_run_none (h : source.isAllBlank = false)
    (hdeep : evaluateWithin limit source ≠ .error .nestingTooDeep) :
    evaluateWithin limit source = Flat.run none .initial (Cursor.start source).stream := by
  rw [evaluateWithin_eq_run h] at hdeep ⊢
  exact (Flat.run_limit (some limit) .initial _).resolve_left hdeep

end Abacus
