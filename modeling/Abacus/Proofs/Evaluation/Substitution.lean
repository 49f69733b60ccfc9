import Abacus.Proofs.Evaluation.Machine
import Abacus.Proofs.Flat.Relocation

/-!
# Expressions in brackets

What stands in a pair of brackets matters through its value only. The machine
comes to the closing bracket with that value and what had waited before. What
is left to see is how the places behind the brackets move with the length of
the text inside.
-/

namespace Abacus

namespace Flat

/-- Takes in a bracketed expression by its value. Behind an operand no bracket may open. -/
def enter (value : Float) (opening : Token) (state : State) : Except Fault State :=
  match state.operand with
  | none => .ok ⟨state.pending, some value⟩
  | some _ => step none state opening

/-- A run over `before`, a bracketed expression of the given value, and `after`. -/
def runAround (before : Stream) (opening : Token) (value : Float) (after : Stream) :
    Except Fault Float := do
  let state ← before.tokens.foldlM (step none) .initial
  let _ ← before.last
  let state ← enter value opening state
  run none state after

variable {opening closing : Token} {tokens : List Token} {tree : Expr Token} {value : Float}

theorem step_bracketOpen (hopening : opening.kind = .bracketOpen) (pending : List Pending)
    (operand : Float) : ∃ fault, step none ⟨pending, some operand⟩ opening = .error fault := by
  simp only [step]
  cases settle opening.kind.level pending operand with
  | error fault => exact ⟨fault, rfl⟩
  | ok settled =>
    change ∃ fault, receive settled.1 settled.2 opening = .error fault
    unfold receive
    simp only [hopening, Kind.operator?, reduceCtorEq, ↓reduceIte]
    split
    · exact ⟨_, rfl⟩
    · exact ⟨_, rfl⟩

theorem run_enter (hopening : opening.kind = .bracketOpen) (hclosing : closing.kind = .bracketClose)
    (htree : Derives .expression tokens tree) (hvalue : tree.outcome Token.value = .ok value)
    (state : State) (after : Stream) :
    run none state (after.prepend (opening :: (tokens ++ [closing]))) =
      enter value opening state >>= fun state => run none state after := by
  obtain ⟨pending, operand⟩ := state
  cases operand with
  | none =>
    have hzero : closing.kind.level ≤ Rule.expression.level := by
      simp [hclosing, Kind.level, Kind.operator?]
    have hinner := run_derives htree (fits_bracket _ opening.position pending)
      (Stream.head_prepend_cons closing [] after) hzero
    rw [run_bracketed hopening hclosing hinner, hvalue]
    rfl
  | some operand =>
    obtain ⟨fault, hfault⟩ := step_bracketOpen hopening pending operand
    simp only [run, Stream.fold_cons, enter, hfault]
    rfl

theorem run_append (hopening : opening.kind = .bracketOpen)
    (hclosing : closing.kind = .bracketClose) (htree : Derives .expression tokens tree)
    (hvalue : tree.outcome Token.value = .ok value) (before after : Stream) :
    run none .initial (before.append (after.prepend (opening :: (tokens ++ [closing])))) =
      runAround before opening value after := by
  obtain ⟨others, last⟩ := before
  cases last with
  | error fault =>
    simp only [Stream.append, run, Stream.fold, runAround]
    rfl
  | ok token =>
    simp only [Stream.append, runAround]
    rw [run, Stream.fold_prepend]
    exact bind_congr fun state => run_enter hopening hclosing htree hvalue state after

theorem enter_relocate (g : Nat → Nat) (value : Float) (opening : Token) (state : State) :
    relocated g (State.relocate g) (enter value opening state) =
      enter value (opening.relocate g) (state.relocate g) := by
  obtain ⟨pending, operand⟩ := state
  cases operand with
  | none => rfl
  | some operand => exact @step_relocate g none ⟨pending, some operand⟩ opening

theorem runAround_relocate (g : Nat → Nat) (before : Stream) (opening : Token) (value : Float)
    (after : Stream) :
    relocated g id (runAround before opening value after) =
      runAround (before.relocate g) (opening.relocate g) value (after.relocate g) := by
  have hbefore := @foldlM_relocate g none .initial before.tokens
  change _ = List.foldlM (step none) .initial (before.relocate g).tokens at hbefore
  rw [runAround, runAround, ← hbefore]
  apply relocated_bind
  intro state
  apply relocated_bind
  intro token
  rw [← enter_relocate]
  exact relocated_bind _ fun state => run_relocate g state after

end Flat

variable {limit : Nat} {before inner after : Text} {value : Float}

theorem stream_bracketed (before inner after : Text) :
    Cursor.stream ⟨0, before ++ '(' :: (inner ++ ')' :: after)⟩ =
      (Cursor.stream ⟨0, before⟩).append
        (((Cursor.stream ⟨before.length + 1, inner⟩).append
          ((Cursor.stream ⟨before.length + inner.length + 2, after⟩).prepend
            [⟨.bracketClose, [')'], before.length + inner.length + 1⟩])).prepend
          [⟨.bracketOpen, ['('], before.length⟩]) := by
  have hblanks : Text.isAllBlank [] := rfl
  have hopen : Text.EndsRun ('(' :: (inner ++ ')' :: after)) := Text.endsRun_cons (by decide) _
  have hclose : Text.EndsRun (')' :: after) := Text.endsRun_cons (by decide) _
  have hopening : Kind.ofChar? '(' = some .bracketOpen := rfl
  have hclosing : Kind.ofChar? ')' = some .bracketClose := rfl
  have hfirst := Cursor.stream_symbol hblanks hopening (0 + before.length) (inner ++ ')' :: after)
  have hlast := Cursor.stream_symbol hblanks hclosing
    (0 + before.length + 0 + 1 + inner.length) after
  rw [List.nil_append, List.length_nil] at hfirst hlast
  rw [Cursor.stream_append before hopen, hfirst, Cursor.stream_append inner hclose, hlast]
  simp only [Nat.zero_add, Nat.add_zero, Nat.add_assoc, Nat.add_comm 1, Nat.reduceAdd]

/-- The run over `before`, over brackets with `length` characters of the given value in them, and
over `after`. -/
def runBracketed (before : Text) (value : Float) (length : Nat) (after : Text) :
    Except Fault Float :=
  Flat.runAround (Cursor.stream ⟨0, before⟩) ⟨.bracketOpen, ['('], before.length⟩ value
    (Cursor.stream ⟨before.length + length + 2, after⟩)

/-- Evaluation depends on an expression in brackets through its value and its length. -/
theorem evaluateWithin_eq_runBracketed (hvalue : evaluateWithin limit inner = .ok value)
    (hdeep : evaluateWithin limit (before ++ '(' :: (inner ++ ')' :: after)) ≠
      .error .nestingTooDeep) :
    evaluateWithin limit (before ++ '(' :: (inner ++ ')' :: after)) =
      runBracketed before value inner.length after := by
  have hblank : Text.isAllBlank (before ++ '(' :: (inner ++ ')' :: after)) = false := by
    have hbracket : Text.isBlank '(' = false := by decide
    simp [Text.isAllBlank, hbracket]
  obtain ⟨tree, ⟨tokens, token, hstream, -, htree⟩, houtcome⟩ := expresses_of_evaluateWithin hvalue
  -- inside the brackets the same tokens stand, only further to the right
  have hinner : Cursor.stream ⟨before.length + 1, inner⟩ =
      (Cursor.stream ⟨0, inner⟩).relocate (· + (before.length + 1)) :=
    (Cursor.stream_relocate fun i _ => by omega).symm
  change Cursor.stream ⟨0, inner⟩ = _ at hstream
  rw [hstream] at hinner
  have hphrase (rest : Stream) : (Cursor.stream ⟨before.length + 1, inner⟩).append rest =
      rest.prepend (tokens.map (Token.relocate (· + (before.length + 1)))) := by
    rw [hinner]
    rfl
  have hmoved : (tree.relocate (· + (before.length + 1))).outcome Token.value = .ok value := by
    rw [← Expr.relocated_outcome, houtcome]
    rfl
  have hopening : Token.kind ⟨.bracketOpen, ['('], before.length⟩ = .bracketOpen := rfl
  have hclosing : Token.kind ⟨.bracketClose, [')'], before.length + inner.length + 1⟩ =
      .bracketClose := rfl
  rw [evaluateWithin_eq_run_none hblank hdeep, runBracketed,
    ← Flat.run_append hopening hclosing (htree.relocate _) hmoved, Cursor.start, stream_bracketed,
    hphrase, ← Stream.prepend_append, ← Stream.prepend_append]
  rfl

/-- With another length inside the brackets, only the positions behind them move. -/
theorem runBracketed_relocate {g : Nat → Nat} {length other : Nat}
    (hbefore : ∀ n ≤ before.length, g n = n)
    (hafter : ∀ n, g (before.length + length + 2 + n) = before.length + other + 2 + n) :
    relocated g id (runBracketed before value length after) =
      runBracketed before value other after := by
  have hfirst : (Cursor.stream ⟨0, before⟩).relocate g = Cursor.stream ⟨0, before⟩ := by
    apply Cursor.stream_relocate
    intro n hn
    rw [Nat.zero_add]
    exact hbefore n hn
  have hlast : (Cursor.stream ⟨before.length + length + 2, after⟩).relocate g =
      Cursor.stream ⟨before.length + other + 2, after⟩ :=
    Cursor.stream_relocate fun n _ => hafter n
  have hopening : Token.relocate g ⟨.bracketOpen, ['('], before.length⟩ =
      ⟨.bracketOpen, ['('], before.length⟩ := by
    simp [Token.relocate, hbefore]
  rw [runBracketed, Flat.runAround_relocate, hfirst, hlast, hopening, runBracketed]

theorem places_of_runBracketed {fault : Fault} {length : Nat}
    (h : runBracketed before value length after = .error fault) :
    ∀ i ∈ fault.places, ∃ n : Nat, i = n ∧ (n ≤ before.length ∨ before.length + length < n) := by
  intro i hi
  -- a map that moves only the positions inside leaves the fault as it is
  let g (n : Nat) : Nat := if before.length < n ∧ n ≤ before.length + length then 0 else n
  have hfixed : relocated g id (runBracketed before value length after) =
      runBracketed before value length after := by
    apply runBracketed_relocate
    · intro n hn
      exact if_neg (by omega)
    · intro n
      exact if_neg (by omega)
  rw [h] at hfixed
  have hplace := Fault.eq_of_relocate_eq (Except.error.inj hfixed) i hi
  unfold indexMap at hplace
  refine ⟨i.toNat, by omega, ?_⟩
  by_contra hinside
  have hzero : g i.toNat = 0 := if_pos (by omega)
  rw [hzero] at hplace
  omega

/-- Two expressions of the same value may stand for each other in brackets. -/
theorem evaluateWithin_substitution {other : Text} (hinner : evaluateWithin limit inner = .ok value)
    (hother : evaluateWithin limit other = .ok value)
    (hdeep : evaluateWithin limit (before ++ '(' :: (inner ++ ')' :: after)) ≠
      .error .nestingTooDeep)
    (hotherDeep : evaluateWithin limit (before ++ '(' :: (other ++ ')' :: after)) ≠
      .error .nestingTooDeep) :
    evaluateWithin limit (before ++ '(' :: (other ++ ')' :: after)) =
        (evaluateWithin limit (before ++ '(' :: (inner ++ ')' :: after))).mapError
          (Fault.relocate fun i =>
            if i ≤ before.length then i else i + ((other.length : Int) - inner.length)) ∧
      (∀ fault, evaluateWithin limit (before ++ '(' :: (inner ++ ')' :: after)) = .error fault →
        ∀ i ∈ fault.places, i ≤ before.length ∨ before.length + inner.length < i) ∧
      (∀ fault, evaluateWithin limit (before ++ '(' :: (other ++ ')' :: after)) = .error fault →
        ∀ i ∈ fault.places, i ≤ before.length ∨ before.length + other.length < i) := by
  rw [evaluateWithin_eq_runBracketed hinner hdeep, evaluateWithin_eq_runBracketed hother hotherDeep]
  refine ⟨?_, ?_, ?_⟩
  · let g (n : Nat) : Nat := if n ≤ before.length then n else n + other.length - inner.length
    have hmoved : relocated g id (runBracketed before value inner.length after) =
        runBracketed before value other.length after := by
      apply runBracketed_relocate
      · intro n hn
        exact if_pos hn
      · intro n
        have hbehind : ¬ before.length + inner.length + 2 + n ≤ before.length := by omega
        simp only [g, hbehind, ↓reduceIte]
        omega
    rw [← hmoved]
    cases hrun : runBracketed before value inner.length after with
    | ok result => rfl
    | error fault =>
      apply congrArg Except.error
      apply Fault.relocate_congr
      intro i hi
      obtain ⟨n, rfl, hn⟩ := places_of_runBracketed hrun i hi
      simp only [indexMap_natCast, g]
      split <;> split <;> omega
  · intro fault hfault i hi
    obtain ⟨n, rfl, hn⟩ := places_of_runBracketed hfault i hi
    omega
  · intro fault hfault i hi
    obtain ⟨n, rfl, hn⟩ := places_of_runBracketed hfault i hi
    omega

theorem substitution_of_sum :
    evaluateWithin frames "1+1".toList = .ok 2 ∧ evaluateWithin frames "2".toList = .ok 2 ∧
      evaluateWithin frames "3*(2) )".toList = .error (.trailing ⟨.bracketClose, [')'], 6⟩) := by
  have hsum : evaluateWithin frames "1+1".toList = .ok 2 := by decide +kernel
  have htwo : evaluateWithin frames "2".toList = .ok 2 := by decide +kernel
  have hlonger : evaluateWithin frames "3*(1+1) )".toList =
      .error (.trailing ⟨.bracketClose, [')'], 8⟩) := by decide +kernel
  have hdeep : evaluateWithin frames "3*(1+1) )".toList ≠ .error .nestingTooDeep := by
    decide +kernel
  have hotherDeep : evaluateWithin frames "3*(2) )".toList ≠ .error .nestingTooDeep := by
    decide +kernel
  have hmoved := (@evaluateWithin_substitution frames "3*".toList "1+1".toList " )".toList 2
    "2".toList hsum htwo hdeep hotherDeep).1
  change _ = (evaluateWithin frames "3*(1+1) )".toList).mapError _ at hmoved
  rw [hlonger] at hmoved
  exact ⟨hsum, htwo, hmoved⟩

end Abacus
