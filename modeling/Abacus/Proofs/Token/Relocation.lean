import Abacus.Proofs.Token.Stream

/-!
# Moving positions

Where a token stands matters to nothing but the places of faults. Here the
positions in faults, tokens and streams are moved by a map. A text that is read
from another position on yields its stream moved to there.
-/

namespace Abacus

/-- A map of positions as a map of indices. -/
def indexMap (g : Nat → Nat) (index : Int) : Int := g index.toNat

@[simp] theorem indexMap_natCast (g : Nat → Nat) (position : Nat) :
    indexMap g position = g position := rfl

def Cause.relocate (f : Int → Int) : Cause → Cause
  | invalidCharacter char position => invalidCharacter char (f position)
  | cause => cause

namespace Fault

/-- A fault of the same kind and with the same texts, at other places. -/
def relocate (f : Int → Int) (fault : Fault) : Fault :=
  ⟨fault.cause.relocate f, fault.index.map f⟩

/-- The places that a fault names. -/
def places (fault : Fault) : List Int := fault.index.toList ++ fault.cause.place?.toList

theorem relocate_congr {f f' : Int → Int} {fault : Fault} (h : ∀ i ∈ fault.places, f i = f' i) :
    fault.relocate f = fault.relocate f' := by
  obtain ⟨cause, index⟩ := fault
  have hindex : index.map f = index.map f' :=
    Option.map_congr fun i hi => h i (List.mem_append_left _ (Option.mem_toList.mpr hi))
  have hcause : cause.relocate f = cause.relocate f' := by
    cases cause with
    | invalidCharacter char position =>
      have hposition : f position = f' position := h position (by simp [places, Cause.place?])
      simp only [Cause.relocate, hposition]
    | _ => rfl
  simp only [relocate, hindex, hcause]

theorem eq_of_relocate_eq {f : Int → Int} {fault : Fault} (h : fault.relocate f = fault) :
    ∀ i ∈ fault.places, f i = i := by
  obtain ⟨cause, index⟩ := fault
  simp only [relocate, Fault.mk.injEq] at h
  intro i hi
  rcases List.mem_append.mp hi with hi | hi
  · obtain rfl : index = some i := Option.mem_toList.mp hi
    exact Option.some.inj h.2
  · cases cause with
    | invalidCharacter char position =>
      obtain rfl : i = position := by simpa [Cause.place?] using hi
      exact (Cause.invalidCharacter.inj h.1).2
    | _ => simp [Cause.place?] at hi

section Constructors

variable (g : Nat → Nat)

@[simp] theorem relocate_invalidNumber (lexeme : Text) (position : Nat) :
    (invalidNumber lexeme position).relocate (indexMap g) = invalidNumber lexeme (g position) := rfl

@[simp] theorem relocate_invalidCharacter (c : Char) (position : Nat) :
    (invalidCharacter c position).relocate (indexMap g) = invalidCharacter c (g position) := rfl

@[simp] theorem relocate_divisionByZero (position : Nat) :
    (divisionByZero position).relocate (indexMap g) = divisionByZero (g position) := rfl

end Constructors

end Fault

namespace Token

def relocate (g : Nat → Nat) (token : Token) : Token := { token with position := g token.position }

@[simp] theorem relocate_kind (g : Nat → Nat) (token : Token) :
    (token.relocate g).kind = token.kind := rfl

end Token

section Results

variable {α β γ δ : Type} {g : Nat → Nat}

/-- A result with its places moved, those of a value by `move`. -/
def relocated (g : Nat → Nat) (move : α → β) : Except Fault α → Except Fault β
  | .ok value => .ok (move value)
  | .error fault => .error (fault.relocate (indexMap g))

theorem relocated_bind {move : α → β} {move' : γ → δ} {next : α → Except Fault γ}
    {next' : β → Except Fault δ} (result : Except Fault α)
    (h : ∀ value, relocated g move' (next value) = next' (move value)) :
    relocated g move' (result >>= next) = relocated g move result >>= next' := by
  cases result with
  | ok value => exact h value
  | error fault => rfl

end Results

def Stream.relocate (g : Nat → Nat) (stream : Stream) : Stream :=
  ⟨stream.tokens.map (Token.relocate g), relocated g (Token.relocate g) stream.last⟩

theorem Stream.relocate_prepend (g : Nat → Nat) (tokens : List Token) (stream : Stream) :
    (stream.prepend tokens).relocate g =
      (stream.relocate g).prepend (tokens.map (Token.relocate g)) := by
  simp [relocate, prepend]

namespace Cursor

open Text

theorem stream_append_relocate {g : Nat → Nat} {position other : Nat} {text : Text}
    (h : ∀ i < text.length, g (position + i) = other + i) (rest : Stream) :
    ((stream ⟨position, text⟩).append rest).relocate g =
      (stream ⟨other, text⟩).append (rest.relocate g) := by
  induction pieces text generalizing position other with
  | blank hblanks =>
    rw [stream_blank hblanks, stream_blank hblanks]
    rfl
  | @run blanks run others hblanks hne hrun hothers _ ih =>
    have hlength := List.length_pos_of_ne_nil hne
    simp only [List.length_append] at h
    have hhead : g (position + blanks.length) = other + blanks.length := h _ (by omega)
    have htail (i : Nat) (hi : i < others.length) :
        g (position + blanks.length + run.length + i) =
          other + blanks.length + run.length + i := by
      have := h (blanks.length + run.length + i) (by omega)
      simpa [Nat.add_assoc] using this
    rw [stream_run hblanks hne hrun hothers, stream_run hblanks hne hrun hothers]
    split
    · rw [Stream.append_prepend, Stream.append_prepend, Stream.relocate_prepend, ih htail]
      simp [Token.relocate, hhead]
    · simp [Stream.append, Stream.relocate, relocated, hhead]
  | @char blanks c others hblanks hblank hnumeral _ ih =>
    simp only [List.length_append, List.length_cons] at h
    have hhead : g (position + blanks.length) = other + blanks.length := h _ (by omega)
    have htail (i : Nat) (hi : i < others.length) :
        g (position + blanks.length + 1 + i) = other + blanks.length + 1 + i := by
      have := h (blanks.length + 1 + i) (by omega)
      simpa [Nat.add_assoc] using this
    rw [stream_char hblanks hblank hnumeral, stream_char hblanks hblank hnumeral]
    split
    · rw [Stream.append_prepend, Stream.append_prepend, Stream.relocate_prepend, ih htail]
      simp [Token.relocate, hhead]
    · simp [Stream.append, Stream.relocate, relocated, hhead]

theorem stream_relocate {g : Nat → Nat} {position other : Nat} {text : Text}
    (h : ∀ i ≤ text.length, g (position + i) = other + i) :
    (stream ⟨position, text⟩).relocate g = stream ⟨other, text⟩ := by
  have hend :
      (stream ⟨position + text.length, []⟩).relocate g = stream ⟨other + text.length, []⟩ := by
    have hblanks : isAllBlank [] := rfl
    rw [stream_blank hblanks, stream_blank hblanks]
    simp [Stream.relocate, relocated, Token.relocate, Token.atEnd, h]
  have hwhole (start : Nat) :
      stream ⟨start, text⟩ = (stream ⟨start, text⟩).append (stream ⟨start + text.length, []⟩) := by
    rw [← stream_append text endsRun_nil, List.append_nil]
  rw [hwhole position, hwhole other,
    stream_append_relocate fun i hi => h i (Nat.le_of_lt hi), hend]

end Cursor

end Abacus
