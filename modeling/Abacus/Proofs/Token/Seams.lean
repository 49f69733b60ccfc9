import Abacus.Proofs.Token.Partition
import Abacus.Proofs.Token.Relocation

/-!
# Texts put together

At a seam no run of digits and points goes across from one text into the other.
The tokens of both texts together are then those of the first one without its
end, and behind them those of the second, moved by the length of the first.
Faults of the second text move in the same way, but a fault of the first hides them.
-/

namespace Abacus

open Text

variable {source before after : Text} {fault : Fault} {start : Nat}

/-- Behind a seam a text has its own stream, moved to where the text starts. -/
theorem Cursor.stream_append_shift (h : Seam before after) :
    stream ⟨0, before ++ after⟩ =
      (stream ⟨0, before⟩).append ((stream ⟨0, after⟩).relocate (· + before.length)) := by
  have hmoved : (stream ⟨0, after⟩).relocate (· + before.length) =
      stream ⟨0 + before.length, after⟩ := by
    apply stream_relocate
    intro i _
    omega
  rw [hmoved, stream_append_of_seam before h]

theorem Text.Unreadable.relocate_add (h : Unreadable source start fault) (n : Nat) :
    fault.relocate (indexMap (· + n)) = fault.relocate (· + n) := by
  cases h with
  | number => rfl
  | character => rfl

/-- At a seam the listing of two texts is put together from their listings. Moved tokens keep their
kinds and their characters, and so their values. -/
theorem tokenize_append (h : Seam before after) :
    (∀ fault, tokenize before = .error fault → tokenize (before ++ after) = .error fault) ∧
    ∀ tokens, tokenize before = .ok tokens →
      (∀ fault, tokenize after = .error fault →
        tokenize (before ++ after) = .error (fault.relocate (· + before.length))) ∧
      ∃ words, tokens = words ++ [.atEnd before.length] ∧ (∀ word ∈ words, word.kind ≠ .exprEnd) ∧
        ∀ others, tokenize after = .ok others →
          tokenize (before ++ after) =
            .ok (words ++ others.map (Token.relocate (· + before.length))) := by
  have hstream := Cursor.stream_append_shift h
  constructor
  · intro fault hfault
    have hlast := last_of_tokenize_error hfault
    simp [tokenize_eq, hstream, Stream.append, hlast, Except.map]
  · intro tokens htokens
    obtain ⟨words, rfl, hwords, hyields⟩ := stream_of_tokenize htokens
    have htogether : Cursor.stream ⟨0, before ++ after⟩ =
        ((Cursor.stream ⟨0, after⟩).relocate (· + before.length)).prepend words := by
      rw [hstream, hwords]
      rfl
    constructor
    · intro fault hfault
      have hlast := last_of_tokenize_error hfault
      have hplaces := ((Cursor.yields_stream 0 after).unreadable hlast).relocate_add before.length
      simp [tokenize_eq, htogether, Stream.prepend, Stream.relocate, hlast, relocated, Except.map,
        hplaces]
    · refine ⟨words, rfl, fun word hmem => (hyields.spelled_of_mem hmem).kind_ne, ?_⟩
      intro others hothers
      obtain ⟨otherWords, rfl, hotherWords, -⟩ := stream_of_tokenize hothers
      simp [tokenize_eq, htogether, Stream.prepend, Stream.relocate, hotherWords, relocated,
        Except.map]

/-- The blank behind the seam keeps the two numbers apart. -/
theorem append_of_invalid_character :
    Seam "1.".toList " .5 $".toList ∧
      tokenize "1. .5 $".toList = .error (.invalidCharacter '$' 6) := by
  have hseam : Seam "1.".toList " .5 $".toList := (endsRun_cons (by decide) _).seam _
  have hbefore : tokenize "1.".toList = .ok [⟨.number, "1.".toList, 0⟩, .atEnd 2] := by
    decide +kernel
  have hafter : tokenize " .5 $".toList = .error (.invalidCharacter '$' 4) := by
    decide +kernel
  exact ⟨hseam, ((tokenize_append hseam).2 _ hbefore).1 _ hafter⟩

end Abacus
