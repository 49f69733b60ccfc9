/-!
# Texts

A text is a list of characters, so a position in it counts code points and a
cut never falls inside a character. A character is a scalar value of Unicode:
the lone surrogates that a string may hold elsewhere are left out. Numbers are
written in plain decimal.
-/

namespace Abacus

abbrev Text := List Char

namespace Text

def ofNat (n : Nat) : Text := Nat.toDigits 10 n

def ofInt : Int → Text
  | .ofNat n => ofNat n
  | .negSucc n => '-' :: ofNat (n + 1)

/-- The code points from `first` to `last`, for each pair `(first, last)` of a table. -/
def within (table : List (Nat × Nat)) (c : Char) : Bool :=
  table.any fun (first, last) => first ≤ c.toNat && c.toNat ≤ last

/-- The texts one after the other, each followed by a line feed. -/
def unlines (lines : List Text) : Text := lines.flatMap (· ++ ['\n'])

theorem unlines_cons (line : Text) (ls : List Text) :
    unlines (line :: ls) = line ++ '\n' :: unlines ls := by
  simp [unlines]

/-- The lines of a text. Only a line feed ends a line, and the last line may lack it. -/
def lines (text : Text) : List Text :=
  text.foldr
    (fun c ls =>
      if c = '\n' then [] :: ls
      else match ls with
        | [] => [[c]]
        | l :: rest => (c :: l) :: rest)
    []

/-- A line that holds no line feed is read back as it was. -/
theorem lines_append_newline (line text : Text) (h : ∀ c ∈ line, c ≠ '\n') :
    lines (line ++ '\n' :: text) = line :: lines text := by
  induction line with
  | nil => rfl
  | cons c line ih =>
    have hc : c ≠ '\n' := h c (by simp)
    have ih := ih fun x hx => h x (by simp [hx])
    simp only [lines] at ih
    simp [lines, hc, ih]

theorem lines_unlines (ls : List Text) (h : ∀ l ∈ ls, ∀ c ∈ l, c ≠ '\n') :
    lines (unlines ls) = ls := by
  induction ls with
  | nil => rfl
  | cons l ls ih =>
    have ih := ih fun x hx => h x (by simp [hx])
    rw [unlines_cons, lines_append_newline _ _ (h l (by simp)), ih]

theorem lines_singleton (line : Text) (hne : line ≠ []) (h : ∀ c ∈ line, c ≠ '\n') :
    lines line = [line] := by
  induction line with
  | nil => exact absurd rfl hne
  | cons c line ih =>
    have hc : c ≠ '\n' := h c (by simp)
    cases line with
    | nil => simp [lines, hc]
    | cons d line =>
      have ih := ih (by simp) fun x hx => h x (by simp [hx])
      simp only [lines] at ih
      rw [lines, List.foldr_cons, ih]
      simp [hc]

/-- The last line need not be ended if there is something in it. -/
theorem lines_intercalate (ls : List Text) (hne : ∀ l ∈ ls, l ≠ [])
    (h : ∀ l ∈ ls, ∀ c ∈ l, c ≠ '\n') : lines (['\n'].intercalate ls) = ls := by
  induction ls with
  | nil => rfl
  | cons l ls ih =>
    cases ls with
    | nil => simpa using lines_singleton l (hne l (by simp)) (h l (by simp))
    | cons l' ls =>
      have ih := ih (fun x hx => hne x (by simp [hx])) fun x hx => h x (by simp [hx])
      rw [List.intercalate_cons_cons, List.append_assoc, List.singleton_append,
        lines_append_newline _ _ (h l (by simp)), ih]

/-! ## Blanks

The characters that separate tokens and are stripped from the ends of a line:
the white space of the Unicode bidirectional classes B, S and WS together with
the space separators. -/

def blanks : List (Nat × Nat) :=
  [(0x09, 0x0d), (0x1c, 0x20), (0x85, 0x85), (0xa0, 0xa0), (0x1680, 0x1680), (0x2000, 0x200a),
    (0x2028, 0x2029), (0x202f, 0x202f), (0x205f, 0x205f), (0x3000, 0x3000)]

def isBlank (c : Char) : Bool := within blanks c

/-- A text with the blanks at both of its ends removed. -/
def strip (text : Text) : Text :=
  ((text.dropWhile isBlank).reverse.dropWhile isBlank).reverse

/-- A text that holds nothing but blanks. -/
def isAllBlank (text : Text) : Bool := text.all isBlank

theorem dropWhile_isBlank_eq_nil_iff (text : Text) :
    text.dropWhile isBlank = [] ↔ text.isAllBlank := by
  induction text with
  | nil => simp [isAllBlank]
  | cons c text ih =>
    cases hc : isBlank c with
    | true =>
      rw [List.dropWhile_cons_of_pos hc, ih]
      simp [isAllBlank, hc]
    | false => simp [isAllBlank, hc]

/-- Stripping leaves nothing of a text just if the text is all blank, so a source is empty in the
one sense whenever it is in the other. -/
theorem strip_eq_nil_iff (text : Text) : text.strip = [] ↔ text.isAllBlank := by
  have hfront : isAllBlank (text.dropWhile isBlank).reverse = text.isAllBlank := by
    calc isAllBlank (text.dropWhile isBlank).reverse
        = ((text.takeWhile isBlank).all isBlank && (text.dropWhile isBlank).all isBlank) := by
          rw [isAllBlank, List.all_reverse, List.all_takeWhile, Bool.true_and]
      _ = (text.takeWhile isBlank ++ text.dropWhile isBlank).all isBlank := List.all_append.symm
      _ = text.isAllBlank := by rw [List.takeWhile_append_dropWhile]; rfl
  rw [strip, List.reverse_eq_nil_iff, dropWhile_isBlank_eq_nil_iff, hfront]

/-! ## Decimal digits

The characters of the general category `Nd` in Unicode 14.0, the digits of all
scripts that write numbers in decimal places. -/

def decimalDigits : List (Nat × Nat) :=
  [(0x30, 0x39), (0x660, 0x669), (0x6f0, 0x6f9), (0x7c0, 0x7c9), (0x966, 0x96f), (0x9e6, 0x9ef),
    (0xa66, 0xa6f), (0xae6, 0xaef), (0xb66, 0xb6f), (0xbe6, 0xbef), (0xc66, 0xc6f),
    (0xce6, 0xcef), (0xd66, 0xd6f), (0xde6, 0xdef), (0xe50, 0xe59), (0xed0, 0xed9),
    (0xf20, 0xf29), (0x1040, 0x1049), (0x1090, 0x1099), (0x17e0, 0x17e9), (0x1810, 0x1819),
    (0x1946, 0x194f), (0x19d0, 0x19d9), (0x1a80, 0x1a89), (0x1a90, 0x1a99), (0x1b50, 0x1b59),
    (0x1bb0, 0x1bb9), (0x1c40, 0x1c49), (0x1c50, 0x1c59), (0xa620, 0xa629), (0xa8d0, 0xa8d9),
    (0xa900, 0xa909), (0xa9d0, 0xa9d9), (0xa9f0, 0xa9f9), (0xaa50, 0xaa59), (0xabf0, 0xabf9),
    (0xff10, 0xff19), (0x104a0, 0x104a9), (0x10d30, 0x10d39), (0x11066, 0x1106f),
    (0x110f0, 0x110f9), (0x11136, 0x1113f), (0x111d0, 0x111d9), (0x112f0, 0x112f9),
    (0x11450, 0x11459), (0x114d0, 0x114d9), (0x11650, 0x11659), (0x116c0, 0x116c9),
    (0x11730, 0x11739), (0x118e0, 0x118e9), (0x11950, 0x11959), (0x11c50, 0x11c59),
    (0x11d50, 0x11d59), (0x11da0, 0x11da9), (0x16a60, 0x16a69), (0x16ac0, 0x16ac9),
    (0x16b50, 0x16b59), (0x1d7ce, 0x1d7ff), (0x1e140, 0x1e149), (0x1e2f0, 0x1e2f9),
    (0x1e950, 0x1e959), (0x1fbf0, 0x1fbf9)]

def isDecimalDigit (c : Char) : Bool := within decimalDigits c

end Text

end Abacus
