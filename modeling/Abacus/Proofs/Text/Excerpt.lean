import Abacus.Fault

/-!
# Places shown

The window around a place cuts a text into what is in front of it, what is shown
and what is behind it. An ellipsis stands for each of the outer parts that has
something in it, and the caret moves with the first one. For a place in the text
the caret stands below its character, and for the end behind all that is shown.
-/

namespace Abacus.Text

/-- What stands for a part of a text that is left out. -/
def omission (part : Text) : Text := if part = [] then [] else "...".toList

/-- The two lines show a window of the text that reaches to both sides of the place, as far as the
text does, and a caret in some column. -/
structure Shows (text : Text) (place reach : Nat) (before window after : Text) (column : Nat)
    (top bottom : Text) : Prop where
  text_eq : text = before ++ window ++ after
  start_eq : (before.length : Int) = max 0 (place - reach)
  stop_eq : before.length + window.length = min text.length (place + reach)
  width_le : window.length ≤ 2 * reach
  top_eq : top = omission before ++ window ++ omission after
  bottom_eq : bottom = List.replicate column ' ' ++ ['^']
  at_char : place < text.length → top[column]? = text[place]?
  at_end : place = text.length → column = top.length

/-- The two lines show the place. -/
def Marks (text : Text) (place reach : Nat) (lines : Text × Text) : Prop :=
  ∃ before window after column,
    Shows text place reach before window after column lines.1 lines.2

section Parts

variable (text : Text) (place reach : Nat)

/-- What is in front of the window around a place. -/
def before : Text := text.take (place - reach)

def inside : Text := (text.take (place + reach)).drop (place - reach)

def after : Text := text.drop (place + reach)

theorem parts_append : text.before place reach ++ text.inside place reach ++
    text.after place reach = text := by
  have hbefore : text.before place reach = (text.take (place + reach)).take (place - reach) := by
    rw [before, List.take_take, Nat.min_eq_left (by omega)]
  rw [hbefore, inside, after, List.take_append_drop, List.take_append_drop]

theorem length_inside :
    (text.inside place reach).length = min text.length (place + reach) - (place - reach) := by
  rw [inside, List.length_drop, List.length_take, Nat.min_comm]

theorem slice_natCast (start stop : Nat) :
    text.slice start stop = (text.take stop).drop start := by
  have hstop : ¬ (stop : Int) < 0 := by omega
  simp only [slice, hstop, ↓reduceIte, Int.toNat_natCast]

theorem around_natCast :
    Window.around text place reach = ⟨place - reach, (min text.length (place + reach) : Nat)⟩ := by
  simp only [Window.around, Window.mk.injEq]
  omega

end Parts

variable {text : Text} {place reach : Nat}

theorem length_before (hplace : place ≤ text.length) :
    (text.before place reach).length = place - reach := by
  rw [before, List.length_take]
  omega

theorem cutBefore_eq_omission (hplace : place ≤ text.length) :
    (if (Window.around text place reach).cutBefore then ellipsis else []) =
      omission (text.before place reach) := by
  have hempty : text.before place reach = [] ↔ ¬ 0 < place - reach := by
    rw [← List.length_eq_zero_iff, length_before hplace]
    omega
  rw [around_natCast, omission, Window.cutBefore]
  by_cases hcut : 0 < place - reach
  · rw [if_pos (decide_eq_true hcut), if_neg (mt hempty.mp (not_not_intro hcut))]
    rfl
  · rw [if_neg (mt of_decide_eq_true hcut), if_pos (hempty.mpr hcut)]

theorem cutAfter_eq_omission :
    (if (Window.around text place reach).cutAfter text then ellipsis else []) =
      omission (text.after place reach) := by
  have hcut : (Window.around text place reach).cutAfter text ↔ text.after place reach ≠ [] := by
    rw [around_natCast, after, ne_eq, List.drop_eq_nil_iff]
    simp only [Window.cutAfter, decide_eq_true_eq]
    omega
  rw [omission]
  by_cases hempty : text.after place reach = []
  · rw [if_neg (mt hcut.mp (not_not_intro hempty)), if_pos hempty]
  · rw [if_pos (hcut.mpr hempty), if_neg hempty]
    rfl

/-- What is shown of a place, told by the parts of the text. -/
theorem locate_eq (hplace : place ≤ text.length) :
    text.locate place reach =
      (omission (text.before place reach) ++ text.inside place reach ++
          omission (text.after place reach),
        List.replicate
          ((omission (text.before place reach)).length + (place - (place - reach))) ' ' ++
          ['^']) := by
  have hinside : text.slice (place - reach) (min text.length (place + reach) : Nat) =
      text.inside place reach := by
    have htake : text.take (min text.length (place + reach)) = text.take (place + reach) := by
      rw [List.take_eq_take_iff]
      omega
    rw [slice_natCast, htake, inside]
  simp only [locate, cutBefore_eq_omission hplace, cutAfter_eq_omission]
  rw [around_natCast]
  simp only [hinside, Prod.mk.injEq, true_and]
  congr 2
  omega

/-- The caret is moved as far as the window shows characters in front of the place, and behind the
ellipsis. -/
theorem getElem?_inside (hplace : place < text.length) (hreach : 1 ≤ reach) (lead trail : Text) :
    (lead ++ text.inside place reach ++ trail)[lead.length + (place - (place - reach))]? =
      text[place]? := by
  have hbefore : (text.before place reach).length = place - reach :=
    length_before (Nat.le_of_lt hplace)
  have hle : (text.before place reach).length ≤ place := by omega
  have hinside : place - (place - reach) < (text.inside place reach).length := by
    rw [length_inside]
    omega
  calc (lead ++ text.inside place reach ++ trail)[lead.length + (place - (place - reach))]?
      = (text.inside place reach ++ trail)[place - (place - reach)]? := by
        rw [List.append_assoc, List.getElem?_append_right (Nat.le_add_right _ _),
          Nat.add_sub_cancel_left]
    _ = (text.inside place reach ++ text.after place reach)[place - (place - reach)]? := by
        rw [List.getElem?_append_left hinside, List.getElem?_append_left hinside]
    _ = (text.before place reach ++
          (text.inside place reach ++ text.after place reach))[place]? := by
        rw [List.getElem?_append_right hle, hbefore]
    _ = text[place]? := by
        rw [← List.append_assoc, parts_append]

/-- Every place of a text is marked, the one behind its last character among them. -/
theorem marks_locate (hplace : place ≤ text.length) (hreach : 1 ≤ reach) :
    Marks text place reach (text.locate place reach) := by
  have hbefore : (text.before place reach).length = place - reach := length_before hplace
  have hinside := text.length_inside place reach
  refine ⟨text.before place reach, text.inside place reach, text.after place reach,
    (omission (text.before place reach)).length + (place - (place - reach)), ?_⟩
  rw [locate_eq hplace]
  refine ⟨(text.parts_append place reach).symm, ?_, ?_, ?_, rfl, rfl, ?_, ?_⟩
  · omega
  · omega
  · omega
  · exact fun hlt => getElem?_inside hlt hreach _ _
  · intro hend
    have hafter : text.after place reach = [] := List.drop_of_length_le (by omega)
    have hnone : omission [] = [] := rfl
    rw [hafter, hnone, List.append_nil, List.length_append, hinside]
    omega

end Abacus.Text
