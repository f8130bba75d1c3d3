import Captions.Display.Terminal
import Captions.Text.Decimal

/-! # Reading terminal output

The calls behind the text that a terminal was given. Every escape sequence starts
with the escape character, which painted text is not supposed to hold, so the
output is cut there first; the pieces then say which call they belong to.
-/

namespace Captions

/-- The colour with a given number in the terminal palette. -/
def Color.ofPaletteIndex? (index : Nat) : Option Color :=
  Color.all.find? (·.paletteIndex = index)

theorem Color.ofPaletteIndex?_paletteIndex (color : Color) :
    Color.ofPaletteIndex? color.paletteIndex = some color := by
  cases color <;> rfl

namespace Terminal

/-- The character that starts an escape sequence. -/
def escape : Char := '\x1b'

/-- Output cut at the escape characters, which are dropped. The first piece is
what stands before all of them. -/
def pieces : List Char → List (List Char)
  | [] => [[]]
  | c :: rest => if c = escape then [] :: pieces rest else (pieces rest).modifyHead (c :: ·)

/-- The row or column with a given number on the wire. -/
def index? (number : Nat) : Option UInt16 :=
  if 1 ≤ number ∧ number ≤ 65535 then some (number - 1).toUInt16 else none

/-- The cell to which a piece moves the caret. -/
def target? : List Char → Option Position
  | '[' :: text =>
    match Text.takeDecimal? text with
    | some (row, ';' :: text) =>
      match Text.takeDecimal? text with
      | some (column, ['H']) => do return ⟨← index? column, ← index? row⟩
      | _ => none
    | _ => none
  | _ => none

/-- The colour that a piece selects, and the text after it. -/
def painted? : List Char → Option (Color × String)
  | '[' :: '3' :: '8' :: ';' :: '5' :: ';' :: text =>
    match Text.takeDecimal? text with
    | some (index, 'm' :: text) => (Color.ofPaletteIndex? index).map (·, String.ofList text)
    | _ => none
  | _ => none

/-- The calls behind pieces that an escape character stood before. A piece that
selects a colour is followed by the one that resets it. -/
def calls? : List (List Char) → Option (List Call)
  | [] => some []
  | piece :: rest =>
    match target? piece with
    | some target => (calls? rest).map (.move target :: ·)
    | none =>
      match painted? piece, rest with
      | some (color, text), ['[', '0', 'm'] :: rest => (calls? rest).map (.paint text color :: ·)
      | _, _ => none

/-- The calls behind terminal output. Flushing leaves no trace there. -/
def decode? (out : String) : Option (List Call) :=
  match pieces out.toList with
  | [] :: rest => calls? rest
  | _ => none

theorem calls?_move {piece : List Char} {target : Position} (htarget : target? piece = some target)
    (rest : List (List Char)) :
    calls? (piece :: rest) = (calls? rest).map (.move target :: ·) := by
  rw [calls?.eq_def]
  simp only [htarget]

theorem calls?_paint {piece : List Char} {color : Color} {text : String}
    (htarget : target? piece = none) (hpaint : painted? piece = some (color, text))
    (rest : List (List Char)) :
    calls? (piece :: ['[', '0', 'm'] :: rest) = (calls? rest).map (.paint text color :: ·) := by
  rw [calls?.eq_def]
  simp only [htarget, hpaint]

theorem pieces_of_no_escape {text : List Char} (h : escape ∉ text) : pieces text = [text] := by
  induction text with
  | nil => rfl
  | cons c rest ih =>
      simp only [List.mem_cons, not_or] at h
      simp [pieces, Ne.symm h.1, ih h.2]

/-- The first piece ends at the first escape character. -/
theorem pieces_append_escape {text : List Char} (rest : List Char) (h : escape ∉ text) :
    pieces (text ++ escape :: rest) = text :: pieces rest := by
  induction text with
  | nil => simp [pieces]
  | cons c text ih =>
      simp only [List.mem_cons, not_or] at h
      simp [pieces, Ne.symm h.1, ih h.2]

theorem index?_succ (cell : UInt16) (h : cell ≠ 65535) : index? (cell + 1).toNat = some cell := by
  have hlt : cell.toNat < 65535 := by
    have := cell.toNat_lt
    have : cell.toNat ≠ 65535 := fun heq => h (UInt16.toNat_inj.mp heq)
    omega
  have hsucc := toNat_add_one (show cell.toNat < (65535 : UInt16).toNat from hlt)
  rw [index?, if_pos (by omega), hsucc, Nat.add_sub_cancel]
  simp

theorem drop_moveTo (target : Position) :
    (moveTo target).toList.drop 1 =
      '[' :: ((toString (target.row + 1).toNat).toList ++
        ';' :: ((toString (target.column + 1).toNat).toList ++ ['H'])) := by
  simp [moveTo, sequence]

theorem drop_foreground (color : Color) :
    (foreground color).toList.drop 1 =
      '[' :: '3' :: '8' :: ';' :: '5' :: ';' :: ((toString color.paletteIndex).toList ++ ['m']) := by
  simp [foreground, sequence]

/-- A caret movement is read back, unless a number on the wire starts over. -/
theorem target?_moveTo (target : Position) (hcolumn : target.column ≠ 65535)
    (hrow : target.row ≠ 65535) :
    target? ((moveTo target).toList.drop 1) = some target := by
  rw [drop_moveTo, target?, Text.takeDecimal?_append _ _ (by simp)]
  simp only [Text.takeDecimal?_append _ ['H'] (by simp), index?_succ _ hcolumn, index?_succ _ hrow]
  rfl

/-- A selected colour is read back, with the text after it. -/
theorem painted?_foreground (color : Color) (text : List Char) :
    painted? ((foreground color).toList.drop 1 ++ text) = some (color, String.ofList text) := by
  rw [drop_foreground, List.cons_append, List.cons_append, List.cons_append, List.cons_append,
    List.cons_append, List.cons_append, List.append_assoc, painted?,
    Text.takeDecimal?_append _ _ (by simp)]
  simp [Color.ofPaletteIndex?_paletteIndex]

/-- A piece that selects a colour moves no caret. -/
theorem target?_foreground (color : Color) (text : List Char) :
    target? ((foreground color).toList.drop 1 ++ text) = none := by
  have hrow (rest : List Char) :
      Text.takeDecimal? ('3' :: '8' :: ';' :: rest) = some (38, ';' :: rest) :=
    Text.takeDecimal?_append 38 (';' :: rest) (by simp)
  have hcolumn (rest : List Char) :
      Text.takeDecimal? ('5' :: ';' :: rest) = some (5, ';' :: rest) :=
    Text.takeDecimal?_append 5 (';' :: rest) (by simp)
  simp only [drop_foreground, List.cons_append, target?, hrow, hcolumn]
  rfl

end Terminal

end Captions
