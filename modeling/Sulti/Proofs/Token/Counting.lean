import Sulti.Proofs.Token.Pieces
import Sulti.Token.Scan

/-!
The lines and columns of a scan are exact. A scan keeps the line it is on and
the byte where that line begins, and it moves them only behind a piece that
starts with a line break. Counting instead over every character of every piece
gives the same positions, because no other piece holds a line break; and the
characters of the line so far are those between two bytes, because both of
them fall between characters.
-/

namespace Sulti

namespace Text

theorem size_append (front rest : List Char) : size (front ++ rest) = size front + size rest := by
  induction front with
  | nil => exact (Nat.zero_add _).symm
  | cons c front ih => rw [List.cons_append, size, size, ih, Nat.add_assoc]

theorem dropBytes_zero (text : List Char) : dropBytes 0 text = text := by
  cases text <;> simp [dropBytes]

theorem takeBytes_zero (text : List Char) : takeBytes 0 text = [] := by
  cases text <;> simp [takeBytes]

theorem dropBytes_size (front rest : List Char) :
    dropBytes (size front) (front ++ rest) = rest := by
  induction front with
  | nil => exact dropBytes_zero rest
  | cons c front ih =>
      have some : c.utf8Size + size front ≠ 0 := by have := c.utf8Size_pos; omega
      rw [List.cons_append, dropBytes, size, if_neg some, Nat.add_sub_cancel_left, ih]

theorem takeBytes_size (front rest : List Char) :
    takeBytes (size front) (front ++ rest) = front := by
  induction front with
  | nil => exact takeBytes_zero rest
  | cons c front ih =>
      have some : c.utf8Size + size front ≠ 0 := by have := c.utf8Size_pos; omega
      rw [List.cons_append, takeBytes, size, if_neg some, Nat.add_sub_cancel_left, ih]

/-- Between two bytes that fall between characters stand the characters between them. -/
theorem slice_append (front middle rest : List Char) :
    slice (front ++ (middle ++ rest)) (size front) (size (front ++ middle)) = middle := by
  rw [slice, size_append, Nat.add_sub_cancel_left, dropBytes_size, takeBytes_size]

end Text

/-! Positions counted over every character. -/

namespace Position

/-- The place right after a character that stands at `p`. -/
def step (p : Position) (c : Char) : Position :=
  if c = '\n' then ⟨p.line + 1, 1⟩ else ⟨p.line, p.column + 1⟩

/-- The place right after a piece of text that starts at `p`. -/
def after (p : Position) (piece : List Char) : Position :=
  piece.foldl step p

@[simp] theorem after_nil (p : Position) : p.after [] = p := rfl

@[simp] theorem after_cons (p : Position) (c : Char) (piece : List Char) :
    p.after (c :: piece) = (p.step c).after piece := rfl

theorem after_append (p : Position) (first second : List Char) :
    p.after (first ++ second) = (p.after first).after second := by
  simp [after]

/-- Within a line only the column grows. -/
theorem after_inline (p : Position) {piece : List Char} (inline : '\n' ∉ piece) :
    p.after piece = ⟨p.line, p.column + piece.length⟩ := by
  induction piece generalizing p with
  | nil => rfl
  | cons c piece ih =>
      obtain ⟨first, others⟩ : '\n' ≠ c ∧ '\n' ∉ piece := by simpa using inline
      rw [after_cons, ih _ others, step, if_neg (Ne.symm first), List.length_cons,
        Nat.add_right_comm, Nat.add_assoc]

end Position

namespace Token

/-- Where scanning stands, with the position counted over every character before. -/
structure Counted where
  position : Position
  lastIsName : Bool
  lastIsWordChar : Bool

namespace Counted

def start : Counted := ⟨.start, false, false⟩

def afterName (p : Counted) : Bool := p.lastIsName && p.lastIsWordChar

/-- The place behind a piece. -/
def after (p : Counted) (cut : Cut) : Counted where
  position := p.position.after cut.taken
  lastIsName := Reading.lastIsName p.lastIsName cut.reading
  lastIsWordChar := (cut.taken.getLast?.map Cut.isWordChar).getD p.lastIsWordChar

end Counted

/-- The tokens and the flaws of a text, whatever it is left of. -/
def scanCounted (place : Counted) (text : List Char) : List Token × List Flaw :=
  match text with
  | [] => ([endMark place.position], [])
  | c :: rest =>
      let cut := Cut.first place.afterName c rest
      record place.position cut (scanCounted (place.after cut) cut.rest)
termination_by text.length
decreasing_by exact (Cut.tiles_first _ c rest).rest_length_lt

/-- Before `text`, scanning a source stands on a line that began behind `front`; what it
keeps are the sizes of these two pieces, and the position is the one that counting gives. -/
structure Exact (source : List Char) (place : Place) (counted : Counted) (text : List Char) :
    Prop where
  split : ∃ front line, source = front ++ (line ++ text) ∧
    place.lineStart = Text.size front ∧ place.start = Text.size (front ++ line) ∧
    counted.position = ⟨place.line, line.length + 1⟩
  lastIsName : place.lastIsName = counted.lastIsName
  lastIsWordChar : place.lastIsWordChar = counted.lastIsWordChar

section

variable {source : List Char} {place : Place} {counted : Counted} {text : List Char}

theorem Exact.position (h : Exact source place counted text) :
    place.position source = counted.position := by
  obtain ⟨front, line, rfl, lineStart, start, position⟩ := h.split
  rw [position, Place.position, lineStart, start, Text.slice_append]

theorem Exact.afterName (h : Exact source place counted text) :
    place.afterName = counted.afterName := by
  rw [Place.afterName, Counted.afterName, h.lastIsName, h.lastIsWordChar]

/-- A line break is a piece of its own, and the next line begins behind it. -/
theorem Exact.after_newline {rest : List Char} (h : Exact source place counted ('\n' :: rest)) :
    Exact source (place.after ⟨['\n'], rest, .token .newline⟩)
      (counted.after ⟨['\n'], rest, .token .newline⟩) rest := by
  obtain ⟨front, line, rfl, lineStart, start, position⟩ := h.split
  refine ⟨⟨front ++ (line ++ ['\n']), [], by simp, ?_, ?_, ?_⟩, rfl, rfl⟩
  · change place.start + Text.size ['\n'] = _
    rw [start, ← Text.size_append, List.append_assoc]
  · change place.start + Text.size ['\n'] = _
    rw [start, ← Text.size_append, List.append_nil, List.append_assoc]
  · change counted.position.step '\n' = ⟨place.line + 1, 1⟩
    rw [position]
    rfl

/-- Any other piece lies within its line. -/
theorem Exact.after_inline {c : Char} {rest : List Char} {cut : Cut}
    (h : Exact source place counted (c :: rest)) (tiles : cut.Tiles (c :: rest))
    (inline : '\n' ∉ cut.taken) : Exact source (place.after cut) (counted.after cut) cut.rest := by
  obtain ⟨front, line, rfl, lineStart, start, position⟩ := h.split
  have goesOn : (cut.taken.head? == some '\n' && !cut.reading.isMalformed) = false := by
    have other : cut.taken.head? ≠ some '\n' := fun newline => inline (List.mem_of_head? newline)
    rw [beq_eq_false_iff_ne.mpr other, Bool.false_and]
  refine ⟨⟨front, line ++ cut.taken, ?_, ?_, ?_, ?_⟩, ?_, ?_⟩
  · rw [List.append_assoc, tiles.append]
  · simp only [Place.after, goesOn]
    exact lineStart
  · simp only [Place.after]
    rw [start, ← List.append_assoc, Text.size_append _ cut.taken]
  · simp only [Place.after, Counted.after, goesOn]
    rw [position, Position.after_inline _ inline, List.length_append, Nat.add_right_comm]
    rfl
  · simp only [Place.after, Counted.after, h.lastIsName]
  · simp only [Place.after, Counted.after, h.lastIsWordChar]

theorem Exact.after {c : Char} {rest : List Char} (h : Exact source place counted (c :: rest)) :
    Exact source (place.after (Cut.first counted.afterName c rest))
      (counted.after (Cut.first counted.afterName c rest))
      (Cut.first counted.afterName c rest).rest := by
  by_cases newline : c = '\n'
  · subst newline
    exact h.after_newline
  · exact h.after_inline (Cut.tiles_first _ c rest) (Cut.newline_notMem_taken _ newline)

end

/-- Scanning with a line and the byte where it begins is scanning with every character
counted. -/
theorem scanFrom_eq_scanCounted {source : List Char} {place : Place} {counted : Counted}
    {text : List Char} (h : Exact source place counted text) :
    scanFrom source place text = scanCounted counted text := by
  match text with
  | [] => rw [scanFrom, scanCounted, h.position]
  | c :: rest =>
      rw [scanFrom, scanCounted, h.position, h.afterName]
      exact congrArg (record _ _) (scanFrom_eq_scanCounted h.after)
termination_by text.length
decreasing_by exact (Cut.tiles_first _ c rest).rest_length_lt

theorem scanAll_eq (text : String) : scanAll text = scanCounted .start text.toList :=
  scanFrom_eq_scanCounted ⟨⟨[], [], rfl, rfl, rfl, rfl⟩, rfl, rfl⟩

end Token

end Sulti
