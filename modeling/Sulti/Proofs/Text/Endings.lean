import Mathlib.Data.List.DropRight
import Mathlib.Data.List.Forall2
import Sulti.Lines

/-!
Lines of a text, cut from its characters or from its bytes. No character but
the line feed has the byte of a line feed in its UTF-8 code, so both are cut at
the same places. What is taken off the end of a line differs, but only by
carriage returns and line feeds; these are blank, and the fields of a line are
freed from blanks at their ends.
-/

namespace Sulti.Text

section

variable {α β : Type}

/-- Pieces with more in front of the first one. -/
def joinFirst (front : List α) : List (List α) → List (List α)
  | [] => [front]
  | piece :: pieces => (front ++ piece) :: pieces

theorem cutAfter_of_inside {ends : α → Bool} {a : α} (h : ends a = false) (rest : List α) :
    cutAfter ends (a :: rest) = joinFirst [a] (cutAfter ends rest) := by
  rw [cutAfter, if_neg (by simp [h])]
  cases cutAfter ends rest <;> rfl

theorem cutAfter_of_last {ends : α → Bool} {a : α} (h : ends a = true) (rest : List α) :
    cutAfter ends (a :: rest) = [a] :: cutAfter ends rest := by
  rw [cutAfter, if_pos h]

/-- Nothing is cut inside of what holds no end. -/
theorem cutAfter_append {ends : α → Bool} {front : List α} (nonempty : front ≠ [])
    (inside : ∀ a ∈ front, ends a = false) (rest : List α) :
    cutAfter ends (front ++ rest) = joinFirst front (cutAfter ends rest) := by
  induction front with
  | nil => exact absurd rfl nonempty
  | cons a front ih =>
      obtain ⟨first, others⟩ := List.forall_mem_cons.mp inside
      rw [List.cons_append, cutAfter_of_inside first]
      cases front with
      | nil => rfl
      | cons b front =>
          rw [ih (List.cons_ne_nil _ _) others]
          cases cutAfter ends rest <;> rfl

/-- Where every element is written as some others, and only an end is written with an end,
what is written is cut like what it is written from. -/
theorem cutAfter_flatMap {ends : α → Bool} {ends' : β → Bool} {f : α → List β}
    (inside : ∀ a, ends a = false → f a ≠ [] ∧ ∀ b ∈ f a, ends' b = false)
    (last : ∀ a, ends a = true → ∃ b, f a = [b] ∧ ends' b = true) (l : List α) :
    cutAfter ends' (l.flatMap f) = (cutAfter ends l).map (List.flatMap f) := by
  induction l with
  | nil => rfl
  | cons a rest ih =>
      rw [List.flatMap_cons]
      cases h : ends a with
      | true =>
          obtain ⟨b, written, hb⟩ := last a h
          rw [written, List.singleton_append, cutAfter_of_last hb, cutAfter_of_last h, ih]
          simp [written]
      | false =>
          obtain ⟨nonempty, others⟩ := inside a h
          rw [cutAfter_append nonempty others, cutAfter_of_inside h, ih]
          cases cutAfter ends rest with
          | nil => simp [joinFirst]
          | cons piece pieces => simp [joinFirst]

end

/-! The bytes of characters. -/

theorem utf8EncodeChar_newline : String.utf8EncodeChar '\n' = [10] := by decide

theorem byte_ne_newline {n : Nat} (h : n % 256 ≠ 10) : (UInt8.ofNat n == 10) = false := by
  rw [beq_eq_false_iff_ne]
  intro same
  apply h
  simpa using congrArg UInt8.toNat same

/-- Only the line feed is written with its byte. -/
theorem utf8EncodeChar_inside {c : Char} (h : c ≠ '\n') :
    ∀ b ∈ String.utf8EncodeChar c, (b == 10) = false := by
  have other : c.val.toNat ≠ 10 := by
    intro code
    exact h (Char.ext (UInt32.toNat_inj.mp code))
  intro b member
  unfold String.utf8EncodeChar at member
  dsimp only at member
  split at member
  · rw [List.mem_singleton.mp member]
    apply byte_ne_newline
    omega
  · -- Every byte of a longer code is at least 128.
    split at member
    · simp only [List.mem_cons, List.not_mem_nil, or_false] at member
      rcases member with rfl | rfl <;> apply byte_ne_newline <;> omega
    · split at member
      · simp only [List.mem_cons, List.not_mem_nil, or_false] at member
        rcases member with rfl | rfl | rfl <;> apply byte_ne_newline <;> omega
      · simp only [List.mem_cons, List.not_mem_nil, or_false] at member
        rcases member with rfl | rfl | rfl | rfl <;> apply byte_ne_newline <;> omega

/-- The bytes of characters are read as these characters. -/
theorem fromUTF8?_encoded (l : List Char) :
    String.fromUTF8? ⟨(l.flatMap String.utf8EncodeChar).toArray⟩ = some (String.ofList l) := by
  have bytes : (⟨(l.flatMap String.utf8EncodeChar).toArray⟩ : ByteArray) =
      (String.ofList l).toByteArray := by
    rw [String.toByteArray_ofList]
    apply ByteArray.ext
    rw [List.utf8Encode, List.data_toByteArray]
  rw [bytes, String.fromUTF8?, dif_pos (String.ofList l).isValidUTF8]
  rfl

/-- The lines of the bytes of a text are the lines of the text, less carriage returns and
line feeds at their ends. -/
theorem streamLines_encoded (text : String) :
    streamLines text.toUTF8.data.toList =
      (cutAfter (· == '\n') text.toList).map fun line =>
        some (String.ofList (dropTrailing (fun c => c == '\r' || c == '\n') line)) := by
  have bytes : text.toUTF8.data.toList = text.toList.flatMap String.utf8EncodeChar := by
    have whole : text.toUTF8 = text.toList.utf8Encode := by
      rw [← String.toByteArray_ofList, String.ofList_toList, String.toUTF8_eq_toByteArray]
    rw [whole, List.utf8Encode, List.data_toByteArray]
  have cut : cutAfter (· == 10) (text.toList.flatMap String.utf8EncodeChar) =
      (cutAfter (· == '\n') text.toList).map (List.flatMap String.utf8EncodeChar) := by
    apply cutAfter_flatMap
    · intro c h
      exact ⟨String.utf8EncodeChar_ne_nil, utf8EncodeChar_inside (by simpa using h)⟩
    · intro c h
      exact ⟨10, by rw [beq_iff_eq.mp h, utf8EncodeChar_newline], rfl⟩
  rw [streamLines, bytes, cut, List.map_map]
  apply List.map_congr_left
  intro line _
  simp [streamLine?, fromUTF8?_encoded]

/-! Blanks at the end of a line. -/

/-- Nothing but blanks. -/
abbrev AllBlank (l : List Char) : Prop := ∀ c ∈ l, isBlank c = true

theorem dropTrailing_append {p : Char → Bool} {l : List Char} (text : List Char)
    (h : ∀ c ∈ l, p c = true) : dropTrailing p (text ++ l) = dropTrailing p text := by
  have all : ∀ c ∈ l.reverse, p c = true := fun c member => h c (List.mem_reverse.mp member)
  rw [dropTrailing, dropTrailing, List.reverse_append, List.dropWhile_append_of_pos all]

theorem trim_append {l : List Char} (text : List Char) (h : AllBlank l) :
    trim (text ++ l) = trim text := by
  rw [trim, trim, List.dropWhile_append]
  split
  · rename_i empty
    rw [List.isEmpty_iff.mp empty, List.dropWhile_eq_nil_iff.mpr h]
  · exact dropTrailing_append _ h

/-- Blanks behind a text belong to its last part. -/
theorem splitOn_append {l : List Char} (h : AllBlank l) (text : List Char) :
    List.Forall₂ (fun part part' => ∃ blanks, AllBlank blanks ∧ part' = part ++ blanks)
      (splitOn ',' text) (splitOn ',' (text ++ l)) := by
  induction text with
  | nil =>
      have whole : splitOn ',' l = [l] := by
        induction l with
        | nil => rfl
        | cons c rest ih =>
            obtain ⟨blank, others⟩ := List.forall_mem_cons.mp h
            have other : c ≠ ',' := by
              rintro rfl
              cases blank
            rw [splitOn, if_neg other, ih others]
      rw [List.nil_append, whole]
      exact .cons ⟨l, h, rfl⟩ .nil
  | cons c rest ih =>
      rw [List.cons_append, splitOn, splitOn]
      split
      · exact .cons ⟨[], by simp [AllBlank], rfl⟩ ih
      · generalize splitOn ',' rest = parts at ih
        generalize splitOn ',' (rest ++ l) = parts' at ih
        cases ih with
        | nil => exact .cons ⟨[], by simp [AllBlank], rfl⟩ .nil
        | cons first others =>
            obtain ⟨blanks, hb, rfl⟩ := first
            exact .cons ⟨blanks, hb, rfl⟩ others

/-- Blanks at the end of a line make no difference to its fields. -/
theorem fields_append {l : List Char} (h : AllBlank l) (text : List Char) :
    fields (String.ofList (text ++ l)) = fields (String.ofList text) := by
  rw [fields, fields, String.toList_ofList, String.toList_ofList]
  have parts := splitOn_append h text
  generalize splitOn ',' text = first at parts
  generalize splitOn ',' (text ++ l) = second at parts
  induction parts with
  | nil => rfl
  | cons first _ ih =>
      obtain ⟨blanks, hb, rfl⟩ := first
      rw [List.map_cons, List.map_cons, trim_append _ hb, ih]

/-- What a file loses at the end of a line is blank. -/
theorem dropEnding_append (line : List Char) : ∃ l, AllBlank l ∧ dropEnding line ++ l = line := by
  unfold dropEnding
  split
  · rename_i rest h
    refine ⟨['\r', '\n'], List.forall_mem_cons.mpr ⟨rfl, List.forall_mem_singleton.mpr rfl⟩, ?_⟩
    rw [← List.reverse_reverse line, h]
    simp
  · rename_i rest _ h
    refine ⟨['\n'], List.forall_mem_singleton.mpr rfl, ?_⟩
    rw [← List.reverse_reverse line, h]
    simp
  · exact ⟨[], List.forall_mem_nil _, List.append_nil line⟩

theorem dropTrailing_append_self (p : Char → Bool) (line : List Char) :
    ∃ l, (∀ c ∈ l, p c = true) ∧ dropTrailing p line ++ l = line := by
  refine ⟨(line.reverse.takeWhile p).reverse, ?_, ?_⟩
  · intro c member
    exact List.mem_takeWhile_imp (List.mem_reverse.mp member)
  · rw [dropTrailing, ← List.reverse_append, List.takeWhile_append_dropWhile, List.reverse_reverse]

/-- A line has the same fields whether it comes from a file or from a stream. -/
theorem fields_dropEnding (line : List Char) :
    fields (String.ofList (dropTrailing (fun c => c == '\r' || c == '\n') line)) =
      fields (String.ofList (dropEnding line)) := by
  obtain ⟨l, blank, whole⟩ := dropEnding_append line
  obtain ⟨l', ending, whole'⟩ := dropTrailing_append_self (fun c => c == '\r' || c == '\n') line
  have blank' : AllBlank l' := by
    intro c member
    have either := ending c member
    simp only [Bool.or_eq_true, beq_iff_eq] at either
    rcases either with rfl | rfl <;> decide
  calc
    fields (String.ofList (dropTrailing (fun c => c == '\r' || c == '\n') line))
      = fields (String.ofList line) := by rw [← fields_append blank' (dropTrailing _ line), whole']
    _ = fields (String.ofList (dropEnding line)) := by
      rw [← fields_append blank (dropEnding line), whole]

end Sulti.Text

namespace Sulti.Lines

/-- Reads that both give a line, with the same fields. -/
inductive SameFields : Except String String → Except String String → Prop where
  | lines {line line' : String} (h : Text.fields line' = Text.fields line) :
      SameFields (.ok line) (.ok line')

/-- Read by read, a text gives the same fields as a file and as a stream of its bytes. -/
theorem sameFields_encoded (text : String) :
    List.Forall₂ SameFields (ofText text).pending (ofBytes text.toUTF8.data.toList).pending := by
  have stream : (ofBytes text.toUTF8.data.toList).pending =
      (Text.cutAfter (· == '\n') text.toList).map fun line =>
        .ok (String.ofList (Text.dropTrailing (fun c => c == '\r' || c == '\n') line)) := by
    rw [ofBytes, standard, Text.streamLines_encoded, List.map_map]
    rfl
  have file : (ofText text).pending =
      (Text.cutAfter (· == '\n') text.toList).map fun line =>
        .ok (String.ofList (Text.dropEnding line)) := by
    rw [ofText, ofList, Text.fileLines, List.map_map]
    rfl
  rw [stream, file, List.forall₂_map_left_iff, List.forall₂_map_right_iff]
  exact List.forall₂_same.mpr fun line _ => .lines (Text.fields_dropEnding line)

end Sulti.Lines
