import Sulti.Proofs.Token.Counting

/-!
Scanning goes line by line. No piece but a line break reaches over a line
break, and behind one nothing is remembered of the line before; so the tokens
of two texts, the first of which ends a line, are the tokens of the one and
then those of the other, further down.
-/

namespace Sulti

/-! Places further down. -/

/-- The same column, some lines further down. -/
def Position.down (p : Position) (lines : Nat) : Position := ⟨p.line + lines, p.column⟩

theorem Position.after_down (p : Position) (lines : Nat) (piece : List Char) :
    (p.down lines).after piece = (p.after piece).down lines := by
  induction piece generalizing p with
  | nil => rfl
  | cons c piece ih =>
      have step : (p.down lines).step c = (p.step c).down lines := by
        unfold step
        split
        · simp only [down, Nat.add_right_comm]
        · rfl
      rw [after_cons, after_cons, step, ih]

/-- Behind a text that ends a line stands the first column of a line, which is as far
down as the text has line breaks. -/
theorem Position.after_line (p : Position) (front : List Char) :
    p.after (front ++ ['\n']) = ⟨p.line + (front ++ ['\n']).count '\n', 1⟩ := by
  induction front generalizing p with
  | nil => simp [step]
  | cons c front ih =>
      rw [List.cons_append, after_cons, ih]
      by_cases newline : c = '\n'
      · subst newline
        simp [step, Nat.add_comm, Nat.add_left_comm]
      · simp [step, newline]

def Token.down (t : Token) (lines : Nat) : Token := { t with position := t.position.down lines }

def Flaw.down (f : Flaw) (lines : Nat) : Flaw := { f with position := f.position.down lines }

namespace Token

theorem scanCounted_nil (place : Counted) :
    scanCounted place [] = ([endMark place.position], []) := by
  rw [scanCounted]

theorem scanCounted_cons (place : Counted) (c : Char) (rest : List Char) :
    scanCounted place (c :: rest) =
      record place.position (Cut.first place.afterName c rest)
        (scanCounted (place.after (Cut.first place.afterName c rest))
          (Cut.first place.afterName c rest).rest) := by
  rw [scanCounted]

/-- Induction on a text along its pieces. -/
theorem scan_induction {P : Counted → List Char → Prop} (nil : ∀ place, P place [])
    (cons : ∀ place c rest,
      P (place.after (Cut.first place.afterName c rest)) (Cut.first place.afterName c rest).rest →
      P place (c :: rest))
    (place : Counted) (text : List Char) : P place text := by
  match text with
  | [] => exact nil place
  | c :: rest => exact cons place c rest (scan_induction nil cons _ _)
termination_by text.length
decreasing_by exact (Cut.tiles_first _ c rest).rest_length_lt

def Counted.down (place : Counted) (lines : Nat) : Counted :=
  { place with position := place.position.down lines }

theorem Counted.after_down (place : Counted) (lines : Nat) (cut : Cut) :
    (place.down lines).after cut = (place.after cut).down lines := by
  simp only [after, down, Position.after_down]

/-- Tokens and flaws, further down. -/
def shifted (lines : Nat) (found : List Token × List Flaw) : List Token × List Flaw :=
  (found.1.map (down · lines), found.2.map (Flaw.down · lines))

theorem record_down (lines : Nat) (position : Position) (cut : Cut)
    (behind : List Token × List Flaw) :
    record (position.down lines) cut (shifted lines behind) =
      shifted lines (record position cut behind) := by
  unfold record
  split <;> rfl

/-- Scanning from further down gives the same tokens and flaws, further down. -/
theorem scanCounted_down (lines : Nat) (place : Counted) (text : List Char) :
    scanCounted (place.down lines) text = shifted lines (scanCounted place text) := by
  induction place, text using scan_induction with
  | nil place =>
      rw [scanCounted_nil, scanCounted_nil]
      rfl
  | cons place c rest ih =>
      rw [scanCounted_cons, scanCounted_cons place, ← record_down, ← ih, ← Counted.after_down]
      rfl

/-- The tokens of a text are followed by the mark of its end and hold no other one. -/
theorem scanCounted_ends (place : Counted) (text : List Char) :
    ∃ body, (scanCounted place text).1 = body ++ [endMark (place.position.after text)] ∧
      ∀ token ∈ body, token.kind ≠ .eof := by
  induction place, text using scan_induction with
  | nil place => exact ⟨[], by rw [scanCounted_nil]; rfl, by simp⟩
  | cons place c rest ih =>
      obtain ⟨body, hbody, none⟩ := ih
      have whole := (Cut.tiles_first place.afterName c rest).append
      have reading := Cut.reading_first_ne_eof place.afterName c rest
      have stop : (place.after (Cut.first place.afterName c rest)).position.after
          (Cut.first place.afterName c rest).rest = place.position.after (c :: rest) := by
        rw [← whole, Position.after_append]
        rfl
      rw [stop] at hbody
      rw [scanCounted_cons]
      unfold record
      split
      · exact ⟨body, hbody, none⟩
      · rename_i kind hk
        refine ⟨⟨kind, _, _⟩ :: body, by rw [hbody]; rfl, ?_⟩
        intro token member
        rcases List.mem_cons.mp member with rfl | member
        · exact fun same => reading (by rw [hk]; exact congrArg _ same)
        · exact none token member
      · exact ⟨body, hbody, none⟩

/-- The tokens and flaws of two texts, without the end mark of the first. -/
def joined (first second : List Token × List Flaw) : List Token × List Flaw :=
  (first.1.dropLast ++ second.1, first.2 ++ second.2)

theorem record_joined (position : Position) (cut : Cut) {first : List Token × List Flaw}
    (nonempty : first.1 ≠ []) (second : List Token × List Flaw) :
    record position cut (joined first second) = joined (record position cut first) second := by
  unfold record
  split
  · rfl
  · simp [joined, List.dropLast_cons_of_ne_nil nonempty]
  · rfl

theorem scanCounted_ne_nil (place : Counted) (text : List Char) :
    (scanCounted place text).1 ≠ [] := by
  obtain ⟨body, hbody, _⟩ := scanCounted_ends place text
  rw [hbody]
  simp

/-- The first piece of a text that ends a line is the line break, or leaves a text that
ends a line. -/
theorem rest_ends {c : Char} {rest : List Char} (h : (c :: rest).getLast? = some '\n')
    (afterName : Bool) :
    c = '\n' ∧ rest = [] ∨ (Cut.first afterName c rest).rest.getLast? = some '\n' := by
  have whole := (Cut.tiles_first afterName c rest).append
  by_cases newline : c = '\n'
  · subst newline
    cases rest with
    | nil => exact Or.inl ⟨rfl, rfl⟩
    | cons d left => exact Or.inr (by rwa [List.getLast?_cons_cons] at h)
  · -- The piece holds no line break, so it is not all that is left.
    have missing : '\n' ∉ (Cut.first afterName c rest).taken :=
      Cut.newline_notMem_taken afterName newline
    rw [← whole] at h
    cases hr : (Cut.first afterName c rest).rest with
    | nil =>
        rw [hr, List.append_nil] at h
        exact absurd (List.mem_of_getLast? h) missing
    | cons d left =>
        rw [hr, List.getLast?_append] at h
        exact Or.inr (by simpa using h)

/-- Induction on a text that ends a line, along its pieces. -/
@[elab_as_elim]
theorem line_induction {P : Counted → List Char → Prop} (last : ∀ place, P place ['\n'])
    (cons : ∀ place c rest, (Cut.first place.afterName c rest).rest.getLast? = some '\n' →
      P (place.after (Cut.first place.afterName c rest)) (Cut.first place.afterName c rest).rest →
      P place (c :: rest))
    (place : Counted) {text : List Char} (h : text.getLast? = some '\n') : P place text := by
  induction place, text using scan_induction with
  | nil place => cases h
  | cons place c rest ih =>
      rcases rest_ends h place.afterName with ⟨rfl, rfl⟩ | ends
      · exact last place
      · exact cons place c rest ends (ih ends)

/-- A text that ends a line is scanned as if nothing came behind it, and what does come
is scanned as if nothing stood before. -/
theorem scanCounted_append (place : Counted) {text : List Char} (h : text.getLast? = some '\n')
    (more : List Char) :
    scanCounted place (text ++ more) =
      joined (scanCounted place text)
        (scanCounted ⟨place.position.after text, false, false⟩ more) := by
  refine line_induction (fun place => ?_) (fun place c rest ends ih => ?_) place h
  · rw [List.cons_append, scanCounted_cons, scanCounted_cons, Cut.first_newline, Cut.first_newline,
      ← record_joined _ _ (scanCounted_ne_nil _ _), scanCounted_nil]
    rfl
  · have whole := (Cut.tiles_first place.afterName c rest).append
    have inside : '\n' ∈ c :: rest :=
      whole ▸ List.mem_append_right _ (List.mem_of_getLast? ends)
    have stop : (place.after (Cut.first place.afterName c rest)).position.after
        (Cut.first place.afterName c rest).rest = place.position.after (c :: rest) := by
      rw [← whole, Position.after_append]
      rfl
    rw [stop] at ih
    rw [List.cons_append, scanCounted_cons, scanCounted_cons place c rest,
      Cut.first_append inside, ← record_joined _ _ (scanCounted_ne_nil _ _), ← ih]
    rfl

/-- The last token before the end mark of a text that ends a line is its line break. -/
theorem scanCounted_last (place : Counted) {text : List Char} (h : text.getLast? = some '\n') :
    (scanCounted place text).1.dropLast.getLast?.map Token.kind = some .newline := by
  refine line_induction (fun place => ?_) (fun place c rest ends ih => ?_) place h
  · rw [scanCounted_cons, Cut.first_newline, scanCounted_nil]
    rfl
  · rw [scanCounted_cons]
    generalize scanCounted _ _ = behind at ih
    unfold record
    split
    · exact ih
    · obtain ⟨tokens, flaws⟩ := behind
      cases tokens with
      | nil => cases ih
      | cons t tokens =>
          cases tokens with
          | nil => cases ih
          | cons u tokens => simpa [List.getLast?_cons_cons] using ih
    · exact ih

/-- A text that ends a line and goes on with another text: all that is scanned from
the one, and then all that is scanned from the other, further down. -/
theorem scanCounted_lines {text : List Char} (h : text = [] ∨ text.getLast? = some '\n')
    (more : List Char) :
    scanCounted .start (text ++ more) =
      joined (scanCounted .start text) (shifted (text.count '\n') (scanCounted .start more)) := by
  rcases h with rfl | h
  · rw [scanCounted_nil, ← scanCounted_down]
    rfl
  · obtain ⟨front, rfl⟩ := List.getLast?_eq_some_iff.mp h
    rw [scanCounted_append _ h, Position.after_line, ← scanCounted_down]
    rfl

theorem scan_iff {text : String} {tokens : List Token} :
    scan text = .ok tokens ↔ scanCounted .start text.toList = (tokens, []) := by
  rw [← scanAll_eq, scan]
  generalize scanAll text = found
  obtain ⟨found, flaws⟩ := found
  cases flaws <;> simp

/-- A text that is empty or ends a line. -/
def EndsLine (text : String) : Prop := text = "" ∨ ∃ front, text = front ++ "\n"

theorem EndsLine.toList {text : String} (h : EndsLine text) :
    text.toList = [] ∨ text.toList.getLast? = some '\n' := by
  rcases h with rfl | ⟨front, rfl⟩
  · exact Or.inl rfl
  · exact Or.inr (by simp)

/-- The tokens of a text are followed by the mark of its end and hold no other one. If
the text ends a line and has any tokens, the last of them is the line break. -/
theorem scan_ends {text : String} {tokens : List Token} (h : scan text = .ok tokens) :
    ∃ body stop, tokens = body ++ [endMark stop] ∧ (∀ token ∈ body, token.kind ≠ .eof) ∧
      (EndsLine text → body = [] ∨ body.getLast?.map Token.kind = some .newline) := by
  rw [scan_iff] at h
  obtain ⟨body, ends, none⟩ := scanCounted_ends .start text.toList
  rw [h] at ends
  refine ⟨body, _, ends, none, fun line => ?_⟩
  rcases line.toList with empty | newline
  · rw [empty, scanCounted_nil] at h
    cases h
    have single := congrArg List.length ends
    exact Or.inl (by simpa using single)
  · have last := scanCounted_last .start newline
    rw [h, ends, List.dropLast_concat] at last
    exact Or.inr last

/-- Two texts of which the first ends a line, one behind the other. -/
theorem scan_append {first second : String} {body tokens : List Token} {stop : Position}
    (line : EndsLine first) (h : scan first = .ok (body ++ [endMark stop]))
    (h' : scan second = .ok tokens) :
    ∃ lines, scan (first ++ second) = .ok (body ++ tokens.map (down · lines)) := by
  rw [scan_iff] at h h'
  refine ⟨first.toList.count '\n', scan_iff.mpr ?_⟩
  rw [String.toList_append, scanCounted_lines line.toList, h, h']
  simp [joined, shifted]

end Token

end Sulti
