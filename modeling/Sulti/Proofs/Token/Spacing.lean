import Mathlib.Data.List.Basic
import Mathlib.Data.List.TakeWhile
import Sulti.Proofs.Alike
import Sulti.Proofs.Token.Tiling

/-!
The space between tokens carries no meaning. The lexemes of a text, put one
behind the other with single spaces between them, scan to the same tokens
again, whatever blanks and comments stood there before.

A lexeme that is cut off as a token is cut off as the same token in front of any
space and at the end of a text. A name may also run into a minus sign, and this
is needed: a decrement stands right behind its name or is none.
-/

namespace Sulti

namespace Cut

/-- The end of the text or a space. Every piece in front of it is over. -/
def Apart (more : List Char) : Prop := more = [] ∨ ∃ rest, more = ' ' :: rest

/-- What may come right behind a token of the given kind and leaves it as it is. -/
def Stops (kind : Token.Kind) (more : List Char) : Prop :=
  Apart more ∨ kind.isIdentifier = true ∧ ∃ rest, more = '-' :: rest

theorem Stops.apart {kind : Token.Kind} {more : List Char} (h : Stops kind more)
    (other : kind.isIdentifier = false) : Apart more := by
  rcases h with apart | ⟨name, _⟩
  · exact apart
  · simp [other] at name

section

variable {p : Char → Bool} {front more : List Char}

variable (more) in
/-- Characters of one class end where the text goes on with another character. -/
theorem span_append (inside : ∀ c ∈ front, p c = true)
    (stop : more = [] ∨ ∃ c rest, more = c :: rest ∧ p c = false) :
    (front ++ more).takeWhile p = front ∧ (front ++ more).dropWhile p = more := by
  rw [List.takeWhile_append_of_pos inside, List.dropWhile_append_of_pos inside]
  rcases stop with rfl | ⟨c, rest, rfl, outside⟩
  · simp
  · simp [outside]

theorem Apart.span (h : Apart more) (space : p ' ' = false) (inside : ∀ c ∈ front, p c = true) :
    (front ++ more).takeWhile p = front ∧ (front ++ more).dropWhile p = more := by
  apply span_append more inside
  rcases h with rfl | ⟨rest, rfl⟩
  · exact Or.inl rfl
  · exact Or.inr ⟨' ', rest, rfl, space⟩

end

/-! Each kind of piece, with what stood behind it replaced. -/

section

variable {rest tail left more : List Char} {kind : Token.Kind}

theorem paired_stops {c second : Char} {long short : Token.Kind}
    (h : paired c second rest long short = ⟨c :: tail, left, .token kind⟩)
    (stops : Stops kind more) (space : second ≠ ' ') (other : short.isIdentifier = false) :
    paired c second (tail ++ more) long short = ⟨c :: tail, more, .token kind⟩ := by
  rcases @paired_cases rest c second long short with one | ⟨_, two⟩
  · rw [one] at h
    cases h
    rcases stops.apart other with rfl | ⟨rest, rfl⟩
    · rfl
    · simp [paired, single, space.symm]
  · rw [two] at h
    cases h
    simp [paired]

theorem less_stops (h : less rest = ⟨'<' :: tail, left, .token kind⟩) (stops : Stops kind more) :
    less (tail ++ more) = ⟨'<' :: tail, more, .token kind⟩ := by
  unfold less at h
  split at h
  · cases h
    rfl
  · cases h
    rfl
  · cases h
    rcases stops.apart rfl with rfl | ⟨rest, rfl⟩ <;> rfl

theorem minus_stops {afterName afterName' : Bool}
    (h : minus afterName rest = ⟨'-' :: tail, left, .token kind⟩) (stops : Stops kind more)
    (name : kind = .minusMinus → afterName' = true) :
    minus afterName' (tail ++ more) = ⟨'-' :: tail, more, .token kind⟩ := by
  unfold minus at h
  split at h
  · split at h
    · cases h
      simp [minus, name]
    · cases h
  · cases h
    rcases stops.apart rfl with rfl | ⟨rest, rfl⟩ <;> rfl

theorem quoted_stops (h : quoted rest = ⟨'\x22' :: tail, left, .token kind⟩) :
    quoted (tail ++ more) = ⟨'\x22' :: tail, more, .token kind⟩ := by
  have inside : ∀ c ∈ rest.takeWhile fun c : Char => c != '\x22' && c != '\n',
      (fun c : Char => c != '\x22' && c != '\n') c = true := fun _ => List.mem_takeWhile_imp
  obtain ⟨content, behind⟩ := span_append ('\x22' :: more) inside
    (Or.inr ⟨'\x22', more, rfl, by decide⟩)
  unfold quoted at h
  dsimp only at h
  split at h
  · cases h
    simp only [quoted, List.append_assoc, List.singleton_append, content, behind]
  · cases h

theorem character_stops (h : character rest = ⟨'\x27' :: tail, left, .token kind⟩) :
    character (tail ++ more) = ⟨'\x27' :: tail, more, .token kind⟩ := by
  unfold character at h
  split at h <;> cases h
  simp [character]

theorem bracketed_stops (h : bracketed rest = ⟨'[' :: tail, left, .token kind⟩) :
    bracketed (tail ++ more) = ⟨'[' :: tail, more, .token kind⟩ := by
  unfold bracketed at h
  split at h <;> cases h
  simp [bracketed]

theorem number_stops {c : Char} (h : number c rest = ⟨c :: tail, left, .token kind⟩)
    (stops : Stops kind more) : number c (tail ++ more) = ⟨c :: tail, more, .token kind⟩ := by
  have digits (text : List Char) : ∀ d ∈ text.takeWhile Char.isDigit, d.isDigit = true :=
    fun _ => List.mem_takeWhile_imp
  unfold number at h
  dsimp only at h
  split at h
  · -- A point: the digits before it end there, those behind it with the number.
    rename_i behind _
    split at h
    · cases h
    · rename_i nonempty
      simp only [List.cons_append, Cut.mk.injEq, List.cons.injEq, true_and,
        Reading.token.injEq] at h
      obtain ⟨rfl, _, rfl⟩ := h
      obtain ⟨whole, point⟩ := span_append ('.' :: (behind.takeWhile Char.isDigit ++ more))
        (digits rest) (Or.inr ⟨'.', _, rfl, rfl⟩)
      obtain ⟨fraction, ends⟩ := (stops.apart rfl).span rfl (digits behind)
      simp [number, whole, point, fraction, ends, nonempty]
  · cases fits : Numero.ofInt? (Decimal.ofDigits (c :: rest.takeWhile Char.isDigit)) with
    | none =>
        rw [fits] at h
        cases h
    | some n =>
        rw [fits] at h
        cases h
        have apart : Apart more := stops.apart rfl
        obtain ⟨whole, ends⟩ := apart.span rfl (digits rest)
        simp only [number, whole, ends, fits]
        rcases apart with rfl | ⟨rest, rfl⟩ <;> rfl

theorem word_stops {c : Char} (h : word c rest = ⟨c :: tail, left, .token kind⟩)
    (stops : Stops kind more) : word c (tail ++ more) = ⟨c :: tail, more, .token kind⟩ := by
  have inside : ∀ d ∈ rest.takeWhile isWordChar, isWordChar d = true :=
    fun _ => List.mem_takeWhile_imp
  have stop : more = [] ∨ ∃ d rest, more = d :: rest ∧ isWordChar d = false := by
    rcases stops with (rfl | ⟨rest, rfl⟩) | ⟨_, rest, rfl⟩
    · exact Or.inl rfl
    · exact Or.inr ⟨' ', rest, rfl, rfl⟩
    · exact Or.inr ⟨'-', rest, rfl, rfl⟩
  obtain ⟨taken, behind⟩ := span_append more inside stop
  cases h
  simp [word, taken, behind]

/-- A token is cut off wherever its lexeme stands in front of what stops it. Only of a
decrement it matters what stands before. -/
theorem first_stops {afterName afterName' : Bool} {c : Char}
    (h : first afterName c rest = ⟨c :: tail, left, .token kind⟩)
    (name : kind = .minusMinus → afterName' = true) (stops : Stops kind more) :
    first afterName' c (tail ++ more) = ⟨c :: tail, more, .token kind⟩ := by
  revert h
  unfold first
  split
  · rintro ⟨⟩
    rfl
  · unfold other
    split
    · exact fun h => paired_stops h stops (by decide) rfl
    · exact fun h => paired_stops h stops (by decide) rfl
    · exact fun h => paired_stops h stops (by decide) rfl
    · exact fun h => less_stops h stops
    · exact fun h => minus_stops h stops name
    · exact quoted_stops
    · exact character_stops
    · exact bracketed_stops
    · split
      · exact nofun
      · split
        · exact fun h => number_stops h stops
        · split
          · exact fun h => word_stops h stops
          · exact nofun

theorem mark?_ne_identifier {c : Char} (name : String) : mark? c ≠ some (.identifier name) := by
  intro h
  unfold mark? at h
  split at h <;> cases h

theorem ofQuoted_ne_identifier (content name : String) :
    Token.Kind.ofQuoted content ≠ .identifier name := by
  intro h
  unfold Token.Kind.ofQuoted at h
  split at h <;> cases h

theorem reading_paired_ne_identifier {c second : Char} {long short : Token.Kind} {name : String}
    (hl : long ≠ .identifier name) (hs : short ≠ .identifier name) :
    (paired c second rest long short).reading ≠ .token (.identifier name) := by
  rcases @paired_cases rest c second long short with one | ⟨_, two⟩
  · rw [one]
    exact fun same => hs (Reading.token.inj same)
  · rw [two]
    exact fun same => hl (Reading.token.inj same)

/-- A name is made up of the characters that may stand in one. -/
theorem isWordChar_of_name {afterName : Bool} {c : Char} {name : String}
    (h : (first afterName c rest).reading = .token (.identifier name)) :
    ∀ d ∈ (first afterName c rest).taken, isWordChar d = true := by
  revert h
  unfold first
  split
  · rename_i kind mark
    rintro ⟨⟩
    exact absurd mark (mark?_ne_identifier name)
  · unfold other
    split
    · exact fun h => absurd h (reading_paired_ne_identifier (by simp) (by simp))
    · exact fun h => absurd h (reading_paired_ne_identifier (by simp) (by simp))
    · exact fun h => absurd h (reading_paired_ne_identifier (by simp) (by simp))
    · unfold less
      split <;> rintro ⟨⟩
    · unfold minus
      split
      · split <;> rintro ⟨⟩
      · rintro ⟨⟩
    · unfold quoted
      dsimp only
      split
      · exact fun h => absurd (Reading.token.inj h) (ofQuoted_ne_identifier _ name)
      · rintro ⟨⟩
    · unfold character
      split <;> rintro ⟨⟩
    · unfold bracketed
      split <;> rintro ⟨⟩
    · split
      · rintro ⟨⟩
      · split
        · unfold number
          dsimp only
          generalize Numero.ofInt? _ = value
          split
          · split <;> rintro ⟨⟩
          · cases value <;> rintro ⟨⟩
        · split
          · rename_i letter
            intro _ d member
            rcases List.mem_cons.mp member with rfl | inside
            · simp only [Bool.or_eq_true, beq_iff_eq] at letter
              rcases letter with alpha | rfl
              · simp [isWordChar, Char.isAlphanum, alpha]
              · rfl
            · exact List.mem_takeWhile_imp inside
          · rintro ⟨⟩

end

end Cut

namespace Token

/-- A token whose lexeme gives that token again wherever it stands in front of what stops
it, a decrement only right behind a name. -/
structure Whole (t : Token) : Prop where
  cut : ∃ c tail, t.lexeme.toList = c :: tail ∧
    ∀ afterName more, (t.kind = .minusMinus → afterName = true) → Cut.Stops t.kind more →
      Cut.first afterName c (tail ++ more) = ⟨c :: tail, more, .token t.kind⟩
  name : t.kind.isIdentifier = true → ∀ c ∈ t.lexeme.toList, Cut.isWordChar c = true

theorem whole_of_first {afterName : Bool} {c : Char} {rest : List Char} {kind : Kind}
    (h : (Cut.first afterName c rest).reading = .token kind) (position : Position) :
    Whole ⟨kind, String.ofList (Cut.first afterName c rest).taken, position⟩ := by
  obtain ⟨whole, nonempty⟩ := Cut.tiles_first afterName c rest
  constructor
  · rcases hcut : Cut.first afterName c rest with ⟨_ | ⟨d, tail⟩, left, reading⟩
    · rw [hcut] at nonempty
      exact absurd rfl nonempty
    · rw [hcut] at whole h
      simp only [List.cons_append, List.cons.injEq] at whole h
      obtain ⟨rfl, _⟩ := whole
      subst h
      refine ⟨d, tail, by simp, ?_⟩
      intro afterName' more name stops
      exact Cut.first_stops hcut name stops
  · intro name
    simp only [String.toList_ofList]
    cases kind <;> cases name
    exact Cut.isWordChar_of_name h

/-- Whatever a text is scanned to, its tokens can be told from their lexemes. -/
theorem whole_of_scanCounted (place : Counted) (text : List Char) :
    ∀ t ∈ (scanCounted place text).1, t.kind ≠ .eof → t.Whole := by
  induction place, text using scan_induction with
  | nil place =>
      intro t member inner
      rw [scanCounted_nil, List.mem_singleton] at member
      exact absurd (by rw [member]; rfl) inner
  | cons place c rest ih =>
      rw [scanCounted_cons]
      unfold record
      split
      · exact ih
      · rename_i kind hk
        intro t member inner
        rcases List.mem_cons.mp member with rfl | member
        · exact whole_of_first hk place.position
        · exact ih t member inner
      · exact ih

/-- A lexeme with what is put before it where it does not come first. -/
def spaced (t : Token) : List Char :=
  if t.kind = .minusMinus then t.lexeme.toList else ' ' :: t.lexeme.toList

def spacedAll (tokens : List Token) : List Char :=
  (tokens.filter (·.kind ≠ .eof)).flatMap spaced

/-- The lexemes of tokens without the end mark, one behind the other. A space stands
between any two of them unless the second is a decrement. -/
def respaced (tokens : List Token) : String :=
  match tokens.filter (·.kind ≠ .eof) with
  | [] => ""
  | first :: others => first.lexeme ++ String.ofList (others.flatMap spaced)

theorem spacedAll_endMark (p : Position) : spacedAll [endMark p] = [] := rfl

theorem spacedAll_cons {t : Token} (inner : t.kind ≠ .eof) (tokens : List Token) :
    spacedAll (t :: tokens) = t.spaced ++ spacedAll tokens := by
  simp [spacedAll, inner]

theorem toList_respaced_cons {t : Token} (inner : t.kind ≠ .eof) (tokens : List Token) :
    (respaced (t :: tokens)).toList = t.lexeme.toList ++ spacedAll tokens := by
  simp [respaced, spacedAll, inner]

/-- The lexeme of a decrement starts with a minus sign. -/
theorem Whole.decrement {t : Token} (whole : t.Whole) (h : t.kind = .minusMinus) :
    ∃ tail, t.lexeme.toList = '-' :: tail := by
  obtain ⟨c, tail, lexeme, cut⟩ := whole.cut
  have alone := cut true [] (fun _ => rfl) (Or.inl (Or.inl rfl))
  have reading := congrArg Cut.reading alone
  rw [h] at reading
  obtain ⟨_, rfl⟩ := Cut.decrement_cases reading
  exact ⟨tail, lexeme⟩

/-- What is put behind a token stops it. -/
theorem Tiling.stops {before rest : List Char} {t : Token} {tokens : List Token}
    (tiling : Tiling before (some t) rest tokens)
    (whole : ∀ u ∈ tokens, u.kind ≠ .eof → u.Whole) : Cut.Stops t.kind (spacedAll tokens) := by
  cases tiling with
  | finish => exact Or.inl (Or.inl rfl)
  | @token _ _ _ _ u _ _ _ inner _ decrement _ =>
      rw [spacedAll_cons inner]
      unfold spaced
      split
      · rename_i minus
        obtain ⟨_, name, same⟩ := decrement minus
        obtain ⟨tail, lexeme⟩ := (whole u List.mem_cons_self inner).decrement minus
        rw [Option.map_some, Option.some.injEq] at same
        right
        rw [same, lexeme]
        exact ⟨rfl, _, rfl⟩
      · exact Or.inl (Or.inr ⟨_, rfl⟩)

/-- A lexeme in front of what stops it is scanned as its token. Behind a name it is then
known that a name stands there. -/
theorem Whole.scanCounted_append {t : Token} (whole : t.Whole) {place : Counted}
    (name : t.kind = .minusMinus → place.afterName = true) {more : List Char}
    (stops : Cut.Stops t.kind more) :
    ∃ behind : Counted, (t.kind.isIdentifier = true → behind.afterName = true) ∧
      scanCounted place (t.lexeme.toList ++ more) =
        (⟨t.kind, t.lexeme, place.position⟩ :: (scanCounted behind more).1,
          (scanCounted behind more).2) := by
  obtain ⟨c, tail, lexeme, cut⟩ := whole.cut
  refine ⟨place.after ⟨c :: tail, more, .token t.kind⟩, ?_, ?_⟩
  · intro identifier
    have last := whole.name identifier ((c :: tail).getLast (List.cons_ne_nil c tail))
      (by rw [lexeme]; exact List.getLast_mem _)
    simp [Counted.afterName, Counted.after, Reading.lastIsName, identifier,
      List.getLast?_eq_getLast_of_ne_nil, last]
  · have same : t.lexeme = String.ofList (c :: tail) := by rw [← lexeme, String.ofList_toList]
    rw [lexeme, List.cons_append, scanCounted_cons, cut _ _ name stops, same]
    rfl

theorem scanCounted_space (place : Counted) (rest : List Char) :
    scanCounted place (' ' :: rest) = scanCounted (place.after ⟨[' '], rest, .skipped⟩) rest := by
  rw [scanCounted_cons]
  rfl

/-- From the place on, the text is scanned without flaws to tokens like these. -/
def Rescans (place : Counted) (text : List Char) (tokens : List Token) : Prop :=
  ∃ tokens', scanCounted place text = (tokens', []) ∧ List.Forall₂ Token.Alike tokens tokens'

theorem Whole.rescans_cons {t : Token} (whole : t.Whole) {place : Counted}
    (name : t.kind = .minusMinus → place.afterName = true) {more : List Char}
    (stops : Cut.Stops t.kind more) {tokens : List Token}
    (others : ∀ behind : Counted, (t.kind.isIdentifier = true → behind.afterName = true) →
      Rescans behind more tokens) :
    Rescans place (t.lexeme.toList ++ more) (t :: tokens) := by
  obtain ⟨behind, identifier, scan⟩ := whole.scanCounted_append name stops
  obtain ⟨tokens', clean, alike⟩ := others behind identifier
  rw [clean] at scan
  exact ⟨_, scan, .cons ⟨rfl, rfl⟩ alike⟩

/-- The tokens of a tiled text, with the space between them replaced, are scanned to the
same tokens again. -/
theorem Tiling.rescans {before text : List Char} {previous : Option Token}
    {tokens : List Token} (tiling : Tiling before previous text tokens)
    (whole : ∀ t ∈ tokens, t.kind ≠ .eof → t.Whole) (place : Counted)
    (name : ∀ t, previous = some t → t.kind.isIdentifier = true → place.afterName = true) :
    Rescans place (spacedAll tokens) tokens := by
  induction tiling generalizing place with
  | finish =>
      rw [spacedAll_endMark]
      exact ⟨_, scanCounted_nil place, .cons ⟨rfl, rfl⟩ .nil⟩
  | @token _ _ _ previous t tokens _ _ inner _ decrement others ih =>
      obtain ⟨own, rest⟩ := List.forall_mem_cons.mp whole
      have stops := others.stops rest
      have onward (behind : Counted)
          (known : t.kind.isIdentifier = true → behind.afterName = true) :
          Rescans behind (spacedAll tokens) tokens := by
        apply ih rest behind
        rintro _ ⟨⟩
        exact known
      rw [spacedAll_cons inner]
      unfold spaced
      split
      · rename_i minus
        apply (own inner).rescans_cons _ stops onward
        intro _
        obtain ⟨_, word, before⟩ := decrement minus
        obtain ⟨u, rfl, same⟩ := Option.map_eq_some_iff.mp before
        exact name u rfl (by rw [same]; rfl)
      · rename_i ordinary
        rw [List.cons_append, Rescans, scanCounted_space]
        exact (own inner).rescans_cons (fun minus => absurd minus ordinary) stops onward

/-- The first token has no space before it. -/
theorem Tiling.rescans_first {before text : List Char} {tokens : List Token}
    (tiling : Tiling before none text tokens) (whole : ∀ t ∈ tokens, t.kind ≠ .eof → t.Whole)
    (place : Counted) : Rescans place (respaced tokens).toList tokens := by
  cases tiling with
  | finish => exact ⟨_, scanCounted_nil place, .cons ⟨rfl, rfl⟩ .nil⟩
  | @token _ _ _ _ t tokens _ _ inner _ decrement others =>
      obtain ⟨own, rest⟩ := List.forall_mem_cons.mp whole
      rw [toList_respaced_cons inner]
      apply (own inner).rescans_cons _ (others.stops rest)
      · intro behind known
        apply others.rescans rest behind
        rintro _ ⟨⟩
        exact known
      · intro minus
        obtain ⟨_, _, none⟩ := decrement minus
        cases none

/-- Every text that scans can be spaced anew: the lexemes of its tokens with one space
between them, but none before a decrement, scan to the same tokens. Each keeps its kind,
with the value of a literal in it, and its lexeme; only the places may differ. -/
theorem scan_respaced {text : String} {tokens : List Token} (h : scan text = .ok tokens) :
    ∃ tokens', scan (respaced tokens) = .ok tokens' ∧ List.Forall₂ Token.Alike tokens tokens' := by
  rw [scan_iff] at h
  have ready : Ready .start [] [] none text.toList := ⟨rfl, .none, nofun⟩
  have tiling := tiling_scanCounted .start text.toList [] [] none ready (by rw [h])
  have whole := whole_of_scanCounted .start text.toList
  rw [h] at tiling whole
  obtain ⟨tokens', scans, alike⟩ := tiling.rescans_first whole .start
  exact ⟨tokens', scan_iff.mpr scans, alike⟩

/-- A comment, a tab between two operators that would be one without it, and a decrement,
which stays with its name. -/
theorem scan_respaced_decrement :
    let tokens : List Token := [⟨.identifier "x", "x", ⟨1, 1⟩⟩, ⟨.minusMinus, "--", ⟨1, 2⟩⟩,
      ⟨.less, "<", ⟨1, 4⟩⟩, ⟨.equal, "=", ⟨1, 6⟩⟩, endMark ⟨1, 9⟩]
    scan "x--<\t=--" = .ok tokens ∧ respaced tokens = "x-- < =" ∧
      ∃ tokens', scan "x-- < =" = .ok tokens' ∧ List.Forall₂ Token.Alike tokens tokens' := by
  intro tokens
  have h : scan "x--<\t=--" = .ok tokens := by decide +kernel
  have spaces : respaced tokens = "x-- < =" := by decide +kernel
  exact ⟨h, spaces, spaces ▸ scan_respaced h⟩

end Token

end Sulti
