import Sulti.Token.Cut

/-!
What a piece that is cut from the front of a text may hold. No piece but a line
break reaches over a line break, so it stays as it is when the text goes on
behind its last line break, and none is read as the end mark.
-/

namespace Sulti

namespace Cut

/-- The same piece in front of a longer text. -/
def extend (cut : Cut) (more : List Char) : Cut := { cut with rest := cut.rest ++ more }

section

variable {rest : List Char} (more : List Char)

theorem takeWhile_append_of_mem {p : Char → Bool} {stop : Char} (h : stop ∈ rest)
    (stops : p stop = false) : (rest ++ more).takeWhile p = rest.takeWhile p := by
  induction rest with
  | nil => cases h
  | cons c rest ih =>
      cases hp : p c with
      | false => simp [hp]
      | true =>
          have other : stop ∈ rest := by
            rcases List.mem_cons.mp h with rfl | h
            · rw [stops] at hp
              cases hp
            · exact h
          simp [hp, ih other]

theorem dropWhile_append_of_mem {p : Char → Bool} {stop : Char} (h : stop ∈ rest)
    (stops : p stop = false) : (rest ++ more).dropWhile p = rest.dropWhile p ++ more := by
  have whole := List.takeWhile_append_dropWhile (p := p) (l := rest ++ more)
  have part := List.takeWhile_append_dropWhile (p := p) (l := rest)
  rw [takeWhile_append_of_mem more h stops] at whole
  refine List.append_cancel_left (whole.trans ?_)
  rw [← List.append_assoc, part]

/-- What is left behind characters of one kind still holds every other character. -/
theorem mem_dropWhile {p : Char → Bool} {stop : Char} (h : stop ∈ rest) (stops : p stop = false) :
    stop ∈ rest.dropWhile p := by
  rw [← List.takeWhile_append_dropWhile (p := p) (l := rest)] at h
  rcases List.mem_append.mp h with taken | left
  · have holds := List.all_eq_true.mp (List.all_takeWhile (p := p) (l := rest)) stop taken
    rw [stops] at holds
    cases holds
  · exact left

/-! Each kind of piece stays the same when a text goes on behind a line break. -/

theorem paired_append (h : '\n' ∈ rest) (c second : Char) (long short : Token.Kind) :
    paired c second (rest ++ more) long short = (paired c second rest long short).extend more := by
  cases rest with
  | nil => cases h
  | cons d rest =>
      simp only [paired, List.cons_append]
      split <;> rfl

theorem less_append (h : '\n' ∈ rest) : less (rest ++ more) = (less rest).extend more := by
  cases rest with
  | nil => cases h
  | cons d rest =>
      simp only [less, List.cons_append]
      split <;> simp_all [extend, single]

theorem minus_append (h : '\n' ∈ rest) (afterName : Bool) :
    minus afterName (rest ++ more) = (minus afterName rest).extend more := by
  cases rest with
  | nil => cases h
  | cons d rest =>
      by_cases hd : d = '-'
      · subst hd
        have inside : '\n' ∈ rest := by simpa using h
        simp only [minus, List.cons_append]
        split
        · rfl
        · simp [extend, takeWhile_append_of_mem more inside, dropWhile_append_of_mem more inside]
      · simp only [minus, List.cons_append]
        split <;> simp_all [extend, single]

theorem quoted_append (h : '\n' ∈ rest) : quoted (rest ++ more) = (quoted rest).extend more := by
  have stops : (fun c : Char => c != '\x22' && c != '\n') '\n' = false := rfl
  have left := mem_dropWhile (p := fun c => c != '\x22' && c != '\n') h stops
  unfold quoted
  simp only [takeWhile_append_of_mem (p := fun c => c != '\x22' && c != '\n') more h stops,
    dropWhile_append_of_mem (p := fun c => c != '\x22' && c != '\n') more h stops]
  cases hd : rest.dropWhile fun c : Char => c != '\x22' && c != '\n' with
  | nil =>
      rw [hd] at left
      cases left
  | cons d left =>
      simp only [List.cons_append]
      split <;> simp_all [extend]

theorem character_append (h : '\n' ∈ rest) :
    character (rest ++ more) = (character rest).extend more := by
  cases rest with
  | nil => cases h
  | cons c rest =>
      cases rest with
      | nil =>
          cases List.mem_singleton.mp h
          rfl
      | cons d rest =>
          by_cases newline : c = '\n'
          · subst newline
            rfl
          · by_cases quote : c = '\x27'
            · subst quote
              rfl
            · by_cases closed : d = '\x27'
              · subst closed
                simp [character, extend]
              · simp [character, extend, closed]

theorem bracketed_append (h : '\n' ∈ rest) :
    bracketed (rest ++ more) = (bracketed rest).extend more := by
  cases rest with
  | nil => cases h
  | cons c rest =>
      cases rest with
      | nil =>
          cases List.mem_singleton.mp h
          rfl
      | cons d rest =>
          simp only [bracketed, List.cons_append]
          split <;> simp_all [extend]

theorem number_append (h : '\n' ∈ rest) (c : Char) :
    number c (rest ++ more) = (number c rest).extend more := by
  have stops : Char.isDigit '\n' = false := rfl
  have left := mem_dropWhile h stops
  unfold number
  dsimp only
  rw [takeWhile_append_of_mem more h stops, dropWhile_append_of_mem more h stops]
  -- The value of the digits is the same on both sides and must not be computed.
  generalize Numero.ofInt? (Decimal.ofDigits (c :: rest.takeWhile Char.isDigit)) = value
  cases hd : rest.dropWhile Char.isDigit with
  | nil =>
      rw [hd] at left
      cases left
  | cons d behind =>
      rw [hd] at left
      by_cases point : d = '.'
      · subst point
        have inside : '\n' ∈ behind := by simpa using left
        simp [extend, takeWhile_append_of_mem more inside stops,
          dropWhile_append_of_mem more inside stops]
      · simp only [List.cons_append]
        split
        · simp_all
        · cases value <;> simp_all [extend]

theorem word_append (h : '\n' ∈ rest) (c : Char) :
    word c (rest ++ more) = (word c rest).extend more := by
  have stops : isWordChar '\n' = false := rfl
  simp [word, extend, takeWhile_append_of_mem more h stops, dropWhile_append_of_mem more h stops]

theorem other_append (h : '\n' ∈ rest) (afterName : Bool) (c : Char) :
    other afterName c (rest ++ more) = (other afterName c rest).extend more := by
  unfold other
  split
  · exact paired_append more h ..
  · exact paired_append more h ..
  · exact paired_append more h ..
  · exact less_append more h
  · exact minus_append more h afterName
  · exact quoted_append more h
  · exact character_append more h
  · exact bracketed_append more h
  · split
    · rfl
    · split
      · exact number_append more h c
      · split
        · exact word_append more h c
        · rfl

end

/-- A text that goes on behind its last line break has the same first piece. -/
theorem first_append {c : Char} {rest : List Char} (h : '\n' ∈ c :: rest) (afterName : Bool)
    (more : List Char) :
    first afterName c (rest ++ more) = (first afterName c rest).extend more := by
  unfold first
  cases hm : mark? c with
  | some kind => rfl
  | none =>
      rcases List.mem_cons.mp h with rfl | h
      · cases hm
      · exact other_append more h afterName c

theorem first_newline (afterName : Bool) (rest : List Char) :
    first afterName '\n' rest = ⟨['\n'], rest, .token .newline⟩ := rfl

section

variable {rest : List Char}

theorem ne_newline_of_mem_takeWhile {p : Char → Bool} (stops : p '\n' = false) {c : Char}
    (h : c ∈ rest.takeWhile p) : c ≠ '\n' := by
  rintro rfl
  have holds := List.all_eq_true.mp (List.all_takeWhile (p := p) (l := rest)) _ h
  rw [stops] at holds
  cases holds

theorem paired_cases (c second : Char) (long short : Token.Kind) :
    paired c second rest long short = single c rest short ∨
      ∃ more, paired c second rest long short = ⟨[c, second], more, .token long⟩ := by
  unfold paired
  split
  · split
    · rename_i same
      subst same
      exact Or.inr ⟨_, rfl⟩
    · exact Or.inl rfl
  · exact Or.inl rfl

theorem newline_notMem_paired {c second : Char} (hc : c ≠ '\n') (hs : second ≠ '\n')
    (long short : Token.Kind) : '\n' ∉ (paired c second rest long short).taken := by
  rcases paired_cases c second long short with h | ⟨more, h⟩
  · rw [h]
    simp [single, hc.symm]
  · rw [h]
    simp [hc.symm, hs.symm]

theorem reading_paired_ne_eof {c second : Char} {long short : Token.Kind} (hl : long ≠ .eof)
    (hs : short ≠ .eof) : (paired c second rest long short).reading ≠ .token .eof := by
  rcases paired_cases c second long short with h | ⟨more, h⟩
  · rw [h]
    exact fun same => hs (Reading.token.inj same)
  · rw [h]
    exact fun same => hl (Reading.token.inj same)

theorem newline_notMem_minus (afterName : Bool) : '\n' ∉ (minus afterName rest).taken := by
  unfold minus
  split
  · split
    · simp
    · rename_i more _
      have comment : '\n' ∉ more.takeWhile (· != '\n') :=
        fun h => ne_newline_of_mem_takeWhile rfl h rfl
      simp [comment]
  · simp [single]

theorem newline_notMem_quoted : '\n' ∉ (quoted rest).taken := by
  have content : '\n' ∉ rest.takeWhile fun c : Char => c != '\x22' && c != '\n' :=
    fun h => ne_newline_of_mem_takeWhile rfl h rfl
  unfold quoted
  simp only
  split <;> simp [content]

theorem newline_notMem_number {c : Char} (hc : c ≠ '\n') : '\n' ∉ (number c rest).taken := by
  have digits (text : List Char) : '\n' ∉ text.takeWhile Char.isDigit :=
    fun h => ne_newline_of_mem_takeWhile rfl h rfl
  unfold number
  simp only
  split <;> simp [digits, hc.symm]

theorem newline_notMem_word {c : Char} (hc : c ≠ '\n') : '\n' ∉ (word c rest).taken := by
  have letters : '\n' ∉ rest.takeWhile isWordChar :=
    fun h => ne_newline_of_mem_takeWhile rfl h rfl
  simp [word, letters, hc.symm]

/-- No piece but a line break holds one. -/
theorem newline_notMem_taken (afterName : Bool) {c : Char} (hc : c ≠ '\n') :
    '\n' ∉ (first afterName c rest).taken := by
  unfold first
  split
  · simp [single, hc.symm]
  · unfold other
    split
    · exact newline_notMem_paired (by decide) (by decide) _ _
    · exact newline_notMem_paired (by decide) (by decide) _ _
    · exact newline_notMem_paired (by decide) (by decide) _ _
    · unfold less
      split <;> simp [single]
    · exact newline_notMem_minus afterName
    · exact newline_notMem_quoted
    · unfold character
      split <;> simp_all [eq_comm]
    · unfold bracketed
      split <;> simp_all [eq_comm]
    · split
      · simp [hc.symm]
      · split
        · exact newline_notMem_number hc
        · split
          · exact newline_notMem_word hc
          · simp [hc.symm]

end

theorem mark?_ne_eof {c : Char} {kind : Token.Kind} (h : mark? c = some kind) : kind ≠ .eof := by
  unfold mark? at h
  split at h <;> cases h <;> exact nofun

theorem ofWord_ne_eof (word : String) : Token.Kind.ofWord word ≠ .eof := by
  unfold Token.Kind.ofWord
  split <;> exact nofun

theorem ofQuoted_ne_eof (content : String) : Token.Kind.ofQuoted content ≠ .eof := by
  unfold Token.Kind.ofQuoted
  split <;> exact nofun

/-- No piece of text is read as the end mark. -/
theorem reading_first_ne_eof (afterName : Bool) (c : Char) (rest : List Char) :
    (first afterName c rest).reading ≠ .token .eof := by
  unfold first
  split
  · rename_i kind hm
    intro h
    cases h
    exact mark?_ne_eof hm rfl
  · unfold other
    split
    · exact reading_paired_ne_eof nofun nofun
    · exact reading_paired_ne_eof nofun nofun
    · exact reading_paired_ne_eof nofun nofun
    · unfold less
      split <;> exact nofun
    · unfold minus
      split
      · split <;> exact nofun
      · exact nofun
    · unfold quoted
      dsimp only
      split
      · intro h
        exact ofQuoted_ne_eof _ (Reading.token.inj h)
      · exact nofun
    · unfold character
      split <;> exact nofun
    · unfold bracketed
      split <;> exact nofun
    · split
      · exact nofun
      · split
        · unfold number
          dsimp only
          generalize Numero.ofInt? _ = value
          split
          · dsimp only
            split <;> exact nofun
          · cases value <;> exact nofun
        · split
          · intro h
            exact ofWord_ne_eof _ (Reading.token.inj h)
          · exact nofun

end Cut

end Sulti
