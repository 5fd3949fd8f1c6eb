import Mathlib.Data.List.Induction
import Sulti.Proofs.Token.Concatenation

/-!
Tokens tile the text they are scanned from. Put one behind the other, with the
gaps of blanks and comments between them, their lexemes are the text again, and
the place of each is counted from the text before it. Where a text does not
scan, the flaws stand at characters of it, from front to back.

A decrement has no gap before it. That rests on two things that a scan keeps in
mind, the kind of the last token and the last character; a comment may end in a
character of a name, but no minus sign comes right behind a comment.
-/

namespace Sulti

namespace Position

/-- The place behind a text, counted from the text as a whole: its line breaks, and the
characters since the last of them. -/
def behind (text : List Char) : Position :=
  ⟨1 + text.count '\n', 1 + (text.reverse.takeWhile (· != '\n')).length⟩

theorem step_behind (text : List Char) (c : Char) :
    (behind text).step c = behind (text ++ [c]) := by
  by_cases newline : c = '\n'
  · subst newline
    simp [step, behind, Nat.add_assoc]
  · simp [step, behind, newline, Nat.add_assoc]

/-- Moving over a text character by character leads behind it. -/
theorem start_after (text : List Char) : start.after text = behind text := by
  induction text using List.reverseRecOn with
  | nil => rfl
  | append_singleton text c ih => rw [after_append, ih, after_cons, after_nil, step_behind]

/-- The order in which places stand in a text. -/
def Before (p q : Position) : Prop := p.line < q.line ∨ p.line = q.line ∧ p.column < q.column

theorem Before.trans {p q r : Position} (h : p.Before q) (h' : q.Before r) : p.Before r := by
  unfold Before at *
  omega

theorem Before.ne {p q : Position} (h : p.Before q) : p ≠ q := by
  rintro rfl
  unfold Before at h
  omega

theorem before_step (p : Position) (c : Char) : p.Before (p.step c) := by
  unfold step
  split
  · exact Or.inl (Nat.lt_succ_self _)
  · exact Or.inr ⟨rfl, Nat.lt_succ_self _⟩

theorem before_after (p : Position) {piece : List Char} (nonempty : piece ≠ []) :
    p.Before (p.after piece) := by
  induction piece generalizing p with
  | nil => exact absurd rfl nonempty
  | cons c piece ih =>
      rw [after_cons]
      cases piece with
      | nil => exact before_step p c
      | cons d piece => exact (before_step p c).trans (ih _ (List.cons_ne_nil _ _))

end Position

namespace Cut

/-- A piece that is neither left out nor a decrement. -/
def Ordinary (cut : Cut) : Prop := cut.reading ≠ .skipped ∧ cut.reading ≠ .token .minusMinus

theorem ordinary_token {kind : Token.Kind} (h : kind ≠ .minusMinus) (taken rest : List Char) :
    Ordinary ⟨taken, rest, .token kind⟩ :=
  ⟨nofun, fun same => h (Reading.token.inj same)⟩

theorem ordinary_malformed (cause : Malformed) (taken rest : List Char) :
    Ordinary ⟨taken, rest, .malformed cause⟩ :=
  ⟨nofun, nofun⟩

theorem mark?_ne_minusMinus {c : Char} {kind : Token.Kind} (h : mark? c = some kind) :
    kind ≠ .minusMinus := by
  unfold mark? at h
  split at h <;> cases h <;> exact nofun

theorem ofWord_ne_minusMinus (word : String) : Token.Kind.ofWord word ≠ .minusMinus := by
  unfold Token.Kind.ofWord
  split <;> exact nofun

theorem ofQuoted_ne_minusMinus (content : String) :
    Token.Kind.ofQuoted content ≠ .minusMinus := by
  unfold Token.Kind.ofQuoted
  split <;> exact nofun

theorem ordinary_paired {c second : Char} {rest : List Char} {long short : Token.Kind}
    (hl : long ≠ .minusMinus) (hs : short ≠ .minusMinus) :
    (paired c second rest long short).Ordinary := by
  rcases @paired_cases rest c second long short with h | ⟨more, h⟩
  · rw [h]
    exact ordinary_token hs _ _
  · rw [h]
    exact ordinary_token hl _ _

theorem ordinary_quoted (rest : List Char) : (quoted rest).Ordinary := by
  unfold quoted
  dsimp only
  split
  · exact ordinary_token (ofQuoted_ne_minusMinus _) _ _
  · exact ordinary_malformed _ _ _

theorem ordinary_number (c : Char) (rest : List Char) : (number c rest).Ordinary := by
  unfold number
  dsimp only
  generalize Numero.ofInt? _ = value
  split
  · split
    · exact ordinary_malformed _ _ _
    · exact ⟨nofun, nofun⟩
  · cases value with
    | none => exact ordinary_malformed _ _ _
    | some n => exact ⟨nofun, nofun⟩

/-- The characters that are left out one by one. -/
def IsBlank (c : Char) : Prop := c = ' ' ∨ c = '\t' ∨ c = '\r'

/-- A minus sign and a blank are all that a piece that is left out, or a decrement, can
start with. -/
theorem first_cases (afterName : Bool) (c : Char) (rest : List Char) :
    (first afterName c rest).Ordinary ∨
      c = '-' ∧ first afterName c rest = minus afterName rest ∨
      IsBlank c ∧ first afterName c rest = ⟨[c], rest, .skipped⟩ := by
  unfold first
  split
  · rename_i kind hm
    exact Or.inl (ordinary_token (mark?_ne_minusMinus hm) _ _)
  · unfold other
    split
    · exact Or.inl (ordinary_paired nofun nofun)
    · exact Or.inl (ordinary_paired nofun nofun)
    · exact Or.inl (ordinary_paired nofun nofun)
    · left
      unfold less
      split <;> exact ⟨nofun, nofun⟩
    · exact Or.inr (Or.inl ⟨rfl, rfl⟩)
    · exact Or.inl (ordinary_quoted rest)
    · left
      unfold character
      split <;> exact ⟨nofun, nofun⟩
    · left
      unfold bracketed
      split <;> exact ⟨nofun, nofun⟩
    · split
      · rename_i blank
        have blank : IsBlank c := by
          unfold IsBlank
          simp only [Bool.or_eq_true, beq_iff_eq] at blank
          grind
        exact Or.inr (Or.inr ⟨blank, rfl⟩)
      · left
        split
        · exact ordinary_number c rest
        · split
          · exact ordinary_token (ofWord_ne_minusMinus _) _ _
          · exact ordinary_malformed _ _ _

theorem minus_cases (afterName : Bool) (rest : List Char) :
    (minus afterName rest).Ordinary ∨
      ∃ more, rest = '-' :: more ∧
        (afterName = true ∧ minus afterName rest = ⟨['-', '-'], more, .token .minusMinus⟩ ∨
          minus afterName rest = ⟨'-' :: '-' :: more.takeWhile (· != '\n'),
            more.dropWhile (· != '\n'), .skipped⟩) := by
  unfold minus
  split
  · rename_i more
    right
    refine ⟨more, rfl, ?_⟩
    cases afterName with
    | true => exact Or.inl ⟨rfl, rfl⟩
    | false => exact Or.inr rfl
  · exact Or.inl ⟨nofun, nofun⟩

/-- Two minus signs are a decrement only right behind a name. -/
theorem decrement_cases {afterName : Bool} {c : Char} {rest : List Char}
    (h : (first afterName c rest).reading = .token .minusMinus) : afterName = true ∧ c = '-' := by
  rcases first_cases afterName c rest with ordinary | ⟨rfl, same⟩ | ⟨_, same⟩
  · exact absurd h ordinary.2
  · rw [same] at h
    rcases minus_cases afterName rest with ordinary | ⟨more, rfl, ⟨name, _⟩ | comment⟩
    · exact absurd h ordinary.2
    · exact ⟨name, rfl⟩
    · rw [comment] at h
      cases h
  · rw [same] at h
    cases h

end Cut

namespace Token

/-! The gaps between tokens. -/

/-- Where a comment has to end. -/
def LineEnds (text : List Char) : Prop := text = [] ∨ ∃ more, text = '\n' :: more

/-- What scanning leaves out in front of the text `behind`: spaces, tabs and carriage
returns, and at their end a comment that runs up to the end of its line. -/
inductive Gap (behind : List Char) : List Char → Prop where
  | none : Gap behind []
  | blank {c : Char} {gap : List Char} (h : c = ' ' ∨ c = '\t' ∨ c = '\r')
      (others : Gap behind gap) : Gap behind (c :: gap)
  | comment {body : List Char} (inline : '\n' ∉ body) (stops : LineEnds behind) :
      Gap behind ('-' :: '-' :: body)

/-- Behind a gap that ends before a character inside a line, another gap may stand. -/
theorem Gap.append {c : Char} {rest behind gap more : List Char} (h : Gap (c :: rest) gap)
    (inside : c ≠ '\n') (h' : Gap behind more) : Gap behind (gap ++ more) := by
  induction h with
  | none => exact h'
  | blank hc _ ih => exact .blank hc ih
  | comment _ stops =>
      rcases stops with h | ⟨_, h⟩
      · cases h
      · cases h
        exact absurd rfl inside

theorem lineEnds_dropWhile (text : List Char) : LineEnds (text.dropWhile (· != '\n')) := by
  cases h : text.dropWhile (· != '\n') with
  | nil => exact Or.inl rfl
  | cons c more =>
      have stops := List.head?_dropWhile_not (· != '\n') text
      rw [h] at stops
      exact Or.inr ⟨more, by simpa using stops⟩

/-- What is left out lengthens the gap before it. -/
theorem Gap.extend {afterName : Bool} {c : Char} {rest gap : List Char} (h : Gap (c :: rest) gap)
    (skipped : (Cut.first afterName c rest).reading = .skipped) :
    Gap (Cut.first afterName c rest).rest (gap ++ (Cut.first afterName c rest).taken) := by
  rcases Cut.first_cases afterName c rest with ordinary | ⟨rfl, same⟩ | ⟨blank, same⟩
  · exact absurd skipped ordinary.1
  · rw [same] at skipped ⊢
    apply h.append (by decide)
    rcases Cut.minus_cases afterName rest with ordinary | ⟨more, rfl, ⟨_, decrement⟩ | comment⟩
    · exact absurd skipped ordinary.1
    · rw [decrement] at skipped
      cases skipped
    · rw [comment]
      apply Gap.comment
      · intro inside
        exact Cut.ne_newline_of_mem_takeWhile rfl inside rfl
      · exact lineEnds_dropWhile more
  · rw [same]
    apply h.append
    · rcases blank with rfl | rfl | rfl <;> decide
    · exact .blank blank .none

/-! Tokens with the gaps before them. -/

/-- The text that stands behind `before` consists of the lexemes of the tokens, each
behind a gap, and of a last gap, behind which stands the end mark. `previous` is the
token before the first of them. -/
inductive Tiling : List Char → Option Token → List Char → List Token → Prop where
  | finish {before gap : List Char} {previous : Option Token} (skipped : Gap [] gap) :
      Tiling before previous gap [endMark (.behind (before ++ gap))]
  | token {before gap rest : List Char} {previous : Option Token} {token : Token}
      {tokens : List Token} (skipped : Gap (token.lexeme.toList ++ rest) gap)
      (nonempty : token.lexeme ≠ "") (inner : token.kind ≠ .eof)
      (place : token.position = .behind (before ++ gap))
      (decrement : token.kind = .minusMinus →
        gap = [] ∧ ∃ name, previous.map Token.kind = some (.identifier name))
      (others : Tiling (before ++ gap ++ token.lexeme.toList) (some token) rest tokens) :
      Tiling before previous (gap ++ token.lexeme.toList ++ rest) (token :: tokens)

/-- What a scan knows behind the text `before` and a gap: where it stands, and that it is
right behind a name only if the token before was one and there is no gap. At the end of
a line it may think so behind a comment. -/
structure Ready (place : Counted) (before gap : List Char) (previous : Option Token)
    (text : List Char) : Prop where
  position : place.position = .behind (before ++ gap)
  skipped : Gap text gap
  name : place.afterName = true →
    gap = [] ∧ (∃ name, previous.map Token.kind = some (.identifier name)) ∨ LineEnds text

section

variable {place : Counted} {before gap : List Char} {previous : Option Token} {c : Char}
  {rest : List Char}

theorem Ready.position_after (ready : Ready place before gap previous (c :: rest)) (cut : Cut) :
    (place.after cut).position = .behind (before ++ (gap ++ cut.taken)) := by
  change place.position.after cut.taken = _
  rw [ready.position, ← Position.start_after, ← Position.start_after, ← Position.after_append,
    List.append_assoc]

/-- Behind something that is left out, the gap has become longer. -/
theorem Ready.skip (ready : Ready place before gap previous (c :: rest))
    (skipped : (Cut.first place.afterName c rest).reading = .skipped) :
    Ready (place.after (Cut.first place.afterName c rest)) before
      (gap ++ (Cut.first place.afterName c rest).taken) previous
      (Cut.first place.afterName c rest).rest := by
  refine ⟨ready.position_after _, ready.skipped.extend skipped, ?_⟩
  intro name
  right
  rcases Cut.first_cases place.afterName c rest with ordinary | ⟨rfl, same⟩ | ⟨blank, same⟩
  · exact absurd skipped ordinary.1
  · rw [same] at skipped ⊢
    rcases Cut.minus_cases place.afterName rest with ordinary | ⟨more, _, ⟨_, decrement⟩ | comment⟩
    · exact absurd skipped ordinary.1
    · rw [decrement] at skipped
      cases skipped
    · rw [comment]
      exact lineEnds_dropWhile more
  · -- A blank is no character of a name.
    rw [same] at name
    have word : Cut.isWordChar c = true := (Bool.and_eq_true_iff.mp name).2
    rcases blank with rfl | rfl | rfl <;> cases word

/-- Behind a token there is no gap yet. -/
theorem Ready.take (ready : Ready place before gap previous (c :: rest)) {kind : Kind}
    (h : (Cut.first place.afterName c rest).reading = .token kind) (token : Token)
    (same : token.kind = kind) :
    Ready (place.after (Cut.first place.afterName c rest))
      (before ++ gap ++ (Cut.first place.afterName c rest).taken) [] (some token)
      (Cut.first place.afterName c rest).rest := by
  refine ⟨?_, .none, ?_⟩
  · rw [ready.position_after, List.append_nil, List.append_assoc]
  · intro name
    left
    have last := (Bool.and_eq_true_iff.mp name).1
    have identifier : kind.isIdentifier = true := by
      simpa only [Counted.after, h, Reading.lastIsName] using last
    refine ⟨rfl, ?_⟩
    cases kind <;> cases identifier
    exact ⟨_, congrArg some same⟩

end

/-- Scanning a text without flaws tiles it, with the gap that was met before. -/
theorem tiling_scanCounted (place : Counted) (text : List Char) :
    ∀ before gap previous, Ready place before gap previous text →
      (scanCounted place text).2 = [] →
      Tiling before previous (gap ++ text) (scanCounted place text).1 := by
  -- Along the pieces of the text; a piece that is left out goes into the gap.
  induction place, text using scan_induction with
  | nil place =>
      intro before gap previous ready _
      rw [scanCounted_nil, ready.position, List.append_nil]
      exact .finish ready.skipped
  | cons place c rest ih =>
      intro before gap previous ready
      have whole := (Cut.tiles_first place.afterName c rest).append
      have nonempty := (Cut.tiles_first place.afterName c rest).nonempty
      have inner := Cut.reading_first_ne_eof place.afterName c rest
      rw [scanCounted_cons]
      unfold record
      split
      · rename_i skipped
        intro clean
        have tiling := ih before _ previous (ready.skip skipped) clean
        rwa [List.append_assoc, whole] at tiling
      · rename_i kind hk
        intro clean
        generalize htoken : Token.mk kind (String.ofList (Cut.first place.afterName c rest).taken)
          place.position = token
        have lexeme : token.lexeme.toList = (Cut.first place.afterName c rest).taken := by
          rw [← htoken, String.toList_ofList]
        have kinds : token.kind = kind := by rw [← htoken]
        have others := ih _ [] (some token) (ready.take hk token kinds) clean
        rw [← whole, ← lexeme, ← List.append_assoc]
        apply Tiling.token
        · rw [lexeme, whole]
          exact ready.skipped
        · intro empty
          apply nonempty
          rw [← lexeme, empty]
          rfl
        · rw [kinds]
          intro eof
          exact inner (by rw [hk, eof])
        · rw [← htoken]
          exact ready.position
        · rw [kinds]
          intro decrement
          rw [decrement] at hk
          obtain ⟨name, rfl⟩ := Cut.decrement_cases hk
          apply (ready.name name).resolve_right
          rintro (h | ⟨_, h⟩) <;> cases h
        · rw [lexeme]
          exact others
      · intro clean
        cases clean

/-- Each flaw stands at a character of the text. -/
theorem flaw_at_character (place : Counted) (text : List Char) :
    ∀ flaw ∈ (scanCounted place text).2, ∃ front c rest,
      text = front ++ c :: rest ∧ flaw.position = place.position.after front := by
  induction place, text using scan_induction with
  | nil place =>
      intro flaw member
      rw [scanCounted_nil] at member
      cases member
  | cons place c rest ih =>
      have whole := (Cut.tiles_first place.afterName c rest).append
      -- A flaw behind the first piece stands further back by that piece.
      have behind : ∀ flaw ∈ (scanCounted (place.after (Cut.first place.afterName c rest))
          (Cut.first place.afterName c rest).rest).2, ∃ front d more,
          c :: rest = front ++ d :: more ∧ flaw.position = place.position.after front := by
        intro flaw member
        obtain ⟨front, d, more, split, position⟩ := ih flaw member
        refine ⟨(Cut.first place.afterName c rest).taken ++ front, d, more, ?_, ?_⟩
        · rw [← whole, split, List.append_assoc]
        · rw [position, Position.after_append]
          rfl
      intro flaw member
      rw [scanCounted_cons] at member
      unfold record at member
      split at member
      · exact behind flaw member
      · exact behind flaw member
      · rcases List.mem_cons.mp member with rfl | member
        · exact ⟨[], c, rest, rfl, rfl⟩
        · exact behind flaw member

/-- Flaws are met from front to back. -/
theorem flaws_increase (place : Counted) (text : List Char) :
    (scanCounted place text).2.Pairwise fun f g => f.position.Before g.position := by
  induction place, text using scan_induction with
  | nil place =>
      rw [scanCounted_nil]
      exact .nil
  | cons place c rest ih =>
      have nonempty := (Cut.tiles_first place.afterName c rest).nonempty
      rw [scanCounted_cons]
      unfold record
      split
      · exact ih
      · exact ih
      · apply List.Pairwise.cons
        · intro flaw member
          obtain ⟨front, _, _, _, position⟩ := flaw_at_character _ _ flaw member
          rw [position]
          change place.position.Before ((place.position.after _).after front)
          rw [← Position.after_append]
          exact place.position.before_after (by simp [nonempty])
        · exact ih

/-- The tokens of a tiled text stand behind what is before the text. -/
theorem Tiling.position_behind {before text : List Char} {previous : Option Token}
    {tokens : List Token} (h : Tiling before previous text tokens) :
    ∀ token ∈ tokens, ∃ piece, token.position = .behind (before ++ piece) := by
  induction h with
  | @finish before gap previous skipped =>
      intro token member
      rw [List.mem_singleton.mp member]
      exact ⟨gap, rfl⟩
  | @token before gap rest previous first tokens skipped nonempty inner place decrement others ih =>
      intro token member
      rcases List.mem_cons.mp member with rfl | member
      · exact ⟨gap, place⟩
      · obtain ⟨piece, position⟩ := ih token member
        exact ⟨gap ++ first.lexeme.toList ++ piece, by simpa using position⟩

/-- Tokens stand from front to back. -/
theorem Tiling.increase {before text : List Char} {previous : Option Token} {tokens : List Token}
    (h : Tiling before previous text tokens) :
    tokens.Pairwise fun t u => t.position.Before u.position := by
  induction h with
  | finish => exact List.pairwise_singleton _ _
  | @token before gap rest previous first tokens skipped nonempty inner place decrement others ih =>
      refine List.Pairwise.cons ?_ ih
      intro token member
      obtain ⟨piece, position⟩ := others.position_behind token member
      have some : first.lexeme.toList ++ piece ≠ [] := by
        simpa using fun empty => absurd empty nonempty
      rw [place, position, List.append_assoc (before ++ gap), ← Position.start_after,
        ← Position.start_after, Position.after_append _ (before ++ gap)]
      exact Position.before_after _ some

/-- The tokens of a text stand from front to back, and the last of them is an end mark. -/
theorem increase_of_scan {text : String} {tokens : List Token} (h : scan text = .ok tokens) :
    tokens.Pairwise (fun t u => t.position.Before u.position) ∧
      tokens.getLast?.map Token.kind = some .eof := by
  rw [scan_iff] at h
  have ready : Ready .start [] [] none text.toList :=
    ⟨rfl, .none, by simp [Counted.start, Counted.afterName]⟩
  have tiling := tiling_scanCounted .start text.toList [] [] none ready (by rw [h])
  obtain ⟨body, ends, _⟩ := scanCounted_ends .start text.toList
  rw [h] at tiling ends
  refine ⟨tiling.increase, ?_⟩
  change tokens = _ at ends
  simp [ends, endMark]

/-- A text that scans is tiled by the lexemes of its tokens and the gaps between them,
every token stands where its lexeme does, and the last token is the only end mark and
stands at the end of the text. A text that does not scan has flaws, which are told from
front to back and each stand at a character of it. -/
theorem scan_tiles (text : String) :
    (∀ tokens, scan text = .ok tokens →
      Tiling [] none text.toList tokens ∧
      ∃ body, tokens = body ++ [endMark (.behind text.toList)] ∧
        ∀ token ∈ body, token.kind ≠ .eof) ∧
    (∀ flaws, scan text = .error flaws →
      flaws ≠ [] ∧
      flaws.Pairwise (fun f g => f.position.Before g.position) ∧
      ∀ flaw ∈ flaws, ∃ before c rest,
        text.toList = before ++ c :: rest ∧ flaw.position = .behind before) := by
  constructor
  · intro tokens h
    rw [scan_iff] at h
    have clean : (scanCounted .start text.toList).2 = [] := by rw [h]
    have ready : Ready .start [] [] none text.toList := ⟨rfl, .none, nofun⟩
    have tiling := tiling_scanCounted .start text.toList [] [] none ready clean
    obtain ⟨body, ends, inner⟩ := scanCounted_ends .start text.toList
    rw [h] at tiling ends
    refine ⟨tiling, body, ?_, inner⟩
    rw [← Position.start_after]
    exact ends
  · intro flaws h
    obtain ⟨rfl, some⟩ := scan_eq_error_iff.mp h
    rw [scanAll_eq] at some ⊢
    refine ⟨some, flaws_increase .start text.toList, ?_⟩
    intro flaw member
    obtain ⟨front, c, rest, split, position⟩ := flaw_at_character .start text.toList flaw member
    refine ⟨front, c, rest, split, ?_⟩
    rw [position]
    exact Position.start_after front

/-- A decrement right behind its name, a comment in the gap before the line break, and on the
next line a character of two bytes, which is one column. -/
theorem scan_tiles_decrement :
    let text := "x-- --\n'ñ' y"
    let tokens : List Token := [⟨.identifier "x", "x", ⟨1, 1⟩⟩, ⟨.minusMinus, "--", ⟨1, 2⟩⟩,
      ⟨.newline, "\n", ⟨1, 7⟩⟩, ⟨.char 'ñ', "'ñ'", ⟨2, 1⟩⟩, ⟨.identifier "y", "y", ⟨2, 5⟩⟩,
      endMark ⟨2, 6⟩]
    scan text = .ok tokens ∧ Tiling [] none text.toList tokens := by
  intro text tokens
  have h : scan text = .ok tokens := scan_iff.mpr (by decide +kernel)
  exact ⟨h, ((scan_tiles text).1 tokens h).1⟩

end Token

end Sulti
