import Mathlib.Data.List.TakeWhile
import Mathlib.Logic.Relation
import Sulti.Grammar.Program

/-!
The points of a run. The tokens stand in a list of which the last is an end mark, and
a run is at an index of it, the first being 0. It takes one step after another until
one ends it. What is read as a part of something is noted with the index where it began
and with what follows it. No step leads back, none leads past the first end mark, and
every run comes to its end.
-/

namespace Sulti

/-- The token as a reader sees it, to which all end marks of a place are the same. -/
def Token.seen (t : Token) : Token := if t.kind = .eof then .endMark t.position else t

theorem Token.seen_of_ne {t : Token} (h : t.kind ≠ .eof) : t.seen = t := if_neg h

theorem Token.seen_of_eof {t : Token} (h : t.kind = .eof) : t.seen = .endMark t.position := if_pos h

@[simp] theorem Token.position_seen (t : Token) : t.seen.position = t.position := by
  unfold Token.seen
  split <;> rfl

@[simp] theorem Token.kind_seen (t : Token) : t.seen.kind = t.kind := by
  unfold Token.seen
  split
  · rename_i mark
    exact mark.symm
  · rfl

namespace Grammar

/-- The tokens, with an end mark put behind them if they do not end in one. -/
def withEnd (tokens : List Token) : List Token :=
  if tokens.getLast?.map Token.kind = some .eof then tokens
  else tokens ++ [.endMark ((tokens.getLast?.map Token.position).getD .nowhere)]

theorem prefix_withEnd (tokens : List Token) : tokens <+: withEnd tokens := by
  unfold withEnd
  split
  · exact List.prefix_rfl
  · exact List.prefix_append _ _

/-- The tokens that a run is given, of which the last is an end mark. -/
structure Sheet where
  tokens : List Token
  marked : tokens.getLast?.map Token.kind = some .eof

namespace Sheet

def ofTokens (tokens : List Token) : Sheet where
  tokens := withEnd tokens
  marked := by
    unfold withEnd
    split
    · assumption
    · simp [Token.endMark]

variable (text : Sheet)

theorem exists_last : ∃ front mark, text.tokens = front ++ [mark] ∧ mark.kind = .eof := by
  obtain ⟨mark, last, eof⟩ := Option.map_eq_some_iff.mp text.marked
  obtain ⟨front, tokens⟩ := List.getLast?_eq_some_iff.mp last
  exact ⟨front, mark, tokens, eof⟩

/-- The index of the last token. -/
def last : Nat := text.tokens.length - 1

theorem last_lt : text.last < text.tokens.length := by
  obtain ⟨front, mark, tokens, _⟩ := text.exists_last
  simp [last, tokens]

/-- The token with a given index, which is cut off at that of the last one. -/
def token (i : Nat) : Token :=
  (text.tokens.get ⟨min i text.last, lt_of_le_of_lt (min_le_right _ _) text.last_lt⟩).seen

theorem token_of_getElem? {i : Nat} {t : Token} (h : text.tokens[i]? = some t) :
    text.token i = t.seen := by
  obtain ⟨inside, rfl⟩ := List.getElem?_eq_some_iff.mp h
  have uncut : min i text.last = i := by
    rw [last]
    omega
  simp only [token, List.get_eq_getElem, uncut]

theorem token_of_le {i : Nat} (h : i ≤ text.last) :
    ∃ t, text.tokens[i]? = some t ∧ text.token i = t.seen := by
  have found := List.getElem?_eq_getElem (h.trans_lt text.last_lt)
  exact ⟨_, found, text.token_of_getElem? found⟩

theorem token_last : (text.token text.last).kind = .eof := by
  obtain ⟨front, mark, tokens, eof⟩ := text.exists_last
  have found : text.tokens[text.last]? = some mark := by simp [last, tokens]
  rw [text.token_of_getElem? found, Token.kind_seen, eof]

/-- A place where one of the tokens stands. -/
def Has (position : Position) : Prop := ∃ t ∈ text.tokens, t.position = position

theorem has_token (i : Nat) : text.Has (text.token i).position :=
  ⟨_, List.get_mem _ _, (Token.position_seen _).symm⟩

/-- The tokens before the first end mark. -/
def front : List Token := text.tokens.takeWhile fun t => t.kind != .eof

/-- The index of the first end mark. -/
def mark : Nat := text.front.length

theorem exists_mark : ∃ t rest, text.tokens = text.front ++ t :: rest ∧ t.kind = .eof := by
  obtain ⟨front, mark, tokens, eof⟩ := text.exists_last
  have split := List.takeWhile_append_dropWhile (p := fun t : Token => t.kind != .eof)
    (l := text.tokens)
  have some_left : text.tokens.dropWhile (fun t => t.kind != .eof) ≠ [] := by
    rw [Ne, List.dropWhile_eq_nil_iff]
    intro all
    simpa [eof] using all mark (by simp [tokens])
  obtain ⟨t, rest, left⟩ := List.exists_cons_of_ne_nil some_left
  have first := List.head_dropWhile_not (fun t : Token => t.kind != .eof) some_left
  refine ⟨t, rest, ?_, ?_⟩
  · rw [Sheet.front, ← left, split]
  · simpa [left] using first

theorem mark_le_last : text.mark ≤ text.last := by
  obtain ⟨t, rest, tokens, _⟩ := text.exists_mark
  simp [last, mark, tokens]

theorem token_mark : (text.token text.mark).kind = .eof := by
  obtain ⟨t, rest, tokens, eof⟩ := text.exists_mark
  have found : text.tokens[text.mark]? = some t := by simp [tokens, mark]
  rw [text.token_of_getElem? found, Token.kind_seen, eof]

theorem token_of_lt {i : Nat} (h : i < text.mark) :
    text.front[i]? = some (text.token i) ∧ (text.token i).kind ≠ .eof := by
  have found : text.front[i]? = some (text.front.get ⟨i, h⟩) := List.getElem?_eq_getElem h
  have inner : (text.front.get ⟨i, h⟩).kind ≠ .eof := by
    simpa using List.mem_takeWhile_imp (List.get_mem text.front ⟨i, h⟩)
  obtain ⟨t, rest, tokens, _⟩ := text.exists_mark
  have whole : text.tokens[i]? = some (text.front.get ⟨i, h⟩) := by
    rw [tokens, List.getElem?_append_left h, found]
  rw [text.token_of_getElem? whole, Token.seen_of_ne inner]
  exact ⟨found, inner⟩

theorem lt_mark_of_ne {i : Nat} (h : i ≤ text.mark) (inner : (text.token i).kind ≠ .eof) :
    i < text.mark := by
  rcases h.lt_or_eq with less | rfl
  · exact less
  · exact absurd text.token_mark inner

theorem eq_endMark_of_eof {i : Nat} (h : (text.token i).kind = .eof) :
    text.token i = .endMark (text.token i).position := by
  rw [token, Token.kind_seen] at h
  rw [token, Token.seen_of_eof h]
  rfl

/-- The index behind a token. There is none behind an end mark. -/
def behind (i : Nat) : Nat := if (text.token i).kind = .eof then i else i + 1

/-- The line breaks from the index `i` on end at the index `j`. -/
inductive Line : Nat → Nat → Prop where
  | here {i : Nat} (h : (text.token i).kind ≠ .newline) : Line i i
  | past {i j : Nat} (h : (text.token i).kind = .newline) (further : Line (i + 1) j) : Line i j

end Sheet

/-- Where a run is: at which token, and which names it has declared. -/
structure Spot where
  current : Nat
  table : Table Ty

/-- The cursor of a reader there. -/
def Sheet.cursor (text : Sheet) (spot : Spot) : Cursor where
  ahead := text.front.drop spot.current
  stop := (text.token text.mark).position
  table := spot.table

namespace Sheet

variable (text : Sheet) {spot : Spot}

theorem next_cursor (h : spot.current ≤ text.mark) :
    (text.cursor spot).next = text.token spot.current := by
  rw [Cursor.next, cursor, List.headD_eq_head?_getD, List.head?_drop]
  rcases h.lt_or_eq with less | last
  · rw [(text.token_of_lt less).1, Option.getD_some]
  · rw [last, List.getElem?_eq_none (le_refl text.mark), Option.getD_none]
    exact (text.eq_endMark_of_eof text.token_mark).symm

theorem second_cursor (h : spot.current < text.mark) :
    (text.cursor spot).second = text.token (spot.current + 1) := by
  rw [← @next_cursor text { spot with current := spot.current + 1 } h]
  simp only [Cursor.second, Cursor.next, cursor, List.tail_drop]

theorem forward_cursor (h : spot.current ≤ text.mark) :
    (text.cursor spot).forward =
      text.cursor { spot with current := text.behind spot.current } := by
  simp only [Cursor.forward, cursor, List.tail_drop, behind]
  split
  · rename_i eof
    have last : spot.current = text.mark := by
      by_contra less
      exact (text.token_of_lt (lt_of_le_of_ne h less)).2 eof
    simp [last, mark]
  · rfl

theorem le_behind (i : Nat) : i ≤ text.behind i := by
  rw [behind]
  split
  · exact le_refl i
  · exact Nat.le_succ i

theorem behind_le (h : spot.current ≤ text.mark) : text.behind spot.current ≤ text.mark := by
  rw [behind]
  split
  · exact h
  · rename_i inner
    exact text.lt_mark_of_ne h inner

section

variable {text} {i j : Nat}

theorem Line.le (h : text.Line i j) : i ≤ j := by
  induction h with
  | here => exact le_refl _
  | past _ _ ih => exact (Nat.le_succ _).trans ih

theorem Line.le_mark (h : text.Line i j) (inside : i ≤ text.mark) : j ≤ text.mark := by
  induction h with
  | here => exact inside
  | past line _ ih => exact ih (text.lt_mark_of_ne inside (by simp [line]))

theorem Line.ne_newline (h : text.Line i j) : (text.token j).kind ≠ .newline := by
  induction h with
  | here inner => exact inner
  | past _ _ ih => exact ih

end

/-- A line ends somewhere, at the latest at the first end mark. -/
theorem exists_line {i : Nat} (h : i ≤ text.mark) : ∃ j, text.Line i j := by
  induction left : text.mark - i generalizing i with
  | zero =>
      have last : i = text.mark := by omega
      exact ⟨i, .here (by simp [last, text.token_mark])⟩
  | succ left ih =>
      by_cases line : (text.token i).kind = .newline
      · obtain ⟨j, further⟩ := @ih (i + 1) (by omega) (by omega)
        exact ⟨j, .past line further⟩
      · exact ⟨i, .here line⟩

end Sheet

/-- The operands and statements that have been begun and not finished, the last one first:
the index where each began, and the steps behind it. -/
inductive Frames : Type → Type → Type 1 where
  | nil {α : Type} : Frames α α
  | measure {α β : Type} (first : Nat) (go : Expr → Bool → Parse β) (rest : Frames β α) :
      Frames Expr α
  | item {α β : Type} (first : Nat) (go : Stmt → Parse β) (rest : Frames β α) : Frames Stmt α

/-- The steps that are left of the part that was begun last, the parts around it and where the
run is. -/
structure Point (α : Type) where
  {β : Type}
  steps : Parse β
  frames : Frames β α
  spot : Spot

namespace Point

variable {α β : Type} (text : Sheet)

/-- One step. There is none behind the last result, nor if the text has been found at fault. -/
def step : Point α → Option (Point α)
  | ⟨.done _, .nil, _⟩ => none
  | ⟨.done e, .measure first go rest, spot⟩ => some ⟨go e (spot.current == first + 1), rest, spot⟩
  | ⟨.done s, .item _ go rest, spot⟩ => some ⟨go s, rest, spot⟩
  | ⟨.starve, _, _⟩ => none
  | ⟨.reject _ _, _, _⟩ => none
  | ⟨.unexpected _, _, _⟩ => none
  | ⟨.next go, frames, spot⟩ => some ⟨go (text.token spot.current), frames, spot⟩
  | ⟨.second go, frames, spot⟩ => some ⟨go (text.token (spot.current + 1)), frames, spot⟩
  | ⟨.forward go, frames, spot⟩ =>
      some ⟨go, frames, { spot with current := text.behind spot.current }⟩
  | ⟨.skip go, frames, spot⟩ =>
      if (text.token spot.current).kind = .newline then
        some ⟨.skip fun _ => go true, frames, { spot with current := spot.current + 1 }⟩
      else
        some ⟨go false, frames, spot⟩
  | ⟨.names go, frames, spot⟩ => some ⟨go spot.table, frames, spot⟩
  | ⟨.declare name ty go, frames, spot⟩ =>
      some ⟨go, frames, { spot with table := (spot.table.declare? name ty).getD spot.table }⟩
  | ⟨.measure operand go, frames, spot⟩ =>
      some ⟨operand, .measure spot.current go frames, spot⟩
  | ⟨.item statement go, frames, spot⟩ =>
      some ⟨statement, .item spot.current go frames, spot⟩

/-- The answer at a point where the run ends. -/
def answer : Point α → Option (Except Rejection (α × Table Ty))
  | ⟨.done a, .nil, spot⟩ => some (.ok (a, spot.table))
  | ⟨.reject position cause, _, _⟩ => some (.error ⟨position, cause⟩)
  | ⟨.unexpected expected, _, spot⟩ =>
      some (.error (.unexpected (text.token spot.current) expected))
  | _ => none

/-- Some number of steps leads from the one point to the other. -/
def Reaches : Point α → Point α → Prop := Relation.ReflTransGen fun p q => p.step text = some q

variable {text} {p q : Point α}

/-- No step leads back, nor past the first end mark. -/
theorem current_step (h : p.step text = some q) (inside : p.spot.current ≤ text.mark) :
    p.spot.current ≤ q.spot.current ∧ q.spot.current ≤ text.mark := by
  obtain ⟨steps, frames, spot⟩ := p
  cases steps with
  | starve | reject | unexpected => cases h
  | done a =>
      cases frames <;> cases h
      · exact ⟨le_refl _, inside⟩
      · exact ⟨le_refl _, inside⟩
  | forward go =>
      cases h
      exact ⟨text.le_behind _, text.behind_le inside⟩
  | skip go =>
      rw [step] at h
      split at h
      · rename_i line
        cases h
        exact ⟨Nat.le_succ _, text.lt_mark_of_ne inside (by simp [line])⟩
      · cases h
        exact ⟨le_refl _, inside⟩
  | _ =>
      cases h
      exact ⟨le_refl _, inside⟩

theorem Reaches.current (h : p.Reaches text q) (inside : p.spot.current ≤ text.mark) :
    p.spot.current ≤ q.spot.current ∧ q.spot.current ≤ text.mark := by
  induction h with
  | refl => exact ⟨le_refl _, inside⟩
  | tail _ one ih =>
      have further := current_step one ih.2
      exact ⟨ih.1.trans further.1, further.2⟩

/-- Over the line breaks that there are. -/
theorem reaches_skip {spot : Spot} {j : Nat} (h : text.Line spot.current j) (go : Bool → Parse β)
    (frames : Frames β α) :
    Reaches text ⟨.skip go, frames, spot⟩
      ⟨go (decide (spot.current < j)), frames, { spot with current := j }⟩ := by
  generalize start : spot.current = i at h
  induction h generalizing spot go with
  | here inner =>
      subst start
      rw [decide_eq_false (lt_irrefl _)]
      exact .single (if_neg inner)
  | past line further ih =>
      subst start
      have less := Nat.lt_of_succ_le further.le
      have way := @ih { spot with current := spot.current + 1 } (fun _ => go true) rfl
      rw [decide_eq_true less]
      exact .head (if_pos line) way

variable (text) in
/-- The run comes to its end, or to a result in front of the given frames. -/
def Returns (frames : Frames β α) (p : Point α) : Prop :=
  ∃ q, p.Reaches text q ∧ (q.step text = none ∨ ∃ a after, q = ⟨.done a, frames, after⟩)

theorem Returns.of_reaches {frames : Frames β α} (way : p.Reaches text q)
    (h : q.Returns text frames) : p.Returns text frames := by
  obtain ⟨r, further, ended⟩ := h
  exact ⟨r, Relation.ReflTransGen.trans way further, ended⟩

/-- A part is read to its end before what is around it is gone on with. -/
theorem Returns.resume {γ : Type} {inner : Frames γ α} {frames : Frames β α}
    (h : p.Returns text inner) (inside : p.spot.current ≤ text.mark)
    (rest : ∀ a after, after.current ≤ text.mark →
      Returns text frames ⟨.done a, inner, after⟩) : p.Returns text frames := by
  obtain ⟨q, way, ended | ⟨a, after, rfl⟩⟩ := h
  · exact ⟨q, way, .inl ended⟩
  · exact .of_reaches way (rest a after (way.current inside).2)

/-- Steps lead to the end or to their result, whatever is around them. -/
theorem returns_steps (steps : Parse β) (frames : Frames β α) {spot : Spot}
    (inside : spot.current ≤ text.mark) : Returns text frames ⟨steps, frames, spot⟩ := by
  induction steps generalizing spot with
  | done a => exact ⟨_, .refl, .inr ⟨a, spot, rfl⟩⟩
  | starve | reject | unexpected => exact ⟨_, .refl, .inl rfl⟩
  | next go ih | second go ih | names go ih =>
      exact .of_reaches (.single rfl) (ih _ frames inside)
  | declare name ty go ih =>
      apply Returns.of_reaches (.single rfl)
      exact ih frames inside
  | forward go ih =>
      apply Returns.of_reaches (.single rfl)
      exact ih frames (text.behind_le inside)
  | skip go ih =>
      -- the only step that may have to be taken again
      obtain ⟨j, line⟩ := text.exists_line inside
      apply Returns.of_reaches (reaches_skip line go frames)
      exact ih _ frames (line.le_mark inside)
  | measure operand go part ih =>
      apply Returns.of_reaches (.single rfl)
      apply (part (.measure spot.current go frames) inside).resume inside
      intro e after inside
      exact .of_reaches (.single rfl) (ih e _ frames inside)
  | item statement go part ih =>
      apply Returns.of_reaches (.single rfl)
      apply (part (.item spot.current go frames) inside).resume inside
      intro s after inside
      exact .of_reaches (.single rfl) (ih s frames inside)

/-- Every run comes to a point where it ends. -/
theorem exists_end (steps : Parse α) {spot : Spot} (inside : spot.current ≤ text.mark) :
    ∃ q, Reaches text ⟨steps, .nil, spot⟩ q ∧ q.step text = none := by
  obtain ⟨q, way, ended | ⟨a, after, rfl⟩⟩ := returns_steps steps .nil inside
  · exact ⟨q, way, ended⟩
  · exact ⟨_, way, rfl⟩

end Point

end Grammar

end Sulti
