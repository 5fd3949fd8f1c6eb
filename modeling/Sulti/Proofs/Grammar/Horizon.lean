import Sulti.Proofs.Grammar.Bounds
import Sulti.Proofs.Token.Tiling

/-!
How far a rejection reaches. It names the place of a token. Where the next token is
not the expected one, the run has looked at most at the token behind it, so that the
tokens further on make no difference: any other tokens that begin in the same way are
rejected for the same reason at the same place.
-/

namespace Sulti

namespace Grammar

variable {α : Type} {text other : Sheet} {k : Nat}

/-- The same tokens up to the index `k`, and behind each of them that is no end mark. -/
structure Sheet.Agree (text other : Sheet) (k : Nat) : Prop where
  same {i : Nat} (near : i ≤ k) : other.token i = text.token i
  following {i : Nat} (near : i ≤ k) (inner : (text.token i).kind ≠ .eof) :
    other.token (i + 1) = text.token (i + 1)

/-- A step that is taken no further than that is taken with the other tokens too. -/
theorem step_of_agree {post : α → Spot → Prop} {p q : Point α} (agree : text.Agree other k)
    (safe : p.Safe text post) (near : p.spot.current ≤ k)
    (one : p.step text = some q) : p.step other = some q := by
  obtain ⟨steps, frames, spot⟩ := p
  have token : other.token spot.current = text.token spot.current := agree.same near
  cases steps with
  | next go =>
      cases one
      rw [Point.step, token]
  | second go =>
      cases one
      rw [Point.step, agree.following near safe.1]
  | forward go =>
      cases one
      rw [Point.step, Sheet.behind, Sheet.behind, token]
  | skip go =>
      rw [Point.step] at one ⊢
      rwa [token]
  | done a => cases frames <;> exact one
  | _ => exact one

theorem reaches_of_agree {post : α → Spot → Prop} {p q : Point α} (agree : text.Agree other k)
    (safe : p.Safe text post) (inside : p.spot.current ≤ text.mark)
    (way : p.Reaches text q) (near : q.spot.current ≤ k) : p.Reaches other q := by
  induction way with
  | refl => exact .refl
  | tail way one ih =>
      have further := Point.current_step one (Point.Reaches.current way inside).2
      have nearer := further.1.trans near
      exact .tail (ih nearer) (step_of_agree agree (safe.reaches inside way) nearer one)

/-- Tokens that end in an end mark, and others that begin in the same way. -/
theorem agree_of_prefix {tokens others : List Token}
    (marked : tokens.getLast?.map Token.kind = some .eof) (inside : k < tokens.length)
    (begins : tokens.take (k + 2) <+: others) :
    (Sheet.ofTokens tokens).Agree (.ofTokens others) k := by
  have same {i : Nat} (h : i < k + 2) (h' : i < tokens.length) :
      (Sheet.ofTokens others).token i = (Sheet.ofTokens tokens).token i := by
    have short : i < (tokens.take (k + 2)).length := by
      rw [List.length_take]
      exact Nat.lt_min.mpr ⟨h, h'⟩
    have own := (List.take_prefix (k + 2) tokens).trans (prefix_withEnd tokens)
    have here := List.prefix_iff_getElem?.mp own i short
    have there := List.prefix_iff_getElem?.mp (begins.trans (prefix_withEnd others)) i short
    rw [Sheet.token_of_getElem? (.ofTokens others) there,
      Sheet.token_of_getElem? (.ofTokens tokens) here]
  constructor
  · intro i near
    exact same (by omega) (by omega)
  · intro i near inner
    have last : (Sheet.ofTokens tokens).last = tokens.length - 1 := by
      simp only [Sheet.last, Sheet.ofTokens, withEnd, if_pos marked]
    have before : i ≠ tokens.length - 1 := by
      rintro rfl
      exact inner (last ▸ Sheet.token_last _)
    exact same (by omega) (by omega)

/-- Tokens that stand from front to back are told apart by their places. -/
theorem index_of_position {tokens : List Token}
    (increase : tokens.Pairwise fun t u => t.position.Before u.position) {i : Nat} {t u : Token}
    (ht : tokens[k]? = some t) (hu : tokens[i]? = some u) (same : u.position = t.position) :
    i = k := by
  obtain ⟨inside, rfl⟩ := List.getElem?_eq_some_iff.mp ht
  obtain ⟨inside', rfl⟩ := List.getElem?_eq_some_iff.mp hu
  rcases Nat.lt_trichotomy i k with less | eq | more
  · exact absurd same (List.pairwise_iff_getElem.mp increase i k inside' inside less).ne
  · exact eq
  · exact absurd same.symm (List.pairwise_iff_getElem.mp increase k i inside inside' more).ne

/-- A rejection is placed at a token, and one that the next token is at fault for is met at
that token. -/
theorem end_of_rejected {mode : Mode} {table : Table Ty} {tokens : List Token} {r : Rejection}
    (h : Program.ofTokens mode table tokens = .error r) {fuel : Nat}
    (enough : tokens.length + 2 ≤ fuel) :
    (Sheet.ofTokens tokens).Has r.position ∧
      ∀ expected found, r.cause = .unexpected expected found →
        ∃ (β : Type) (frames : Frames β Program) (spot : Spot),
          (Point.start mode table fuel).Reaches (.ofTokens tokens)
            ⟨.unexpected expected, frames, spot⟩ ∧
          r = .unexpected ((Sheet.ofTokens tokens).token spot.current) expected := by
  have inside : (Point.start mode table fuel).spot.current ≤ (Sheet.ofTokens tokens).mark :=
    Nat.zero_le _
  obtain ⟨⟨steps, frames, spot⟩, way, ended⟩ :=
    Point.exists_end (Point.start mode table fuel).steps inside
  have safe := (safe_start (.ofTokens tokens) mode table fuel).reaches inside way
  have answer := answer_of_end enough way ended
  rw [h] at answer
  cases steps with
  | reject position cause =>
      cases answer
      exact ⟨safe.1, fun expected found same => absurd same (safe.2 expected found)⟩
  | unexpected expected =>
      cases answer
      refine ⟨Sheet.has_token _ _, ?_⟩
      rintro expected found ⟨⟩
      exact ⟨_, frames, spot, way, rfl⟩
  | done program =>
      cases frames with
      | nil => cases answer
      | _ => cases ended
  | _ => cases answer

end Grammar

namespace Program

open Grammar

/-- Every rejection is placed at a token, the end mark that is put behind the tokens
included. The tokens of a text stand at different places. If for them the token with index
`k` is not the expected one, then all tokens that begin with the first `k + 2` of them, or
with all if there are fewer, are rejected in the same way. -/
theorem rejection_horizon (mode : Mode) (table : Table Ty) :
    (∀ tokens r, ofTokens mode table tokens = .error r →
      ∃ t ∈ withEnd tokens, t.position = r.position) ∧
    ∀ text tokens, Token.scan text = .ok tokens →
      tokens.Pairwise (fun t u => t.position ≠ u.position) ∧
      ∀ k t expected found, tokens[k]? = some t →
        ofTokens mode table tokens = .error ⟨t.position, .unexpected expected found⟩ →
          ∀ others, tokens.take (k + 2) <+: others →
            ofTokens mode table others = .error ⟨t.position, .unexpected expected found⟩ := by
  constructor
  · intro tokens r h
    exact (end_of_rejected h (le_refl _)).1
  · intro text tokens scanned
    obtain ⟨increase, marked⟩ := Token.increase_of_scan scanned
    refine ⟨increase.imp Position.Before.ne, ?_⟩
    intro k t expected found ht h others begins
    -- a bound that is large enough for both
    let fuel := tokens.length + 2 + (others.length + 2)
    have inside : (Point.start mode table fuel).spot.current ≤ (Sheet.ofTokens tokens).mark :=
      Nat.zero_le _
    obtain ⟨_, _, spot, way, met⟩ :=
      (end_of_rejected h (Nat.le_add_right _ (others.length + 2))).2 expected found rfl
    have here : spot.current = k := by
      have whole : (Sheet.ofTokens tokens).tokens = tokens := if_pos marked
      have bounded := (way.current inside).2.trans (Sheet.mark_le_last _)
      obtain ⟨u, hu, seen⟩ := Sheet.token_of_le _ bounded
      have position := congrArg Rejection.position met
      rw [Rejection.unexpected, seen, Token.position_seen] at position
      exact index_of_position increase ht (whole ▸ hu) position.symm
    have agree := agree_of_prefix marked (List.getElem?_eq_some_iff.mp ht).1 begins
    have safe := safe_start (.ofTokens tokens) mode table fuel
    have way' := reaches_of_agree agree safe inside way (le_of_eq here)
    have answer := answer_of_end (Nat.le_add_left _ (tokens.length + 2)) way' rfl
    rw [Point.answer, agree.same (le_of_eq here), ← met] at answer
    exact (Option.some.inj answer).symm

/-- A second `KUNG` on the line of a block is not expected there. Whether an alternative
begins with it depends on the token behind it, and nothing depends on those further on. -/
theorem rejection_horizon_kung :
    let tokens : List Token := [⟨.kung, "KUNG", ⟨1, 1⟩⟩, ⟨.leftParen, "(", ⟨1, 6⟩⟩,
      ⟨.bool true, "\"OO\"", ⟨1, 7⟩⟩, ⟨.rightParen, ")", ⟨1, 11⟩⟩, ⟨.pundok, "PUNDOK", ⟨1, 13⟩⟩,
      ⟨.leftBrace, "\x7b", ⟨1, 20⟩⟩, ⟨.rightBrace, "\x7d", ⟨1, 21⟩⟩, ⟨.kung, "KUNG", ⟨1, 23⟩⟩,
      ⟨.rightParen, ")", ⟨1, 28⟩⟩, .endMark ⟨1, 29⟩]
    let others : List Token := tokens.take 9 ++ [⟨.sugod, "SUGOD", ⟨4, 1⟩⟩]
    let r : Rejection := ⟨⟨1, 23⟩, .unexpected "a newline" "'KUNG'"⟩
    Token.scan "KUNG (\"OO\") PUNDOK \x7b\x7d KUNG )" = .ok tokens ∧
      ofTokens .repl .empty tokens = .error r ∧ ofTokens .repl .empty others = .error r := by
  intro tokens others r
  have scanned : Token.scan "KUNG (\"OO\") PUNDOK \x7b\x7d KUNG )" = .ok tokens := by
    decide +kernel
  have rejected : ofTokens .repl .empty tokens = .error r := by
    apply ofTokens_of_rejected
    rfl
  refine ⟨scanned, rejected, ?_⟩
  exact ((rejection_horizon .repl .empty).2 _ tokens scanned).2 7 _ _ _ rfl rejected others
    (List.prefix_append _ _)

end Program

end Sulti
