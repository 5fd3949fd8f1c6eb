import Sulti.Proofs.Grammar.Course
import Sulti.Proofs.Grammar.Points

/-!
What holds at every point of a run. A text is only found at fault at the place of one
of its tokens, the token behind the next one is only asked for where there is one,
and a statement of a list that has been read has moved the run on. Steps that are
safe in this sense stay safe when one of them is taken, and lead to what the reader
they are those of gives. The steps of a program are safe because they are side by
side with themselves.
-/

namespace Sulti.Grammar

variable {α β : Type}

/-- The run that begins with these steps keeps to the rules, and its result and the place
where it ends satisfy `post`. -/
def Safe (text : Sheet) : {α : Type} → (post : α → Spot → Prop) → Parse α → Spot → Prop
  | _, post, .done a, spot => post a spot
  | _, _, .starve, _ => True
  | _, _, .reject position cause, _ =>
      text.Has position ∧ ∀ expected found, cause ≠ .unexpected expected found
  | _, _, .unexpected _, _ => True
  | _, post, .next go, spot => Safe text post (go (text.token spot.current)) spot
  | _, post, .second go, spot =>
      (text.token spot.current).kind ≠ .eof ∧
        Safe text post (go (text.token (spot.current + 1))) spot
  | _, post, .forward go, spot =>
      Safe text post go { spot with current := text.behind spot.current }
  | _, post, .skip go, spot => ∀ j, text.Line spot.current j →
      Safe text post (go (decide (spot.current < j))) { spot with current := j }
  | _, post, .names go, spot => Safe text post (go spot.table) spot
  | _, post, .declare name ty go, spot =>
      Safe text post go { spot with table := (spot.table.declare? name ty).getD spot.table }
  | _, post, .measure operand go, spot =>
      Safe text (fun e after =>
        Safe text post (go e (after.current == spot.current + 1)) after) operand spot
  | _, post, .item statement go, spot =>
      Safe text (fun s after => spot.current < after.current ∧ Safe text post (go s) after)
        statement spot

variable {text : Sheet} {post : α → Spot → Prop}

theorem Safe.mono {other : α → Spot → Prop} {s : Parse α} {spot : Spot} (h : Safe text post s spot)
    (imp : ∀ a after, post a after → other a after) : Safe text other s spot := by
  induction s generalizing spot with
  | done a => exact imp a spot h
  | starve | unexpected => trivial
  | reject => exact h
  | next go ih | names go ih => exact ih _ h imp
  | forward go ih | declare name ty go ih => exact ih h imp
  | second go ih => exact ⟨h.1, ih _ h.2 imp⟩
  | skip go ih => exact fun j line => ih _ (h j line) imp
  | measure operand go part ih => exact part h fun e after rest => ih _ _ rest imp
  | item statement go part ih => exact part h fun s after rest => ⟨rest.1, ih _ rest.2 imp⟩

/-! What the reader of some steps gives at the cursor of a run. -/

section

variable {spot : Spot} {go : Token → Parse α}

theorem run_next (inside : spot.current ≤ text.mark) (go : Token → Parse α) :
    Parse.next go (text.cursor spot) = go (text.token spot.current) (text.cursor spot) := by
  rw [Parse.run, text.next_cursor inside]

theorem run_second (inside : spot.current ≤ text.mark)
    (inner : (text.token spot.current).kind ≠ .eof) (go : Token → Parse α) :
    Parse.second go (text.cursor spot) =
      go (text.token (spot.current + 1)) (text.cursor spot) := by
  rw [Parse.run, text.second_cursor (text.lt_mark_of_ne inside inner)]

theorem run_forward (inside : spot.current ≤ text.mark) (go : Parse α) :
    Parse.forward go (text.cursor spot) =
      go (text.cursor { spot with current := text.behind spot.current }) := by
  rw [Parse.run, text.forward_cursor inside]

theorem run_skip_of_newline (inside : spot.current ≤ text.mark)
    (line : (text.token spot.current).kind = .newline) (go : Bool → Parse α) :
    Parse.skip go (text.cursor spot) =
      Parse.skip (fun _ => go true) (text.cursor { spot with current := spot.current + 1 }) := by
  have next := text.next_cursor inside
  have past : text.behind spot.current = spot.current + 1 := if_neg (by simp [line])
  have dropped := dropNewlines_forward (c := text.cursor spot) (by rw [next, line])
  rw [text.forward_cursor inside, past] at dropped
  rw [Parse.run, Parse.run, dropped, next, line, beq_self_eq_true]

theorem run_skip_of_ne (inside : spot.current ≤ text.mark)
    (inner : (text.token spot.current).kind ≠ .newline) (go : Bool → Parse α) :
    Parse.skip go (text.cursor spot) = go false (text.cursor spot) := by
  have next := text.next_cursor inside
  rw [Parse.run, dropNewlines_of_ne (by rwa [next]), next, beq_eq_false_iff_ne.mpr inner]

theorem run_skip {j : Nat} (inside : spot.current ≤ text.mark) (h : text.Line spot.current j)
    (go : Bool → Parse α) :
    Parse.skip go (text.cursor spot) =
      go (decide (spot.current < j)) (text.cursor { spot with current := j }) := by
  generalize start : spot.current = i at h
  induction h generalizing spot go with
  | here inner =>
      subst start
      rw [decide_eq_false (lt_irrefl _)]
      exact run_skip_of_ne inside inner go
  | past line further ih =>
      subst start
      have behind := text.lt_mark_of_ne inside (by simp [line])
      rw [decide_eq_true (Nat.lt_of_succ_le further.le), run_skip_of_newline inside line]
      exact @ih { spot with current := spot.current + 1 } behind _ rfl

/-- Whether a run is one token further on, by its index and by its cursor. -/
theorem isOnePast_cursor {first : Nat} (table : Table Ty) (began : first ≤ text.mark)
    (inside : spot.current ≤ text.mark) :
    (text.cursor spot).isOnePast (text.cursor ⟨first, table⟩) =
      (spot.current == first + 1) := by
  rw [Bool.eq_iff_iff, Cursor.isOnePast, beq_iff_eq, beq_iff_eq]
  simp only [Sheet.cursor, List.length_drop]
  change text.mark - spot.current + 1 = text.mark - first ↔ _
  omega

end

/-- A safe run that comes to a result is that of the reader. -/
theorem Safe.run {s : Parse α} {spot : Spot} (h : Safe text post s spot)
    (inside : spot.current ≤ text.mark) :
    Safe text (fun a after => post a after ∧ after.current ≤ text.mark ∧
      s (text.cursor spot) = .ok (a, text.cursor after)) s spot := by
  induction s generalizing spot with
  | done a => exact ⟨h, inside, rfl⟩
  | starve | unexpected => trivial
  | reject => exact h
  | next go ih =>
      apply (ih _ h inside).mono
      rintro a after ⟨kept, behind, read⟩
      exact ⟨kept, behind, (run_next inside go).trans read⟩
  | names go ih => exact ih _ h inside
  | declare name ty go ih => exact ih h inside
  | second go ih =>
      refine ⟨h.1, (ih _ h.2 inside).mono ?_⟩
      rintro a after ⟨kept, behind, read⟩
      exact ⟨kept, behind, (run_second inside h.1 go).trans read⟩
  | forward go ih =>
      apply (ih h (text.behind_le inside)).mono
      rintro a after ⟨kept, behind, read⟩
      exact ⟨kept, behind, (run_forward inside go).trans read⟩
  | skip go ih =>
      intro j line
      apply (ih _ (h j line) (line.le_mark inside)).mono
      rintro a after ⟨kept, behind, read⟩
      exact ⟨kept, behind, (run_skip inside line go).trans read⟩
  | measure operand go part ih =>
      apply (part h inside).mono
      rintro e between ⟨rest, behind, read⟩
      apply (ih _ _ rest behind).mono
      rintro a after ⟨kept, behind', read'⟩
      refine ⟨kept, behind', ?_⟩
      rw [Parse.run, read, Except.bind]
      rw [← isOnePast_cursor spot.table inside behind] at read'
      exact read'
  | item statement go part ih =>
      apply (part h inside).mono
      rintro s between ⟨⟨moved, rest⟩, behind, read⟩
      refine ⟨moved, (ih _ rest behind).mono ?_⟩
      rintro a after ⟨kept, behind', read'⟩
      refine ⟨kept, behind', ?_⟩
      rw [Parse.run, read]
      exact read'

/-! The parts that have been begun. -/

/-- What a result has to satisfy so that the steps behind it are safe. -/
def Frames.Allows (text : Sheet) {α : Type} (post : α → Spot → Prop) :
    {β : Type} → Frames β α → β → Spot → Prop
  | _, .nil, a, after => post a after
  | _, .measure first go rest, e, after =>
      first ≤ text.mark ∧
        Safe text (rest.Allows text post) (go e (after.current == first + 1)) after
  | _, .item first go rest, s, after =>
      first < after.current ∧ Safe text (rest.Allows text post) (go s) after

/-- What follows the result of the part that was begun last. -/
def Frames.run (text : Sheet) {α : Type} :
    {β : Type} → Frames β α → β × Cursor → Except Halt (α × Cursor)
  | _, .nil, read => .ok read
  | _, .measure first go rest, read =>
      (go read.1 (read.2.isOnePast (text.cursor ⟨first, read.2.table⟩)) read.2).bind
        (rest.run text)
  | _, .item _ go rest, read => (go read.1 read.2).bind (rest.run text)

namespace Point

/-- The run that goes on from here keeps to the rules. -/
def Safe (text : Sheet) (post : α → Spot → Prop) (p : Point α) : Prop :=
  Grammar.Safe text (p.frames.Allows text post) p.steps p.spot

/-- What the steps that are left come to. -/
def run (text : Sheet) (p : Point α) : Except Halt (α × Cursor) :=
  (p.steps (text.cursor p.spot)).bind (p.frames.run text)

variable {p q : Point α}

/-- A step of a safe run leaves a safe run. -/
theorem Safe.step (h : p.Safe text post) (inside : p.spot.current ≤ text.mark)
    (one : p.step text = some q) : q.Safe text post := by
  obtain ⟨steps, frames, spot⟩ := p
  cases steps with
  | starve | reject | unexpected => cases one
  | done a =>
      cases frames with
      | nil => cases one
      | measure first go rest =>
          cases one
          exact h.2
      | item first go rest =>
          cases one
          exact h.2
  | second go =>
      cases one
      exact h.2
  | skip go =>
      rw [Point.step] at one
      split at one
      · rename_i line
        cases one
        intro j further
        have less := Nat.lt_of_succ_le further.le
        have rest := h j (.past line further)
        rwa [decide_eq_true less] at rest
      · rename_i inner
        cases one
        have rest := h spot.current (.here inner)
        rwa [decide_eq_false (lt_irrefl _)] at rest
  | measure operand go =>
      cases one
      exact Grammar.Safe.mono h fun e after rest => ⟨inside, rest⟩
  | _ =>
      cases one
      exact h

theorem Safe.reaches (h : p.Safe text post) (inside : p.spot.current ≤ text.mark)
    (way : p.Reaches text q) : q.Safe text post := by
  induction way with
  | refl => exact h
  | tail way one ih => exact ih.step (Reaches.current way inside).2 one

/-- A step of a safe run leaves a run that gives the same. -/
theorem run_step (h : p.Safe text post) (inside : p.spot.current ≤ text.mark)
    (one : p.step text = some q) : q.run text = p.run text := by
  obtain ⟨steps, frames, spot⟩ := p
  change spot.current ≤ text.mark at inside
  cases steps with
  | starve | reject | unexpected => cases one
  | done a =>
      cases frames with
      | nil => cases one
      | measure first go rest =>
          cases one
          rw [← isOnePast_cursor spot.table h.1 inside]
          rfl
      | item first go rest =>
          cases one
          rfl
  | next go =>
      cases one
      rw [run, run, run_next inside]
  | second go =>
      cases one
      rw [run, run, run_second inside h.1]
  | forward go =>
      cases one
      rw [run, run, run_forward inside]
  | skip go =>
      rw [Point.step] at one
      split at one
      · rename_i line
        cases one
        rw [run, run, run_skip_of_newline inside line]
      · rename_i inner
        cases one
        rw [run, run, run_skip_of_ne inside inner]
  | names go | declare name ty go =>
      cases one
      rfl
  | measure operand go =>
      cases one
      change (operand (text.cursor spot)).bind _ = ((operand (text.cursor spot)).bind _).bind _
      cases operand (text.cursor spot) <;> rfl
  | item statement go =>
      cases one
      change (statement (text.cursor spot)).bind _ = ((statement (text.cursor spot)).bind _).bind _
      cases statement (text.cursor spot) <;> rfl

theorem run_reaches (h : p.Safe text post) (inside : p.spot.current ≤ text.mark)
    (way : p.Reaches text q) : q.run text = p.run text := by
  induction way with
  | refl => rfl
  | tail way one ih => rw [run_step (h.reaches inside way) (Reaches.current way inside).2 one, ih]

end Point

/-! Readers that are side by side with themselves. -/

/-- A reader that has moved on when it succeeds, unless a line break was next. -/
def Moves (p : Parse α) : Prop :=
  ∀ c a d, p c = .ok (a, d) → c.next.kind ≠ .newline → d.ahead.length < c.ahead.length

-- a bound that is too small to tell is raised to one that is not
theorem moves_statement (fuel : Nat) : Moves (statement fuel) := by
  intro c s d read inner
  have raised : fuel ≤ fuel + (c.ahead.length + 2) := Nat.le_add_right _ _
  have meet := (abreast_statement (P := .exact) trivial raised c.next.kind).meet course_eq
    ⟨rfl, Pairing.same_exact rfl, rfl⟩
  have advances := eager_statement (n := c.ahead.length + 1)
    (by omega : _ < fuel + (c.ahead.length + 2)) c (Nat.lt_succ_self _) inner
  rw [read] at meet
  obtain ⟨s', d', read', _, same⟩ := meet.of_ok
  rw [Advances, read'] at advances
  obtain rfl : d = d' := same.resolve_right id
  exact advances.2

/-- What is known at a stage of a run beside itself. -/
def Stage.At (text : Sheet) : Stage → Spot → Prop
  | .seen kind, spot => (text.token spot.current).kind = kind
  | .words first second, spot =>
      (text.token spot.current).kind = first ∧ (text.token (spot.current + 1)).kind = second
  | .clear, spot => (text.token spot.current).kind ≠ .newline
  | .inline, _ | .loose, _ | .broken, _ => True
  | .ends _ _, _ | .passed _, _ | .past, _ => False

theorem Stage.At.mono {g g' : Stage} (stage : g.le g' = true) {spot : Spot}
    (h : g.At text spot) : g'.At text spot := by
  rcases Bool.or_eq_true _ _ ▸ stage with same | within
  · cases eq_of_beq same
    exact h
  · cases g' with
    | inline | loose | broken => trivial
    | past =>
        cases g with
        | passed => exact h
        | _ => cases within
    | _ => cases g <;> cases within

/-- The tokens of a text are side by side with themselves, and no other places are. -/
structure Sheet.Mirrored (text : Sheet) (P : Pairing) : Prop where
  same (i : Nat) : P.Same (text.token i) (text.token i)
  placed {position position' : Position} (h : P.place position position') : text.Has position

theorem Sheet.Mirrored.inline {P : Pairing} (h : text.Mirrored P) : text.Mirrored P.inline where
  same i := ⟨(h.same i).alike, (h.same i).position⟩
  placed := h.placed

/-- Steps that are side by side with others are safe. -/
theorem Abreast.safe {P : Pairing} {R : α → α → Prop} {after : α → Stage} {g : Stage}
    {s t : Parse α} (h : Abreast P R after g s t) (mirrored : text.Mirrored P) {spot : Spot}
    (inside : spot.current ≤ text.mark) (stage : g.At text spot) :
    Safe text (fun a last => (∃ b, R a b) ∧ (after a).At text last) s spot := by
  induction h generalizing spot with
  | done h le => exact ⟨⟨_, h⟩, stage.mono le⟩
  | starve => trivial
  | weaken le _ ih => exact ih mirrored inside (stage.mono le)
  | reject placed other => exact ⟨mirrored.placed placed, other⟩
  | unexpected => trivial
  | next _ _ same _ => exact same _ _ (mirrored.same _) mirrored inside rfl
  | begin _ _ same _ => exact same _ _ (mirrored.same _) stage mirrored inside rfl
  | again _ same => exact same _ _ (mirrored.same _) stage mirrored inside stage
  | second inner _ _ same _ =>
      cases stage
      refine ⟨fun eof => inner.2 (.inl eof), ?_⟩
      exact same _ _ (mirrored.same _) mirrored inside ⟨rfl, rfl⟩
  | forward _ _ _ ih => exact ih mirrored (text.behind_le inside) trivial
  | word inner _ ih =>
      obtain ⟨rfl, following⟩ := stage
      apply ih mirrored (text.behind_le inside)
      have past : text.behind spot.current = spot.current + 1 :=
        if_neg fun eof => inner.2 (.inl eof)
      rw [Stage.At, past]
      exact following
  | newline _ _ ih => exact ih mirrored (text.behind_le inside) trivial
  | skip _ _ _ none some =>
      intro j line
      cases decide (spot.current < j) with
      | false => exact none mirrored (line.le_mark inside) trivial
      | true => exact some mirrored (line.le_mark inside) trivial
  | skipAll _ _ _ clear _ =>
      intro j line
      exact clear mirrored (line.le_mark inside) line.ne_newline
  | names _ ih => exact ih _ mirrored inside trivial
  | declare _ ih => exact ih mirrored inside trivial
  | measure _ _ part ih =>
      apply ((part mirrored.inline inside trivial).run inside).mono
      rintro e between ⟨⟨⟨e', same⟩, _⟩, behind, _⟩
      exact ih e e' _ same mirrored behind trivial
  | item inner _ _ part ih =>
      apply ((part mirrored inside stage).run inside).mono
      rintro s between ⟨⟨⟨s', same⟩, _⟩, behind, read⟩
      cases stage
      have shorter := moves_statement _ _ _ _ read (by rwa [text.next_cursor inside])
      simp only [Sheet.cursor, List.length_drop] at shorter
      exact ⟨by omega, ih s s' same mirrored behind trivial⟩
  | onward _ _ inline _ => exact inline mirrored inside trivial
  | ended | failed | lost | passed | apart => exact stage.elim

end Sulti.Grammar
