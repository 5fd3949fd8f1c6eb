import Sulti.Program

/-!
What a reader comes to where it succeeds. A statement about the outcome of a
sequence of steps is a statement about the outcome of the first step, at which
the same is asked of the others; so a proof follows the steps from the front.
-/

namespace Sulti

namespace Grammar

variable {α β : Type}

/-- If the reader succeeds at `c`, its result and the cursor behind it satisfy `Q`. -/
def Yields (p : Parse α) (c : Cursor) (Q : α → Cursor → Prop) : Prop :=
  ∀ a d, p c = .ok (a, d) → Q a d

/-- A sequence that succeeds does so step by step. -/
theorem bind_eq_ok {p : Parse α} {f : α → Parse β} {c e : Cursor} {b : β}
    (h : (p >>= f) c = .ok (b, e)) : ∃ a d, p c = .ok (a, d) ∧ f a d = .ok (b, e) := by
  rw [Parse.run_bind] at h
  match hp : p c with
  | .ok (a, d) =>
      rw [hp] at h
      exact ⟨a, d, rfl, h⟩
  | .error halt =>
      rw [hp] at h
      cases h

theorem bind_of_ok {p : Parse α} {f : α → Parse β} {c d : Cursor} {a : α}
    (h : p c = .ok (a, d)) : (p >>= f) c = f a d := by
  rw [Parse.run_bind, h]
  rfl

theorem measured_bind_of_ok {p : Parse Expr} {f : Expr × Bool → Parse β} {c d : Cursor} {e : Expr}
    (h : p c = .ok (e, d)) : (measured p >>= f) c = f (e, d.isOnePast c) d := by
  apply bind_of_ok
  rw [run_measured, h]
  rfl

theorem bind_of_error {p : Parse α} {f : α → Parse β} {c : Cursor} {halt : Halt}
    (h : p c = .error halt) : (p >>= f) c = .error halt := by
  rw [Parse.run_bind, h]
  rfl

theorem bind_of_eq {p q : Parse α} {f : α → Parse β} {c d : Cursor} (h : p c = q d) :
    (p >>= f) c = (q >>= f) d := by
  rw [Parse.run_bind, Parse.run_bind, h]

theorem dropNewlines_of_ne {c : Cursor} (h : c.next.kind ≠ .newline) : c.dropNewlines = c := by
  obtain ⟨ahead, stop, table⟩ := c
  cases ahead with
  | nil => rfl
  | cons token tokens =>
      change token.kind ≠ .newline at h
      simp [Cursor.dropNewlines, h]

theorem dropNewlines_forward {c : Cursor} (h : c.next.kind = .newline) :
    c.forward.dropNewlines = c.dropNewlines := by
  obtain ⟨ahead, stop, table⟩ := c
  cases ahead with
  | nil => rfl
  | cons token tokens =>
      change token.kind = .newline at h
      simp [Cursor.forward, Cursor.dropNewlines, h]

/-- A name that is not declared yet comes in behind the others. -/
theorem declare_of_fresh {c : Cursor} {name : String} (fresh : c.table.contains name = false)
    (ty : Ty) : c.declare name ty = { c with table := c.table.insert name ty } := by
  rw [Cursor.declare, Table.declare?, fresh]
  rfl

/-- A sequence whose first step fails exactly in one case fails in that case. -/
theorem bind_of_ite {p : Parse α} {f : α → Parse β} {c d : Cursor} {a : α} {halt : Halt}
    {P : Prop} [Decidable P] (h : p c = if P then .error halt else .ok (a, d)) :
    (p >>= f) c = if P then .error halt else f a d := by
  rw [Parse.run_bind, h]
  split <;> rfl

theorem expect_of_kind {kind : Token.Kind} {expected : String} {c : Cursor}
    (h : c.next.kind = kind) : expect kind expected c = .ok ((), c.forward) := by
  change (if c.next.kind = kind then _ else _ : Parse Unit) c = _
  rw [if_pos h]
  rfl

theorem accept_of_kind {kind : Token.Kind} {c : Cursor} (h : c.next.kind = kind) :
    accept kind c = .ok (true, c.forward) := by
  change (if c.next.kind = kind then _ else _ : Parse Bool) c = _
  rw [if_pos h]
  rfl

theorem accept_of_ne {kind : Token.Kind} {c : Cursor} (h : c.next.kind ≠ kind) :
    accept kind c = .ok (false, c) := by
  change (if c.next.kind = kind then _ else _ : Parse Bool) c = _
  rw [if_neg h]
  rfl

/-- Statements go on where neither the closing token nor the end is next. -/
theorem statements_of_ne {closing : Token.Kind} {st : Parse Stmt} {fuel : Nat} {c : Cursor}
    (goesOn : ¬(c.dropNewlines.next.kind = closing ∨ c.dropNewlines.next.kind = .eof)) :
    statements closing st (fuel + 1) c =
      (do
        let first ← st
        let others ← statements closing st fuel
        return first :: others : Parse (List Stmt)) c.dropNewlines := by
  rw [statements]
  change (if c.dropNewlines.next.kind = closing ∨ c.dropNewlines.next.kind = .eof then _ else _ :
    Parse (List Stmt)) c.dropNewlines = _
  rw [if_neg goesOn]
  exact bind_of_eq (run_member st _)

/-- Statements end where the closing token or the end is next. -/
theorem statements_of_end {closing : Token.Kind} {st : Parse Stmt} {fuel : Nat} {c : Cursor}
    (ends : c.dropNewlines.next.kind = closing ∨ c.dropNewlines.next.kind = .eof) :
    statements closing st (fuel + 1) c = .ok ([], c.dropNewlines) := by
  rw [statements]
  change (if c.dropNewlines.next.kind = closing ∨ c.dropNewlines.next.kind = .eof then _ else _ :
    Parse (List Stmt)) c.dropNewlines = _
  rw [if_pos ends]
  rfl

/-- Statements that are read are none, at their end, or a first one and others. -/
theorem statements_eq_ok {closing : Token.Kind} {st : Parse Stmt} {fuel : Nat} {c d : Cursor}
    {body : List Stmt} (h : statements closing st (fuel + 1) c = .ok (body, d)) :
    (c.dropNewlines.next.kind = closing ∨ c.dropNewlines.next.kind = .eof) ∧
        body = [] ∧ d = c.dropNewlines ∨
      ¬(c.dropNewlines.next.kind = closing ∨ c.dropNewlines.next.kind = .eof) ∧
        ∃ first others c', st c.dropNewlines = .ok (first, c') ∧
          statements closing st fuel c' = .ok (others, d) ∧ body = first :: others := by
  by_cases ends : c.dropNewlines.next.kind = closing ∨ c.dropNewlines.next.kind = .eof
  · rw [statements_of_end ends] at h
    cases h
    exact Or.inl ⟨ends, rfl, rfl⟩
  · rw [statements_of_ne ends] at h
    obtain ⟨first, c', hf, h⟩ := bind_eq_ok h
    obtain ⟨others, d', ho, h⟩ := bind_eq_ok h
    cases h
    exact Or.inr ⟨ends, first, others, c', hf, ho, rfl⟩

theorem statements_cons {closing : Token.Kind} {st : Parse Stmt} {fuel : Nat} {c c' d : Cursor}
    {first : Stmt} {others : List Stmt}
    (goesOn : ¬(c.dropNewlines.next.kind = closing ∨ c.dropNewlines.next.kind = .eof))
    (hf : st c.dropNewlines = .ok (first, c'))
    (ho : statements closing st fuel c' = .ok (others, d)) :
    statements closing st (fuel + 1) c = .ok (first :: others, d) := by
  rw [statements_of_ne goesOn, bind_of_ok hf, bind_of_ok ho]
  rfl

/-- No statement is read past the end. -/
theorem statements_nil {closing : Token.Kind} {st : Parse Stmt} {fuel : Nat} {c d : Cursor}
    {body : List Stmt} (hc : c.ahead = [])
    (h : statements closing st fuel c = .ok (body, d)) : body = [] ∧ d = c := by
  obtain ⟨ahead, stop, table⟩ := c
  subst hc
  cases fuel with
  | zero => cases h
  | succ fuel =>
      rw [statements_of_end (Or.inr rfl)] at h
      cases h
      exact ⟨rfl, rfl⟩

/-- Nothing is read where no alternative of a condition is next. -/
theorem alternatives_of_ne {body : Parse (List Stmt)} {ended : Bool} {fuel : Nat} {c : Cursor}
    (h : c.next.kind = .kung → c.second.kind ≠ .dili ∧ c.second.kind ≠ .wala) :
    alternatives body ended (fuel + 1) c = .ok (⟨[], none, ended⟩, c) := by
  rw [alternatives, bind_of_ok (run_behindKung c)]
  split
  · rename_i hk
    split at hk
    · rename_i kung
      exact absurd (Option.some.inj hk) (h kung).1
    · cases hk
  · rename_i hk
    split at hk
    · rename_i kung
      exact absurd (Option.some.inj hk) (h kung).2
    · cases hk
  · rfl

theorem alternatives_of_dili {body : Parse (List Stmt)} {ended : Bool} {fuel : Nat} {c : Cursor}
    (kung : c.next.kind = .kung) (dili : c.second.kind = .dili) :
    alternatives body ended (fuel + 1) c =
      (do
        advance
        advance
        let _ ← skipNewlines
        let test ← condition fuel
        let chosen ← body
        let ended ← skipNewlines
        let more ← alternatives body ended fuel
        return { more with others := (test, chosen) :: more.others } : Parse Alternatives) c := by
  rw [alternatives, bind_of_ok (run_behindKung c), if_pos kung, dili]

theorem alternatives_of_wala {body : Parse (List Stmt)} {ended : Bool} {fuel : Nat} {c : Cursor}
    (kung : c.next.kind = .kung) (wala : c.second.kind = .wala) :
    alternatives body ended (fuel + 1) c =
      (do
        advance
        advance
        let _ ← skipNewlines
        let chosen ← body
        let ended ← skipNewlines
        return ⟨[], some chosen, ended⟩ : Parse Alternatives) c := by
  rw [alternatives, bind_of_ok (run_behindKung c), if_pos kung, wala]

theorem Yields.bind {p : Parse α} {f : α → Parse β} {c : Cursor} {Q : β → Cursor → Prop}
    (h : Yields p c fun a d => Yields (f a) d Q) : Yields (p >>= f) c Q := by
  intro b e hb
  obtain ⟨a, d, ha, hf⟩ := bind_eq_ok hb
  exact h a d ha b e hf

theorem Yields.mono {p : Parse α} {c : Cursor} {P Q : α → Cursor → Prop} (h : Yields p c P)
    (hpq : ∀ a d, P a d → Q a d) : Yields p c Q := fun a d ha => hpq a d (h a d ha)

theorem yields_pure {c : Cursor} {a : α} {Q : α → Cursor → Prop} (h : Q a c) :
    Yields (pure a) c Q := by
  rintro b d hb
  cases hb
  exact h

theorem yields_reject {c : Cursor} {position : Position} {cause : Rejection.Cause}
    {Q : α → Cursor → Prop} : Yields (reject position cause) c Q := nofun

theorem yields_unexpected {c : Cursor} {expected : String} {Q : α → Cursor → Prop} :
    Yields (unexpected expected) c Q := nofun

theorem yields_starve {c : Cursor} {Q : α → Cursor → Prop} : Yields (starve : Parse α) c Q := nofun

/-- A step that looks at the next token is judged where it looks. -/
theorem yields_peek_bind {c : Cursor} {f : Token → Parse α} {Q : α → Cursor → Prop}
    (h : Yields (f c.next) c Q) : Yields (peek >>= f) c Q := h

theorem yields_names_bind {c : Cursor} {f : Table Ty → Parse α} {Q : α → Cursor → Prop}
    (h : Yields (f c.table) c Q) : Yields (names >>= f) c Q := h

theorem yields_measured_bind {c : Cursor} {p : Parse Expr} {f : Expr × Bool → Parse α}
    {Q : α → Cursor → Prop} (h : Yields p c fun e d => Yields (f (e, d.isOnePast c)) d Q) :
    Yields (measured p >>= f) c Q := by
  intro b d hb
  obtain ⟨_, _, hr, hf⟩ := bind_eq_ok hb
  rw [run_measured] at hr
  cases hp : p c with
  | ok read =>
      rw [hp] at hr
      cases hr
      exact h _ _ hp b d hf
  | error halt =>
      rw [hp] at hr
      cases hr

theorem yields_advance_bind {c : Cursor} {f : Unit → Parse α} {Q : α → Cursor → Prop}
    (h : Yields (f ()) c.forward Q) : Yields (advance >>= f) c Q := h

theorem yields_skipNewlines_bind {c : Cursor} {f : Bool → Parse α} {Q : α → Cursor → Prop}
    (h : Yields (f (c.next.kind == .newline)) c.dropNewlines Q) :
    Yields (skipNewlines >>= f) c Q := h

theorem yields_member {c : Cursor} {p : Parse Stmt} {Q : Stmt → Cursor → Prop}
    (h : Yields p c Q) : Yields (member p) c Q := by
  intro s d hs
  rw [run_member] at hs
  exact h s d hs

theorem yields_behindKung_bind {c : Cursor} {f : Option Token.Kind → Parse α}
    {Q : α → Cursor → Prop} (h : ∀ word, Yields (f word) c Q) : Yields (behindKung >>= f) c Q := by
  intro a d ha
  rw [bind_of_ok (run_behindKung c)] at ha
  exact h _ a d ha

theorem yields_accept {c : Cursor} {kind : Token.Kind} {Q : Bool → Cursor → Prop}
    (found : c.next.kind = kind → Q true c.forward) (other : c.next.kind ≠ kind → Q false c) :
    Yields (accept kind) c Q := by
  refine yields_peek_bind ?_
  split
  · rename_i h
    exact yields_advance_bind (yields_pure (found h))
  · rename_i h
    exact yields_pure (other h)

theorem yields_expect {c : Cursor} {kind : Token.Kind} {expected : String}
    {Q : Unit → Cursor → Prop} (found : c.next.kind = kind → Q () c.forward) :
    Yields (expect kind expected) c Q := by
  refine yields_peek_bind ?_
  split
  · rename_i h
    rintro a d ha
    cases ha
    exact found h
  · exact yields_unexpected

theorem yields_identifier {c : Cursor} {Q : String × Position → Cursor → Prop}
    (found : ∀ name, c.next.kind = .identifier name → Q (name, c.next.position) c.forward) :
    Yields identifier c Q := by
  refine yields_peek_bind ?_
  split
  · rename_i name h
    exact yields_advance_bind (yields_pure (found name h))
  · exact yields_unexpected

theorem yields_checked {c : Cursor} {position : Position} {r : Except Mismatch α}
    {Q : α → Cursor → Prop} (h : ∀ a, r = .ok a → Q a c) : Yields (checked position r) c Q := by
  cases r with
  | ok a => exact yields_pure (h a rfl)
  | error m => exact yields_reject

theorem yields_demand {c : Cursor} {expected : Ty} {e : Expr} {Q : Unit → Cursor → Prop}
    (h : expected.compatible e.ty = true → Q () c) : Yields (demand expected e) c Q := by
  refine yields_checked fun a ha => h ?_
  unfold Ty.demand at ha
  split at ha
  · assumption
  · cases ha

theorem yields_demandNumeric {c : Cursor} {e : Expr} {Q : Unit → Cursor → Prop}
    (h : e.ty.isNumeric = true → Q () c) : Yields (demandNumeric e) c Q := by
  refine yields_checked fun a ha => h ?_
  unfold Ty.demandNumeric at ha
  split at ha
  · assumption
  · cases ha

/-- A separated list, from what each item does: `S` relates an item to the cursors
around it and `L` a whole list. -/
theorem yields_separated {separator : Token.Kind} {item : Parse α} {P : Cursor → Prop}
    {S : Cursor → α → Cursor → Prop} {L : Cursor → List α → Cursor → Prop}
    (one : ∀ c, P c → Yields item c (S c))
    (last : ∀ c a d, P c → S c a d → d.next.kind ≠ separator → L c [a] d)
    (more : ∀ c a d, P c → S c a d → d.next.kind = separator →
      P d.forward ∧ ∀ others e, L d.forward others e → L c (a :: others) e)
    (fuel : Nat) (c : Cursor) (hc : P c) : Yields (separated separator item fuel) c (L c) := by
  induction fuel generalizing c with
  | zero => exact yields_starve
  | succ fuel ih =>
      refine Yields.bind ((one c hc).mono fun a d ha => Yields.bind (yields_accept ?_ ?_))
      · intro found
        obtain ⟨hd, join⟩ := more c a d hc ha found
        exact Yields.bind ((ih d.forward hd).mono fun others e h => yields_pure (join others e h))
      · intro other
        exact yields_pure (last c a d hc ha other)

end Grammar

theorem Program.ofTokens_eq_ok {mode : Mode} {table after : Table Ty} {tokens : List Token}
    {program : Program} (h : Program.ofTokens mode table tokens = .ok (program, after)) :
    ∃ d, Grammar.program mode (tokens.length + 2) (.ofTokens table tokens) = .ok (program, d) ∧
      d.table = after := by
  unfold Program.ofTokens at h
  split at h
  · rename_i body d hd
    cases h
    exact ⟨d, hd, rfl⟩
  · cases h
  · rename_i hs
    exact absurd hs (Grammar.program_ne_starved mode table tokens)

theorem Program.ofTokens_of_ok {mode : Mode} {table : Table Ty} {tokens : List Token}
    {program : Program} {d : Grammar.Cursor}
    (h : Grammar.program mode (tokens.length + 2) (.ofTokens table tokens) = .ok (program, d)) :
    Program.ofTokens mode table tokens = .ok (program, d.table) := by
  unfold Program.ofTokens
  split
  · rename_i h'
    cases h.symm.trans h'
    rfl
  · rename_i h'
    cases h.symm.trans h'
  · rename_i h'
    cases h.symm.trans h'

theorem Program.ofTokens_of_rejected {mode : Mode} {table : Table Ty} {tokens : List Token}
    {r : Rejection}
    (h : Grammar.program mode (tokens.length + 2) (.ofTokens table tokens) =
      .error (.rejected r)) :
    Program.ofTokens mode table tokens = .error r := by
  unfold Program.ofTokens
  split
  · rename_i h'
    cases h.symm.trans h'
  · rename_i h'
    cases h.symm.trans h'
    rfl
  · rename_i h'
    cases h.symm.trans h'

end Sulti
