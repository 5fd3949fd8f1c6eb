import Sulti.Proofs.Grammar.AbreastStmt

/-!
What readers that are side by side come to. Cursors are related in a way that every
single step keeps; then the readers have the same result, at cursors that are related
again, or the first one fails and the relation says what may become of the other.
-/

namespace Sulti.Grammar

variable {α β : Type}

/-- Results in the relation `R` at cursors as `after` tells, or failures of which the one may
stand beside the other. Nothing is asked where the first reader was not given enough, nor
where it may fail alone. -/
inductive Meet (alone : Prop) (fails : Rejection → Halt → Prop) (R : α → α → Prop)
    (after : α → Cursor → Cursor → Prop) :
    Except Halt (α × Cursor) → Except Halt (α × Cursor) → Prop where
  | ok {a b : α} {c d : Cursor} (h : R a b) (hcd : after a c d) :
      Meet alone fails R after (.ok (a, c)) (.ok (b, d))
  | failed {r : Rejection} {halt : Halt} (h : fails r halt) :
      Meet alone fails R after (.error (.rejected r)) (.error halt)
  | alone {halt : Halt} {result : Except Halt (α × Cursor)} (h : alone) :
      Meet alone fails R after (.error halt) result
  | starved {result : Except Halt (α × Cursor)} :
      Meet alone fails R after (.error .starved) result

/-- `near` relates cursors at tokens that are side by side, `far` those that are so behind the
line breaks in front of them, and `past` those of which the first is at its end. Where the
first reader is rejected, `fails` says what may become of the other. -/
structure Course (P : Pairing) (near far past : Cursor → Cursor → Prop)
    (fails : Rejection → Halt → Prop) : Prop where
  next {c d : Cursor} (h : near c d) :
    P.Same c.next d.next ∨ P.framed ∧ Final c.next.kind ∧ Final d.next.kind
  table {c d : Cursor} (h : near c d) : d.table = c.table
  declare {c d : Cursor} (h : near c d) (name : String) (ty : Ty) :
    near (c.declare name ty) (d.declare name ty)
  forward {c d : Cursor} (h : near c d) (same : P.Same c.next d.next)
    (inline : c.next.kind ≠ .newline) (inside : c.next.kind ≠ .eof) : near c.forward d.forward
  newline {c d : Cursor} (lines : P.lines) (h : near c d) (hc : c.next.kind = .newline)
    (hd : d.next.kind = .newline) : far c.forward d.forward ∨ past c.forward d.forward
  loosen {c d : Cursor} (h : near c d) : far c d
  skip {c d : Cursor} (lines : P.lines) (h : far c d) :
    near c.dropNewlines d.dropNewlines ∨ past c.dropNewlines d.dropNewlines
  spent {c d : Cursor} (h : past c d) : P.spent
  ended {c d : Cursor} (h : past c d) : c.ahead = []
  /-- No alternative of a condition goes on past the end. -/
  apart {c d : Cursor} (h : past c d) (hk : d.next.kind = .kung) :
    d.second.kind ≠ .dili ∧ d.second.kind ≠ .wala
  remain {c d : Cursor} (h : past c d) : past c.dropNewlines d.dropNewlines
  rejected {position position' : Position} (cause : Rejection.Cause)
    (placed : P.place position position') :
    fails ⟨position, cause⟩ (.rejected ⟨position', cause⟩)
  unexpected {c d : Cursor} (h : near c d) (expected : String) :
    fails (.unexpected c.next expected) (.rejected (.unexpected d.next expected))
  /-- Where the one is closed and the other ends, they may fail for different reasons. -/
  free (framed : P.framed) (r : Rejection) (halt : Halt) : fails r halt

/-- What is known of two cursors at a stage. -/
def Stage.Holds (P : Pairing) (near far past : Cursor → Cursor → Prop) :
    Stage → Cursor → Cursor → Prop
  | .seen kind, c, d => near c d ∧ P.Same c.next d.next ∧ c.next.kind = kind
  | .words first second, c, d =>
      (near c d ∧ P.Same c.next d.next ∧ c.next.kind = first) ∧
        P.Same c.second d.second ∧ c.second.kind = second
  | .ends first second, c, d =>
      near c d ∧ P.framed ∧ c.next.kind = first ∧ d.next.kind = second
  | .clear, c, d => near c d ∧ c.next.kind ≠ .newline
  | .inline, c, d => near c d
  | .passed following, c, d => past c d ∧ d.next.kind = following
  | .past, c, d => past c d
  | .loose, c, d => near c d ∨ past c d
  | .broken, c, d => far c d ∨ past c d

variable {P : Pairing} {near far past : Cursor → Cursor → Prop}
  {fails : Rejection → Halt → Prop}

/-- A failure where it is, without a look at what follows. -/
theorem Halts.run {kind : Token.Kind} {s : Parse α} (h : Halts kind s) {c : Cursor}
    (hc : c.next.kind = kind) : ∃ halt, s c = .error halt := by
  induction h with
  | starve => exact ⟨_, rfl⟩
  | unexpected => exact ⟨_, rfl⟩
  | next _ ih => exact ih c.next hc
  | measure _ ih =>
      obtain ⟨halt, failed⟩ := ih
      exact ⟨halt, by rw [Parse.run, failed]; rfl⟩
  | item _ ih =>
      obtain ⟨halt, failed⟩ := ih
      exact ⟨halt, by rw [Parse.run, failed]; rfl⟩

theorem Stage.Holds.mono (course : Course P near far past fails) {g g' : Stage}
    (stage : g.le g' = true) {c d : Cursor} (h : g.Holds P near far past c d) :
    g'.Holds P near far past c d := by
  rcases Bool.or_eq_true _ _ ▸ stage with same | within
  · cases eq_of_beq same
    exact h
  · cases g' with
    | broken =>
        cases g with
        | loose => exact h.imp_left course.loosen
        | past => exact .inr h
        | passed => exact .inr h.1
        | inline => exact .inl (course.loosen h)
        | words => exact .inl (course.loosen h.1.1)
        | seen | ends | clear => exact .inl (course.loosen h.1)
        | broken => cases within
    | loose =>
        cases g with
        | past => exact .inr h
        | passed => exact .inr h.1
        | inline => exact .inl h
        | words => exact .inl h.1.1
        | seen | ends | clear => exact .inl h.1
        | loose | broken => cases within
    | inline =>
        cases g with
        | inline => exact h
        | words => exact h.1.1
        | seen | ends | clear => exact h.1
        | passed | past | loose | broken => cases within
    | past =>
        cases g with
        | passed => exact h.1
        | _ => cases within
    | _ => cases g <;> cases within

/-- Within a line both cursors move on by as many tokens. -/
theorem Course.within (course : Course P near far past fails) (c d : Cursor) :
    Course P.inline
      (fun x y => near x y ∧ x.ahead.length + d.ahead.length = y.ahead.length + c.ahead.length)
      (fun _ _ => True) (fun _ _ => False) fails where
  next h := (course.next h.1).imp_left fun same => ⟨same.alike, same.position⟩
  table h := course.table h.1
  declare h name ty := ⟨course.declare h.1 name ty, h.2⟩
  forward {x y} h same inline inside := by
    refine ⟨course.forward h.1 ⟨same.alike, same.position⟩ inline inside, ?_⟩
    have first := length_forward_lt inside
    have second := length_forward_lt (c := y) (by rwa [same.alike.kind])
    have lengths := h.2
    simp only [Cursor.forward, List.length_tail] at first second ⊢
    omega
  newline lines := lines.elim
  loosen _ := trivial
  skip lines := lines.elim
  spent := False.elim
  ended := False.elim
  apart := False.elim
  remain := False.elim
  rejected := course.rejected
  unexpected h := course.unexpected h.1
  free := course.free

variable {R : α → α → Prop} {after : α → Stage}

theorem Meet.bind {alone alone' : Prop} {after : α → Cursor → Cursor → Prop} {R' : β → β → Prop}
    {after' : β → Cursor → Cursor → Prop} {x y : Except Halt (α × Cursor)}
    {f f' : α × Cursor → Except Halt (β × Cursor)} (h : Meet alone fails R after x y)
    (lift : alone → alone')
    (rest : ∀ a b c d, R a b → after a c d → Meet alone' fails R' after' (f (a, c)) (f' (b, d))) :
    Meet alone' fails R' after' (x.bind f) (y.bind f') := by
  cases h with
  | ok h hcd => exact rest _ _ _ _ h hcd
  | failed h => exact .failed h
  | alone h => exact .alone (lift h)
  | starved => exact .starved

theorem Course.next_newline (course : Course P near far past fails) {c d : Cursor} (h : near c d) :
    d.next.kind = .newline ↔ c.next.kind = .newline := by
  rcases course.next h with same | ⟨_, first, second⟩
  · rw [same.alike.kind]
  · rcases first with first | first <;> rcases second with second | second <;> simp [first, second]

/-- Readers that are side by side come out alike at cursors that are. -/
theorem Abreast.meet {g : Stage} {s t : Parse α} (h : Abreast P R after g s t)
    (course : Course P near far past fails) {c d : Cursor} (hcd : g.Holds P near far past c d) :
    Meet P.spent fails R (fun a => (after a).Holds P near far past) (s c) (t d) := by
  induction h generalizing near far past c d with
  | done h stage => exact .ok h (hcd.mono course stage)
  | starve => exact .starved
  | weaken stage _ ih => exact ih course (hcd.mono course stage)
  | reject placed _ => exact .failed (course.rejected _ placed)
  | unexpected expected => exact .failed (course.unexpected hcd expected)
  | next _ _ same ends =>
      rcases course.next hcd with tokens | ⟨framed, first, second⟩
      · exact same _ _ tokens course ⟨hcd, tokens, rfl⟩
      · exact ends framed _ _ first second course ⟨hcd, framed, rfl, rfl⟩
  | ended _ ih => exact ih _ _ hcd.2.2.1 hcd.2.2.2 course hcd
  | begin _ _ same ends =>
      rcases course.next hcd.1 with tokens | ⟨framed, first, second⟩
      · exact same _ _ tokens hcd.2 course ⟨hcd.1, tokens, rfl⟩
      · exact ends framed _ _ first second course ⟨hcd.1, framed, rfl, rfl⟩
  | again _ same => exact same _ _ hcd.2.1 hcd.2.2 course hcd
  | second inner _ _ same ends =>
      obtain ⟨near, tokens, rfl⟩ := hcd
      have forward := course.forward near tokens inner.1 fun eof => inner.2 (.inl eof)
      rcases course.next forward with following | ⟨framed, first, second⟩
      · exact same _ _ following course ⟨⟨near, tokens, rfl⟩, following, rfl⟩
      · exact ends framed _ _ first second course ⟨near, tokens, rfl⟩
  | forward inline inside _ ih =>
      obtain ⟨near, tokens, rfl⟩ := hcd
      exact ih course (course.forward near tokens inline inside)
  | word inner _ ih =>
      obtain ⟨⟨near, tokens, rfl⟩, following⟩ := hcd
      have forward := course.forward near tokens inner.1 fun eof => inner.2 (.inl eof)
      exact ih course ⟨forward, following⟩
  | newline lines _ ih =>
      obtain ⟨near, tokens, line⟩ := hcd
      exact ih course (course.newline lines near line (tokens.alike.kind.trans line))
  | @skip _ _ _ _ go go' lines _ _ none some =>
      change Meet _ _ _ _ (go (c.next.kind == .newline) c.dropNewlines)
        (go' (d.next.kind == .newline) d.dropNewlines)
      by_cases line : c.next.kind = .newline
      · rw [line, (course.next_newline hcd).mpr line]
        exact some course (course.skip lines (course.loosen hcd))
      · have line' := mt (course.next_newline hcd).mp line
        rw [dropNewlines_of_ne line, dropNewlines_of_ne line', beq_eq_false_iff_ne.mpr line,
          beq_eq_false_iff_ne.mpr line']
        exact none course hcd
  | skipAll lines _ _ clear passed =>
      rcases hcd with hcd | hcd
      · rcases course.skip lines hcd with hcd | hcd
        · exact clear course ⟨hcd, next_ne_newline_of_skipNewlines (c := c) rfl⟩
        · exact passed (course.spent hcd) course hcd
      · exact passed (course.spent hcd) course (course.remain hcd)
  | @names _ _ _ _ go go' _ ih =>
      change Meet _ _ _ _ (go c.table c) (go' d.table d)
      rw [course.table hcd]
      exact ih c.table course hcd
  | declare _ ih => exact ih course (course.declare hcd _ _)
  | measure _ _ part ih =>
      apply (part (course.within c d) ⟨hcd, Nat.add_comm _ _⟩).bind False.elim
      intro e e' x y same hxy
      have single : x.isOnePast c = y.isOnePast d := by
        have lengths := hxy.2
        rw [Bool.eq_iff_iff, Cursor.isOnePast, Cursor.isOnePast, beq_iff_eq, beq_iff_eq]
        omega
      dsimp only
      rw [single]
      exact ih e e' _ same course hxy.1
  | item _ _ _ part ih =>
      apply (part course hcd).bind id
      intro first first' x y same hxy
      exact ih first first' same course hxy
  | failed h h' =>
      obtain ⟨_, framed, first, second⟩ := hcd
      obtain ⟨halt, failed⟩ := h.run first
      obtain ⟨halt', failed'⟩ := h'.run second
      rw [failed, failed']
      cases halt with
      | rejected r => exact .failed (course.free framed r halt')
      | starved => exact .starved
  | lost h =>
      obtain ⟨halt, failed⟩ := h.run (next_kind_of_ahead_nil (course.ended hcd))
      rw [failed]
      exact .alone (course.spent hcd)
  | passed _ ih =>
      have eof := next_kind_of_ahead_nil (course.ended hcd)
      exact ih _ _ eof course ⟨hcd, rfl⟩
  | apart _ ih =>
      obtain ⟨dili, wala⟩ := course.apart hcd.1 hcd.2
      exact ih _ dili wala course hcd
  | onward _ _ inline passed =>
      rcases hcd with hcd | hcd
      · exact inline course hcd
      · exact passed (course.spent hcd) course hcd

theorem Meet.of_ok {alone : Prop} {after : α → Cursor → Cursor → Prop} {a : α} {c : Cursor}
    {result : Except Halt (α × Cursor)} (h : Meet alone fails R after (.ok (a, c)) result) :
    ∃ b d, result = .ok (b, d) ∧ R a b ∧ after a c d := by
  cases h with
  | ok h hcd => exact ⟨_, _, rfl, h, hcd⟩

/-- The same text, with the same places. -/
def Pairing.exact : Pairing := ⟨Eq, False, False, True⟩

theorem Pairing.same_exact {t u : Token} (h : u = t) : Pairing.exact.Same t u := by
  subst h
  exact ⟨.refl u, rfl⟩

/-- To read the same text is to read the same, with any bound that is large enough. -/
theorem course_eq :
    Course .exact Eq Eq (fun _ _ => False) fun r halt => halt = .rejected r where
  next h := .inl (Pairing.same_exact (h ▸ rfl))
  table h := h ▸ rfl
  declare h _ _ := h ▸ rfl
  forward h _ _ _ := h ▸ rfl
  newline _ h _ _ := .inl (h ▸ rfl)
  loosen h := h
  skip _ h := .inl (h ▸ rfl)
  spent := False.elim
  ended := False.elim
  apart := False.elim
  remain := False.elim
  rejected _ placed := placed ▸ rfl
  unexpected h _ := h ▸ rfl
  free framed := framed.elim

end Sulti.Grammar
