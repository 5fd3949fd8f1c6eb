import Sulti.Proofs.Alike
import Sulti.Proofs.Grammar.Outcome

/-!
Two readers side by side, as the trees of their steps. They ask for the same
things at the same time, and what comes next is again side by side, whatever the
answers are. Nothing is said here of the texts that are read but for how far
their tokens may differ; what the readers come to at two cursors that agree so
far follows from their steps.

The tokens may be placed differently. The one text may be closed by a word where
the other ends, and the first may end behind a line break where the second goes
on. A reader that needs a token fails there, and one that does not stays where
it is.
-/

namespace Sulti.Grammar

/-- How two texts that are read side by side may differ. -/
structure Pairing where
  /-- The places of tokens that stand side by side. -/
  place : Position → Position → Prop
  /-- The one may be closed where the other ends. -/
  framed : Prop
  /-- The first may end behind a line break where the second goes on. -/
  spent : Prop
  /-- Line breaks are moved over. -/
  lines : Prop

/-- How the texts may differ within a line. -/
def Pairing.inline (P : Pairing) : Pairing := { P with spent := False, lines := False }

/-- Tokens that stand side by side. -/
structure Pairing.Same (P : Pairing) (t u : Token) : Prop where
  alike : t.Alike u
  position : P.place t.position u.position

/-- The same expression, at places that are side by side. -/
abbrev Pairing.SameExpr (P : Pairing) (e e' : Expr) : Prop := e.Related P.place e'

/-- The same statement, at places that are side by side. -/
abbrev Pairing.SameStmt (P : Pairing) (s s' : Stmt) : Prop :=
  Phrase.Related P.place (.stmt s) (.stmt s')

/-- The word that closes a program, or the end of the text. -/
def Final (kind : Token.Kind) : Prop := kind = .eof ∨ kind = .katapusan

/-- What stands within a line of a program. -/
def Inner (kind : Token.Kind) : Prop := kind ≠ .newline ∧ ¬Final kind

/-- What is known of the two texts where the readers are. -/
inductive Stage where
  /-- The next tokens are side by side and of this kind. -/
  | seen (kind : Token.Kind)
  /-- So are the next two tokens. -/
  | words (first second : Token.Kind)
  /-- The one is closed where the other ends. -/
  | ends (first second : Token.Kind)
  /-- The texts are side by side, and no line break is next. -/
  | clear
  /-- The texts are side by side, or the one is closed where the other ends. -/
  | inline
  /-- The first has ended behind a line break, and this kind of token follows in the other. -/
  | passed (following : Token.Kind)
  /-- The first has ended behind a line break. -/
  | past
  /-- As within a line, or the first has ended behind a line break. -/
  | loose
  /-- The same but for line breaks that are still ahead. -/
  | broken
  deriving DecidableEq

/-- Whether the one stage is a case of the other. -/
def Stage.within : Stage → Stage → Bool
  | .broken, _ => false
  | _, .broken => true
  | .loose, _ => false
  | _, .loose => true
  | .passed _, .past => true
  | .passed _, _ => false
  | .past, _ => false
  | _, .inline => true
  | _, _ => false

/-- Whether what is known at the one stage is known at the other. -/
def Stage.le (g g' : Stage) : Bool := g == g' || g.within g'

theorem Stage.le_refl (g : Stage) : g.le g = true := by
  rw [Stage.le, beq_self_eq_true, Bool.true_or]

/-- In front of a token of this kind the reader fails where it is. -/
inductive Halts (kind : Token.Kind) : {α : Type} → Parse α → Prop where
  | starve {α : Type} : Halts kind (.starve : Parse α)
  | unexpected {α : Type} {expected : String} : Halts kind (.unexpected expected : Parse α)
  | next {α : Type} {go : Token → Parse α} (h : ∀ t : Token, t.kind = kind → Halts kind (go t)) :
      Halts kind (.next go)
  | measure {α : Type} {operand : Parse Expr} {go : Expr → Bool → Parse α}
      (h : Halts kind operand) : Halts kind (.measure operand go)
  | item {α : Type} {statement : Parse Stmt} {go : Stmt → Parse α} (h : Halts kind statement) :
      Halts kind (.item statement go)

/-- The readers go on side by side from the given stage, to results in the relation `R` and
the stage that `after` tells. -/
inductive Abreast : Pairing → {α : Type} → (R : α → α → Prop) → (after : α → Stage) → Stage →
    Parse α → Parse α → Prop where
  | done {P : Pairing} {α : Type} {R : α → α → Prop} {after : α → Stage} {g : Stage} {a b : α}
      (h : R a b) (stage : g.le (after a) = true) : Abreast P R after g (.done a) (.done b)
  | starve {P : Pairing} {α : Type} {R : α → α → Prop} {after : α → Stage} {g : Stage}
      {t : Parse α} : Abreast P R after g .starve t
  | weaken {P : Pairing} {α : Type} {R : α → α → Prop} {after : α → Stage} {g g' : Stage}
      {s t : Parse α} (stage : g.le g' = true) (h : Abreast P R after g' s t) :
      Abreast P R after g s t
  | reject {P : Pairing} {α : Type} {R : α → α → Prop} {after : α → Stage} {g : Stage}
      {position position' : Position} {cause : Rejection.Cause}
      (placed : P.place position position')
      (other : ∀ expected found, cause ≠ .unexpected expected found) :
      Abreast P R after g (.reject position cause) (.reject position' cause)
  | unexpected {P : Pairing} {α : Type} {R : α → α → Prop} {after : α → Stage}
      (expected : String) : Abreast P R after .inline (.unexpected expected) (.unexpected expected)
  | next {P : Pairing} {α : Type} {R : α → α → Prop} {after : α → Stage}
      {go go' : Token → Parse α}
      (same : ∀ t u, P.Same t u → Abreast P R after (.seen t.kind) (go t) (go' u))
      (ends : P.framed → ∀ first second, Final first → Final second →
        Abreast P R after (.ends first second) (.next go) (.next go')) :
      Abreast P R after .inline (.next go) (.next go')
  | ended {P : Pairing} {α : Type} {R : α → α → Prop} {after : α → Stage}
      {first second : Token.Kind} {go go' : Token → Parse α}
      (h : ∀ t u : Token, t.kind = first → u.kind = second →
        Abreast P R after (.ends first second) (go t) (go' u)) :
      Abreast P R after (.ends first second) (.next go) (.next go')
  | begin {P : Pairing} {α : Type} {R : α → α → Prop} {after : α → Stage}
      {go go' : Token → Parse α}
      (same : ∀ t u, P.Same t u → t.kind ≠ .newline →
        Abreast P R after (.seen t.kind) (go t) (go' u))
      (ends : P.framed → ∀ first second, Final first → Final second →
        Abreast P R after (.ends first second) (.next go) (.next go')) :
      Abreast P R after .clear (.next go) (.next go')
  /-- To look at the next token again tells its place, but nothing of its kind. -/
  | again {P : Pairing} {α : Type} {R : α → α → Prop} {after : α → Stage} {kind : Token.Kind}
      {go go' : Token → Parse α}
      (same : ∀ t u, P.Same t u → t.kind = kind → Abreast P R after (.seen kind) (go t) (go' u)) :
      Abreast P R after (.seen kind) (.next go) (.next go')
  | second {P : Pairing} {α : Type} {R : α → α → Prop} {after : α → Stage} {kind : Token.Kind}
      {go go' : Token → Parse α} (inner : Inner kind)
      (same : ∀ t u, P.Same t u → Abreast P R after (.words kind t.kind) (go t) (go' u))
      (ends : P.framed → ∀ t u : Token, Final t.kind → Final u.kind →
        Abreast P R after (.seen kind) (go t) (go' u)) :
      Abreast P R after (.seen kind) (.second go) (.second go')
  | forward {P : Pairing} {α : Type} {R : α → α → Prop} {after : α → Stage} {kind : Token.Kind}
      {s t : Parse α} (inline : kind ≠ .newline) (inside : kind ≠ .eof)
      (h : Abreast P R after .inline s t) :
      Abreast P R after (.seen kind) (.forward s) (.forward t)
  | word {P : Pairing} {α : Type} {R : α → α → Prop} {after : α → Stage}
      {first second : Token.Kind} {s t : Parse α} (inner : Inner first)
      (h : Abreast P R after (.seen second) s t) :
      Abreast P R after (.words first second) (.forward s) (.forward t)
  | newline {P : Pairing} {α : Type} {R : α → α → Prop} {after : α → Stage} {s t : Parse α}
      (lines : P.lines) (h : Abreast P R after .broken s t) :
      Abreast P R after (.seen .newline) (.forward s) (.forward t)
  | skip {P : Pairing} {α : Type} {R : α → α → Prop} {after : α → Stage}
      {go go' : Bool → Parse α} (lines : P.lines)
      (none : Abreast P R after .inline (go false) (go' false))
      (some : Abreast P R after .loose (go true) (go' true)) :
      Abreast P R after .inline (.skip go) (.skip go')
  /-- Behind a line break the texts need not have the same line breaks ahead. -/
  | skipAll {P : Pairing} {α : Type} {R : α → α → Prop} {after : α → Stage} {s t : Parse α}
      (lines : P.lines) (near : Abreast P R after .clear s t)
      (past : P.spent → Abreast P R after .past s t) :
      Abreast P R after .broken (.skip fun _ => s) (.skip fun _ => t)
  | names {P : Pairing} {α : Type} {R : α → α → Prop} {after : α → Stage}
      {go go' : Table Ty → Parse α}
      (h : ∀ table, Abreast P R after .inline (go table) (go' table)) :
      Abreast P R after .inline (.names go) (.names go')
  | declare {P : Pairing} {α : Type} {R : α → α → Prop} {after : α → Stage} {name : String}
      {ty : Ty} {s t : Parse α} (h : Abreast P R after .inline s t) :
      Abreast P R after .inline (.declare name ty s) (.declare name ty t)
  /-- Within a line both readers have moved on by as many tokens. -/
  | measure {P : Pairing} {α : Type} {R : α → α → Prop} {after : α → Stage}
      {operand operand' : Parse Expr} {go go' : Expr → Bool → Parse α}
      (part : Abreast P.inline P.SameExpr (fun _ => .inline) .inline operand operand')
      (h : ∀ e e' single, P.SameExpr e e' →
        Abreast P R after .inline (go e single) (go' e' single)) :
      Abreast P R after .inline (.measure operand go) (.measure operand' go')
  | item {P : Pairing} {α : Type} {R : α → α → Prop} {after : α → Stage} {kind : Token.Kind}
      {n m : Nat} {go go' : Stmt → Parse α} (inner : kind ≠ .newline)
      (part : Abreast P P.SameStmt (fun _ => .broken) (.seen kind) (statement n) (statement m))
      (h : ∀ s s', P.SameStmt s s' → Abreast P R after .broken (go s) (go' s')) :
      Abreast P R after (.seen kind) (.item (statement n) go) (.item (statement m) go')
  /-- Where the one is closed and the other ends, both fail. -/
  | failed {P : Pairing} {α : Type} {R : α → α → Prop} {after : α → Stage}
      {first second : Token.Kind} {s t : Parse α} (h : Halts first s) (h' : Halts second t) :
      Abreast P R after (.ends first second) s t
  /-- Past its end the first fails, whatever the other comes to. -/
  | lost {P : Pairing} {α : Type} {R : α → α → Prop} {after : α → Stage} {s t : Parse α}
      (h : Halts .eof s) : Abreast P R after .past s t
  | passed {P : Pairing} {α : Type} {R : α → α → Prop} {after : α → Stage}
      {go go' : Token → Parse α}
      (h : ∀ t u : Token, t.kind = .eof → Abreast P R after (.passed u.kind) (go t) (go' u)) :
      Abreast P R after .past (.next go) (.next go')
  /-- Past the end of the first text no alternative of a condition goes on. -/
  | apart {P : Pairing} {α : Type} {R : α → α → Prop} {after : α → Stage} {s : Parse α}
      {go : Token → Parse α}
      (h : ∀ u : Token, u.kind ≠ .dili → u.kind ≠ .wala →
        Abreast P R after (.passed .kung) s (go u)) :
      Abreast P R after (.passed .kung) s (.second go)
  | onward {P : Pairing} {α : Type} {R : α → α → Prop} {after : α → Stage} {s t : Parse α}
      (near : Abreast P R after .inline s t) (past : P.spent → Abreast P R after .past s t) :
      Abreast P R after .loose s t

variable {α β : Type} {P : Pairing} {R : α → α → Prop} {R' : β → β → Prop} {after : α → Stage}
  {after' : β → Stage} {g : Stage} {s t : Parse α} {f f' : α → Parse β}

theorem Parse.bind_assoc {γ : Type} (p : Parse α) (f : α → Parse β) (g : β → Parse γ) :
    p >>= f >>= g = p >>= fun a => f a >>= g := by
  change (p.bind f).bind g = p.bind fun a => (f a).bind g
  induction p with
  | done | starve | reject | unexpected => rfl
  | next go ih | second go ih | skip go ih | names go ih => simp only [Parse.bind, ih]
  | forward go ih | declare name ty go ih => simp only [Parse.bind, ih]
  | measure operand go _ ih => simp only [Parse.bind, ih]
  | item statement go _ ih => simp only [Parse.bind, ih]

theorem Halts.bind {kind : Token.Kind} (h : Halts kind s) (f : α → Parse β) :
    Halts kind (s >>= f) := by
  induction h with
  | starve => exact .starve
  | unexpected => exact .unexpected
  | next _ ih => exact .next fun t ht => ih t ht f
  | measure h _ => exact .measure h
  | item h _ => exact .item h

/-- Readers that are side by side may be followed by others that are. -/
theorem Abreast.bind (h : Abreast P R after g s t)
    (rest : ∀ a b, R a b → Abreast P R' after' (after a) (f a) (f' b)) :
    Abreast P R' after' g (s >>= f) (t >>= f') := by
  induction h with
  | done h stage => exact .weaken stage (rest _ _ h)
  | starve => exact .starve
  | weaken stage _ ih => exact .weaken stage (ih rest)
  | reject placed other => exact .reject placed other
  | unexpected expected => exact .unexpected expected
  | next _ _ same ends =>
      exact .next (fun t u alike => same t u alike rest)
        fun framed first second h h' => ends framed first second h h' rest
  | begin _ _ same ends =>
      exact .begin (fun t u alike inner => same t u alike inner rest)
        fun framed first second h h' => ends framed first second h h' rest
  | ended _ ih => exact .ended fun t u ht hu => ih t u ht hu rest
  | again _ same => exact .again fun t u alike ht => same t u alike ht rest
  | second inner _ _ same ends =>
      exact .second inner (fun t u alike => same t u alike rest)
        fun framed t u ht hu => ends framed t u ht hu rest
  | forward inline inside _ ih => exact .forward inline inside (ih rest)
  | word inner _ ih => exact .word inner (ih rest)
  | newline lines _ ih => exact .newline lines (ih rest)
  | skip lines _ _ none some => exact .skip lines (none rest) (some rest)
  | skipAll lines _ _ near past =>
      exact .skipAll lines (near rest) fun spent => past spent rest
  | names _ ih => exact .names fun table => ih table rest
  | declare _ ih => exact .declare (ih rest)
  | measure part _ _ ih =>
      exact .measure part fun e e' single alike => ih e e' single alike rest
  | item inner part _ _ ih => exact .item inner part fun s s' alike => ih s s' alike rest
  | failed h h' => exact .failed (h.bind _) (h'.bind _)
  | lost h => exact .lost (h.bind _)
  | passed _ ih => exact .passed fun t u ht => ih t u ht rest
  | apart _ ih => exact .apart fun u dili wala => ih u dili wala rest
  | onward _ _ near past => exact .onward (near rest) fun spent => past spent rest

/-- The readers stay within a line. -/
abbrev Alongside (P : Pairing) (R : α → α → Prop) (s t : Parse α) : Prop :=
  Abreast P R (fun _ => .inline) .inline s t

/-! The single steps, where others follow. -/

section

variable {f f' : Token → Parse α} {first second kind : Token.Kind}

theorem halts_peek_bind (h : ∀ t : Token, t.kind = kind → Halts kind (f t)) :
    Halts kind (peek >>= f) := .next h

theorem abreast_peek_bind
    (same : ∀ kind lexeme position position', P.place position position' →
      Abreast P R after (.seen kind) (f ⟨kind, lexeme, position⟩) (f' ⟨kind, lexeme, position'⟩))
    (ends : P.framed → ∀ first second, Final first → Final second →
      Abreast P R after (.ends first second) (peek >>= f) (peek >>= f')) :
    Abreast P R after .inline (peek >>= f) (peek >>= f') := by
  apply Abreast.next
  · rintro ⟨kind, lexeme, position⟩ ⟨kind', lexeme', position'⟩ ⟨⟨kinds, lexemes⟩, placed⟩
    cases kinds
    cases lexemes
    exact same kind lexeme position position' placed
  · exact ends

theorem abreast_peek_clear
    (same : ∀ kind lexeme position position', P.place position position' → kind ≠ .newline →
      Abreast P R after (.seen kind) (f ⟨kind, lexeme, position⟩) (f' ⟨kind, lexeme, position'⟩))
    (ends : P.framed → ∀ first second, Final first → Final second →
      Abreast P R after (.ends first second) (peek >>= f) (peek >>= f')) :
    Abreast P R after .clear (peek >>= f) (peek >>= f') := by
  apply Abreast.begin
  · rintro ⟨kind, lexeme, position⟩ ⟨kind', lexeme', position'⟩ ⟨⟨kinds, lexemes⟩, placed⟩ inner
    cases kinds
    cases lexemes
    exact same kind lexeme position position' placed inner
  · exact ends

theorem abreast_peek_again
    (same : ∀ lexeme position position', P.place position position' →
      Abreast P R after (.seen kind) (f ⟨kind, lexeme, position⟩) (f' ⟨kind, lexeme, position'⟩)) :
    Abreast P R after (.seen kind) (peek >>= f) (peek >>= f') := by
  apply Abreast.again
  rintro ⟨_, lexeme, position⟩ ⟨kind', lexeme', position'⟩ ⟨⟨kinds, lexemes⟩, placed⟩ rfl
  cases kinds
  cases lexemes
  exact same lexeme position position' placed

theorem abreast_peek_ended
    (h : ∀ t u : Token, t.kind = first → u.kind = second →
      Abreast P R after (.ends first second) (f t) (f' u)) :
    Abreast P R after (.ends first second) (peek >>= f) (peek >>= f') := .ended h

theorem abreast_advance_bind {f f' : Unit → Parse α} (inner : Inner kind)
    (h : Abreast P R after .inline (f ()) (f' ())) :
    Abreast P R after (.seen kind) (advance >>= f) (advance >>= f') :=
  .forward inner.1 (fun eof => inner.2 (.inl eof)) h

theorem abreast_names_bind {f f' : Table Ty → Parse α}
    (h : ∀ table, Abreast P R after .inline (f table) (f' table)) :
    Abreast P R after .inline (names >>= f) (names >>= f') := .names h

theorem abreast_measured_bind {operand operand' : Parse Expr} {f f' : Expr × Bool → Parse α}
    (part : Alongside P.inline P.SameExpr operand operand')
    (h : ∀ e e' single, P.SameExpr e e' →
      Abreast P R after .inline (f (e, single)) (f' (e', single))) :
    Abreast P R after .inline (measured operand >>= f) (measured operand' >>= f') :=
  .measure part h

end

theorem halts_expect {kind final : Token.Kind} (inner : Inner kind) (h : Final final)
    (expected : String) : Halts final (expect kind expected) := by
  apply halts_peek_bind
  intro t ht
  have other : t.kind ≠ kind := by
    rintro rfl
    exact inner.2 (ht ▸ h)
  rw [if_neg other]
  exact .unexpected

/-- A token that has to be there is not there past the end. -/
theorem abreast_expect {kind : Token.Kind} (inner : Inner kind) (expected : String) :
    Abreast P (fun _ _ => True) (fun _ => .inline) .loose (expect kind expected)
      (expect kind expected) := by
  apply Abreast.onward
  · apply abreast_peek_bind
    · intro found _ _ _ _
      dsimp only
      split
      · rename_i found
        rw [found]
        exact abreast_advance_bind inner (.done trivial rfl)
      · exact .weaken rfl (.unexpected expected)
    · intro _ first second h h'
      exact .failed (halts_expect inner h expected) (halts_expect inner h' expected)
  · intro _
    exact .lost (halts_expect inner (.inl rfl) expected)

theorem alongside_expect {kind : Token.Kind} (inner : Inner kind) (expected : String) :
    Alongside P (fun _ _ => True) (expect kind expected) (expect kind expected) :=
  .weaken rfl (abreast_expect inner expected)

theorem alongside_accept {kind : Token.Kind} (inner : Inner kind) :
    Alongside P (fun a b => b = a) (accept kind) (accept kind) := by
  apply abreast_peek_bind
  · intro found _ _ _ _
    dsimp only
    split
    · rename_i found
      rw [found]
      exact abreast_advance_bind inner (.done rfl rfl)
    · exact .done rfl rfl
  · intro _ first second h h'
    apply abreast_peek_ended
    intro t u ht hu
    rw [if_neg (by rintro rfl; exact inner.2 (ht ▸ h)),
      if_neg (by rintro rfl; exact inner.2 (hu ▸ h'))]
    exact .done rfl rfl

theorem halts_identifier {final : Token.Kind} (h : Final final) : Halts final identifier := by
  apply halts_peek_bind
  intro t ht
  rcases h with rfl | rfl
  · rw [ht]
    exact .unexpected
  · rw [ht]
    exact .unexpected

theorem alongside_identifier :
    Alongside P (fun a b => b.1 = a.1 ∧ P.place a.2 b.2) identifier identifier := by
  apply abreast_peek_bind
  · intro kind _ position position' placed
    cases kind with
    | identifier name =>
        exact abreast_advance_bind (by simp [Inner, Final]) (.done ⟨rfl, placed⟩ rfl)
    | _ => exact .weaken rfl (.unexpected _)
  · intro _ first second h h'
    exact .failed (halts_identifier h) (halts_identifier h')

theorem alongside_checked {position position' : Position} (placed : P.place position position')
    (r : Except Mismatch α) :
    Alongside P (fun a b => b = a) (checked position r) (checked position' r) := by
  cases r with
  | ok a => exact .done rfl rfl
  | error m => exact .reject placed (by simp)

/-- Items and separators, where `W` puts together what relates single items. -/
theorem alongside_separated {W : List α → List α → Prop} {item item' : Parse α}
    {separator : Token.Kind} (inner : Inner separator) (h : Alongside P R item item')
    (one : ∀ a b, R a b → W [a] [b])
    (cons : ∀ a b l l', R a b → W l l' → W (a :: l) (b :: l')) {n m : Nat} (hn : n ≤ m) :
    Alongside P W (separated separator item n) (separated separator item' m) := by
  induction n generalizing m with
  | zero => exact .starve
  | succ n ih =>
      cases m with
      | zero => cases hn
      | succ m =>
          apply h.bind
          intro a b hab
          apply (alongside_accept inner).bind
          rintro _ more rfl
          cases more with
          | false => exact .done (one a b hab) rfl
          | true =>
              apply (ih (Nat.le_of_succ_le_succ hn)).bind
              intro l l' hl
              exact .done (cons a b l l' hab hl) rfl

end Sulti.Grammar
