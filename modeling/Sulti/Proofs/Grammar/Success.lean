import Sulti.Proofs.Grammar.Completeness
import Sulti.Proofs.Grammar.Printer

/-!
Readers that are known to succeed. A proof that a sequence of steps gets from
one place to another follows the steps from the front, as a proof about what it
comes to does. What is written for an expression, or for a list of items with a
separator between any two, is read as it was.
-/

namespace Sulti.Grammar

variable {α β : Type}

/-- From `c` the reader gets to `d`, with a result that satisfies `Q`. -/
def Gets (p : Parse α) (c : Cursor) (Q : α → Prop) (d : Cursor) : Prop :=
  ∃ a, p c = .ok (a, d) ∧ Q a

section

variable {f : α → Parse β} {c d : Cursor} {Q : β → Prop}

theorem Gets.bind {p : Parse α} {c' : Cursor} {P : α → Prop} (h : Gets p c P c')
    (hf : ∀ a, P a → Gets (f a) c' Q d) : Gets (p >>= f) c Q d := by
  obtain ⟨a, ha, pa⟩ := h
  obtain ⟨b, hb, qb⟩ := hf a pa
  exact ⟨b, (bind_of_ok ha).trans hb, qb⟩

theorem gets_bind_of_ok {p : Parse α} {c' : Cursor} {a : α} (h : p c = .ok (a, c'))
    (hf : Gets (f a) c' Q d) : Gets (p >>= f) c Q d := by
  apply Gets.bind ⟨a, h, rfl⟩
  rintro _ rfl
  exact hf

theorem Gets.of_eq {p q : Parse β} (h : Gets q c Q d) (same : p c = q c) : Gets p c Q d := by
  obtain ⟨b, hb, qb⟩ := h
  exact ⟨b, same.trans hb, qb⟩

theorem gets_pure {b : β} (h : Q b) : Gets (pure b) c Q c := ⟨b, rfl, h⟩

end

section

variable {token : Token} {tokens : List Token} {stop : Position} {table : Table Ty} {d : Cursor}
  {Q : β → Prop}

theorem gets_advance {f : Unit → Parse β} (h : Gets (f ()) ⟨tokens, stop, table⟩ Q d) :
    Gets (advance >>= f) ⟨token :: tokens, stop, table⟩ Q d := gets_bind_of_ok rfl h

theorem gets_expect {kind : Token.Kind} {expected : String} {f : Unit → Parse β}
    (ht : token.kind = kind) (h : Gets (f ()) ⟨tokens, stop, table⟩ Q d) :
    Gets (expect kind expected >>= f) ⟨token :: tokens, stop, table⟩ Q d :=
  gets_bind_of_ok (expect_of_kind ht) h

theorem gets_accept {kind : Token.Kind} {f : Bool → Parse β} (ht : token.kind = kind)
    (h : Gets (f true) ⟨tokens, stop, table⟩ Q d) :
    Gets (accept kind >>= f) ⟨token :: tokens, stop, table⟩ Q d :=
  gets_bind_of_ok (accept_of_kind ht) h

theorem gets_accept_other {kind : Token.Kind} {f : Bool → Parse β} {c : Cursor}
    (hc : c.next.kind ≠ kind) (h : Gets (f false) c Q d) : Gets (accept kind >>= f) c Q d :=
  gets_bind_of_ok (accept_of_ne hc) h

theorem gets_skip_none {c : Cursor} {f : Bool → Parse β} (hc : c.next.kind ≠ .newline)
    (h : Gets (f false) c Q d) : Gets (skipNewlines >>= f) c Q d := by
  apply gets_bind_of_ok _ h
  change Except.ok (c.next.kind == .newline, c.dropNewlines) = _
  rw [dropNewlines_of_ne hc]
  simp [hc]

theorem gets_skip_token {kind : Token.Kind} {lexeme : String} {f : Bool → Parse β}
    (hk : kind ≠ .newline) (h : Gets (f false) ⟨.unplaced kind lexeme :: tokens, stop, table⟩ Q d) :
    Gets (skipNewlines >>= f) ⟨.unplaced kind lexeme :: tokens, stop, table⟩ Q d :=
  gets_skip_none hk h

/-- One line break that no other follows. -/
theorem gets_skip_one {f : Bool → Parse β}
    (single : (Cursor.next ⟨tokens, stop, table⟩).kind ≠ .newline)
    (h : Gets (f true) ⟨tokens, stop, table⟩ Q d) :
    Gets (skipNewlines >>= f) ⟨.lineBreak :: tokens, stop, table⟩ Q d := by
  apply gets_bind_of_ok _ h
  change Except.ok (true, Cursor.dropNewlines ⟨tokens, stop, table⟩) = _
  rw [dropNewlines_of_ne single]

theorem gets_endStatement {f : Unit → Parse β} (h : Gets (f ()) ⟨tokens, stop, table⟩ Q d) :
    Gets (endStatement >>= f) ⟨.lineBreak :: tokens, stop, table⟩ Q d := gets_bind_of_ok rfl h

theorem gets_demand {c : Cursor} {expected : Ty} {e : Expr} {f : Unit → Parse β}
    (fits : expected.compatible e.ty = true) (h : Gets (f ()) c Q d) :
    Gets (demand expected e >>= f) c Q d := gets_bind_of_ok (demand_of_compatible fits c) h

/-- What is written for an expression is read as that expression. -/
theorem gets_expression {e : Expr} (typed : e.Typed table) {fuel : Nat}
    (enough : (e.write 0).length ≤ fuel) (ends : Symbol.EndsAt .assignment token.kind) :
    Gets (expression fuel) ⟨e.write 0 ++ token :: tokens, stop, table⟩ (e.Alike ·)
      ⟨token :: tokens, stop, table⟩ := by
  obtain ⟨e', alike, derived⟩ := derives_write typed 0
  exact ⟨e', derived.expression_eq (typed.alike alike) enough ends, alike⟩

end

/-! Lists with a separator. -/

/-- A list is read as it is written if each item is, and the last one also in front of a
line break. `L` says what the list does to the table and `A` what it is read as. -/
theorem gets_separated (separator : Token) {item : Parse α} {write : β → List Token}
    {L : Table Ty → List β → Table Ty → Prop} {A : List β → List α → Prop} {k : Nat}
    (other : Token.lineBreak.kind ≠ separator.kind)
    (nil : ∀ before after, L before [] after → after = before ∧ A [] [])
    (cons : ∀ before x rest after, L before (x :: rest) after → (write x).length ≤ k →
      ∃ between, L between rest after ∧
        ∀ token tokens stop, (rest = [] ∧ token = .lineBreak ∨ rest ≠ [] ∧ token = separator) →
          Gets item ⟨write x ++ token :: tokens, stop, before⟩
            (fun a => ∀ l, A rest l → A (x :: rest) (a :: l)) ⟨token :: tokens, stop, between⟩)
    {xs : List β} (nonempty : xs ≠ []) {before after : Table Ty} (h : L before xs after)
    (enough : (Stmt.listed separator (xs.map write)).length ≤ k) {n : Nat}
    (bound : (Stmt.listed separator (xs.map write)).length < n) (tokens : List Token)
    (stop : Position) :
    Gets (separated separator.kind item n)
      ⟨Stmt.listed separator (xs.map write) ++ .lineBreak :: tokens, stop, before⟩ (A xs)
      ⟨.lineBreak :: tokens, stop, after⟩ := by
  induction xs generalizing before n with
  | nil => exact absurd rfl nonempty
  | cons x rest ih =>
      obtain ⟨n, rfl⟩ : ∃ j, n = j + 1 := ⟨n - 1, by omega⟩
      cases rest with
      | nil =>
          obtain ⟨between, hb, one⟩ := cons _ _ _ _ h enough
          obtain ⟨rfl, empty⟩ := nil _ _ hb
          apply (one .lineBreak tokens stop (Or.inl ⟨rfl, rfl⟩)).bind
          intro a join
          apply gets_accept_other
          · exact other
          · exact gets_pure (join [] empty)
      | cons y more =>
          simp only [List.map_cons, Stmt.listed, List.length_append, List.length_cons]
            at enough bound
          simp only [List.map_cons, Stmt.listed, List.append_assoc, List.cons_append]
          obtain ⟨between, hb, one⟩ := cons _ _ _ _ h (by omega)
          have others := ih (List.cons_ne_nil y more) hb
            (by simp only [List.map_cons]; omega) (n := n) (by simp only [List.map_cons]; omega)
          apply (one separator _ stop (Or.inr ⟨List.cons_ne_nil y more, rfl⟩)).bind
          intro a join
          apply gets_accept rfl
          apply others.bind
          intro l hl
          exact gets_pure (join l hl)

section

variable {before after : Table Ty} {tokens : List Token} {stop : Position}

theorem endsAt_lineBreak : Symbol.EndsAt .assignment Token.lineBreak.kind :=
  ⟨⟨nofun, nofun⟩, nofun, rfl⟩

theorem endsAt_comma : Symbol.EndsAt .assignment Token.comma.kind :=
  ⟨⟨nofun, nofun⟩, nofun, rfl⟩

theorem endsAt_ampersand : Symbol.EndsAt .assignment Token.ampersand.kind :=
  ⟨⟨nofun, nofun⟩, nofun, rfl⟩

theorem endsAt_rightParen : Symbol.EndsAt .assignment Token.rightParen.kind :=
  ⟨⟨nofun, nofun⟩, nofun, rfl⟩

/-- The tokens that may stand behind an item of a list end an expression. -/
theorem endsAt_listed {separator token : Token} {P P' : Prop}
    (hs : Symbol.EndsAt .assignment separator.kind)
    (h : P ∧ token = .lineBreak ∨ P' ∧ token = separator) :
    Symbol.EndsAt .assignment token.kind := by
  rcases h with ⟨_, rfl⟩ | ⟨_, rfl⟩
  · exact endsAt_lineBreak
  · exact hs

theorem gets_freshName {name : String} (fresh : before.find? name = none) :
    Gets freshName ⟨.ofName name :: tokens, stop, before⟩ (· = name) ⟨tokens, stop, before⟩ := by
  have unknown : before.contains name = false := Table.contains_eq_false_iff.mpr fresh
  refine gets_bind_of_ok (p := identifier) rfl (gets_bind_of_ok (p := names) rfl ?_)
  change Gets (if before.contains name = true then _ else _) _ _ _
  rw [unknown]
  exact gets_pure rfl

theorem gets_declareName {name : String} (fresh : before.find? name = none) {ty : Ty}
    {f : Unit → Parse β} {Q : β → Prop} {d : Cursor}
    (h : Gets (f ()) ⟨tokens, stop, before.insert name ty⟩ Q d) :
    Gets (declareName name ty >>= f) ⟨tokens, stop, before⟩ Q d := by
  apply gets_bind_of_ok (a := ()) _ h
  have unknown : before.contains name = false := Table.contains_eq_false_iff.mpr fresh
  have made := declare_of_fresh (c := ⟨tokens, stop, before⟩) unknown ty
  exact congrArg (fun c => Except.ok ((), c)) made

theorem gets_start_none {token : Token} {ty : Ty} {fuel : Nat} (ht : token.kind ≠ .equal) :
    Gets (start ty fuel) ⟨token :: tokens, stop, before⟩ (· = none)
      ⟨token :: tokens, stop, before⟩ :=
  gets_accept_other ht (gets_pure rfl)

theorem gets_start_some {token : Token} {ty : Ty} {fuel : Nat} {e : Expr} (typed : e.Typed before)
    (fits : ty.compatible e.ty = true) (enough : (e.write 0).length ≤ fuel)
    (ends : Symbol.EndsAt .assignment token.kind) :
    Gets (start ty fuel) ⟨.equal :: (e.write 0 ++ token :: tokens), stop, before⟩
      (fun value => ∃ e', value = some e' ∧ e.Alike e') ⟨token :: tokens, stop, before⟩ := by
  refine gets_accept rfl ((gets_expression typed enough ends).bind ?_)
  intro e' alike
  apply gets_demand
  · rw [alike.ty]
    exact fits
  · exact gets_pure ⟨e', rfl, alike⟩

theorem gets_bindings {ty : Ty} {names : List (String × Option Expr)} (nonempty : names ≠ [])
    (typed : Phrase.Typed before (.bindings ty names) after) {k n : Nat}
    (enough : (Stmt.listed .comma (names.map Stmt.writeBinding)).length ≤ k)
    (bound : (Stmt.listed .comma (names.map Stmt.writeBinding)).length < n) :
    Gets (separated .comma (binding ty k) n)
      ⟨Stmt.listed .comma (names.map Stmt.writeBinding) ++ .lineBreak :: tokens, stop, before⟩
      (fun names' => Phrase.Alike (.bindings ty names) (.bindings ty names'))
      ⟨.lineBreak :: tokens, stop, after⟩ := by
  apply gets_separated .comma
    (L := fun before names after => Phrase.Typed before (.bindings ty names) after)
    (A := fun names names' => Phrase.Alike (.bindings ty names) (.bindings ty names'))
    nofun ?_ ?_ nonempty typed enough bound
  · rintro before after ⟨⟩
    exact ⟨rfl, .bindingsNil⟩
  · rintro before ⟨name, value⟩ rest after h long
    cases h with
    | bindingsPlain declarable fresh others =>
        refine ⟨_, others, fun token tokens stop next => ?_⟩
        have ends := endsAt_listed endsAt_comma next
        apply (gets_freshName fresh).bind
        rintro _ rfl
        apply (gets_start_none ends.2.1).bind
        rintro _ rfl
        exact gets_declareName fresh (gets_pure fun l hl => .bindingsPlain hl)
    | bindingsStart declarable fresh typed fits others =>
        refine ⟨_, others, fun token tokens stop next => ?_⟩
        simp only [Stmt.writeBinding, List.length_cons] at long
        have ends := endsAt_listed endsAt_comma next
        apply (gets_freshName fresh).bind
        rintro _ rfl
        apply (gets_start_some typed fits (by omega) ends).bind
        rintro _ ⟨e', rfl, alike⟩
        exact gets_declareName fresh (gets_pure fun l hl => .bindingsStart alike hl)

theorem gets_targets {targets : List String} (nonempty : targets ≠ [])
    (declared : ∀ name ∈ targets, before.contains name = true) {n : Nat}
    (bound : (Stmt.listed .comma (targets.map fun name => [.ofName name])).length < n) :
    Gets (separated .comma target n)
      ⟨Stmt.listed .comma (targets.map fun name => [.ofName name]) ++ .lineBreak :: tokens, stop,
        before⟩
      (· = targets) ⟨.lineBreak :: tokens, stop, before⟩ := by
  apply gets_separated .comma
    (L := fun before targets after =>
      after = before ∧ ∀ name ∈ targets, before.contains name = true)
    (A := fun targets targets' => targets' = targets)
    nofun ?_ ?_ nonempty ⟨rfl, declared⟩ (Nat.le_refl _) bound
  · rintro before after ⟨same, _⟩
    exact ⟨same, rfl⟩
  · rintro before name rest after ⟨rfl, declared⟩ _
    obtain ⟨known, others⟩ := List.forall_mem_cons.mp declared
    refine ⟨after, ⟨rfl, others⟩, fun token tokens stop next => ?_⟩
    refine gets_bind_of_ok (p := identifier) rfl (gets_bind_of_ok (p := names) rfl ?_)
    change Gets (if after.contains name = true then _ else _) _ _ _
    rw [known]
    exact gets_pure fun l hl => by rw [hl]

theorem gets_items {items : List Expr} (nonempty : items ≠ [])
    (typed : Phrase.Typed before (.items items) after) {k n : Nat} (positive : 0 < k)
    (enough : (Stmt.listed .ampersand (items.map (Expr.write 0))).length ≤ k)
    (bound : (Stmt.listed .ampersand (items.map (Expr.write 0))).length < n) :
    Gets (separated .ampersand (expression k) n)
      ⟨Stmt.listed .ampersand (items.map (Expr.write 0)) ++ .lineBreak :: tokens, stop, before⟩
      (fun items' => Phrase.Alike (.items items) (.items items'))
      ⟨.lineBreak :: tokens, stop, after⟩ := by
  apply gets_separated .ampersand
    (L := fun before items after => Phrase.Typed before (.items items) after)
    (A := fun items items' => Phrase.Alike (.items items) (.items items'))
    nofun ?_ ?_ nonempty typed enough bound
  · rintro before after ⟨⟩
    exact ⟨rfl, .itemsNil⟩
  · intro before item rest after h long
    cases h with
    | itemsBlank =>
        refine ⟨before, .itemsNil, fun token tokens stop next => ?_⟩
        obtain ⟨_, rfl⟩ := next.resolve_right fun h => h.1 rfl
        -- Nothing is written, so the line break is what the reader finds.
        obtain ⟨k, rfl⟩ : ∃ j, k = j + 1 := ⟨k - 1, by omega⟩
        exact ⟨.blank ⟨.empty, .nowhere⟩, rfl, fun l hl => .itemsCons (.blank ⟨rfl, trivial⟩) hl⟩
    | itemsCons typed others =>
        refine ⟨before, others, fun token tokens stop next => ?_⟩
        have ends := endsAt_listed endsAt_ampersand next
        obtain ⟨e, read, alike⟩ := gets_expression typed long ends
        exact ⟨e, read, fun l hl => .itemsCons alike hl⟩

end

end Sulti.Grammar
