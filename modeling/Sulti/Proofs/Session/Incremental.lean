import Sulti.Proofs.Exec.Echo
import Sulti.Proofs.Grammar.Lines
import Sulti.Proofs.Session.History
import Sulti.Proofs.Token.Lines

/-!
At the prompt it makes no difference whether lines are run one after another
or all at once. No token goes over a line break, no statement that was read to
its end is changed by what comes behind it, and the second run starts from the
names, the cells and the input that the first one left.
-/

namespace Sulti

namespace Session

/-- No word of the text opens or closes a program. -/
def Unframed (source : String) : Prop :=
  ∀ tokens, Token.scan source = .ok tokens →
    ∀ token ∈ tokens, token.kind ≠ .sugod ∧ token.kind ≠ .katapusan

theorem unframed_of_scan {source : String}
    (plain : (Token.scan source).toOption.all (fun tokens => tokens.all fun token =>
      token.kind != .sugod && token.kind != .katapusan) = true) : Unframed source := by
  intro tokens scan
  rw [scan] at plain
  simpa [Except.toOption] using plain

theorem run_eq_ok {s after : Session} {limit : Nat} {source output : String}
    (h : s.run limit source = (.ok output, after)) :
    ∃ tokens program table n, Token.scan source = .ok tokens ∧
      Program.ofTokens s.mode s.table tokens = .ok (program, table) ∧
      Stmt.runAll limit program { s.machine with output := "" } = .ok () n ∧
      output = n.output ∧ after = { s with table, machine := { n with output := "" } } := by
  unfold run at h
  split at h
  · cases h
  · rename_i program checked accepted
    obtain ⟨tokens, table, scan, ofTokens, rfl⟩ := check_eq_ok accepted
    simp only [Machine.run] at h
    cases ran : (Stmt.runAll limit program).run { s.machine with output := "" } with
    | ok _ n =>
        rw [ran] at h
        cases h
        exact ⟨tokens, program, table, n, scan, ofTokens, ran, rfl, rfl⟩
    | error stop n =>
        rw [ran] at h
        cases h

theorem run_of_ok {s : Session} {limit : Nat} {source : String} {tokens : List Token}
    {program : Program} {table : Table Ty} {n : Machine} (scan : Token.scan source = .ok tokens)
    (ofTokens : Program.ofTokens s.mode s.table tokens = .ok (program, table))
    (ran : Stmt.runAll limit program { s.machine with output := "" } = .ok () n) :
    s.run limit source =
      (.ok n.output, { s with table, machine := { n with output := "" } }) := by
  have ran : (Stmt.runAll limit program).run { s.machine with output := "" } = .ok () n := ran
  simp only [run, check, scan, ofTokens, Machine.run, ran]

theorem plain_of_unframed {source : String} {body : List Token} {stop : Position}
    (unframed : Unframed source) (scan : Token.scan source = .ok (body ++ [.endMark stop]))
    (inside : ∀ token ∈ body, token.kind ≠ .eof) : Grammar.Plain body := by
  intro token member
  obtain ⟨sugod, katapusan⟩ := unframed _ scan token (List.mem_append_left _ member)
  exact ⟨sugod, katapusan, inside token member⟩

theorem alike_down (body : List Token) (lines : Nat) :
    Grammar.TokensAlike body (body.map (Token.down · lines)) :=
  List.forall₂_map_right_iff.mpr (List.forall₂_same.mpr fun _ _ => ⟨rfl, rfl⟩)

/-- At the prompt, two texts that run one after the other run as one text, if the first
is empty or ends a line and no word of either opens or closes a program. The one
run prints what both print and leaves the same session. -/
theorem run_append {s s₁ s₂ : Session} (repl : s.mode = .repl) {first second : String}
    (line : Token.EndsLine first) (unframed₁ : Unframed first) (unframed₂ : Unframed second)
    {limit limit₁ limit₂ : Nat} (h₁ : limit₁ ≤ limit) (h₂ : limit₂ ≤ limit)
    {output₁ output₂ : String} (run₁ : s.run limit₁ first = (.ok output₁, s₁))
    (run₂ : s₁.run limit₂ second = (.ok output₂, s₂)) :
    s.run limit (first ++ second) = (.ok (output₁ ++ output₂), s₂) := by
  obtain ⟨_, program₁, table₁, n, scan₁, ofTokens₁, ran₁, rfl, rfl⟩ := run_eq_ok run₁
  obtain ⟨_, program₂, table₂, k, scan₂, ofTokens₂, ran₂, rfl, rfl⟩ := run_eq_ok run₂
  obtain ⟨body₁, stop₁, rfl, inside₁, last⟩ := Token.scan_ends scan₁
  obtain ⟨body₂, stop₂, rfl, inside₂, _⟩ := Token.scan_ends scan₂
  obtain ⟨lines, scan⟩ := Token.scan_append line scan₁ scan₂
  rw [repl] at ofTokens₁ ofTokens₂
  obtain ⟨program₁', program₂', ofTokens, alike₁, alike₂⟩ := Program.ofTokens_append
    (plain_of_unframed unframed₁ scan₁ inside₁) (plain_of_unframed unframed₂ scan₂ inside₂)
    (last line) (alike_down body₂ lines) ofTokens₁ ofTokens₂ (stop₂.down lines)
  have ran := alike₁.runAll_both alike₂ h₁ h₂ ran₁ ran₂
  rw [List.map_append, ← List.append_assoc] at scan
  exact run_of_ok scan (by rw [repl]; exact ofTokens) ran

/-- A line that changes a variable, and another one that prints it. -/
theorem run_append_increment :
    ∃ s s₁ s₂ : Session, s.mode = .repl ∧ s.run 0 "x++\n" = (.ok "", s₁) ∧
      s₁.run 0 "IPAKITA:x" = (.ok "2", s₂) ∧
      s.run 0 ("x++\n" ++ "IPAKITA:x") = (.ok ("" ++ "2"), s₂) := by
  let s : Session := ⟨.repl, Table.empty.insert "x" .numero,
    ⟨Table.empty.insert "x" ⟨.numero, .numero .one⟩, .ofList [], ""⟩⟩
  let s₁ : Session := (s.run 0 "x++\n").2
  let s₂ : Session := (s₁.run 0 "IPAKITA:x").2
  have run₁ : s.run 0 "x++\n" = (.ok "", s₁) := Prod.ext (by decide +kernel) rfl
  have run₂ : s₁.run 0 "IPAKITA:x" = (.ok "2", s₂) := Prod.ext (by decide +kernel) rfl
  exact ⟨s, s₁, s₂, rfl, run₁, run₂,
    run_append rfl (Or.inr ⟨"x++", rfl⟩) (unframed_of_scan (by decide +kernel))
      (unframed_of_scan (by decide +kernel)) (Nat.le_refl 0) (Nat.le_refl 0) run₁ run₂⟩

end Session

end Sulti
