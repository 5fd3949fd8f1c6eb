import Sulti.Proofs.Token.Lines

/-!
Scanning two texts, the first of which ends a line. The whole is scanned as the
two are scanned alone, with the second further down by the lines of the first.
This holds of the flaws as well as of the tokens: a malformed piece is over
where its line is, and nothing behind it is read or reported differently.
-/

namespace Sulti.Token

/-- The flaws that a scan reports; there are none if it succeeds. -/
def reported : Except (List Flaw) (List Token) → List Flaw
  | .ok _ => []
  | .error flaws => flaws

theorem scan_eq_error_iff {text : String} {flaws : List Flaw} :
    scan text = .error flaws ↔ (scanAll text).2 = flaws ∧ flaws ≠ [] := by
  unfold scan
  generalize scanAll text = found
  obtain ⟨tokens, found⟩ := found
  cases found with
  | nil =>
      constructor
      · intro h
        cases h
      · rintro ⟨rfl, none⟩
        exact absurd rfl none
  | cons flaw others =>
      constructor
      · intro h
        cases h
        exact ⟨rfl, List.cons_ne_nil _ _⟩
      · rintro ⟨rfl, _⟩
        rfl

theorem reported_scan (text : String) :
    reported (scan text) = (scanAll text).2 := by
  cases h : scan text with
  | ok tokens =>
      rw [scanAll_eq, scan_iff.mp h]
      rfl
  | error flaws => exact (scan_eq_error_iff.mp h).1.symm

/-- Two texts of which the first ends a line. If both scan, the tokens of the whole
are those of the first without its end mark and then those of the second, further
down. If one does not, exactly the flaws of both are reported. Also among flaws,
the tokens that are met are those of the two texts. -/
theorem scan_concatenation (first second : String) (line : ∃ front, first = front ++ "\n") :
    let lines := first.toList.count '\n'
    (∀ tokens others, scan first = .ok tokens → scan second = .ok others →
      ∃ body stop, tokens = body ++ [endMark stop] ∧
        scan (first ++ second) = .ok (body ++ others.map (·.down lines))) ∧
    ((∃ flaws, scan first = .error flaws ∨ scan second = .error flaws) →
      scan (first ++ second) =
        .error (reported (scan first) ++ (reported (scan second)).map (·.down lines))) ∧
    (scanAll (first ++ second)).1 =
      (scanAll first).1.dropLast ++ (scanAll second).1.map (·.down lines) := by
  intro lines
  have whole : scanAll (first ++ second) =
      joined (scanAll first) (shifted lines (scanAll second)) := by
    rw [scanAll_eq, scanAll_eq, scanAll_eq, String.toList_append]
    exact scanCounted_lines (EndsLine.toList (Or.inr line)) second.toList
  refine ⟨?_, ?_, ?_⟩
  · intro tokens others hfirst hsecond
    obtain ⟨body, stop, rfl, _⟩ := scan_ends hfirst
    refine ⟨body, stop, rfl, scan_iff.mpr ?_⟩
    rw [← scanAll_eq, whole, scanAll_eq, scanAll_eq, scan_iff.mp hfirst, scan_iff.mp hsecond]
    simp [joined, shifted]
  · rintro ⟨flaws, failed⟩
    rw [reported_scan, reported_scan, scan_eq_error_iff]
    refine ⟨by rw [whole]; rfl, ?_⟩
    rcases failed with failed | failed
    · obtain ⟨found, some⟩ := scan_eq_error_iff.mp failed
      simp [found, some]
    · obtain ⟨found, some⟩ := scan_eq_error_iff.mp failed
      simp [found, some]
  · rw [whole]
    rfl

/-- An open character on one line and an open bracket on the next: both are reported,
and the second where it stands below the first. -/
theorem scan_concatenation_malformed :
    scan "'\n" = .error [⟨⟨1, 1⟩, .unterminatedChar⟩] ∧
      scan "x [" = .error [⟨⟨1, 3⟩, .invalidEscape⟩] ∧
      scan ("'\n" ++ "x [") =
        .error [⟨⟨1, 1⟩, .unterminatedChar⟩, ⟨⟨2, 3⟩, .invalidEscape⟩] := by
  have hfirst : scan "'\n" = .error [⟨⟨1, 1⟩, .unterminatedChar⟩] :=
    scan_eq_error_iff.mpr (by decide +kernel)
  have hsecond : scan "x [" = .error [⟨⟨1, 3⟩, .invalidEscape⟩] :=
    scan_eq_error_iff.mpr (by decide +kernel)
  have whole := (scan_concatenation "'\n" "x [" ⟨"'", by decide⟩).2.1 ⟨_, Or.inl hfirst⟩
  rw [hfirst, hsecond] at whole
  exact ⟨hfirst, hsecond, whole⟩

end Sulti.Token
