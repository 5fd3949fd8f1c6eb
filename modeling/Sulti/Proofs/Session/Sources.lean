import Sulti.Proofs.Exec.Coupling
import Sulti.Proofs.Session.History
import Sulti.Proofs.Text.Endings

/-!
Where input comes from. A program that reads a text from a file and one that
reads the bytes of the same text from standard input do the same. The lines are
not the same, but their fields are, and a program sees nothing else of them;
only the words in which a read past the end fails tell the two apart.
-/

namespace Sulti

open Exec

namespace Lines

/-- Why a read past the end of a file fails. -/
def fileEnd : String := "No more input lines"

/-- Why a read past the end of standard input fails. -/
def streamEnd : String := "Standard input is closed"

end Lines

/-- The same cells and output, and lines with the same fields to be read, from a file and
from standard input. -/
structure Machine.Alongside (m m' : Machine) : Prop where
  store : m'.store = m.store
  output : m'.output = m.output
  pending : List.Forall₂ Lines.SameFields m.lines.pending m'.lines.pending
  file : m.lines.exhausted = Lines.fileEnd
  stream : m'.lines.exhausted = Lines.streamEnd

namespace Coupling

/-- One run reads from a file and the other from standard input. They stop for the same
cause, but for the words of a failed read when there is nothing left. -/
def sources : Coupling where
  machines := Machine.Alongside
  stops s n s' n' := n.Alongside n' ∧
    (s' = s ∨ s = .fault (.unreadable Lines.fileEnd) ∧ s' = .fault (.unreadable Lines.streamEnd) ∧
      n.lines.pending = [])
  waived _ := False

theorem keeps_sources_readFields : sources.Keeps readFields := by
  intro m m' h
  obtain ⟨store, ⟨pending, exhausted⟩, output⟩ := m
  obtain ⟨store', ⟨pending', exhausted'⟩, output'⟩ := m'
  obtain ⟨stores, outputs, reads, file, stream⟩ := h
  cases reads with
  | nil =>
      have read : readFields ⟨store, ⟨[], exhausted⟩, output⟩ =
          .error (.fault (.unreadable exhausted)) ⟨store, ⟨[], exhausted⟩, output⟩ :=
        readFields_of_error rfl
      have read' : readFields ⟨store', ⟨[], exhausted'⟩, output'⟩ =
          .error (.fault (.unreadable exhausted')) ⟨store', ⟨[], exhausted'⟩, output'⟩ :=
        readFields_of_error rfl
      rw [read, read']
      apply Meet.stopped
      refine ⟨⟨stores, outputs, .nil, file, stream⟩, Or.inr ⟨?_, ?_, rfl⟩⟩
      · exact congrArg (fun reason => Stop.fault (.unreadable reason)) file
      · exact congrArg (fun reason => Stop.fault (.unreadable reason)) stream
  | @cons _ _ rest rest' first others =>
      cases first with
      | @lines line line' same =>
          have read : readFields ⟨store, ⟨.ok line :: rest, exhausted⟩, output⟩ =
              .ok (Text.fields line) ⟨store, ⟨rest, exhausted⟩, output⟩ := readFields_of_ok rfl
          have read' : readFields ⟨store', ⟨.ok line' :: rest', exhausted'⟩, output'⟩ =
              .ok (Text.fields line') ⟨store', ⟨rest', exhausted'⟩, output'⟩ := readFields_of_ok rfl
          rw [read, read', same]
          exact .ended ⟨stores, outputs, others, file, stream⟩

theorem stable_sources : sources.Stable fun _ => True where
  same h s := ⟨h, Or.inl rfl⟩
  find? h _ _ := by rw [h.store]
  write h _ c := ⟨by rw [h.store], h.output, h.pending, h.file, h.stream⟩
  print h text := ⟨h.store, by rw [h.output], h.pending, h.file, h.stream⟩
  readFields := keeps_sources_readFields

end Coupling

namespace Session

/-- What there is to read makes no difference to whether a text is a program. -/
theorem check_new (mode : Mode) (source : String) :
    (∃ failure, ∀ lines, (new mode lines).check source = (.error failure, new mode lines)) ∨
      ∃ program table, ∀ lines,
        (new mode lines).check source = (.ok program, { new mode lines with table }) := by
  unfold check
  cases Token.scan source with
  | error flaws => exact Or.inl ⟨.malformed flaws, fun _ => rfl⟩
  | ok tokens =>
      cases h : Program.ofTokens mode .empty tokens with
      | error r => exact Or.inl ⟨.rejected r, fun _ => by simp [new, h]⟩
      | ok result =>
          obtain ⟨program, table⟩ := result
          exact Or.inr ⟨program, table, fun _ => by simp [new, h]⟩

theorem alongside_new (text : String) :
    (Machine.new (.ofText text)).Alongside (.new (.ofBytes text.toUTF8.data.toList)) where
  store := rfl
  output := rfl
  pending := Lines.sameFields_encoded text
  file := rfl
  stream := rfl

/-- A program does the same with a text whether it reads it from a file or reads the bytes of
the text from standard input. Both runs leave the same names, the same cells and as many
lines, and they print the same or fail for the same cause; if they fail for want of a
line, each says so in its own words, and there are no lines left. -/
theorem run_sources (limit : Nat) (mode : Mode) (source text : String) :
    let file := (new mode (.ofText text)).run limit source
    let stream := (new mode (.ofBytes text.toUTF8.data.toList)).run limit source
    stream.2.table = file.2.table ∧ stream.2.machine.store = file.2.machine.store ∧
      stream.2.machine.lines.remaining = file.2.machine.lines.remaining ∧
      (stream.1 = file.1 ∨
        file.1 = .error (.stopped (.fault (.unreadable Lines.fileEnd))) ∧
        stream.1 = .error (.stopped (.fault (.unreadable Lines.streamEnd))) ∧
        file.2.machine.lines.remaining = 0) := by
  intro file stream
  rcases check_new mode source with ⟨failure, refused⟩ | ⟨program, table, accepted⟩
  · have hf : file = (.error failure, _) := run_of_refused (refused _) limit
    have hs : stream = (.error failure, _) := run_of_refused (refused _) limit
    have start := alongside_new text
    rw [hf, hs]
    exact ⟨rfl, start.store, start.pending.length_eq.symm, Or.inl rfl⟩
  · have seen : ∀ name ∈ program.names, True := fun _ _ => trivial
    have start : Coupling.sources.machines { Machine.new (.ofText text) with output := "" }
        { Machine.new (.ofBytes text.toUTF8.data.toList) with output := "" } := alongside_new text
    rcases Coupling.stable_sources.run seen start limit with
      ⟨n, n', alongside, run, run'⟩ | ⟨s, n, s', n', ⟨alongside, cause⟩, run, run'⟩ | ⟨_, _, ⟨⟩, _⟩
    · have hf : file = _ := run_of_ended (accepted _) run
      have hs : stream = _ := run_of_ended (accepted _) run'
      rw [hf, hs]
      exact ⟨rfl, alongside.store, alongside.pending.length_eq.symm,
        Or.inl (congrArg Except.ok alongside.output)⟩
    · have hf : file = _ := run_of_stopped (accepted _) run
      have hs : stream = _ := run_of_stopped (accepted _) run'
      rw [hf, hs]
      refine ⟨?_, alongside.store, alongside.pending.length_eq.symm, ?_⟩
      · simp only [alongside.store]
        rfl
      · rcases cause with same | ⟨rfl, rfl, none⟩
        · exact Or.inl (congrArg (fun stop => Except.error (Failure.stopped stop)) same)
        · exact Or.inr ⟨rfl, rfl, congrArg List.length none⟩

end Session

end Sulti
