import Sulti.Proofs.Exec.Reading
import Sulti.Proofs.Text.Endings

/-!
What `IPAKITA` prints, `DAWAT` reads back. The texts of integers, letters and truth
values, with commas between them and blanks around them, are the fields of a line
from which the same values are stored. A letter has to show in its field for that:
the one of code zero prints nothing, a blank comes off with the blanks around it,
and a comma divides the field.
-/

namespace Sulti

namespace Text

theorem splitOn_eq (separator : Char) (text : List Char) :
    splitOn separator text = text.splitOn separator := by
  induction text with
  | nil => rfl
  | cons c rest ih =>
      rw [splitOn, List.splitOn_cons_eq_if_modifyHead, ih]
      by_cases same : c = separator
      · simp [same]
      · have nonempty := List.splitOn_ne_nil (a := separator) rest
        cases parts : rest.splitOn separator with
        | nil => exact absurd parts nonempty
        | cons part others => simp [same]

/-- The fields of texts that are joined with commas are these texts. -/
theorem fields_intercalate {parts : List String} (nonempty : parts ≠ [])
    (undivided : ∀ part ∈ parts, ',' ∉ part.toList) :
    fields (",".intercalate parts) = parts.map fun part => trim part.toList := by
  have divided : splitOn ',' (",".intercalate parts).toList = parts.map String.toList := by
    rw [splitOn_eq, String.toList_intercalate]
    apply List.splitOn_intercalate
    · simpa using undivided
    · simpa using nonempty
  rw [fields, divided, List.map_map]
  rfl

/-- Nothing comes off a text in which nothing is blank. -/
theorem trim_of_unblank {text : List Char} (h : ∀ c ∈ text, isBlank c = false) :
    trim text = text := by
  have front : text.dropWhile isBlank = text := by
    cases text with
    | nil => rfl
    | cons c rest => simp [h c (by simp)]
  have back : text.reverse.dropWhile isBlank = text.reverse := by
    cases reversed : text.reverse with
    | nil => rfl
    | cons c rest =>
        have last : c ∈ text := by
          rw [← List.mem_reverse, reversed]
          simp
        simp [h c last]
  rw [trim, front, dropTrailing, back, List.reverse_reverse]

/-- Blanks around a text come off. -/
theorem trim_of_blanks {left text right : List Char} (hl : AllBlank left) (hr : AllBlank right)
    (ht : ∀ c ∈ text, isBlank c = false) : trim (left ++ text ++ right) = text := by
  rw [trim_append _ hr]
  calc trim (left ++ text)
      = trim text := by rw [trim, trim, List.dropWhile_append_of_pos hl]
    _ = text := trim_of_unblank ht

end Text

open Text

namespace Value

/-- The values that show in a field: an integer, a truth value, or a letter that prints
something other than a blank or a comma. -/
def Legible : Value → Prop
  | .numero _ | .tinuod _ => True
  | .letra c => c ≠ '\x00' ∧ c ≠ ',' ∧ isBlank c = false
  | .tipik _ | .text _ | .empty => False

/-- The field is the text of the value with blanks around it. -/
def ShownIn (value : Value) (field : String) : Prop :=
  ∃ left right : List Char, AllBlank left ∧ AllBlank right ∧
    field.toList = left ++ value.render.toList ++ right

/-- A character that is neither taken off a field nor divides it. -/
def Solid (c : Char) : Prop := c ≠ ',' ∧ isBlank c = false

theorem solid_of_isDigit {c : Char} (h : c.isDigit) : Solid c := by
  simp only [Char.isDigit, Bool.and_eq_true, decide_eq_true_eq, UInt32.le_iff_toNat_le] at h
  obtain ⟨zero, nine⟩ := h
  change 48 ≤ c.toNat at zero
  change c.toNat ≤ 57 at nine
  constructor
  · rintro rfl
    exact absurd zero (by decide)
  · simp only [isBlank, blankRanges, List.any_cons, List.any_nil, Bool.or_false,
      Bool.or_eq_false_iff, Bool.and_eq_false_imp, decide_eq_true_eq, decide_eq_false_iff_not]
    omega

theorem solid_writeInt (n : Int) : ∀ c ∈ Decimal.writeInt n, Solid c := by
  have digits : ∀ c ∈ Nat.toDigits 10 n.natAbs, Solid c := fun c hc =>
    solid_of_isDigit (Nat.isDigit_of_mem_toDigits (by decide) (by decide) hc)
  unfold Decimal.writeInt
  split
  · exact List.forall_mem_cons.mpr ⟨⟨by decide, by decide⟩, digits⟩
  · exact digits

theorem Legible.solid {value : Value} (h : value.Legible) :
    ∀ c ∈ value.render.toList, Solid c := by
  cases value with
  | numero n => simpa [render] using solid_writeInt n.val
  | letra c =>
      obtain ⟨prints, undivided, unblank⟩ := h
      simpa [render, prints, Solid] using And.intro undivided unblank
  | tinuod b =>
      cases b with
      | true => simp [render, Solid, isBlank, blankRanges]
      | false => simp [render, Solid, isBlank, blankRanges]
  | tipik _ | text _ | empty => exact h.elim

theorem ShownIn.trim {value : Value} {field : String} (h : value.ShownIn field)
    (legible : value.Legible) : trim field.toList = value.render.toList := by
  obtain ⟨left, right, hl, hr, shown⟩ := h
  rw [shown]
  exact trim_of_blanks hl hr fun c hc => (legible.solid c hc).2

theorem ShownIn.undivided {value : Value} {field : String} (h : value.ShownIn field)
    (legible : value.Legible) : ',' ∉ field.toList := by
  obtain ⟨left, right, hl, hr, shown⟩ := h
  have comma : isBlank ',' = false := by decide
  rw [shown]
  simp only [List.mem_append, not_or]
  refine ⟨⟨fun member => ?_, fun member => (legible.solid _ member).1 rfl⟩, fun member => ?_⟩
  · cases comma.symm.trans (hl _ member)
  · cases comma.symm.trans (hr _ member)

/-- The fields of a line that shows values are their texts. -/
theorem fields_shown {values : List Value} {fields : List String} (nonempty : values ≠ [])
    (legible : ∀ value ∈ values, value.Legible) (shown : List.Forall₂ ShownIn values fields) :
    Text.fields (",".intercalate fields) = values.map (·.render.toList) := by
  have each := (List.forall₂_and_left values fields).mpr ⟨legible, shown⟩
  have undivided : ∀ field ∈ fields, ',' ∉ field.toList := by
    clear nonempty legible shown
    induction each with
    | nil => simp
    | cons h _ ih => exact List.forall_mem_cons.mpr ⟨h.2.undivided h.1, ih⟩
  have texts : (fields.map fun field => Text.trim field.toList) =
      values.map (·.render.toList) := by
    clear nonempty legible shown undivided
    induction each with
    | nil => rfl
    | cons h _ ih => rw [List.map_cons, List.map_cons, h.2.trim h.1, ih]
  have present : fields ≠ [] := by
    rintro rfl
    exact nonempty (List.forall₂_nil_right_iff.mp shown)
  rw [fields_intercalate present undivided, texts]

end Value

/-- The text of a legible value converts to that value. -/
theorem Input.convert_render {value : Value} (legible : value.Legible) (position : Position)
    (name : String) : convert position name value.ty value.render.toList = .ok value := by
  cases value with
  | numero n =>
      have read : readNumero? (Decimal.writeInt n.val) = some n := by
        simp only [readNumero?, Decimal.readInt?_writeInt, Option.bind_some, Numero.ofInt?_val]
      simp [convert, Value.ty, Value.render, read]
  | letra c => simp [convert, Value.ty, Value.render, legible.1]
  | tinuod b => cases b <;> rfl
  | tipik _ | text _ | empty => exact legible.elim

namespace Store

theorem receive_render {s : Store} {name : String} {value : Value}
    (cell : s.typeOf? name = some value.ty) (legible : value.Legible) (position : Position) :
    s.receive position (name, value.render.toList) = .ok value := by
  simp only [receive, cell]
  exact Input.convert_render legible position name

theorem find?_hold_self {s : Store} {name : String} {ty : Ty} (cell : s.typeOf? name = some ty)
    (value : Value) : (s.hold name value).find? name = some ⟨ty, value⟩ := by
  obtain ⟨old, found, rfl⟩ := Option.map_eq_some_iff.mp cell
  simp [hold, found, Table.find?_insert]

/-- Of distinct variables each one holds its own value in the end. -/
theorem find?_holdAll_zip {s : Store} {names : List String} {values : List Value}
    (distinct : names.Nodup)
    (cells : List.Forall₂ (fun name value => s.typeOf? name = some value.ty) names values) :
    List.Forall₂
      (fun name value => (s.holdAll (names.zip values)).find? name = some ⟨value.ty, value⟩)
      names values := by
  induction names generalizing s values with
  | nil =>
      cases cells
      exact .nil
  | cons name names ih =>
      obtain ⟨fresh, distinct⟩ := List.nodup_cons.mp distinct
      cases cells with
      | @cons _ value _ values cell cells =>
        rw [List.zip_cons_cons, holdAll_cons]
        constructor
        · have other : name ∉ (names.zip values).map Prod.fst := by
            rwa [List.map_fst_zip cells.length_eq.le]
          rw [find?_holdAll_of_notMem other, find?_hold_self cell]
        · apply ih distinct
          simpa only [typeOf?_hold] using cells

end Store

/-- Fields that are all values of their variables are all stored. -/
theorem Exec.storeFields_of_all {position : Position} {text : Value → List Char}
    {names : List String} {values : List Value} {m : Machine}
    (all : List.Forall₂
      (fun name value => m.store.receive position (name, text value) = .ok value) names values) :
    storeFields position names (values.map text) m =
      .ok () { m with store := m.store.holdAll (names.zip values) } := by
  induction names generalizing values m with
  | nil =>
      cases all
      rfl
  | cons name names ih =>
      cases all with
      | cons received all =>
        rw [List.map_cons, storeFields_of_receive received, ih]
        · rfl
        · simpa only [Store.receive_hold] using all

namespace Stmt

open Exec

/-- `DAWAT` stores what `IPAKITA` printed. Distinct variables get the values whose texts
stand, in their order, between the commas of the line, with any blanks around them; all
other cells stay as they were, and the line is used up. -/
theorem run_read_printed (limit : Nat) (position : Position) (m : Machine) (rest : Lines)
    (targets : List String) (values : List Value) (fields : List String)
    (nonempty : targets ≠ []) (distinct : targets.Nodup)
    (cells : List.Forall₂ (fun name value => m.store.typeOf? name = some value.ty)
      targets values)
    (legible : ∀ value ∈ values, value.Legible)
    (shown : List.Forall₂ Value.ShownIn values fields)
    (next : m.lines.next = (.ok (",".intercalate fields), rest)) :
    ∃ store, (Stmt.read position targets).run limit m = .ok () { m with store, lines := rest } ∧
      List.Forall₂ (fun name value => store.find? name = some ⟨value.ty, value⟩)
        targets values ∧
      ∀ name, name ∉ targets → store.find? name = m.store.find? name := by
  have present : values ≠ [] := by
    rintro rfl
    exact nonempty (List.forall₂_nil_right_iff.mp cells)
  have texts : Text.fields (",".intercalate fields) = values.map (·.render.toList) :=
    Value.fields_shown present legible shown
  have received : List.Forall₂
      (fun name value => m.store.receive position (name, value.render.toList) = .ok value)
      targets values := by
    obtain ⟨same, cell⟩ := List.forall₂_iff_zip.mp cells
    apply List.forall₂_iff_zip.mpr ⟨same, ?_⟩
    intro name value member
    exact Store.receive_render (cell member) (legible value (List.of_mem_zip member).2) position
  refine ⟨m.store.holdAll (targets.zip values), ?_, Store.find?_holdAll_zip distinct cells, ?_⟩
  · have enough : targets.length ≤ (Text.fields (",".intercalate fields)).length := by
      rw [texts, List.length_map, cells.length_eq]
    change Exec.read position targets m = _
    rw [read_of_enough next position enough, texts]
    exact storeFields_of_all received
  · intro name other
    apply Store.find?_holdAll_of_notMem
    rwa [List.map_fst_zip cells.length_eq.le]

/-- The least integer, a letter that is a quote and a truth value, with a tab, a no-break space
and a plain one around them, and a variable that is not read into. -/
theorem run_read_printed_least :
    let least : Numero := ⟨-9223372036854775808, by decide, by decide⟩
    let before : Store := (((Table.empty.insert "n" ⟨.numero, .numero .zero⟩).insert "c"
      ⟨.letra, .letra 'z'⟩).insert "b" ⟨.tinuod, .tinuod false⟩).insert "x" ⟨.numero, .numero .one⟩
    let m : Machine := ⟨before, .ofList ["\t-9223372036854775808,\u00a0' ,OO"], ""⟩
    ∃ store, (Stmt.read .start ["n", "c", "b"]).run 0 m = .ok () ⟨store, .ofList [], ""⟩ ∧
      store.find? "n" = some ⟨.numero, .numero least⟩ ∧
      store.find? "c" = some ⟨.letra, .letra '\x27'⟩ ∧
      store.find? "b" = some ⟨.tinuod, .tinuod true⟩ ∧
      store.find? "x" = some ⟨.numero, .numero .one⟩ := by
  intro least before m
  let values : List Value := [.numero least, .letra '\x27', .tinuod true]
  let fields : List String := ["\t-9223372036854775808", "\u00a0' ", "OO"]
  have legible : ∀ value ∈ values, value.Legible := by
    simp [values, Value.Legible, isBlank, blankRanges]
  have tab : AllBlank ['\t'] := List.forall_mem_singleton.mpr rfl
  have space : AllBlank [' '] := List.forall_mem_singleton.mpr rfl
  have noBreak : AllBlank ['\u00a0'] := List.forall_mem_singleton.mpr rfl
  have none : AllBlank [] := List.forall_mem_nil _
  have digits : (Value.numero least).render = "-9223372036854775808" := by
    decide +kernel
  have shown : List.Forall₂ Value.ShownIn values fields :=
    .cons ⟨['\t'], [], tab, none, by rw [digits]; rfl⟩
      (.cons ⟨['\u00a0'], [' '], noBreak, space, rfl⟩ (.cons ⟨[], [], none, none, rfl⟩ .nil))
  have cells : List.Forall₂ (fun name value => m.store.typeOf? name = some value.ty)
      ["n", "c", "b"] values := .cons rfl (.cons rfl (.cons rfl .nil))
  obtain ⟨store, run, held, others⟩ := run_read_printed 0 .start m (.ofList []) ["n", "c", "b"]
    values fields (by decide) (by decide) cells legible shown rfl
  obtain ⟨first, held⟩ := List.forall₂_cons.mp held
  obtain ⟨second, held⟩ := List.forall₂_cons.mp held
  obtain ⟨third, _⟩ := List.forall₂_cons.mp held
  exact ⟨store, run, first, second, third, others "x" (by decide)⟩

end Stmt

end Sulti
