/-!
Tables from names to what they stand for, in the order in which the names
came. A name stands in a table at most once: inserting it again replaces what
it stands for and leaves it in its place.
-/

namespace Sulti

structure Table (α : Type) where
  entries : List (String × α)
  deriving DecidableEq, Repr

namespace Table

variable {α : Type}

def empty : Table α := ⟨[]⟩

def findEntry (name : String) : List (String × α) → Option α
  | [] => none
  | (other, a) :: rest => if other = name then some a else findEntry name rest

/-- What a name stands for. -/
def find? (t : Table α) (name : String) : Option α := findEntry name t.entries

def contains (t : Table α) (name : String) : Bool := (t.find? name).isSome

/-- Replaces the entry of a name, or appends one. -/
def insertEntry (name : String) (a : α) : List (String × α) → List (String × α)
  | [] => [(name, a)]
  | (other, b) :: rest =>
      if other = name then (other, a) :: rest else (other, b) :: insertEntry name a rest

def insert (t : Table α) (name : String) (a : α) : Table α :=
  ⟨insertEntry name a t.entries⟩

/-- Adds a name that is not there yet. -/
def declare? (t : Table α) (name : String) (a : α) : Option (Table α) :=
  if t.contains name then none else some (t.insert name a)

/-- Keeps the names that satisfy a condition. -/
def retain (t : Table α) (keep : String → Bool) : Table α :=
  ⟨t.entries.filter fun (name, _) => keep name⟩

def size (t : Table α) : Nat := t.entries.length

def isEmpty (t : Table α) : Bool := t.entries.isEmpty

@[simp] theorem find?_empty (name : String) : (empty : Table α).find? name = none := rfl

theorem findEntry_insertEntry (name other : String) (a : α) (entries : List (String × α)) :
    findEntry other (insertEntry name a entries) =
      if other = name then some a else findEntry other entries := by
  induction entries with
  | nil => grind [insertEntry, findEntry]
  | cons entry rest ih => grind [insertEntry, findEntry]

theorem find?_insert (t : Table α) (name other : String) (a : α) :
    (t.insert name a).find? other = if other = name then some a else t.find? other :=
  findEntry_insertEntry name other a t.entries

end Table

end Sulti
