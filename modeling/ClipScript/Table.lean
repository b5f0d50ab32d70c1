/-
Tables: finite maps from names.

A table is a list of pairs in which a later entry for a name replaces the earlier one, so a name
occurs at most once in what `insert` builds.
-/
namespace ClipScript

structure Table (α : Type) where
  entries : List (String × α) := []
deriving Repr, Inhabited

namespace Table

variable {α : Type}

def empty : Table α := {}

def find? (t : Table α) (name : String) : Option α := t.entries.lookup name

def contains (t : Table α) (name : String) : Bool := (t.find? name).isSome

def insertEntry (name : String) (value : α) : List (String × α) → List (String × α)
  | [] => [(name, value)]
  | (key, old) :: rest =>
    if name = key then (key, value) :: rest else (key, old) :: insertEntry name value rest

def insert (t : Table α) (name : String) (value : α) : Table α :=
  ⟨insertEntry name value t.entries⟩

def ofList (entries : List (String × α)) : Table α :=
  entries.foldl (fun t (name, value) => t.insert name value) empty

@[simp] theorem find?_insert_self (t : Table α) (name : String) (value : α) :
    (t.insert name value).find? name = some value := by
  obtain ⟨entries⟩ := t
  simp only [insert, find?]
  induction entries with
  | nil => simp [insertEntry]
  | cons entry rest ih =>
    obtain ⟨key, old⟩ := entry
    simp only [insertEntry]
    split
    · next h => simp [h]
    · next h => rw [List.lookup_cons, beq_false_of_ne h]; exact ih

theorem find?_insert_of_ne (t : Table α) {name other : String} (value : α) (h : other ≠ name) :
    (t.insert name value).find? other = t.find? other := by
  obtain ⟨entries⟩ := t
  simp only [insert, find?]
  induction entries with
  | nil => simp [insertEntry, List.lookup_cons, beq_false_of_ne h]
  | cons entry rest ih =>
    obtain ⟨key, old⟩ := entry
    simp only [insertEntry]
    split
    · next hk => subst hk; simp [List.lookup_cons, beq_false_of_ne h]
    · simp only [List.lookup_cons]; split <;> first | rfl | exact ih

end Table
end ClipScript
