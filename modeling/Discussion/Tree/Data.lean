import Discussion.Data.Basic
import Discussion.Text.Shown
import Discussion.Tree.Preorder

/-!
# Forests as data

A forest is written as one list of entries in pre-order, each with its depth, so that the brackets of
the written form are never nested more deeply than for a single item.
-/

namespace Discussion

universe u

variable {α : Type u}

/-- The record of an entry of a listing. -/
def entryData (item : α → Data) (entry : Nat × α) : Data :=
  .record [("depth", .integer entry.1), ("item", item entry.2)]

/-- The entry that a record describes. -/
def entryOfData? (item : Data → Option α) : Data → Option (Nat × α)
  | .record [("depth", .integer (.ofNat depth)), ("item", d)] => (item d).map fun x => (depth, x)
  | _ => none

/-- A listing as data. -/
def entriesData (item : α → Data) (entries : List (Nat × α)) : Data :=
  .list (entries.map (entryData item))

/-- A tree as data. -/
def Tree.toData (item : α → Data) (t : Tree α) : Data :=
  entriesData item t.entries

/-- A forest as data. -/
def Forest.toData (item : α → Data) (f : Forest α) : Data :=
  entriesData item f.entries

/-- The forest that a list of entries describes. -/
def Forest.ofData? (item : Data → Option α) (d : Data) : Option (Forest α) :=
  (Data.listOf? (entryOfData? item) d).map .ofPreorder

/-! A tree is shown as its listing, and a forest as the record of its trees. -/

instance [Inspect α] : Inspect (Tree α) :=
  ⟨fun t => shown t.entries⟩

instance [Inspect α] : Inspect (Forest α) :=
  ⟨fun f => .record "Forest" [("roots", shown f.roots)]⟩

end Discussion
