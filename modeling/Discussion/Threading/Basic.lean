/-!
# Items that can be threaded

What threading asks of an item is an identity and, unless it starts a discussion, the identity of the
item it replies to.
-/

namespace Discussion

universe u v

/-- Items with an identity that may name the identity of a parent. -/
class Threaded (α : Type u) (ι : outParam (Type v)) where
  /-- The identity of the item. -/
  id : α → ι
  /-- The identity of the item replied to. -/
  parent? : α → Option ι

/-- Why a collection of items is not a forest. -/
inductive ThreadingError (ι : Type v) where
  /-- Two items have this identity. -/
  | duplicateId (id : ι)
  /-- The chain of parents of the item with this identity never ends. -/
  | cycle (id : ι)
deriving DecidableEq, Repr

end Discussion
