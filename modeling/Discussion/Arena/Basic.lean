/-!
# A flat store of replies

While a collection is being threaded its items lie side by side in an arena and refer to each other
by index, so that an item can gather its replies before any tree exists.

An index names a slot and the generation of its use. Slots are handed out in order and none is used
twice, so every live index has generation 0, and an index of another generation is stale.
-/

namespace Discussion

universe u

/-- The address of a node. -/
structure Arena.Index where
  slot : Nat
  generation : Nat
deriving DecidableEq, Hashable, Repr, Inhabited

/-- An item in an arena. -/
structure Arena.Node (α : Type u) where
  /-- The item. -/
  item : α
  /-- The index of the node replied to, if one was named. -/
  parent : Option Arena.Index
  /-- The indices of the direct replies, in the order of insertion. -/
  replies : Array Arena.Index

/-- A store of nodes that refer to each other by index. -/
structure Arena (α : Type u) where
  /-- The node of each slot. -/
  nodes : Array (Arena.Node α) := #[]
  /-- The nodes that name no parent, in the order of insertion. -/
  roots : Array Arena.Index := #[]

namespace Arena

variable {α : Type u}

/-- The arena without nodes. -/
def empty : Arena α :=
  {}

/-- The number of nodes. -/
def size (a : Arena α) : Nat :=
  a.nodes.size

/-- Whether there is no node. -/
def isEmpty (a : Arena α) : Bool :=
  a.nodes.isEmpty

/-- The index that the next node gets. -/
def nextIndex (a : Arena α) : Index :=
  ⟨a.nodes.size, 0⟩

/-- The node at an index, if the index is live. -/
def get? (a : Arena α) (i : Index) : Option (Node α) :=
  if i.generation = 0 then a.nodes[i.slot]? else none

/-- Changes the node at an index, if the index is live. -/
def modify (a : Arena α) (i : Index) (g : Node α → Node α) : Arena α :=
  if i.generation = 0 then { a with nodes := a.nodes.modify i.slot g } else a

/-- Records `i` as the latest reply. -/
def Node.addReply (i : Index) (n : Node α) : Node α :=
  { n with replies := n.replies.push i }

/-- Adds an item as the last reply to `parent`, or as the last root if no parent is named. The new
node is live before its parent is looked up, so a parent index may name the node itself; an index
that is not live leaves the node outside every tree. -/
def insert (a : Arena α) (item : α) (parent : Option Index) : Arena α :=
  let i := a.nextIndex
  let b := { a with nodes := a.nodes.push ⟨item, parent, #[]⟩ }
  match parent with
  | none => { b with roots := b.roots.push i }
  | some p => b.modify p (Node.addReply i)

/-- Adds items with the parents that they name, from the first to the last. -/
def insertAll (a : Arena α) (calls : List (α × Option Index)) : Arena α :=
  calls.foldl (fun a call => a.insert call.1 call.2) a

end Arena

end Discussion
