import Discussion.Arena.Basic

/-!
# Post-order over an arena

The nodes that can be reached from the roots, every node after its replies, and the length of the
longest chain among them.

Both loops work on a list of indices and keep no record of the nodes already seen. They need none:
in an arena filled by `Arena.insert` every node stands in at most one list of replies or roots, and a
node that is its own reply stands in no other list. So a run takes at most two steps for each node to
list them and at most one for each node to measure them, and these bounds are the ones given to the
loops.
-/

namespace Discussion.Arena

universe u

variable {α : Type u}

/-- A node on its way through the traversal. -/
structure Visit where
  /-- The index of the node. -/
  index : Index
  /-- Whether everything below the node has been visited. -/
  expanded : Bool

/-- Takes the next visit from the list: a node met for the first time is put back behind its replies,
a node met again is listed. Indices that are not live are passed over. -/
def postorderStep (a : Arena α) :
    List Visit → Option (Option (Index × Node α) × List Visit)
  | [] => none
  | v :: rest =>
    match a.get? v.index with
    | none => some (none, rest)
    | some n =>
      if v.expanded then some (some (v.index, n), rest)
      else some (none, n.replies.toList.map (Visit.mk · false) ++ ⟨v.index, true⟩ :: rest)

/-- Takes at most `steps` steps, putting the listed nodes in front of `acc`, the last one foremost. -/
def collectPostorder (a : Arena α) :
    Nat → List Visit → List (Index × Node α) → List (Index × Node α)
  | 0, _, acc => acc
  | steps + 1, visits, acc =>
    match a.postorderStep visits with
    | none => acc
    | some (none, visits) => collectPostorder a steps visits acc
    | some (some listed, visits) => collectPostorder a steps visits (listed :: acc)

/-- The visits with which the traversal starts. -/
def startVisits (a : Arena α) : List Visit :=
  a.roots.toList.map (Visit.mk · false)

/-- The nodes below the roots with their indices, every node after its replies. -/
def postorder (a : Arena α) : List (Index × Node α) :=
  (a.collectPostorder (2 * a.size) a.startVisits []).reverse

/-- Takes the next index, with the length of the chain from the root to it, and puts its replies in
front, the last one foremost. -/
def depthStep (a : Arena α) : Nat × List (Index × Nat) → Option (Nat × List (Index × Nat))
  | (_, []) => none
  | (deepest, (i, depth) :: rest) =>
    match a.get? i with
    | none => some (deepest, rest)
    | some n => some (max deepest depth, n.replies.toList.reverse.map (·, depth + 1) ++ rest)

/-- Takes at most `steps` steps and answers with the longest chain seen. -/
def measureDepth (a : Arena α) : Nat → Nat × List (Index × Nat) → Nat
  | 0, state => state.1
  | steps + 1, state =>
    match a.depthStep state with
    | none => state.1
    | some state => measureDepth a steps state

/-- The state in which measuring starts: nothing seen, and the roots to come, the last one foremost. -/
def startChains (a : Arena α) : Nat × List (Index × Nat) :=
  (0, a.roots.toList.reverse.map (·, 1))

/-- The number of nodes on the longest chain from a root down. -/
def depth (a : Arena α) : Nat :=
  a.measureDepth a.size a.startChains

end Discussion.Arena
