import Mathlib.Logic.Function.Iterate
import Discussion.Proofs.Tree.Segments

/-!
# Traversals call by call

A traversal is asked for one node after the other, and may be left at any time. `Tree.levels` and
`Tree.nodes` say by recursion on the trees what a traversal of them answers with as a whole; here this is
said of every single call.

* `Yields next? s xs`: asked again and again, `s` answers with `xs` and then has no more answers.
* `afterCall next? s`: what is left of `s` after one call.

Results:
1. `yields_of_view`: a view that loses its first element with each call is what is answered.
2. `Yields.iterate`: what is answered after any number of calls.
3. `Walk.yields`, `Flattening.yields`: the two traversals, from any state on.
4. `Forest.yields_preorder`: all of this for forests and their nodes.
-/

namespace Discussion

universe u v

variable {α : Type u}

/-! ## Calls -/

section Calls

variable {σ : Type u} {β : Type v} {next? : σ → Option (β × σ)} {s : σ} {xs : List β}

/-- Asked again and again, `s` answers with `xs` and then has no more answers. -/
inductive Yields (next? : σ → Option (β × σ)) : σ → List β → Prop
  | done {s : σ} : next? s = none → Yields next? s []
  | more {s rest : σ} {x : β} {xs : List β} :
      next? s = some (x, rest) → Yields next? rest xs → Yields next? s (x :: xs)

/-- What is left after one call. A call without an answer changes nothing. -/
def afterCall (next? : σ → Option (β × σ)) (s : σ) : σ :=
  (next? s).elim s Prod.snd

theorem afterCall_of_some {rest : σ} {x : β} (h : next? s = some (x, rest)) :
    afterCall next? s = rest := by
  rw [afterCall, h]
  rfl

theorem afterCall_of_none (h : next? s = none) : afterCall next? s = s := by
  rw [afterCall, h]
  rfl

/-- A view that is empty where there is no answer, and loses the answer where there is one, is the list of
all answers. That it is finite is why the calls come to an end. -/
theorem yields_of_view (view : σ → List β) (done : ∀ s, next? s = none → view s = [])
    (more : ∀ s x rest, next? s = some (x, rest) → view s = x :: view rest) (s : σ) :
    Yields next? s (view s) := by
  -- nothing is known of the states, so the induction is on what is seen of them
  induction hview : view s generalizing s with
  | nil =>
    cases h : next? s with
    | none => exact .done h
    | some answer => cases (more s _ _ h).symm.trans hview
  | cons x xs ih =>
    cases h : next? s with
    | none => cases (done s h).symm.trans hview
    | some answer =>
      obtain ⟨hx, hrest⟩ := List.cons.inj ((more s _ _ h).symm.trans hview)
      exact .more (hx ▸ h) (ih _ hrest)

theorem Yields.head (h : Yields next? s xs) : (next? s).map Prod.fst = xs[0]? := by
  cases h with
  | done h => rw [h]; rfl
  | more h _ => rw [h]; rfl

theorem Yields.afterCall (h : Yields next? s xs) : Yields next? (afterCall next? s) xs.tail := by
  cases h with
  | done h =>
    rw [afterCall_of_none h]
    exact .done h
  | more h hrest =>
    rw [afterCall_of_some h]
    exact hrest

/-- After `k` calls the first `k` answers are missing, and the next call gives the one behind them. -/
theorem Yields.iterate (h : Yields next? s xs) (k : Nat) :
    Yields next? ((Discussion.afterCall next?)^[k] s) (xs.drop k) ∧
      (next? ((Discussion.afterCall next?)^[k] s)).map Prod.fst = xs[k]? := by
  induction k generalizing s xs with
  | zero => exact ⟨h, h.head⟩
  | succ k ih =>
    obtain ⟨hdrop, hanswer⟩ := ih h.afterCall
    rw [Function.iterate_succ_apply]
    rw [List.drop_tail] at hdrop
    rw [List.getElem?_tail] at hanswer
    exact ⟨hdrop, hanswer⟩

end Calls

/-! ## The two traversals -/

theorem Walk.yields (w : Walk α) : Yields Walk.next? w w.toList := by
  refine yields_of_view Walk.toList ?_ ?_ w
  · rintro ⟨_ | ⟨⟨level, t⟩, pending⟩⟩ h
    · exact Walk.toList_eq _
    · cases h
  · rintro ⟨_ | ⟨⟨level, t⟩, pending⟩⟩ v rest h
    · cases h
    · cases h
      rw [toList_eq, toList_eq, List.flatMap_append, List.flatMap_map, ← Tree.levelsAll_eq_flatMap,
        List.flatMap_cons, Tree.levels_eq, List.cons_append]

theorem Flattening.yields (s : Flattening α) : Yields Flattening.next? s s.toList := by
  refine yields_of_view Flattening.toList ?_ ?_ s
  · rintro ⟨_ | ⟨⟨x, ts⟩, pending⟩⟩ h
    · exact Flattening.toList_eq _
    · cases h
  · rintro ⟨_ | ⟨⟨x, ts⟩, pending⟩⟩ y rest h
    · cases h
    · cases h
      rw [toList_eq, toList_eq, Tree.nodesAll_cons, Tree.nodes_node, Tree.nodesAll_append]
      rfl

namespace Forest

theorem flatten_eq_walk (f : Forest α) : f.flatten = f.walk.toList.map fun v => v.2.item :=
  f.items_eq_flatten.symm

/-- A walk answers with what the recursion on the trees lists, the roots of a forest and the root of a tree
at level 0, and then ends. The walk of a node is the part of the walk of the forest that begins with the
node, but for the level of the node. The traversal that takes the trees apart answers with the items of
the walk, in its order. And what comes after any number of calls is what is left of these lists when as
many elements are taken away. -/
theorem yields_preorder (f : Forest α) :
    (f.walk.toList = Tree.levelsAll 0 f.roots ∧ Yields Walk.next? f.walk (Tree.levelsAll 0 f.roots)) ∧
    (∀ t : Tree α, t.walk.toList = t.levels 0 ∧ Yields Walk.next? t.walk (t.levels 0)) ∧
    (∀ i level t, f.walk.toList[i]? = some (level, t) →
      t.walk.toList.map (fun v => (level + v.1, v.2)) <+: f.walk.toList.drop i) ∧
    (f.flatten = f.walk.toList.map (fun v => v.2.item) ∧
      Yields Flattening.next? ⟨f.roots⟩ f.flatten) ∧
    ∀ k,
      (Yields Walk.next? ((afterCall Walk.next?)^[k] f.walk) (f.walk.toList.drop k) ∧
        (Walk.next? ((afterCall Walk.next?)^[k] f.walk)).map Prod.fst = f.walk.toList[k]?) ∧
      (∀ t : Tree α, Yields Walk.next? ((afterCall Walk.next?)^[k] t.walk) (t.walk.toList.drop k) ∧
        (Walk.next? ((afterCall Walk.next?)^[k] t.walk)).map Prod.fst = t.walk.toList[k]?) ∧
      Yields Flattening.next? ((afterCall Flattening.next?)^[k] ⟨f.roots⟩) (f.flatten.drop k) ∧
        (Flattening.next? ((afterCall Flattening.next?)^[k] ⟨f.roots⟩)).map Prod.fst = f.flatten[k]? := by
  refine ⟨⟨toList_walk f, toList_walk f ▸ f.walk.yields⟩,
    fun t => ⟨t.toList_walk, t.toList_walk ▸ t.walk.yields⟩, fun i level t h => ?_,
    ⟨flatten_eq_walk f, Flattening.yields _⟩,
    fun k => ⟨f.walk.yields.iterate k, fun t => t.walk.yields.iterate k,
      (Flattening.yields _).iterate k⟩⟩
  rw [toList_walk] at h ⊢
  rw [t.toList_walk, ← Tree.levels_add level 0 t]
  exact Tree.levelsAll_isPrefix_drop h

/-- Two calls pass over `1` and `2`; the walk of the node `2` is in the middle of that of the forest. -/
theorem yields_preorder_of_numbers :
    let f : Forest Nat := ⟨[.node 1 [.node 2 [.leaf 3], .leaf 4], .leaf 5]⟩
    let t : Tree Nat := .node 2 [.leaf 3]
    (t.walk.toList.map fun v => (1 + v.1, v.2)) <+: f.walk.toList.drop 1 ∧
    (Walk.next? ((afterCall Walk.next?)^[2] f.walk)).map (fun v => (v.1.1, v.1.2.item)) = some (2, 3) ∧
    Yields Flattening.next? ((afterCall Flattening.next?)^[2] ⟨f.roots⟩) [3, 4, 5] := by
  intro f t
  obtain ⟨⟨hlist, _⟩, _, hsegment, ⟨hflatten, _⟩, hcalls⟩ := yields_preorder f
  obtain ⟨⟨_, hanswer⟩, _, hrest, _⟩ := hcalls 2
  rw [hflatten, hlist] at hrest
  rw [hlist] at hanswer
  refine ⟨hsegment 1 1 t (by rw [hlist]; rfl), ?_, hrest⟩
  rw [← Function.comp_def (fun v : Nat × Tree Nat => (v.1, v.2.item)) Prod.fst, ← Option.map_map,
    hanswer]
  rfl

end Forest

end Discussion
