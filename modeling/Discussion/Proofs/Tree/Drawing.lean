import Discussion.Proofs.Text.Runs
import Discussion.Proofs.Tree.Comparison
import Discussion.Proofs.Tree.Relabelling

/-!
# What a drawing shows

A drawing tells trees apart, although the texts of the items may themselves look like branches: the lines of
all items but the root are read in groups of four characters, and the first group that is a branch ends the
margin, whatever text follows it.

* `IsRow e line`: the line shows the text of the entry `e` behind a margin of one group for each level.
* `Tree.DrawnAs t text`: the text is a drawing of a tree of texts, with any choice of margins and branches.
* `Tree.rows`: the lines below the root by recursion on the trees.

Results:
1. `Tree.drawnAs_drawing`: a drawing has a line for each item in pre-order.
2. `IsRow.unique`: a line tells the level and the text of its item.
3. `Tree.DrawnAs.unique`: no text is a drawing of two trees, if no line feed is in the texts of the items.
4. `Tree.lineFeeds_drawing`, `Tree.hasLines_drawing`: how many lines a drawing has.
5. `Tree.drawing_by_position`: shapes and texts, position by position.
-/

namespace Discussion

universe u v

variable {α : Type u} {β : Type v}

/-! ## Rows -/

/-- What a line has for each level above its branch. -/
def skipGroups : List String :=
  ["    ", "│   "]

/-- What a line has before its text. -/
def branchGroups : List String :=
  ["└── ", "├── "]

/-- The margin of a line with so many levels above its branch. -/
def IsMargin (level : Nat) (margin : String) : Prop :=
  ∃ groups : List String, groups.length = level ∧ (∀ g ∈ groups, g ∈ skipGroups) ∧
    margin = String.join groups

/-- A line that shows the text of an entry behind a margin and a branch. -/
def IsRow (e : Nat × String) (line : String) : Prop :=
  ∃ margin branch, IsMargin e.1 margin ∧ branch ∈ branchGroups ∧ line = margin ++ branch ++ e.2

theorem length_group : ∀ g ∈ skipGroups ++ branchGroups, g.toList.length = 4 := by
  decide

theorem lineFeed_notMem_group : ∀ g ∈ skipGroups ++ branchGroups, '\n' ∉ g.toList := by
  decide

theorem skip_notMem_branchGroups : ∀ g ∈ skipGroups, g ∉ branchGroups := by
  decide

theorem append_group_inj {g g' s s' : String} (hg : g ∈ skipGroups ++ branchGroups)
    (hg' : g' ∈ skipGroups ++ branchGroups) (h : g ++ s = g' ++ s') : g = g' ∧ s = s' := by
  have hchars := congrArg String.toList h
  rw [String.toList_append, String.toList_append] at hchars
  have hlength := (length_group g hg).trans (length_group g' hg').symm
  obtain ⟨hgroup, hrest⟩ := List.append_inj hchars hlength
  exact ⟨String.toList_inj.1 hgroup, String.toList_inj.1 hrest⟩

/-- The first group that is a branch ends the margin, whatever follows it. -/
theorem join_groups_inj {b b' s s' : String} (hb : b ∈ branchGroups) (hb' : b' ∈ branchGroups) :
    ∀ {gs gs' : List String}, (∀ g ∈ gs, g ∈ skipGroups) → (∀ g ∈ gs', g ∈ skipGroups) →
      String.join gs ++ (b ++ s) = String.join gs' ++ (b' ++ s') → gs.length = gs'.length ∧ s = s'
  | [], [], _, _, h => by
    rw [String.join_nil, String.empty_append, String.empty_append] at h
    exact ⟨rfl, (append_group_inj (List.mem_append_right _ hb) (List.mem_append_right _ hb') h).2⟩
  | [], g :: gs, _, hgs, h => by
    rw [String.join_nil, String.empty_append, String.join_cons, String.append_assoc] at h
    have hg := hgs g List.mem_cons_self
    obtain ⟨rfl, _⟩ := append_group_inj (List.mem_append_right _ hb) (List.mem_append_left _ hg) h
    exact absurd hb (skip_notMem_branchGroups b hg)
  | g :: gs, [], hgs, _, h => by
    rw [String.join_nil, String.empty_append, String.join_cons, String.append_assoc] at h
    have hg := hgs g List.mem_cons_self
    obtain ⟨rfl, _⟩ := append_group_inj (List.mem_append_left _ hg) (List.mem_append_right _ hb') h
    exact absurd hb' (skip_notMem_branchGroups g hg)
  | g :: gs, g' :: gs', hgs, hgs', h => by
    rw [String.join_cons, String.join_cons, String.append_assoc, String.append_assoc] at h
    obtain ⟨hg, hgs⟩ := List.forall_mem_cons.1 hgs
    obtain ⟨hg', hgs'⟩ := List.forall_mem_cons.1 hgs'
    have hrest := (append_group_inj (List.mem_append_left _ hg) (List.mem_append_left _ hg') h).2
    obtain ⟨hlength, htext⟩ := join_groups_inj hb hb' hgs hgs' hrest
    exact ⟨congrArg (· + 1) hlength, htext⟩

theorem IsRow.unique {e f : Nat × String} {line : String} (he : IsRow e line) (hf : IsRow f line) :
    e = f := by
  obtain ⟨_, b, ⟨gs, hlevel, hgs, rfl⟩, hb, hline⟩ := he
  obtain ⟨_, b', ⟨gs', hlevel', hgs', rfl⟩, hb', hline'⟩ := hf
  have hsame := hline.symm.trans hline'
  rw [String.append_assoc, String.append_assoc] at hsame
  obtain ⟨hlength, htext⟩ := join_groups_inj hb hb' hgs hgs' hsame
  exact Prod.ext (hlevel.symm.trans (hlength.trans hlevel')) htext

open Text (lineFeeds lineFeeds_append lineFeeds_eq_zero_iff)

/-- The line of an entry has the line feeds of its text. -/
theorem IsRow.lineFeeds_eq {e : Nat × String} {line : String} (h : IsRow e line) :
    lineFeeds line = lineFeeds e.2 := by
  obtain ⟨_, b, ⟨gs, _, hgs, rfl⟩, hb, rfl⟩ := h
  have hmargin : lineFeeds (String.join gs) = 0 := by
    rw [lineFeeds_eq_zero_iff, String.toList_join, List.mem_flatMap]
    rintro ⟨g, hg, hline⟩
    exact lineFeed_notMem_group g (List.mem_append_left _ (hgs g hg)) hline
  have hbranch : lineFeeds b = 0 :=
    lineFeeds_eq_zero_iff.2 (lineFeed_notMem_group b (List.mem_append_right _ hb))
  rw [lineFeeds_append, lineFeeds_append, hmargin, hbranch, Nat.zero_add]

theorem IsRow.lineFeed_notMem {e : Nat × String} {line : String} (h : IsRow e line)
    (he : '\n' ∉ e.2.toList) : '\n' ∉ line.toList :=
  lineFeeds_eq_zero_iff.1 (h.lineFeeds_eq.trans (lineFeeds_eq_zero_iff.2 he))

namespace Tree

/-- The text has a line for the root, and rows for all items below it in pre-order. -/
def DrawnAs (t : Tree String) (text : String) : Prop :=
  ∃ rows, List.Forall₂ IsRow (listing 0 t.replies) rows ∧
    text = String.join ((t.item :: rows).map (· ++ "\n"))

theorem count_labels (label : α → String) (t : Tree α) : (t.labels label).count = t.count := by
  rw [labels_eq_relabel, ← length_nodes, nodes_relabel, List.length_map, length_nodes]

/-! ## The lines of a drawing -/

mutual

/-- The lines of a branch and of all that is below it. -/
def rows (margin : String) (last : Bool) : Tree String → List String
  | node x ts =>
    (Branch.mk (node x ts) last margin).line ::
      rowsAll (Branch.mk (node x ts) last margin).replyMargin ts

/-- The lines of the branches of a node and of all that is below them. -/
def rowsAll (margin : String) : List (Tree String) → List String
  | [] => []
  | t :: ts => rows margin ts.isEmpty t ++ rowsAll margin ts

end

theorem flatMap_ofReplies (margin : String) (ts : List (Tree String)) :
    ((Branch.ofReplies margin ts).flatMap fun b => rows b.margin b.last b.tree) =
      rowsAll margin ts := by
  induction ts with
  | nil => rfl
  | cons t ts ih => rw [Branch.ofReplies, List.flatMap_cons, ih, rowsAll]

theorem collectLines_eq (acc : List String) (bs : List Branch) :
    collectLines acc bs = (bs.flatMap fun b => rows b.margin b.last b.tree).reverse ++ acc := by
  fun_induction collectLines acc bs with
  | case1 acc => rfl
  | case2 acc b rest ih =>
    obtain ⟨⟨x, ts⟩, last, margin⟩ := b
    rw [ih, List.flatMap_append, flatMap_ofReplies, List.flatMap_cons, rows, List.cons_append,
      List.reverse_cons, List.append_assoc]
    rfl

theorem lines_eq (t : Tree String) : t.lines = t.item :: rowsAll "" t.replies := by
  rw [lines, collectLines_eq, flatMap_ofReplies, List.append_nil, List.reverse_reverse]

theorem isRow_line {level : Nat} {margin : String} (h : IsMargin level margin) (last : Bool)
    (t : Tree String) : IsRow (level, t.item) (Branch.mk t last margin).line := by
  refine ⟨margin, if last then "└── " else "├── ", h, ?_, rfl⟩
  cases last <;> decide

theorem isMargin_replyMargin {level : Nat} {margin : String} (h : IsMargin level margin) (last : Bool)
    (t : Tree String) : IsMargin (level + 1) (Branch.mk t last margin).replyMargin := by
  obtain ⟨gs, rfl, hgs, rfl⟩ := h
  have hskip : (if last then "    " else "│   ") ∈ skipGroups := by
    cases last <;> decide
  refine ⟨gs ++ [if last then "    " else "│   "], List.length_append, ?_, ?_⟩
  · intro g hg
    rcases List.mem_append.1 hg with hg | hg
    · exact hgs g hg
    · rw [List.mem_singleton.1 hg]
      exact hskip
  · rw [String.join_append, String.join_cons, String.join_nil, String.append_empty]
    rfl

mutual

theorem forall₂_isRow_rows {level : Nat} {margin : String} (last : Bool) :
    ∀ t : Tree String, IsMargin level margin →
      List.Forall₂ IsRow (listing level [t]) (rows margin last t)
  | node x ts, h => by
    rw [listing_singleton, rows]
    exact .cons (isRow_line h last (node x ts))
      (forall₂_isRow_rowsAll ts (isMargin_replyMargin h last (node x ts)))

/-- The lines of the branches are rows for what is listed from their level on. -/
theorem forall₂_isRow_rowsAll {level : Nat} {margin : String} :
    ∀ ts : List (Tree String), IsMargin level margin →
      List.Forall₂ IsRow (listing level ts) (rowsAll margin ts)
  | [], _ => .nil
  | t :: ts, h => by
    rw [← List.singleton_append, listing_append, List.singleton_append, rowsAll]
    exact List.rel_append (forall₂_isRow_rows ts.isEmpty t h) (forall₂_isRow_rowsAll ts h)

end

theorem drawnAs_drawing (label : α → String) (t : Tree α) :
    (t.labels label).DrawnAs (t.drawing label) := by
  refine ⟨rowsAll "" (t.labels label).replies, forall₂_isRow_rowsAll _ ⟨[], rfl, nofun, rfl⟩, ?_⟩
  rw [drawing, lines_eq]

/-! ## Reading a drawing -/

/-- Where no line feed is in the texts there is none in the lines. -/
theorem lineFeed_notMem_rows {t : Tree String} {rows : List String}
    (h : List.Forall₂ IsRow (listing 0 t.replies) rows) (ht : ∀ v ∈ t.nodes, '\n' ∉ v.item.toList) :
    ∀ line ∈ t.item :: rows, '\n' ∉ line.toList := by
  have hentries : ∀ e ∈ listing 0 t.replies, '\n' ∉ e.2.toList := by
    intro e he
    obtain ⟨v, hv, hitem⟩ := exists_node_of_mem_listing he
    rw [← hitem]
    exact ht v (mem_nodes.2 (.inr hv))
  refine List.forall_mem_cons.2 ⟨ht t t.self_mem_nodes, ?_⟩
  generalize listing 0 t.replies = entries at h hentries
  induction h with
  | nil => nofun
  | cons hrow _ ih =>
    obtain ⟨he, hentries⟩ := List.forall_mem_cons.1 hentries
    exact List.forall_mem_cons.2 ⟨hrow.lineFeed_notMem he, ih hentries⟩

/-- A drawing gives the line of each item, a line gives the level and the text of its item, and these give
the tree. -/
theorem DrawnAs.unique {t u : Tree String} {text : String} (ht : ∀ v ∈ t.nodes, '\n' ∉ v.item.toList)
    (hu : ∀ v ∈ u.nodes, '\n' ∉ v.item.toList) (htext : t.DrawnAs text) (hutext : u.DrawnAs text) :
    t = u := by
  obtain ⟨rows, hrows, hlines⟩ := htext
  obtain ⟨rows', hrows', hlines'⟩ := hutext
  have hsame := Text.eq_of_join_lines (lineFeed_notMem_rows hrows ht) (lineFeed_notMem_rows hrows' hu)
    (hlines.symm.trans hlines')
  obtain ⟨hitem, rfl⟩ := List.cons.inj hsame
  have hunique : Relator.LeftUnique IsRow := fun _ _ _ => IsRow.unique
  have hlisting := List.left_unique_forall₂' hunique hrows hrows'
  cases t
  cases u
  exact congrArg₂ node hitem (listing_inj.1 hlisting)

theorem lineFeed_notMem_labels {label : α → String} {t : Tree α}
    (ht : ∀ v ∈ t.nodes, '\n' ∉ (label v.item).toList) :
    ∀ v ∈ (t.labels label).nodes, '\n' ∉ v.item.toList := by
  rw [labels_eq_relabel, nodes_relabel, List.forall_mem_map]
  intro v hv
  rw [item_relabel]
  exact ht v hv

theorem length_listing (level : Nat) (ts : List (Tree α)) : (listing level ts).length = countAll ts := by
  rw [listing, List.length_map, ← length_nodesAll, ← map_snd_levelsAll level, List.length_map]

/-- A text without line feeds has its own line. -/
theorem DrawnAs.hasLines {t : Tree String} {text : String} (h : t.DrawnAs text)
    (ht : ∀ v ∈ t.nodes, '\n' ∉ v.item.toList) :
    ∃ lines, Text.HasLines text lines ∧ lines.length = t.count := by
  obtain ⟨rows, hrows, htext⟩ := h
  refine ⟨t.item :: rows, ⟨htext, lineFeed_notMem_rows hrows ht⟩, ?_⟩
  rw [List.length_cons, ← hrows.length_eq, length_listing, count_eq]

theorem lineFeeds_join_rows {es : List (Nat × String)} {rows : List String}
    (h : List.Forall₂ IsRow es rows) :
    lineFeeds (String.join rows) = lineFeeds (String.join (es.map Prod.snd)) := by
  induction h with
  | nil => rfl
  | cons hrow _ ih =>
    rw [List.map_cons, Text.lineFeeds_join_cons, Text.lineFeeds_join_cons, hrow.lineFeeds_eq, ih]

theorem DrawnAs.lineFeeds_eq {t : Tree String} {text : String} (h : t.DrawnAs text) :
    lineFeeds text = t.count + lineFeeds (String.join (t.nodes.map item)) := by
  obtain ⟨rows, hrows, rfl⟩ := h
  have hlisting : (listing 0 t.replies).map Prod.snd = (nodesAll t.replies).map item := by
    rw [← map_snd_levelsAll 0, listing, List.map_map, List.map_map]
    rfl
  rw [Text.lineFeeds_join_lines, Text.lineFeeds_join_cons, List.length_cons, ← hrows.length_eq,
    length_listing, lineFeeds_join_rows hrows, hlisting, count_eq, nodes_eq, List.map_cons,
    Text.lineFeeds_join_cons]

/-- The line feeds in a drawing are those that end the line of an item, and those in the texts. -/
theorem lineFeeds_drawing (label : α → String) (t : Tree α) :
    lineFeeds (t.drawing label) =
      t.count + lineFeeds (String.join (t.nodes.map fun v => label v.item)) := by
  have htexts : (t.labels label).nodes.map item = t.nodes.map fun v => label v.item := by
    rw [labels_eq_relabel, nodes_relabel, List.map_map]
    exact List.map_congr_left fun v _ => item_relabel label v
  rw [(drawnAs_drawing label t).lineFeeds_eq, count_labels, htexts]

theorem hasLines_drawing {label : α → String} {t : Tree α}
    (ht : ∀ v ∈ t.nodes, '\n' ∉ (label v.item).toList) :
    ∃ lines, Text.HasLines (t.drawing label) lines ∧ lines.length = t.count := by
  obtain ⟨lines, hlines, hlength⟩ := (drawnAs_drawing label t).hasLines (lineFeed_notMem_labels ht)
  exact ⟨lines, hlines, hlength.trans (count_labels label t)⟩

theorem drawing_eq_iff {label : α → String} {label' : β → String} {t : Tree α} {u : Tree β}
    (ht : ∀ v ∈ t.nodes, '\n' ∉ (label v.item).toList)
    (hu : ∀ v ∈ u.nodes, '\n' ∉ (label' v.item).toList) :
    t.drawing label = u.drawing label' ↔ t.labels label = u.labels label' := by
  constructor
  · intro h
    have hdrawing := drawnAs_drawing label' u
    rw [← h] at hdrawing
    exact DrawnAs.unique (lineFeed_notMem_labels ht) (lineFeed_notMem_labels hu)
      (drawnAs_drawing label t) hdrawing
  · intro h
    rw [drawing, drawing, h]

/-- The tree of texts has the shape of the tree, and the text of each item at the position of the item. Its
drawing has a line for the root and then a line for each item in pre-order, with a margin of one group for
each level and a branch before the text. No text is such a drawing of two trees of texts without line feeds,
whichever margins and branches it has; so two trees whose texts have no line feeds have one drawing exactly
if they have one shape, and the same texts at all positions. -/
theorem drawing_by_position :
    (∀ (label : α → String) (t : Tree α),
      (t.labels label).shape = t.shape ∧
      (∀ path, ((t.labels label).get? path).map item = (t.get? path).map fun v => label v.item) ∧
      (t.labels label).DrawnAs (t.drawing label)) ∧
    (∀ (t u : Tree String) (text : String), (∀ v ∈ t.nodes, '\n' ∉ v.item.toList) →
      (∀ v ∈ u.nodes, '\n' ∉ v.item.toList) → t.DrawnAs text → u.DrawnAs text → t = u) ∧
    ∀ (label : α → String) (label' : β → String) (t : Tree α) (u : Tree β),
      (∀ v ∈ t.nodes, '\n' ∉ (label v.item).toList) →
      (∀ v ∈ u.nodes, '\n' ∉ (label' v.item).toList) →
        (t.drawing label = u.drawing label' ↔ t.shape = u.shape ∧
          ∀ path v w, t.get? path = some v → u.get? path = some w → label v.item = label' w.item) := by
  refine ⟨fun label t => ⟨?_, fun path => ?_, drawnAs_drawing label t⟩,
    fun t u text => DrawnAs.unique, fun label label' t u ht hu => ?_⟩
  · rw [labels_eq_relabel, shape_relabel]
  · rw [labels_eq_relabel, ← map_eq_relabel, get?_map]
  · rw [drawing_eq_iff ht hu, labels_eq_relabel, labels_eq_relabel, relabel_eq_iff]

/-- The last text looks like a branch in both trees. It is a reply to `b` in the one, and to `a` in the
other. -/
theorem drawing_by_position_of_texts :
    let t : Tree String := .node "a" [.node "b" [.leaf "└── c"]]
    let u : Tree String := .node "a" [.leaf "b", .leaf "└── c"]
    (∀ v ∈ t.nodes, '\n' ∉ v.item.toList) ∧ (∀ v ∈ u.nodes, '\n' ∉ v.item.toList) ∧
      ((t.labels id).get? [0, 0]).map item = some "└── c" ∧ t.drawing id ≠ u.drawing id := by
  intro t u
  have ht : ∀ v ∈ t.nodes, '\n' ∉ v.item.toList := by
    decide
  have hu : ∀ v ∈ u.nodes, '\n' ∉ v.item.toList := by
    decide
  obtain ⟨hlabels, _, hdrawing⟩ := drawing_by_position (α := String) (β := String)
  refine ⟨ht, hu, (hlabels id t).2.1 [0, 0], fun hsame => ?_⟩
  have hshape : node () [node () [leaf ()]] = node () [leaf (), leaf ()] :=
    ((hdrawing id id t u ht hu).1 hsame).1
  cases hshape

end Tree

end Discussion
