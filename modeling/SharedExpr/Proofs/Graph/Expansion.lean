import SharedExpr.Proofs.Graph.Agreement
import SharedExpr.Proofs.Graph.Descent
import SharedExpr.Proofs.Lists

/-!
# The tree below a handle

Where edges do not run in circles, a handle can be expanded: the handle over the expansions of its
children, and so on down. A node stands in this tree as often as there are ways down to it, and a
handle that is not live has nothing below it.

* `Expansion` — trees of handles; `Expansion.preorder`, `Expansion.postorder` — what they list, and
  `Expansion.edges` — the edges, in the order in which one comes along them.
* `Graph.Ordered.expansion` — the tree below a handle. Its nodes are what the handle reaches
  (`Graph.Ordered.mem_traverse`), its edges are those of these nodes
  (`Graph.Ordered.mem_edges_expansion`), and `Graph.Ordered.firstDangling` is the first one of them
  to a child that is not live.
* `Graph.ChildrenFirst`, `Graph.Ordered.childrenFirst_postorder` — in post-order, children are
  listed before their parents, also without repetitions (`Graph.ChildrenFirst.idxOf_lt`).
-/

namespace SharedExpr

/-! ### Trees of handles -/

/-- A handle over trees of handles. -/
inductive Expansion where
  /-- The handle, and what is below it in order. -/
  | node (root : Handle) (below : List Expansion)

namespace Expansion

/-- The handle at the top. -/
def root : Expansion → Handle
  | node h _ => h

/-- What is listed on the way through a tree, if at each handle something is listed when one comes
to it and something when one leaves it. -/
def traverse (before after : Handle → List Handle) : Expansion → List Handle
  | node h below => before h ++ below.flatMap (traverse before after) ++ after h

/-- The handles of a tree, each before what is below it. -/
def preorder : Expansion → List Handle :=
  traverse (fun h => [h]) fun _ => []

/-- The handles of a tree, each after what is below it. -/
def postorder : Expansion → List Handle :=
  traverse (fun _ => []) fun h => [h]

/-- The edges of a tree, from the upper to the lower handle. Each comes before the edges below it,
and these before the next edge of the same handle. -/
def edges : Expansion → List (Handle × Handle)
  | node h below => below.flatMap fun t => (h, t.root) :: t.edges

end Expansion

namespace Graph

variable {g : Graph} {h p c l : Handle} {before after : Handle → List Handle}

/-- The tree below a handle of an ordered graph. -/
def Ordered.expansion (hg : g.Ordered) (h : Handle) : Expansion :=
  .node h ((g.childrenOf h).attach.map fun c => hg.expansion c.1)
termination_by hg.wellFounded.wrap h
decreasing_by exact mem_edges_iff.2 c.2

/-- The tree below a handle is the handle over the trees below its children. -/
theorem Ordered.expansion_eq (hg : g.Ordered) (h : Handle) :
    hg.expansion h = .node h ((g.childrenOf h).map hg.expansion) := by
  rw [expansion, List.map_attach_eq_pmap, List.pmap_eq_map]

/-- At the top of the tree stands the handle. -/
theorem Ordered.root_expansion (hg : g.Ordered) (h : Handle) : (hg.expansion h).root = h := by
  rw [expansion_eq]
  rfl

/-- A traversal lists what belongs before the handle, then the traversals of its children, then what
belongs after it. -/
theorem Ordered.traverse_expansion (hg : g.Ordered) (h : Handle) :
    (hg.expansion h).traverse before after =
      before h ++ ((g.childrenOf h).flatMap fun c => (hg.expansion c).traverse before after) ++
        after h := by
  rw [expansion_eq, Expansion.traverse, List.flatMap_map]

/-- In post-order the handle comes after all that is below it. -/
theorem Ordered.postorder_expansion (hg : g.Ordered) (h : Handle) :
    (hg.expansion h).postorder =
      ((g.childrenOf h).flatMap fun c => (hg.expansion c).postorder) ++ [h] := by
  rw [Expansion.postorder, traverse_expansion, List.nil_append]

/-- One comes along the edge to a child and then along the edges below it. -/
theorem Ordered.edges_expansion (hg : g.Ordered) (h : Handle) :
    (hg.expansion h).edges =
      (g.childrenOf h).flatMap fun c => (h, c) :: (hg.expansion c).edges := by
  rw [expansion_eq, Expansion.edges, List.flatMap_map]
  simp only [root_expansion]

/-! ### What is in the tree -/

/-- What is listed of a tree is what the handle reaches, if each handle is listed once at its
place. -/
theorem Ordered.mem_traverse (hg : g.Ordered) (heach : ∀ h, before h ++ after h = [h]) :
    l ∈ (hg.expansion h).traverse before after ↔ g.Reaches h l := by
  induction h using hg.wellFounded.induction with
  | _ h ih =>
  have hhere : l ∈ before h ∨ l ∈ after h ↔ l = h := by
    rw [← List.mem_append, heach, List.mem_singleton]
  have hbelow : (∃ c ∈ g.childrenOf h, l ∈ (hg.expansion c).traverse before after) ↔
      ∃ c, (h, c) ∈ g.edges ∧ g.Reaches c l := by
    apply exists_congr
    intro c
    rw [← mem_edges_iff]
    exact and_congr_right fun hc => ih c hc
  have hreach : g.Reaches h l ↔ h = l ∨ ∃ c, (h, c) ∈ g.edges ∧ g.Reaches c l :=
    Relation.ReflTransGen.cases_head_iff
  rw [hreach, ← hbelow, traverse_expansion, List.mem_append, List.mem_append, List.mem_flatMap,
    or_right_comm, hhere, eq_comm]

/-- Pre-order lists what the handle reaches. -/
theorem Ordered.mem_preorder (hg : g.Ordered) :
    l ∈ (hg.expansion h).preorder ↔ g.Reaches h l :=
  hg.mem_traverse fun _ => rfl

/-- Post-order lists what the handle reaches. -/
theorem Ordered.mem_postorder (hg : g.Ordered) :
    l ∈ (hg.expansion h).postorder ↔ g.Reaches h l :=
  hg.mem_traverse fun _ => rfl

/-- No node is below itself. -/
theorem Ordered.not_mem_below (hg : g.Ordered) (heach : ∀ h, before h ++ after h = [h])
    (h : Handle) :
    h ∉ (g.childrenOf h).flatMap fun c => (hg.expansion c).traverse before after := by
  intro hmem
  obtain ⟨c, hc, hmem⟩ := List.mem_flatMap.1 hmem
  have hreach := (hg.mem_traverse heach).1 hmem
  exact hg.not_transGen_self h (.head' (mem_edges_iff.2 hc) hreach)

/-- The edges of the tree are the edges of the nodes that the handle reaches. -/
theorem Ordered.mem_edges_expansion (hg : g.Ordered) :
    (p, c) ∈ (hg.expansion h).edges ↔ g.Reaches h p ∧ (p, c) ∈ g.edges := by
  induction h using hg.wellFounded.induction with
  | _ h ih =>
  rw [edges_expansion, List.mem_flatMap]
  constructor
  · rintro ⟨d, hd, hpc⟩
    have hhd := mem_edges_iff.2 hd
    rcases List.mem_cons.1 hpc with heq | hpc
    · obtain ⟨rfl, rfl⟩ := Prod.mk.inj heq
      exact ⟨.refl, hhd⟩
    · obtain ⟨hreach, hedge⟩ := (ih d hhd).1 hpc
      exact ⟨.head hhd hreach, hedge⟩
  · rintro ⟨hreach, hedge⟩
    rcases Relation.ReflTransGen.cases_head hreach with rfl | ⟨d, hhd, hdp⟩
    · exact ⟨c, mem_edges_iff.1 hedge, List.mem_cons_self⟩
    · exact ⟨d, mem_edges_iff.1 hhd, List.mem_cons_of_mem _ ((ih d hhd).2 ⟨hdp, hedge⟩)⟩

/-- The first edge of the tree, on the way through it, whose lower end is not live. -/
def Ordered.firstDangling (hg : g.Ordered) (h : Handle) : Option (Handle × Handle) :=
  (hg.expansion h).edges.find? fun e => !g.contains e.2

/-- There is no first dangling edge exactly if all children of what the handle reaches are live. -/
theorem Ordered.firstDangling_eq_none_iff (hg : g.Ordered) :
    hg.firstDangling h = none ↔ ∀ p c, g.Reaches h p → (p, c) ∈ g.edges → g.contains c := by
  simp only [firstDangling, List.find?_eq_none, Prod.forall, hg.mem_edges_expansion]
  simp

/-- There is none below a live handle exactly if whatever it reaches is live. -/
theorem Ordered.firstDangling_eq_none_iff_whole (hg : g.Ordered) (hh : g.contains h) :
    hg.firstDangling h = none ↔ g.Whole h := by
  rw [firstDangling_eq_none_iff]
  constructor
  · intro hlive l hl
    rcases Relation.ReflTransGen.cases_tail hl with rfl | ⟨p, hp, hedge⟩
    · exact hh
    · exact hlive p l hp hedge
  · intro hwhole p c hp hedge
    exact hwhole c (hp.tail hedge)

/-! ### Children first -/

/-- Wherever a handle is listed, its children were listed before. -/
def ChildrenFirst (g : Graph) (order : List Handle) : Prop :=
  ∀ xs p ys, order = xs ++ p :: ys → g.childrenOf p ⊆ xs

/-- Two orders with children first make such an order. -/
theorem ChildrenFirst.append {l m : List Handle} (hl : g.ChildrenFirst l)
    (hm : g.ChildrenFirst m) : g.ChildrenFirst (l ++ m) := by
  intro xs p ys heq
  rcases List.append_eq_append_iff.1 heq with ⟨zs, rfl, hzs⟩ | ⟨zs, rfl, hzs⟩
  · exact fun c hc => List.mem_append_right _ (hm zs p ys hzs hc)
  · match zs, hzs with
    | [], hzs =>
        intro c hc
        cases hm [] p ys hzs.symm hc
    | z :: zs, hzs =>
        obtain ⟨rfl, -⟩ := List.cons.inj hzs
        exact hl xs p zs rfl

/-- A handle can be listed after its children. -/
theorem ChildrenFirst.concat {l : List Handle} (hl : g.ChildrenFirst l)
    (hh : g.childrenOf h ⊆ l) : g.ChildrenFirst (l ++ [h]) := by
  intro xs p ys heq
  rcases List.eq_nil_or_concat ys with rfl | ⟨zs, z, rfl⟩
  · obtain ⟨rfl, hph⟩ := List.append_inj' heq rfl
    obtain rfl := List.singleton_inj.1 hph
    exact hh
  · rw [List.concat_eq_append, ← List.cons_append, ← List.append_assoc] at heq
    exact hl xs p zs (List.append_inj' heq rfl).1

/-- Post-order lists children before their parents. -/
theorem Ordered.childrenFirst_postorder (hg : g.Ordered) (h : Handle) :
    g.ChildrenFirst (hg.expansion h).postorder := by
  induction h using hg.wellFounded.induction with
  | _ h ih =>
  have hlists : ∀ cs ⊆ g.childrenOf h,
      g.ChildrenFirst (cs.flatMap fun c => (hg.expansion c).postorder) := by
    intro cs hcs
    induction cs with
    | nil => intro xs p ys heq; simp at heq
    | cons c cs ihcs =>
        obtain ⟨hc, hcs⟩ := List.cons_subset.1 hcs
        rw [List.flatMap_cons]
        exact (ih c (mem_edges_iff.2 hc)).append (ihcs hcs)
  rw [postorder_expansion]
  apply (hlists _ (List.Subset.refl _)).concat
  intro c hc
  exact List.mem_flatMap.2 ⟨c, hc, hg.mem_postorder.2 .refl⟩

/-- Without repetitions, each child is listed strictly before its parents. -/
theorem ChildrenFirst.idxOf_lt {order : List Handle} (hfirst : g.ChildrenFirst order)
    (hp : p ∈ order) (hc : c ∈ g.childrenOf p) :
    order.eraseDups.idxOf c < order.eraseDups.idxOf p := by
  obtain ⟨xs, ys, rfl, hnot⟩ := List.eq_append_cons_of_mem hp
  have hcs : c ∈ xs.eraseDups := List.mem_eraseDups.2 (hfirst xs p ys rfl hc)
  have hsplit : (xs ++ p :: ys).eraseDups =
      xs.eraseDups ++ p :: (ys.removeAll (xs ++ [p])).eraseDups := by
    rw [List.append_cons, List.eraseDups_append, eraseDups_concat_of_not_mem hnot,
      ← List.append_cons]
  rw [hsplit, List.idxOf_append_of_mem hcs, List.idxOf_append_of_notMem (by simpa using hnot),
    List.idxOf_cons_self, Nat.add_zero]
  exact List.idxOf_lt_length_of_mem hcs

/-- Without repetitions, the node itself comes last in post-order. -/
theorem Ordered.getLast?_postorder (hg : g.Ordered) (h : Handle) :
    (hg.expansion h).postorder.eraseDups.getLast? = some h := by
  have hbelow : h ∉ (g.childrenOf h).flatMap fun c => (hg.expansion c).postorder :=
    hg.not_mem_below (fun _ => rfl) h
  rw [postorder_expansion, eraseDups_concat_of_not_mem hbelow, List.getLast?_concat]

end Graph

end SharedExpr
