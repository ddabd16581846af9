import SharedExpr.Proofs.Graph.Agreement
import SharedExpr.Proofs.Lists

/-!
# The trees that handles stand for

A node names its operands by handles, and a node that is named twice is stored once. Written out,
with an operand in the place of each handle and so on down, an expression is a tree, in which
nothing is shared and no handle is left.

* `Tree`, `Graph.StandsFor` — the trees, and which of them a handle stands for. There is at most one
  (`Graph.StandsFor.unique`), and in an ordered graph there is one exactly if whatever the handle
  reaches is live (`Graph.Ordered.whole_iff_exists_standsFor`).
* `Graph.alike_iff_exists_standsFor` — handles are alike if they stand for the same tree, whatever
  graphs they are in and however these share their nodes.
* `Graph.Ordered.sameExpression_iff_exists_standsFor` — **so the comparison of two handles is the
  comparison of two trees**.
-/

namespace SharedExpr

/-- An expression written out: a head over its operands, in order. -/
inductive Tree where
  /-- The head, and the operands in order. -/
  | node (head : Head) (operands : List Tree)

namespace Graph

variable {g k : Graph} {a b h : Handle} {n : Node} {t u : Tree} {ts : List Tree}

/-! ### Handles and trees -/

/-- The handle stands for the tree: its node is live and has the head of the tree, and its children
stand for the operands of the tree, in order. -/
inductive StandsFor (g : Graph) : Handle → Tree → Prop
  | intro {h : Handle} {n : Node} {ts : List Tree} (hn : g.node? h = some n)
      (hlen : n.children.length = ts.length)
      (hts : ∀ p ∈ n.children.zip ts, StandsFor g p.1 p.2) : StandsFor g h (.node n.head ts)

/-- A live node over trees of its children stands for its head over these trees. -/
theorem standsFor_of_node? (hn : g.node? h = some n)
    (hts : List.Forall₂ g.StandsFor n.children ts) : g.StandsFor h (.node n.head ts) := by
  obtain ⟨hlen, hts⟩ := List.forall₂_iff_zip.1 hts
  exact .intro hn hlen fun p hp => hts hp

/-- What a handle stands for is read off its node. -/
theorem StandsFor.exists_node? (ht : g.StandsFor h t) :
    ∃ n ts, g.node? h = some n ∧ t = .node n.head ts ∧
      List.Forall₂ g.StandsFor n.children ts := by
  obtain ⟨hn, hlen, hts⟩ := ht
  exact ⟨_, _, hn, rfl, List.forall₂_iff_zip.2 ⟨hlen, fun hp => hts _ hp⟩⟩

/-- A handle stands for one tree at most. -/
theorem StandsFor.unique (ht : g.StandsFor h t) (hu : g.StandsFor h u) : t = u := by
  induction ht generalizing u with
  | @intro h n ts hn hlen hts ih =>
      obtain ⟨m, us, hm, rfl, hus⟩ := hu.exists_node?
      obtain rfl := Option.some_inj.1 (hn.symm.trans hm)
      have hall : List.Forall₂ (fun c t => ∀ u, g.StandsFor c u → t = u) n.children ts :=
        List.forall₂_iff_zip.2 ⟨hlen, fun hp _ => ih _ hp⟩
      have heq : List.Forall₂ (· = ·) ts us :=
        forall₂_of_forall₂ (fun _ _ _ hunique hu => hunique _ hu) hall.flip hus.flip
      rw [List.forall₂_eq_eq_eq] at heq
      rw [heq]

/-! ### Equality of trees -/

/-- Handles that stand for one tree are alike. -/
theorem StandsFor.alike (ha : g.StandsFor a t) (hb : k.StandsFor b t) : g.Alike k a b := by
  induction ha generalizing b with
  | @intro a m ts hm hlen hts ih =>
      obtain ⟨n, us, hn, heq, hus⟩ := hb.exists_node?
      obtain ⟨hhead, rfl⟩ := Tree.node.inj heq
      have hall : List.Forall₂ (fun c t => ∀ d, k.StandsFor d t → g.Alike k c d) m.children ts :=
        List.forall₂_iff_zip.2 ⟨hlen, fun hp _ => ih _ hp⟩
      have hpairs : List.Forall₂ (g.Alike k) m.children n.children :=
        forall₂_of_forall₂ (fun _ _ _ halike hd => halike _ hd) hall hus
      obtain ⟨hlen, hchildren⟩ := List.forall₂_iff_zip.1 hpairs
      exact .intro hm hn (by simp [sameForm, hhead, hlen]) fun p hp => hchildren hp

/-- Alike handles stand for one tree. -/
theorem Alike.exists_standsFor (hab : g.Alike k a b) :
    ∃ t, g.StandsFor a t ∧ k.StandsFor b t := by
  induction hab with
  | @intro a b m n hm hn hform _ ih =>
      obtain ⟨hhead, hlen⟩ : m.head = n.head ∧ m.children.length = n.children.length := by
        simpa [sameForm] using hform
      -- one operand for each pair of children
      obtain ⟨ts, hts⟩ := exists_forall₂ ih
      have hleft : List.Forall₂ g.StandsFor m.children ts := by
        rw [← List.map_fst_zip hlen.le, List.forall₂_map_left_iff]
        exact hts.imp fun _ _ hp => hp.1
      have hright : List.Forall₂ k.StandsFor n.children ts := by
        rw [← List.map_snd_zip hlen.ge, List.forall₂_map_left_iff]
        exact hts.imp fun _ _ hp => hp.2
      exact ⟨.node m.head ts, standsFor_of_node? hm hleft, hhead ▸ standsFor_of_node? hn hright⟩

/-- **Handles are alike exactly if they stand for one tree.** -/
theorem alike_iff_exists_standsFor :
    g.Alike k a b ↔ ∃ t, g.StandsFor a t ∧ k.StandsFor b t :=
  ⟨Alike.exists_standsFor, fun ⟨_, ha, hb⟩ => ha.alike hb⟩

/-- **On ordered graphs, comparing handles is comparing trees.** -/
theorem Ordered.sameExpression_iff_exists_standsFor (hg : g.Ordered) :
    g.sameExpression a k b ↔ ∃ t, g.StandsFor a t ∧ k.StandsFor b t :=
  hg.sameExpression_iff.trans alike_iff_exists_standsFor

/-! ### Handles without a tree -/

/-- All that is written out is live. -/
theorem StandsFor.whole (ht : g.StandsFor h t) : g.Whole h := by
  induction ht with
  | @intro h n ts hn hlen hts ih =>
      intro l hl
      rcases Relation.ReflTransGen.cases_head hl with rfl | ⟨c, hc, hcl⟩
      · exact contains_iff_node?.2 ⟨n, hn⟩
      · rw [mem_edges_iff, childrenOf, hn] at hc
        have hall : List.Forall₂ (fun c t => g.Whole c ∧ g.StandsFor c t) n.children ts :=
          List.forall₂_iff_zip.2 ⟨hlen, fun hp => ⟨ih _ hp, hts _ hp⟩⟩
        exact ((List.forall₂_and_left _ _).1 hall).1 c hc l hcl

/-- **In an ordered graph a handle stands for a tree exactly if whatever it reaches is live.** -/
theorem Ordered.whole_iff_exists_standsFor (hg : g.Ordered) :
    g.Whole h ↔ ∃ t, g.StandsFor h t := by
  constructor
  · intro hwhole
    -- a whole handle is alike to itself
    have hself : g.Alike g h h := hg.alike_of_agreesBelow hwhole fun _ _ => rfl
    obtain ⟨t, ht, -⟩ := hself.exists_standsFor
    exact ⟨t, ht⟩
  · rintro ⟨t, ht⟩
    exact ht.whole

end Graph

end SharedExpr
