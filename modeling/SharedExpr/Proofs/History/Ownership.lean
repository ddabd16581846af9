import SharedExpr.Proofs.Release.Order

/-!
# Nothing is left without an owner

A new node has no owner: nothing refers to it, and no root holds it. That is no loss, because
whoever built it has its handle and has not given it away. It would be a loss if a node came to be
without an owner after it had one, by the release of a root or of the last parent.

* `History.WasOwned` — the node was an operand of a node that was built, or was rooted, at some
  time.
* `History.IsHolder`, `History.Kept` — a live node that is rooted or never had an owner, and what
  such nodes reach.
* `History.looseUnowned_andThen` — no command leaves a node loose that had an owner. For a release
  this is what `Graph.Sheds` says of loose nodes.
* `History.no_leak` — **a node is live exactly if it is kept**, so the release with which a node
  ceases to be kept is the one that reclaims it.
-/

namespace SharedExpr

namespace Graph

variable {g G : Graph} {h k l : Handle} {node : Node}

/-! ### Loose nodes under the operations -/

/-- Whether a node is loose is read off the entries. -/
theorem isLoose_congr (hget : ∀ l, G.get? l = g.get? l) : G.IsLoose k ↔ g.IsLoose k := by
  have hedges : ∀ p, (p, k) ∈ G.edges ↔ (p, k) ∈ g.edges := by
    intro p
    rw [mem_edges, mem_edges, hget]
  simp only [IsLoose, isRooted?, hget, hedges]

/-- A construction makes the new node loose, and no other. -/
theorem IsLoose.of_build (hk : (node.children.foldl raise (g.add node).2).IsLoose k)
    (hlive : ∀ c ∈ node.children, g.contains c) :
    k = (g.add node).1 ∨ g.IsLoose k ∧ k ∉ node.children := by
  by_cases hnew : k = (g.add node).1
  · exact Or.inl hnew
  · obtain ⟨hroot, hparent⟩ := hk
    simp only [mem_edges_iff, childrenOf_built] at hparent
    refine Or.inr ⟨⟨?_, ?_⟩, ?_⟩
    · rw [isRooted?, get?_built hlive, if_neg hnew, Option.map_map] at hroot
      exact hroot
    · intro p hp
      have hpnew : p ≠ (g.add node).1 := by
        rintro rfl
        obtain ⟨e, he⟩ := contains_iff.1 (contains_of_mem_edges hp)
        rw [get?_add_fst] at he
        cases he
      apply hparent p
      rw [if_neg hpnew]
      exact mem_edges_iff.1 hp
    · have := hparent (g.add node).1
      rwa [if_pos rfl] at this

/-- Taking a root makes no node loose. -/
theorem IsLoose.of_setRooted (hl : g.contains l) (hk : (g.setRooted l true).IsLoose k) :
    k ≠ l ∧ g.IsLoose k := by
  obtain ⟨e, he⟩ := contains_iff.1 hl
  obtain ⟨hroot, hparent⟩ := hk
  have hne : k ≠ l := by
    rintro rfl
    simp [isRooted?, get?_setRooted, he] at hroot
  refine ⟨hne, ?_, ?_⟩
  · rwa [isRooted?, get?_setRooted, if_neg hne] at hroot
  · intro p hp
    apply hparent p
    rw [mem_edges_iff, childrenOf_congr (g.node?_setRooted l p true)]
    exact mem_edges_iff.1 hp

/-- A release makes no node loose. -/
theorem Balanced.isLoose_release (hg : g.Balanced) (r : Root) :
    (g.release r).2.IsLoose k ↔ g.IsLoose k := by
  by_cases hr : g.isRooted? r.node = some true
  · obtain ⟨report, G, hrel, hsheds⟩ := hg.exists_sheds hr
    rw [hrel]
    exact hsheds.loose k
  · rw [release_of_not_rooted hr]

/-- What is gone after a release is in its report. -/
theorem Balanced.mem_report (hg : g.Balanced) {r : Root} (hh : g.contains h)
    (hgone : ¬ (g.release r).2.contains h) :
    ∃ report, (g.release r).1 = .done report ∧ h ∈ report := by
  by_cases hr : g.isRooted? r.node = some true
  · obtain ⟨report, G, hrel, hsheds⟩ := hg.exists_sheds hr
    rw [hrel] at hgone ⊢
    refine ⟨report, rfl, ?_⟩
    by_contra hout
    exact hgone (hsheds.mem_contains.2 ⟨hh, fun hin => hout (Array.mem_toList_iff.1 hin)⟩)
  · rw [release_of_not_rooted hr] at hgone
    exact absurd hh hgone

end Graph

namespace History

variable {H : History} {c : Command} {h k : Handle} {r : Root}

/-! ### Owners in the past -/

/-- Whether a command built a node that has `h` among its operands. -/
def employs (h : Handle) : Command × Outcome Reply → Bool
  | (c, .done _) => c.node?.any fun node => h ∈ node.children
  | _ => false

/-- Whether a command took the root of `h`. -/
def roots (h : Handle) : Command × Outcome Reply → Bool
  | (.root l, .done _) => l = h
  | _ => false

/-- The node was an operand of a node that was built, or was rooted, at some time. -/
def WasOwned (H : History) (h : Handle) : Prop :=
  ∃ step ∈ H.transcript, employs h step ∨ roots h step

/-- A node was owned before the last command, or it is employed or rooted by it. -/
theorem wasOwned_andThen : (H.andThen c).WasOwned h ↔ H.WasOwned h ∨
    employs h (c, (H.graph.perform c).1) ∨ roots h (c, (H.graph.perform c).1) := by
  simp [WasOwned, transcript_andThen, or_and_right, exists_or]

/-- Only constructions and roots give owners. -/
theorem not_owns (hnode : c.node? = none) (hroot : ∀ l, c ≠ .root l) (outcome : Outcome Reply) :
    ¬ (employs h (c, outcome) ∨ roots h (c, outcome)) := by
  cases outcome <;> cases c <;> simp_all [employs, roots]

/-- A construction takes no root. -/
theorem roots_of_node? {node : Node} (hnode : c.node? = some node) (outcome : Outcome Reply) :
    roots h (c, outcome) = false := by
  cases outcome <;> cases c <;> simp_all [Command.node?, roots]

/-- Only live nodes are given owners. -/
theorem contains_of_owns {g : Graph}
    (hown : employs h (c, (g.perform c).1) ∨ roots h (c, (g.perform c).1)) : g.contains h := by
  induction c using Command.byKind with
  | build c node hc =>
      have hb := g.build_built node
      rw [Graph.perform_of_node? hc] at hown
      generalize g.build node = result at hown hb
      cases hb with
      | refused => simp [employs, roots, Graph.replying, Outcome.map] at hown
      | done hlive =>
          apply hlive
          simpa [employs, hc, roots_of_node? hc, Graph.replying, Outcome.map] using hown
  | root l =>
      rcases g.root_cases l with ⟨fault, hroot⟩ | ⟨hlive, -, hroot⟩
      · simp [employs, roots, Graph.perform, hroot, Graph.replying, Outcome.map] at hown
      · obtain rfl : l = h := by
          simpa [employs, roots, Command.node?, Graph.perform, hroot, Graph.replying,
            Outcome.map] using hown
        exact hlive
  | increment l => exact absurd hown (not_owns rfl (by simp) _)
  | decrement l => exact absurd hown (not_owns rfl (by simp) _)
  | release r => exact absurd hown (not_owns rfl (by simp) _)
  | takeDefects => exact absurd hown (not_owns rfl (by simp) _)

/-- Only nodes that the graph has had were given owners. -/
theorem issued_of_wasOwned (hh : H.WasOwned h) : H.graph.Issued h :=
  issued_of_mem_transcript (fun _ _ => contains_of_owns) hh

/-! ### No node loses its last owner and stays -/

/-- No loose node ever had an owner. -/
def LooseUnowned (H : History) : Prop :=
  ∀ k, H.graph.IsLoose k → ¬ H.WasOwned k

/-- No command leaves a node loose that had an owner. -/
theorem looseUnowned_andThen (hg : H.graph.Balanced) (hc : c.countsDirectly = false)
    (hH : H.LooseUnowned) : (H.andThen c).LooseUnowned := by
  intro k hk
  rw [graph_andThen] at hk
  rw [wasOwned_andThen]
  induction c using Command.byKind with
  | build c node hnode =>
      have hb := H.graph.build_built node
      rw [Graph.perform_of_node? hnode] at hk ⊢
      generalize H.graph.build node = result at hk hb
      cases hb with
      | refused =>
          rintro (hold | hnow)
          · exact hH k hk hold
          · simp [employs, roots, Graph.replying, Outcome.map] at hnow
      | done hlive =>
          have hroots := roots_of_node? (h := k) hnode (.done (.node (H.graph.add node).1))
          have hemploys : employs k (c, .done (.node (H.graph.add node).1)) =
              decide (k ∈ node.children) := by
            simp [employs, hnode]
          rcases hk.of_build hlive with rfl | ⟨hloose, hnot⟩
          · rintro (hold | hnow)
            · exact H.graph.not_issued_add_fst node (issued_of_wasOwned hold)
            · have := Graph.add_fst_not_mem_children hlive
              simp [Graph.replying, Outcome.map, hroots, hemploys, this] at hnow
          · rintro (hold | hnow)
            · exact hH k hloose hold
            · simp [Graph.replying, Outcome.map, hroots, hemploys, hnot] at hnow
  | increment l => cases hc
  | decrement l => cases hc
  | root l =>
      rcases H.graph.root_cases l with ⟨fault, hroot⟩ | ⟨hlive, -, hroot⟩
      · rw [Graph.perform, hroot] at hk ⊢
        rintro (hold | hnow)
        · exact hH k hk hold
        · simp [employs, roots, Graph.replying, Outcome.map] at hnow
      · rw [Graph.perform, hroot] at hk ⊢
        obtain ⟨hne, hloose⟩ := Graph.IsLoose.of_setRooted hlive hk
        rintro (hold | hnow)
        · exact hH k hloose hold
        · simp [employs, roots, Command.node?, Graph.replying, Outcome.map, Ne.symm hne] at hnow
  | release r =>
      rintro (hold | hnow)
      · exact hH k ((hg.isLoose_release r).1 hk) hold
      · exact not_owns rfl (by simp) _ hnow
  | takeDefects =>
      rintro (hold | hnow)
      · exact hH k ((Graph.isLoose_congr fun _ => rfl).1 hk) hold
      · exact not_owns rfl (by simp) _ hnow

/-- Without direct references, and with room to count, no loose node ever had an owner. -/
theorem looseUnowned (H : History) (hdirect : ∀ c ∈ H.commands, c.countsDirectly = false)
    (hsat : H.NeverSaturated) : H.LooseUnowned := by
  induction H using History.induction with
  | opened id settings =>
      intro k hk
      simp [WasOwned, transcript]
  | andThen H c ih =>
      have hc : c.countsDirectly = false :=
        hdirect c (List.mem_append_right _ (List.mem_singleton_self c))
      have hdirect' := not_counts_of_mem_past hdirect mem_past_andThen
      have hsat' := hsat.of_mem_past mem_past_andThen
      exact looseUnowned_andThen (H.balanced hdirect' hsat') hc (ih hdirect' hsat')

/-! ### Kept nodes -/

/-- The node is live, and a root holds it or it never had an owner. -/
def IsHolder (H : History) (k : Handle) : Prop :=
  H.graph.contains k ∧ (H.graph.isRooted? k = some true ∨ ¬ H.WasOwned k)

/-- A holder reaches the node. -/
def Kept (H : History) (h : Handle) : Prop :=
  ∃ k, H.IsHolder k ∧ H.graph.Reaches k h

/-- If loose nodes never had an owner, what is live is what is kept. -/
theorem contains_iff_kept (hg : H.graph.Balanced) (hH : H.LooseUnowned) :
    H.graph.contains h ↔ H.Kept h := by
  constructor
  · intro hh
    obtain ⟨m, hm, hmh, hparentless⟩ := hg.ordered.exists_parentless hh
    obtain ⟨e, he⟩ := Graph.contains_iff.1 hm
    refine ⟨m, ⟨hm, ?_⟩, hmh⟩
    by_cases hroot : e.rooted
    · exact Or.inl (by simp [Graph.isRooted?, he, hroot])
    · apply Or.inr
      apply hH m
      exact ⟨by simp [Graph.isRooted?, he, hroot], hparentless⟩
  · rintro ⟨k, ⟨hk, -⟩, hkh⟩
    exact hg.sound.contains_of_reaches hk hkh

/-- **Nothing is left without an owner.** In a history without direct references a node is live
exactly if it is reached from a live node that is rooted or never had an owner. A live node that
once had an owner is rooted or has a parent. And a node that was kept until a root was released,
and is not kept after it, was reclaimed by this release. -/
theorem no_leak (H : History) (hdirect : ∀ c ∈ H.commands, c.countsDirectly = false)
    (hsat : H.NeverSaturated) :
    (∀ h, H.graph.contains h ↔ H.Kept h) ∧
    (∀ h, H.graph.contains h → H.WasOwned h →
      H.graph.isRooted? h = some true ∨ ∃ p, (p, h) ∈ H.graph.edges) ∧
    ∀ r h, H.Kept h → ¬ (H.andThen (.release r)).Kept h →
      ∃ report, (H.graph.release r).1 = .done report ∧ h ∈ report ∧
        ¬ (H.graph.release r).2.contains h := by
  have hg := H.balanced hdirect hsat
  have hH := H.looseUnowned hdirect hsat
  refine ⟨fun h => contains_iff_kept hg hH, ?_, ?_⟩
  · intro h hh howned
    obtain ⟨e, he⟩ := Graph.contains_iff.1 hh
    by_contra hno
    simp only [not_or, not_exists] at hno
    refine hH h ⟨?_, hno.2⟩ howned
    simpa [Graph.isRooted?, he] using hno.1
  · intro r h hkept hnot
    have hafter : (H.andThen (.release r)).graph.Balanced := by
      rw [graph_andThen]
      exact hg.release r
    rw [← contains_iff_kept hafter (looseUnowned_andThen hg rfl hH), graph_andThen] at hnot
    obtain ⟨report, hrel, hin⟩ := hg.mem_report ((contains_iff_kept hg hH).2 hkept) hnot
    exact ⟨report, hrel, hin, hnot⟩

/-- A number that was rooted, added to itself and given up again; the sum is held by a root. -/
def handedOver : History where
  id := ⟨1⟩
  settings := .standard
  commands := [.intLiteral 7, .root (.ofSlot 1 0), .arithmetic .add [.ofSlot 1 0, .ofSlot 1 0],
    .root (.ofSlot 1 1), .release ⟨.ofSlot 1 0⟩]

/-- The number stays with the sum and goes with it. -/
theorem handedOver_release :
    (∀ c ∈ handedOver.commands, c.countsDirectly = false) ∧ handedOver.NeverSaturated ∧
      handedOver.graph.contains (.ofSlot 1 0) ∧
      ∃ report, (handedOver.graph.release ⟨.ofSlot 1 1⟩).1 = .done report ∧
        .ofSlot 1 0 ∈ report := by
  have hdirect : ∀ c ∈ handedOver.commands, c.countsDirectly = false := by decide
  have hsat : handedOver.NeverSaturated := by decide
  have hlive : handedOver.graph.contains (.ofSlot 1 0) := by decide
  obtain ⟨hkept, -, hrelease⟩ := no_leak handedOver hdirect hsat
  suffices hlost : ¬ (handedOver.andThen (.release ⟨.ofSlot 1 1⟩)).Kept (.ofSlot 1 0) by
    obtain ⟨report, hrel, hin, -⟩ := hrelease _ _ ((hkept _).1 hlive) hlost
    exact ⟨hdirect, hsat, hlive, report, hrel, hin⟩
  -- nothing is left after the release, and so nothing holds the number
  have hrun : ((Cascade.start (handedOver.graph.unroot (.ofSlot 1 1)) (.ofSlot 1 1)).runWithin
      7).map (fun result => (result.1, result.2.entries)) =
        some (.done #[.ofSlot 1 1, .ofSlot 1 0], []) := by decide
  obtain ⟨⟨outcome, G⟩, hG, heq⟩ := Option.map_eq_some_iff.1 hrun
  obtain ⟨rfl, hempty⟩ := Prod.mk.inj heq
  have hsum : handedOver.graph.get? (.ofSlot 1 1) =
      some ⟨.arithmetic .add [.ofSlot 1 0, .ofSlot 1 0], .zero, true⟩ := by decide
  have hafter : (handedOver.andThen (.release ⟨.ofSlot 1 1⟩)).graph.entries = [] := by
    rw [graph_andThen_release (r := ⟨.ofSlot 1 1⟩) hsum rfl rfl hG]
    exact hempty
  rintro ⟨k, ⟨hk, -⟩, -⟩
  obtain ⟨e, he⟩ := Graph.contains_iff.1 hk
  have hmem := Graph.mem_entries.2 he
  rw [hafter] at hmem
  cases hmem

end History

end SharedExpr
