import SharedExpr.Proofs.Graph.Journal
import SharedExpr.Proofs.Release.Basic

/-!
# What a release tells

Each move of a cascade is told by one message, or by none if it skips a handle. That the released
node has lost its root is told only by the message that it goes, or by the one that it stays; so the
account of a release begins where its first move has been made.

* `Cascade.Moves.journals` — the moves of a cascade, told.
* `Graph.journals_of_moves` — a release as far as its cascade has got after the first move.
* `Graph.journals_release` — **a release, told**, whether it is carried through or abandoned.
-/

namespace SharedExpr

namespace Cascade

variable {c d : Cascade}

/-- An edge is a defect at the child. -/
theorem site_of_edgeFate {g : Graph} {parent child : Handle} {fault : Fault}
    (hf : g.edgeFate parent child = .defective fault) : fault.site? = some child := by
  rcases Graph.of_edgeFate_eq_defective hf with ⟨-, rfl⟩ | ⟨e, -, -, rfl⟩
  · rfl
  · rfl

/-- What a move does is told of. -/
theorem Move.journals (hm : Move c d) : ∃ ms faults, c.graph.Journals d.graph ms faults [] := by
  cases hm with
  | @lower g _ child _ _ _ _ count _ _ => exact ⟨_, [], g.journals_lowerTo child count⟩
  | @defect g _ _ _ _ _ _ hf _ => exact ⟨_, _, g.journals_note (site_of_edgeFate hf)⟩
  | @reclaim g h _ _ e _ => exact ⟨_, [], g.journals_reclaim h _⟩
  | skip _ => exact ⟨[], [], .refl _⟩

/-- What a cascade does is told of. -/
theorem Moves.journals (hm : Moves c d) : ∃ ms faults, c.graph.Journals d.graph ms faults [] := by
  apply hm.keep (P := fun d => ∃ ms faults, c.graph.Journals d.graph ms faults []) _
    ⟨[], [], .refl _⟩
  rintro d d' ⟨ms, faults, hcd⟩ hmove
  obtain ⟨ms', faults', hdd'⟩ := hmove.journals
  exact ⟨ms ++ ms', faults ++ faults', hcd.trans hdd'⟩

/-- A cascade that is run, told. -/
theorem run_journals (c : Cascade) : ∃ ms faults, c.graph.Journals c.run.2 ms faults [] := by
  obtain ⟨d, hm, hend⟩ := c.exists_moves_ends
  obtain ⟨ms, faults, hcd⟩ := hm.journals
  generalize c.run = result at hend
  cases hend with
  | finished hedges hpending => exact ⟨ms, faults, hcd⟩
  | aborted hpolicy hedges hf =>
      exact ⟨_, _, hcd.trans (d.graph.journals_note (site_of_edgeFate hf))⟩

/-- The first thing that a cascade does is to reclaim its node. -/
theorem Move.graph_of_start {g : Graph} {h : Handle} {e : Entry} (he : g.get? h = some e)
    (hm : Move (.start g h) d) : d.graph = g.reclaim h e.node.kind := by
  cases hm with
  | reclaim he' =>
      obtain rfl := Option.some_inj.1 (he.symm.trans he')
      rfl
  | skip he' => cases he.symm.trans he'

end Cascade

namespace Graph

variable {g : Graph} {r : Root} {e : Entry} {c : Cascade}

/-- The account of a release, as far as its cascade has got after the first move. -/
theorem journals_of_moves (he : g.get? r.node = some e)
    (hm : Cascade.Moves (.start (g.unroot r.node) r.node) c)
    (hne : c ≠ .start (g.unroot r.node) r.node) :
    ∃ ms faults, g.Journals c.graph ms faults [] := by
  rcases Relation.ReflTransGen.cases_head hm with heq | ⟨d, hfirst, hrest⟩
  · exact absurd heq.symm hne
  · have hunroot : (g.unroot r.node).get? r.node = some { e with rooted := false } := by
      rw [get?_unroot, if_pos rfl, he]
      rfl
    have hgraph := hfirst.graph_of_start hunroot
    obtain ⟨ms, faults, hrest⟩ := Cascade.Moves.journals hrest
    rw [hgraph] at hrest
    exact ⟨_, faults, (g.journals_reclaim_unrooted r.node e.node.kind).trans hrest⟩

/-- **A release, told.** -/
theorem journals_release (g : Graph) (r : Root) :
    ∃ ms faults, g.Journals (g.release r).2 ms faults [] := by
  have hrel := g.release_released r
  generalize g.release r = result at hrel
  cases hrel with
  | refused hr => exact ⟨[], [], .refl g⟩
  | unrooted he hroot hpos => exact ⟨_, [], g.journals_unrooted r.node _⟩
  | @reclaimed e c he hroot hzero hm hedges hpending =>
      have hne : c ≠ .start (g.unroot r.node) r.node := by
        rintro rfl
        cases hpending
      obtain ⟨ms, faults, hcascade⟩ := journals_of_moves he hm hne
      exact ⟨_, _, hcascade.trans (c.graph.journals_write _)⟩
  | @aborted e c parent child edges fault he hroot hzero hm hpolicy hedges hf =>
      have hne : c ≠ .start (g.unroot r.node) r.node := by
        rintro rfl
        cases hedges
      obtain ⟨ms, faults, hcascade⟩ := journals_of_moves he hm hne
      exact ⟨_, _, hcascade.trans (c.graph.journals_note (Cascade.site_of_edgeFate hf))⟩

end Graph

end SharedExpr
