import Mathlib.Data.Multiset.DershowitzManna
import SharedExpr.Proofs.Graph.Evolution

/-!
# Every way down ends

In an ordered graph ranks fall along edges, so a path that follows edges comes to an end, and so
does any work that goes down from several nodes at once.

* `Graph.Ordered.wellFounded` — the edges are well-founded, and no node reaches itself.
* `Graph.Descends` — of some work that is to be done at nodes, one piece is replaced by pieces at
  children of its node, any number of them, and other pieces may be dropped.
* `Graph.Ordered.wellFounded_descends` — **such work ends**, in whichever order its pieces are
  taken. This is the multiset order on ranks.
-/

namespace SharedExpr.Graph

variable {g : Graph} {h : Handle}

/-- Going from parent to child comes to an end. -/
theorem Ordered.wellFounded (hg : g.Ordered) : WellFounded fun c p => (p, c) ∈ g.edges := by
  obtain ⟨rank, hrank⟩ := hg.rank
  apply Subrelation.wf (r := InvImage (· < ·) rank)
  · intro c p hpc
    exact hrank p c hpc
  · exact InvImage.wf rank wellFounded_lt

/-- No node reaches itself along one edge or more. -/
theorem Ordered.not_transGen_self (hg : g.Ordered) (h : Handle) :
    ¬ Relation.TransGen (fun p c => (p, c) ∈ g.edges) h h := by
  obtain ⟨rank, hrank⟩ := hg.rank
  have hfall : ∀ l, Relation.TransGen (fun p c => (p, c) ∈ g.edges) h l → rank l < rank h := by
    intro l hl
    induction hl with
    | single hedge => exact hrank h _ hedge
    | tail _ hedge ih => exact (hrank _ _ hedge).trans ih
  intro hself
  exact Nat.lt_irrefl _ (hfall h hself)

/-- One piece of the work `T` is replaced by pieces at children of its node, and some of the others
are dropped. -/
def Descends (g : Graph) (S T : Multiset Handle) : Prop :=
  ∃ p below kept dropped, T = p ::ₘ (kept + dropped) ∧ S = below + kept ∧
    ∀ c ∈ below, (p, c) ∈ g.edges

/-- **Work that goes down ends.** -/
theorem Ordered.wellFounded_descends (hg : g.Ordered) : WellFounded g.Descends := by
  obtain ⟨rank, hrank⟩ := hg.rank
  apply Subrelation.wf (r := InvImage Multiset.IsDershowitzMannaLT (Multiset.map rank))
  · rintro S T ⟨p, below, kept, dropped, rfl, rfl, hbelow⟩
    refine ⟨kept.map rank, below.map rank, rank p ::ₘ dropped.map rank, ?_, ?_, ?_, ?_⟩
    · exact Multiset.cons_ne_zero
    · rw [Multiset.map_add, add_comm]
    · rw [Multiset.map_cons, Multiset.map_add, Multiset.add_cons]
    · intro y hy
      obtain ⟨c, hc, rfl⟩ := Multiset.mem_map.1 hy
      exact ⟨rank p, Multiset.mem_cons_self _ _, hrank p c (hbelow c hc)⟩
  · exact InvImage.wf _ Multiset.wellFounded_isDershowitzMannaLT

end SharedExpr.Graph
