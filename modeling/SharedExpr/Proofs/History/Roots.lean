import SharedExpr.Proofs.Graph.Evolution
import SharedExpr.Proofs.History.Basic
import SharedExpr.Proofs.Release.Basic

/-!
# Roots and marks

A graph does not keep the roots that it gives out. It keeps a mark at each node, and the marks are
enough: in every history, corrupted counts and releases that were abandoned included, the marked
nodes are those whose root was taken and not given up since.

* `Graph.isRooted?_release` — a release takes the mark of its own root and no other, however it
  ends.
* `History.mem_held_iff` — **a root is held exactly if its node is live and marked**.
* `History.nodup_held` — there is at most one root for a node.
-/

namespace SharedExpr

/-- Roots are the same if they hold the same node. -/
theorem Root.ext_iff {r s : Root} : r = s ↔ r.node = s.node := by
  cases r
  cases s
  simp

namespace Cascade.Accounts

variable {g : Graph} {r h : Handle} {c : Cascade}

/-- A cascade neither roots a node nor reclaims a rooted one. -/
theorem isRooted?_iff (hc : Accounts g r c) (hr : g.isRooted? r ≠ some true) :
    c.graph.isRooted? h = some true ↔ g.isRooted? h = some true := by
  simp only [Graph.isRooted?, Option.map_eq_some_iff]
  constructor
  · rintro ⟨e, he, hroot⟩
    obtain ⟨-, e₀, he₀, rfl⟩ := hc.entry he
    exact ⟨e₀, he₀, hroot⟩
  · rintro ⟨e₀, he₀, hroot⟩
    have hne : h ≠ r := by
      rintro rfl
      exact hr (by simp [Graph.isRooted?, he₀, hroot])
    have hnot : h ∉ c.report := fun hm => by
      have := hc.justified.rooted_eq_false (Array.mem_toList_iff.2 hm) hne he₀
      rw [hroot] at this
      cases this
    refine ⟨{ e₀ with count := e₀.count.minus (c.dropped g h) }, ?_, hroot⟩
    rw [hc.get? h, if_neg hnot, he₀]
    rfl

end Cascade.Accounts

namespace Graph

variable {g : Graph} {h l : Handle} {r : Root} {node : Node}

/-- A root that is given up is gone, and the others stay. -/
theorem isRooted?_unroot (l : Handle) :
    (g.unroot h).isRooted? l = some true ↔ g.isRooted? l = some true ∧ l ≠ h := by
  simp only [isRooted?, get?_unroot]
  by_cases hl : l = h
  · subst hl
    simp
  · simp [hl]

/-- A release takes the mark of its own root and no other, however it ends. -/
theorem isRooted?_release (g : Graph) (r : Root) (h : Handle) :
    (g.release r).2.isRooted? h = some true ↔ g.isRooted? h = some true ∧ h ≠ r.node := by
  have hrel := g.release_released r
  have hun : ((g.unroot r.node).isRooted? r.node) ≠ some true := fun hcon =>
    ((isRooted?_unroot r.node).1 hcon).2 rfl
  generalize g.release r = result at hrel
  cases hrel with
  | refused hr =>
      refine ⟨fun hh => ⟨hh, ?_⟩, And.left⟩
      rintro rfl
      exact hr hh
  | unrooted he hroot hpos => exact isRooted?_unroot h
  | reclaimed he hroot hzero hm hedges hpending =>
      exact ((accounts_of_moves hm he hzero).isRooted?_iff hun).trans (isRooted?_unroot h)
  | @aborted e c parent child edges fault he hroot hzero hm hpolicy hedges hf =>
      have hnote : (c.graph.note child fault).isRooted? h = c.graph.isRooted? h := by
        rw [isRooted?, isRooted?, get?_note]
      rw [hnote]
      exact ((accounts_of_moves hm he hzero).isRooted?_iff hun).trans (isRooted?_unroot h)

/-- A construction neither marks a node nor takes a mark away. -/
theorem isRooted?_build (g : Graph) (node : Node) (h : Handle) :
    (g.build node).2.isRooted? h = some true ↔ g.isRooted? h = some true := by
  have hb := g.build_built node
  generalize g.build node = result at hb
  cases hb with
  | refused hm hdead => rfl
  | done hlive =>
      simp only [isRooted?, get?_built hlive]
      by_cases hh : h = (g.add node).1
      · rw [if_pos hh, hh, get?_add_fst]
        simp
      · rw [if_neg hh, Option.map_map]
        rfl

/-- A reference more leaves the marks as they are. -/
theorem isRooted?_increment (g : Graph) (l h : Handle) :
    (g.increment l).2.isRooted? h = g.isRooted? h := by
  rcases g.increment_cases l with ⟨fault, hinc⟩ | ⟨-, n, hinc⟩
  · rw [hinc]
  · rw [hinc, isRooted?, get?_raise]
    split
    · rename_i hl
      rw [hl, Option.map_map]
      rfl
    · rfl

/-- A reference less leaves the marks as they are. -/
theorem isRooted?_decrement (g : Graph) (l h : Handle) :
    (g.decrement l).2.isRooted? h = g.isRooted? h := by
  rcases g.decrement_cases l with ⟨e, count, -, -, hdec⟩ | ⟨-, hstore, hid, -⟩
  · rw [hdec, isRooted?, get?_lowerTo]
    split
    · rename_i hl
      rw [hl, Option.map_map]
      rfl
    · rfl
  · rw [isRooted?, get?_congr hid hstore]
    rfl

/-- A root is refused, or it is given out for a live node that had none. -/
theorem root_cases (g : Graph) (l : Handle) :
    (∃ fault, g.root l = (.refused fault, g)) ∨
      g.contains l ∧ g.isRooted? l ≠ some true ∧
        g.root l = (.done ⟨l⟩, (g.setRooted l true).tell (.rooted l)) := by
  unfold root
  split
  · exact Or.inl ⟨_, rfl⟩
  · rename_i e he
    split
    · exact Or.inl ⟨_, rfl⟩
    · rename_i hroot
      exact Or.inr ⟨contains_iff.2 ⟨e, he⟩, by simpa [isRooted?, he] using hroot, rfl⟩

/-- Neither counts nor nodes change when a root is taken. -/
theorem count?_root (g : Graph) (l h : Handle) : (g.root l).2.count? h = g.count? h := by
  rcases g.root_cases l with ⟨fault, hroot⟩ | ⟨-, -, hroot⟩
  · rw [hroot]
  · rw [hroot]
    exact g.count?_setRooted l true h

/-- A root changes no node. -/
theorem node?_root (g : Graph) (l h : Handle) : (g.root l).2.node? h = g.node? h := by
  rcases g.root_cases l with ⟨fault, hroot⟩ | ⟨-, -, hroot⟩
  · rw [hroot]
  · rw [hroot]
    exact g.node?_setRooted l h true

/-- A root marks its node, and the others keep their marks. -/
theorem isRooted?_setRooted_true (hl : g.contains l) (h : Handle) :
    (g.setRooted l true).isRooted? h = some true ↔ h = l ∨ g.isRooted? h = some true := by
  obtain ⟨e, he⟩ := contains_iff.1 hl
  simp only [isRooted?, get?_setRooted]
  by_cases hh : h = l
  · simp [hh, he]
  · simp [hh]

end Graph

/-! ### Held roots are marks -/

namespace History

variable {H : History} {r : Root}

/-- The roots that are held agree with the marks, and none is held twice. -/
theorem held_agree (H : History) :
    H.held.Nodup ∧ ∀ r, r ∈ H.held ↔ H.graph.isRooted? r.node = some true := by
  induction H using History.induction with
  | opened id settings =>
      refine ⟨List.nodup_nil, ?_⟩
      intro r
      rw [Graph.isRooted?, get?_opened]
      simp [held, transcript]
  | andThen H c ih =>
      obtain ⟨hnodup, hmem⟩ := ih
      rw [held_andThen, graph_andThen]
      induction c using Command.byKind with
      | build c node hc =>
          rw [Graph.perform_of_node? hc]
          have hheld : heldAfter H.held (c, (Graph.replying .node (H.graph.build node)).1) =
              H.held := by
            cases c <;> simp_all [Command.node?, heldAfter]
          rw [hheld]
          exact ⟨hnodup, fun r => (hmem r).trans (H.graph.isRooted?_build node r.node).symm⟩
      | increment l =>
          refine ⟨hnodup, ?_⟩
          intro r
          show r ∈ H.held ↔ (H.graph.increment l).2.isRooted? r.node = some true
          rw [hmem, Graph.isRooted?_increment]
      | decrement l =>
          refine ⟨hnodup, ?_⟩
          intro r
          show r ∈ H.held ↔ (H.graph.decrement l).2.isRooted? r.node = some true
          rw [hmem, Graph.isRooted?_decrement]
      | root l =>
          rcases H.graph.root_cases l with ⟨fault, hroot⟩ | ⟨hlive, hno, hroot⟩
          · rw [Graph.perform, hroot]
            exact ⟨hnodup, hmem⟩
          · rw [Graph.perform, hroot]
            refine ⟨List.nodup_cons.2 ⟨fun hin => hno ((hmem _).1 hin), hnodup⟩, ?_⟩
            intro r
            show r ∈ ⟨l⟩ :: H.held ↔ (H.graph.setRooted l true).isRooted? r.node = some true
            rw [Graph.isRooted?_setRooted_true hlive, List.mem_cons, hmem]
            exact or_congr_left Root.ext_iff
      | release s =>
          refine ⟨hnodup.erase s, ?_⟩
          intro r
          show r ∈ H.held.erase s ↔ (H.graph.release s).2.isRooted? r.node = some true
          rw [Graph.isRooted?_release, hnodup.mem_erase_iff, hmem, and_comm]
          exact and_congr_right fun _ => not_congr Root.ext_iff
      | takeDefects => exact ⟨hnodup, hmem⟩

/-- **A root is held exactly if its node is live and marked.** -/
theorem mem_held_iff : r ∈ H.held ↔ H.graph.isRooted? r.node = some true :=
  H.held_agree.2 r

/-- There is at most one root for a node. -/
theorem nodup_held (H : History) : H.held.Nodup :=
  H.held_agree.1

end History

end SharedExpr
