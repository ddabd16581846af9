import Mathlib.Data.List.Nodup
import SharedExpr.Proofs.History.Evolution
import SharedExpr.Proofs.History.Roots

/-!
# The nodes that were built

A handle is issued when a node is built. Which node that was is part of the history of the graph,
and stays so when the node is gone.

* `Graph.Thins` — no node of the second graph is new. Every command thins the graph out, or builds
  one node over live operands (`Graph.perform_builds_or_thins`).
* `History.made`, `History.issued` — the handles that were issued, in order, with their nodes.
* `History.nodup_issued` — **no handle is issued twice**.
* `History.mem_made_of_node?` — a live node is the one for which its handle was issued.
* `History.node?_of_mem_past` — **what is live now was the same at every point at which its handle
  was issued already**, so what is gone stays gone.
* `History.idxOf_lt_of_mem_made` — the operands of a node have handles that were issued before its
  own.
-/

namespace SharedExpr

namespace Graph

variable {a b c g : Graph} {h l : Handle} {n : Node}

/-! ### Graphs without new nodes -/

/-- No node of the second graph is new. -/
def Thins (a b : Graph) : Prop :=
  ∀ h n, b.node? h = some n → a.node? h = some n

/-- A graph has no new nodes compared with itself. -/
theorem Thins.refl (g : Graph) : g.Thins g :=
  fun _ _ hn => hn

/-- Where there are no new nodes and then again none, there are none. -/
theorem Thins.trans (hab : a.Thins b) (hbc : b.Thins c) : a.Thins c :=
  fun h n hn => hab h n (hbc h n hn)

/-- Graphs with the same nodes have no new ones. -/
theorem thins_of_node?_eq (hn : ∀ h, b.node? h = a.node? h) : a.Thins b := by
  intro h n hb
  rwa [hn] at hb

/-- A cascade adds no node. -/
theorem thins_of_moves {start end' : Cascade} (hm : Cascade.Moves start end') :
    start.graph.Thins end'.graph := by
  apply hm.keep (P := fun c => start.graph.Thins c.graph) _ (.refl _)
  intro c d hc hcd
  apply hc.trans
  cases hcd with
  | lower he hcount => exact thins_of_node?_eq fun h => node?_lowerTo ..
  | defect hf hp => exact thins_of_node?_eq fun h => node?_note ..
  | reclaim he =>
      intro h n hn
      rw [node?_reclaim] at hn
      split at hn
      · cases hn
      · exact hn
  | skip he => exact .refl _

/-- A release makes no new node. -/
theorem thins_release (g : Graph) (r : Root) : g.Thins (g.release r).2 := by
  have hunroot : g.Thins (g.unroot r.node) :=
    thins_of_node?_eq fun h => g.node?_setRooted r.node h false
  have hrel := g.release_released r
  generalize g.release r = result at hrel
  cases hrel with
  | refused hr => exact .refl g
  | unrooted he hroot hpos => exact hunroot
  | reclaimed he hroot hzero hm hedges hpending => exact hunroot.trans (thins_of_moves hm)
  | aborted he hroot hzero hm hpolicy hedges hf =>
      exact (hunroot.trans (thins_of_moves hm)).trans (thins_of_node?_eq fun h => node?_note ..)

end Graph

namespace History

variable {H K : History} {c : Command} {h p l : Handle} {n : Node}

/-! ### What one command builds -/

/-- The handle that a command issued, with the node for which it did. -/
def made? : Command × Outcome Reply → Option (Handle × Node)
  | (c, .done (.node h)) => c.node?.map fun node => (h, node)
  | _ => none

/-- A command that does not build issues no handle. -/
theorem made?_of_node? {outcome : Outcome Reply} (hc : c.node? = none) :
    made? (c, outcome) = none := by
  unfold made?
  split
  · rename_i heq
    cases heq
    rw [hc]
    rfl
  · rfl

end History

/-- **A command builds a node over live operands, or no node is new after it.** -/
theorem Graph.perform_builds_or_thins (g : Graph) (c : Command) :
    (∃ node, (∀ child ∈ node.children, g.contains child) ∧
      History.made? (c, (g.perform c).1) = some ((g.add node).1, node) ∧
      ∀ l, (g.perform c).2.node? l = if l = (g.add node).1 then some node else g.node? l) ∨
    History.made? (c, (g.perform c).1) = none ∧ g.Thins (g.perform c).2 := by
  induction c using Command.byKind with
  | build c node hc =>
      rw [perform_of_node? hc]
      have hb := g.build_built node
      generalize g.build node = result at hb
      cases hb with
      | refused hm hdead => exact Or.inr ⟨rfl, .refl g⟩
      | done hlive =>
          refine Or.inl ⟨node, hlive, ?_, fun l => node?_built l⟩
          show c.node?.map _ = _
          rw [hc]
          rfl
  | increment h =>
      refine Or.inr ⟨History.made?_of_node? rfl, ?_⟩
      show g.Thins (g.increment h).2
      rcases g.increment_cases h with ⟨fault, hinc⟩ | ⟨-, m, hinc⟩
      · rw [hinc]
        exact .refl g
      · rw [hinc]
        exact thins_of_node?_eq fun l => g.node?_raise h l
  | decrement h =>
      refine Or.inr ⟨History.made?_of_node? rfl, ?_⟩
      show g.Thins (g.decrement h).2
      rcases g.decrement_cases h with ⟨e, count, -, -, hdec⟩ | ⟨-, hstore, hid, -⟩
      · rw [hdec]
        exact thins_of_node?_eq fun l => g.node?_lowerTo h count l
      · apply thins_of_node?_eq
        intro l
        rw [node?, node?, get?_congr hid hstore]
  | root h => exact Or.inr ⟨History.made?_of_node? rfl, thins_of_node?_eq fun l => g.node?_root h l⟩
  | release r => exact Or.inr ⟨History.made?_of_node? rfl, g.thins_release r⟩
  | takeDefects => exact Or.inr ⟨rfl, .refl g⟩

/-- A node whose handle was issued before a command is the same before and after it. -/
theorem Graph.node?_of_perform {g : Graph} {c : Command} {h : Handle} {n : Node}
    (hh : g.Issued h) (hn : (g.perform c).2.node? h = some n) : g.node? h = some n := by
  rcases g.perform_builds_or_thins c with ⟨node, -, -, hnode⟩ | ⟨-, hthins⟩
  · rw [hnode, if_neg] at hn
    · exact hn
    · rintro rfl
      exact g.not_issued_add_fst node hh
  · exact hthins h n hn

namespace History

variable {H K : History} {c : Command} {h p l : Handle} {n : Node}

/-! ### What a history built -/

/-- The handles that were issued, in order, each with its node. -/
def made (H : History) : List (Handle × Node) :=
  H.transcript.filterMap made?

/-- The handles that were issued, in order. -/
def issued (H : History) : List Handle :=
  H.made.map Prod.fst

/-- What the last command issued comes last. -/
theorem made_andThen :
    (H.andThen c).made = H.made ++ (made? (c, (H.graph.perform c).1)).toList := by
  rw [made, transcript_andThen, List.filterMap_append]
  cases hm : made? (c, (H.graph.perform c).1) <;> simp [made, hm]

/-- With each command the list of handles stays as it is, or grows by one that was not issued. -/
theorem made_andThen_cases (H : History) (c : Command) :
    (∃ node, (∀ child ∈ node.children, H.graph.contains child) ∧
      (H.andThen c).made = H.made ++ [((H.graph.add node).1, node)] ∧
      ∀ l, (H.andThen c).graph.node? l =
        if l = (H.graph.add node).1 then some node else H.graph.node? l) ∨
    (H.andThen c).made = H.made ∧ H.graph.Thins (H.andThen c).graph := by
  rw [made_andThen, graph_andThen]
  rcases H.graph.perform_builds_or_thins c with ⟨node, hlive, hmade, hnode⟩ | ⟨hmade, hthins⟩
  · rw [hmade]
    exact Or.inl ⟨node, hlive, rfl, hnode⟩
  · rw [hmade]
    exact Or.inr ⟨List.append_nil _, hthins⟩

/-- A handle that was issued with a node was issued. -/
theorem mem_issued_of_mem_made (hm : (h, n) ∈ H.made) : h ∈ H.issued :=
  List.mem_map.2 ⟨_, hm, rfl⟩

/-- A live node is the one for which its handle was issued. -/
theorem mem_made_of_node? (hn : H.graph.node? h = some n) : (h, n) ∈ H.made := by
  induction H using History.induction generalizing n with
  | opened id settings =>
      rw [Graph.node?, get?_opened] at hn
      cases hn
  | andThen H c ih =>
      rcases H.made_andThen_cases c with ⟨node, -, hmade, hnode⟩ | ⟨hmade, hthins⟩
      · rw [hmade, List.mem_append, List.mem_singleton]
        rw [hnode] at hn
        split at hn
        · rename_i hh
          exact Or.inr (Prod.ext hh (Option.some_inj.1 hn).symm)
        · exact Or.inl (ih hn)
      · rw [hmade]
        exact ih (hthins h n hn)

/-- A live handle was issued. -/
theorem mem_issued_of_contains (hh : H.graph.contains h) : h ∈ H.issued := by
  obtain ⟨n, hn⟩ := Graph.contains_iff_node?.1 hh
  exact mem_issued_of_mem_made (mem_made_of_node? hn)

/-- What was handed out by a command was issued by the graph. -/
theorem issued_of_mem_issued (hh : h ∈ H.issued) : H.graph.Issued h := by
  induction H using History.induction with
  | opened id settings => cases hh
  | andThen H c ih =>
      have hkeep : ∀ l, H.graph.Issued l → (H.andThen c).graph.Issued l := by
        intro l hl
        rw [graph_andThen]
        exact (H.graph.perform_evolves c).issued hl
      rw [issued] at hh
      rcases H.made_andThen_cases c with ⟨node, -, hmade, hnode⟩ | ⟨hmade, -⟩
      · rw [hmade, List.map_append, List.mem_append] at hh
        rcases hh with hold | hnew
        · exact hkeep h (ih hold)
        · obtain rfl : h = (H.graph.add node).1 := List.mem_singleton.1 hnew
          apply Graph.issued_of_contains
          apply Graph.contains_iff_node?.2
          exact ⟨node, (hnode _).trans (if_pos rfl)⟩
      · rw [hmade] at hh
        exact hkeep h (ih hh)

/-- A graph issues handles of its own identity. -/
theorem graph_of_mem_issued (hh : h ∈ H.issued) : h.graph = H.id := by
  obtain ⟨k, rfl, -⟩ := issued_of_mem_issued hh
  exact H.id_graph

/-- **No handle is issued twice.** -/
theorem nodup_issued (H : History) : H.issued.Nodup := by
  induction H using History.induction with
  | opened id settings => exact List.nodup_nil
  | andThen H c ih =>
      rw [issued]
      rcases H.made_andThen_cases c with ⟨node, -, hmade, -⟩ | ⟨hmade, -⟩
      · rw [hmade, List.map_append]
        apply ih.append (List.nodup_singleton _)
        rw [List.disjoint_singleton]
        exact fun hin => H.graph.not_issued_add_fst node (issued_of_mem_issued hin)
      · rwa [hmade]

/-- A handle that is issued now was not issued before. -/
theorem not_mem_issued_of_made? {m : Handle × Node}
    (hm : made? (c, (H.graph.perform c).1) = some m) :
    m.1 ∉ H.issued ∧ m.1 ∈ (H.andThen c).issued := by
  have hnodup := (H.andThen c).nodup_issued
  have hissued : (H.andThen c).issued = H.issued ++ [m.1] := by
    rw [issued, made_andThen, hm, List.map_append]
    rfl
  rw [hissued, List.nodup_append] at hnodup
  rw [hissued]
  refine ⟨?_, List.mem_append_right _ (List.mem_singleton_self _)⟩
  intro hold
  exact hnodup.2.2 _ hold _ (List.mem_singleton_self _) rfl

/-- A handle names its node from the command on that issues it. -/
theorem node?_of_made? {m : Handle × Node} (hm : made? (c, (H.graph.perform c).1) = some m) :
    (H.andThen c).graph.node? m.1 = some m.2 := by
  rw [graph_andThen]
  rcases H.graph.perform_builds_or_thins c with ⟨node, -, hmade, hnode⟩ | ⟨hmade, -⟩
  · obtain rfl := Option.some_inj.1 (hm.symm.trans hmade)
    rw [hnode, if_pos rfl]
  · rw [hm] at hmade
    cases hmade

/-- The node for which a live handle was issued is the node that it names. -/
theorem node?_of_mem_made (hm : (h, n) ∈ H.made) (hh : H.graph.contains h) :
    H.graph.node? h = some n := by
  obtain ⟨m, hn⟩ := Graph.contains_iff_node?.1 hh
  have heq := List.inj_on_of_nodup_map H.nodup_issued hm (mem_made_of_node? hn) rfl
  obtain ⟨-, rfl⟩ := Prod.mk.inj heq
  exact hn

/-! ### Points of a run -/

/-- A handle that was issued at an earlier point was issued. -/
theorem issued_of_mem_past (hK : K ∈ H.past) (hh : K.graph.Issued h) : H.graph.Issued h := by
  induction H using History.induction with
  | opened id settings =>
      obtain rfl : K = ⟨id, settings, []⟩ := List.mem_singleton.1 hK
      exact hh
  | andThen H c ih =>
      rw [past_andThen, List.mem_append, List.mem_singleton] at hK
      rcases hK with hK | rfl
      · rw [graph_andThen]
        exact (H.graph.perform_evolves c).issued (ih hK)
      · exact hh

/-- **What is live now was the same at every point at which its handle was issued already.** -/
theorem node?_of_mem_past (hK : K ∈ H.past) (hh : K.graph.Issued h)
    (hn : H.graph.node? h = some n) : K.graph.node? h = some n := by
  induction H using History.induction with
  | opened id settings =>
      obtain rfl : K = ⟨id, settings, []⟩ := List.mem_singleton.1 hK
      exact hn
  | andThen H c ih =>
      rw [past_andThen, List.mem_append, List.mem_singleton] at hK
      rcases hK with hK | rfl
      · rw [graph_andThen] at hn
        exact ih hK (Graph.node?_of_perform (issued_of_mem_past hK hh) hn)
      · exact hn

/-- What is gone stays gone. -/
theorem not_contains_of_mem_past (hK : K ∈ H.past) (hh : K.graph.Issued h)
    (hgone : ¬ K.graph.contains h) : ¬ H.graph.contains h := by
  intro hlive
  obtain ⟨n, hn⟩ := Graph.contains_iff_node?.1 hlive
  exact hgone (Graph.contains_iff_node?.2 ⟨n, node?_of_mem_past hK hh hn⟩)

/-! ### The order of issue -/

/-- The operands of a node have handles that were issued before its own. -/
theorem idxOf_lt_of_mem_made (hm : (p, n) ∈ H.made) (hc : l ∈ n.children) :
    l ∈ H.issued ∧ H.issued.idxOf l < H.issued.idxOf p := by
  induction H using History.induction with
  | opened id settings => cases hm
  | andThen H c ih =>
      rcases H.made_andThen_cases c with ⟨node, hlive, hmade, -⟩ | ⟨hmade, -⟩
      · have hissued : (H.andThen c).issued = H.issued ++ [(H.graph.add node).1] := by
          rw [issued, hmade, List.map_append]
          rfl
        rw [hmade, List.mem_append, List.mem_singleton] at hm
        rw [hissued, List.mem_append]
        rcases hm with hold | hnew
        · obtain ⟨hl, hlt⟩ := ih hold
          rw [List.idxOf_append_of_mem hl, List.idxOf_append_of_mem (mem_issued_of_mem_made hold)]
          exact ⟨Or.inl hl, hlt⟩
        · obtain ⟨rfl, rfl⟩ := Prod.mk.inj hnew
          have hl := mem_issued_of_contains (hlive l hc)
          have hfresh : (H.graph.add n).1 ∉ H.issued := fun hin =>
            H.graph.not_issued_add_fst n (issued_of_mem_issued hin)
          rw [List.idxOf_append_of_mem hl, List.idxOf_append_of_notMem hfresh]
          exact ⟨Or.inl hl, Nat.lt_add_right _ (List.idxOf_lt_length_of_mem hl)⟩
      · rw [hmade] at hm
        rw [issued, hmade]
        exact ih hm

end History

end SharedExpr
