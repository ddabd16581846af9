import Mathlib.Data.Nat.ModEq
import SharedExpr.Proofs.Cascade.Drift
import SharedExpr.Proofs.Graph.Audit
import SharedExpr.Proofs.History.Soundness

/-!
# Counts that drifted, accounted for exactly

A user may add references that no operand accounts for, and take away references that operands
account for. The counts are wrong then, but it can be said by how much: under the reporting policy
the account of every live node comes out even if besides these references the underflows are put
down that releases recorded at the node.

* `Graph.recordedBy` — the defects that a release records.
* `Graph.drifts_release` — what a release does to a node's count and edges differs by the underflows
  that it records at the node.
* `History.underflows` — the underflows at a node that the releases of a history recorded.
* `History.even_andThen` — every command keeps the accounts even.
* `History.audit_modEq` — what an audit makes of the account with its counters of 32 bits.
* `History.drift_exact` — **the account of every live node, and what an audit reports hence**.
-/

namespace SharedExpr

namespace Graph

variable {g : Graph} {h : Handle} {r : Root}

/-! ### Releases -/

/-- The defects that a release records. -/
def recordedBy (g : Graph) (r : Root) : List Fault :=
  (g.release r).2.defects.toList.drop g.defects.size

/-- Giving up a root lets no count drift. -/
theorem drifts_unroot (g : Graph) (h : Handle) : g.Drifts [] (g.unroot h) :=
  (Drifts.refl g).congr (g.count?_setRooted h false) (fun l => g.node?_setRooted h l false)
    (g.defects_setRooted h false)

/-- A release lets counts drift no further than it records. -/
theorem drifts_release (hp : g.policy = .report) (r : Root) : g.Drifts [] (g.release r).2 := by
  have hrel := g.release_released r
  generalize g.release r = result at hrel
  cases hrel with
  | refused hr => exact .refl g
  | unrooted he hroot hpos =>
      exact (g.drifts_unroot r.node).congr (fun _ => rfl) (fun _ => rfl) rfl
  | @reclaimed e c he hroot hzero hm hedges hpending =>
      have hc : g.Drifts (c.edges.map Prod.snd) c.graph :=
        hm.keep (P := fun c => g.Drifts (c.edges.map Prod.snd) c.graph) Cascade.drifts_of_move
          (g.drifts_unroot r.node)
      rw [hedges] at hc
      exact hc.congr (fun _ => rfl) (fun _ => rfl) rfl
  | aborted he hroot hzero hm hpolicy => simp [hp] at hpolicy

/-- A release adds the underflows that it records. -/
theorem underflows_release (hp : g.policy = .report) (r : Root) (h : Handle) :
    (g.release r).2.underflows h =
      g.underflows h + (g.recordedBy r).countP (Fault.isUnderflowAt h) := by
  have hprefix := (drifts_release hp r).recorded
  rw [underflows, underflows, recordedBy, ← List.countP_append, ← Array.length_toList,
    List.prefix_iff_eq_append.1 hprefix]

end Graph

namespace History

variable {H : History} {c : Command} {h l : Handle} {r : Root}

/-! ### Underflows of a history -/

/-- The defects that a command records, if it is a release. -/
def recordedAt : History × Command → List Fault
  | (K, .release r) => K.graph.recordedBy r
  | _ => []

/-- The number of underflows at a node that releases recorded. -/
def underflows (H : History) (h : Handle) : ℕ :=
  (H.steps.flatMap recordedAt).countP (Fault.isUnderflowAt h)

/-- The last command adds the underflows that it records. -/
theorem underflows_andThen (H : History) (c : Command) (h : Handle) :
    (H.andThen c).underflows h =
      H.underflows h + (recordedAt (H, c)).countP (Fault.isUnderflowAt h) := by
  rw [underflows, steps_andThen, List.flatMap_append, List.countP_append, List.flatMap_singleton]
  rfl

/-- Only releases record underflows that are counted here. -/
theorem underflows_of_not_release (hc : ∀ r, c ≠ .release r) :
    (H.andThen c).underflows h = H.underflows h := by
  rw [underflows_andThen]
  cases c with
  | release r => exact absurd rfl (hc r)
  | _ => rfl

/-! ### Nothing is known of nodes to come -/

/-- A reference is taken from a live node. -/
theorem contains_of_lowers {g : Graph} (hl : lowers h (c, (g.perform c).1)) : g.contains h := by
  cases c with
  | decrement l =>
      rcases g.decrement_cases l with ⟨e, count, he, -, hdec⟩ | ⟨hno, -⟩
      · rw [Graph.perform, hdec] at hl
        obtain rfl : l = h := by simpa [lowers, Graph.replying, Outcome.map] using hl
        exact Graph.contains_iff.2 ⟨e, he⟩
      · rw [Graph.perform, Graph.replying] at hl
        rcases ho : (g.decrement l).1 with n | fault | fault
        · exact absurd ho (hno n)
        · simp [lowers, Outcome.map, ho] at hl
        · simp [lowers, Outcome.map, ho] at hl
  | _ => simp [lowers] at hl

/-- A node from which a reference was taken was issued. -/
theorem issued_of_lowered (H : History) (hh : 0 < H.lowered h) : H.graph.Issued h := by
  apply issued_of_mem_transcript (P := fun step => lowers h step)
  · exact fun g c => contains_of_lowers
  · exact List.countP_pos_iff.1 hh

/-- A node with a recorded underflow was issued. -/
theorem issued_of_underflows (H : History) (hpolicy : H.settings.policy = .report)
    (hh : 0 < H.underflows h) : H.graph.Issued h := by
  induction H using History.induction with
  | opened id settings => exact absurd hh (Nat.lt_irrefl 0)
  | andThen H c ih =>
      rw [graph_andThen]
      apply (H.graph.perform_evolves c).issued
      rw [underflows_andThen] at hh
      by_cases hold : 0 < H.underflows h
      · exact ih hpolicy hold
      · -- the last command is the first release that records an underflow, so the node is live
        apply Graph.issued_of_contains
        by_contra hdead
        cases c with
        | release r =>
            have hp : H.graph.policy = .report := H.policy_graph.trans hpolicy
            have hsame := (Graph.drifts_release hp r).dead h hdead
            rw [Graph.underflows_release hp] at hsame
            rw [recordedAt] at hh
            omega
        | _ => exact hold hh

/-- A node that is yet to be built has no history. -/
theorem eq_zero_of_not_issued (hpolicy : H.settings.policy = .report) (hh : ¬ H.graph.Issued h) :
    H.raised h = 0 ∧ H.lowered h = 0 ∧ H.underflows h = 0 := by
  refine ⟨?_, ?_, ?_⟩
  · exact Nat.eq_zero_of_not_pos fun hpos => hh (H.issued_of_raised hpos)
  · exact Nat.eq_zero_of_not_pos fun hpos => hh (H.issued_of_lowered hpos)
  · exact Nat.eq_zero_of_not_pos fun hpos => hh (H.issued_of_underflows hpolicy hpos)

/-- No edge leads to a node that is yet to be built. -/
theorem inDegree_of_not_issued (hh : ¬ H.graph.Issued h) : H.graph.inDegree h = 0 := by
  by_contra hne
  obtain ⟨p, hp⟩ := Graph.inDegree_pos_iff.1 (Nat.pos_of_ne_zero hne)
  exact hh (H.ordered.issued p h hp)

/-! ### Even accounts -/

/-- Of every live node, the count with the references taken away comes to the edges with the
references added and the underflows. -/
def Even (H : History) : Prop :=
  ∀ h e, H.graph.get? h = some e →
    e.count.value + H.lowered h = H.graph.inDegree h + H.raised h + H.underflows h

/-- A command that changes neither counts nor edges and is not counted keeps accounts even. -/
theorem Even.of_same (hH : H.Even) (hcount : ∀ h, (H.andThen c).graph.count? h = H.graph.count? h)
    (hnode : ∀ h, (H.andThen c).graph.node? h = H.graph.node? h)
    (hraised : ∀ h, (H.andThen c).raised h = H.raised h)
    (hlowered : ∀ h, (H.andThen c).lowered h = H.lowered h)
    (hunder : ∀ h, (H.andThen c).underflows h = H.underflows h) : (H.andThen c).Even := by
  intro h e he
  obtain ⟨e₀, he₀, hvalue⟩ : ∃ e₀, H.graph.get? h = some e₀ ∧ e₀.count.value = e.count.value := by
    have := hcount h
    rw [Graph.count?, he] at this
    exact Option.map_eq_some_iff.1 this.symm
  rw [hraised, hlowered, hunder, ← hvalue, hH h e₀ he₀,
    Graph.inDegree_congr fun p => Graph.childrenOf_congr (hnode p)]

section step

variable (hH : H.Even)
include hH

/-- A construction keeps accounts even: the new edges are counted. -/
theorem even_build {node : Node} (hpolicy : H.settings.policy = .report) (hc : c.node? = some node)
    (hroom : ∀ h e, (H.andThen c).graph.get? h = some e → e.count.value < Count.max) :
    (H.andThen c).Even := by
  have hdirect := Command.countsDirectly_of_node? hc
  have hnot : ∀ r, c ≠ .release r := by
    rintro r rfl
    cases hc
  intro h e he
  have hmax := hroom h e he
  rw [raised_of_not_counts hdirect, lowered_of_not_counts hdirect, underflows_of_not_release hnot]
  rw [graph_andThen, Graph.perform_of_node? hc] at he ⊢
  have hb := H.graph.build_built node
  generalize H.graph.build node = result at hb he
  cases hb with
  | refused hm hdead => exact hH h e he
  | done hlive =>
      show _ = (node.children.foldl Graph.raise (H.graph.add node).2).inDegree h + _ + _
      have he : (node.children.foldl Graph.raise (H.graph.add node).2).get? h = some e := he
      rw [Graph.inDegree_built]
      rw [Graph.get?_built hlive] at he
      by_cases hh : h = (H.graph.add node).1
      · -- the handle is new, so nothing is known of it
        rw [if_pos hh] at he
        cases he
        have hnew := hh ▸ H.graph.not_issued_add_fst node
        obtain ⟨hr, hl, hu⟩ := eq_zero_of_not_issued hpolicy hnew
        have hcount : node.children.count h = 0 :=
          List.count_eq_zero.2 (hh ▸ Graph.add_fst_not_mem_children hlive)
        rw [hr, hl, hu, inDegree_of_not_issued hnew, hcount]
        rfl
      · rw [if_neg hh] at he
        obtain ⟨e₀, he₀, rfl⟩ := Option.map_eq_some_iff.1 he
        have heven := hH h e₀ he₀
        rw [Count.value_plus] at hmax ⊢
        omega

/-- A direct reference keeps accounts even: it is counted as added. -/
theorem even_increment
    (hroom : ∀ h e, (H.andThen (.increment l)).graph.get? h = some e → e.count.value < Count.max) :
    (H.andThen (.increment l)).Even := by
  have hunder : ∀ h, (H.andThen (.increment l)).underflows h = H.underflows h := fun h =>
    underflows_of_not_release (by simp)
  rcases H.graph.increment_cases l with ⟨fault, hinc⟩ | ⟨-, n, hinc⟩
  · refine hH.of_same ?_ ?_ ?_ ?_ hunder
    · intro h
      rw [graph_andThen, Graph.perform, hinc]
      rfl
    · intro h
      rw [graph_andThen, Graph.perform, hinc]
      rfl
    · intro h
      rw [raised_andThen, Graph.perform, hinc]
      rfl
    · intro h
      rw [lowered_andThen]
      rfl
  · have hgraph : (H.andThen (.increment l)).graph = H.graph.raise l := by
      rw [graph_andThen, Graph.perform, hinc]
      rfl
    intro h e he
    have hmax := hroom h e he
    rw [hunder, raised_andThen, lowered_andThen, Graph.perform, hinc, hgraph,
      Graph.inDegree_congr fun p => Graph.childrenOf_congr (H.graph.node?_raise l p)]
    rw [hgraph, Graph.get?_raise] at he
    by_cases hh : h = l
    · subst hh
      rw [if_pos rfl] at he
      obtain ⟨e₀, he₀, rfl⟩ := Option.map_eq_some_iff.1 he
      have heven := hH h e₀ he₀
      rw [Count.value_increment] at hmax ⊢
      simp [raises, lowers, Graph.replying, Outcome.map]
      omega
    · rw [if_neg hh] at he
      have heven := hH h e he
      simpa [raises, lowers, Graph.replying, Outcome.map, Ne.symm hh] using heven

/-- A reference taken directly keeps accounts even: it is counted as taken, and a refusal changes
nothing. -/
theorem even_decrement : (H.andThen (.decrement l)).Even := by
  have hunder : ∀ h, (H.andThen (.decrement l)).underflows h = H.underflows h := fun h =>
    underflows_of_not_release (by simp)
  rcases H.graph.decrement_cases l with ⟨e₀, count, he₀, hcount, hdec⟩ | ⟨hno, hstore, hid, -⟩
  · have hgraph : (H.andThen (.decrement l)).graph = H.graph.lowerTo l count := by
      rw [graph_andThen, Graph.perform, hdec]
      rfl
    intro h e he
    rw [hunder, raised_andThen, lowered_andThen, Graph.perform, hdec, hgraph,
      Graph.inDegree_congr fun p => Graph.childrenOf_congr (H.graph.node?_lowerTo l count p)]
    rw [hgraph, Graph.get?_lowerTo] at he
    by_cases hh : h = l
    · subst hh
      rw [if_pos rfl, he₀, Option.map_some, Option.some_inj] at he
      subst he
      have hone := Count.value_of_decrement? hcount
      have heven := hH h e₀ he₀
      simp [raises, lowers, Graph.replying, Outcome.map]
      omega
    · rw [if_neg hh] at he
      have heven := hH h e he
      simpa [raises, lowers, Graph.replying, Outcome.map, Ne.symm hh] using heven
  · have hget : ∀ h, (H.andThen (.decrement l)).graph.get? h = H.graph.get? h := by
      intro h
      rw [graph_andThen]
      exact Graph.get?_congr hid hstore h
    refine hH.of_same ?_ ?_ ?_ ?_ hunder
    · intro h
      rw [Graph.count?, hget]
      rfl
    · intro h
      rw [Graph.node?, hget]
      rfl
    · intro h
      rw [raised_andThen]
      rfl
    · intro h
      rw [lowered_andThen, Graph.perform]
      rcases ho : (H.graph.decrement l).1 with n | fault | fault
      · exact absurd ho (hno n)
      · simp [lowers, Graph.replying, Outcome.map, ho]
      · simp [lowers, Graph.replying, Outcome.map, ho]

/-- A new root touches no account. -/
theorem even_root : (H.andThen (.root l)).Even := by
  refine hH.of_same ?_ ?_ (fun h => raised_of_not_counts rfl) (fun h => lowered_of_not_counts rfl)
    (fun h => underflows_of_not_release (by simp))
  · intro h
    rw [graph_andThen]
    exact H.graph.count?_root l h
  · intro h
    rw [graph_andThen]
    exact H.graph.node?_root l h

/-- A release moves count, edges and underflows of a node together. -/
theorem even_release (hpolicy : H.settings.policy = .report) (r : Root) :
    (H.andThen (.release r)).Even := by
  have hp : H.graph.policy = .report := H.policy_graph.trans hpolicy
  intro h e he
  rw [raised_of_not_counts rfl, lowered_of_not_counts rfl, underflows_andThen]
  rw [graph_andThen] at he ⊢
  obtain ⟨e₀, he₀, hsum⟩ := (Graph.drifts_release hp r).entry h e he
  have heven := hH h e₀ he₀
  have hunder := Graph.underflows_release hp r h
  show _ = (H.graph.release r).2.inDegree h + _ + (_ + (H.graph.recordedBy r).countP _)
  rw [List.count_nil] at hsum
  omega

end step

/-- Every command keeps accounts even, if there is room to count. -/
theorem even_andThen (hpolicy : H.settings.policy = .report) (hH : H.Even)
    (hroom : ∀ h e, (H.andThen c).graph.get? h = some e → e.count.value < Count.max) :
    (H.andThen c).Even := by
  induction c using Command.byKind with
  | build c node hc => exact even_build hH hpolicy hc hroom
  | increment l => exact even_increment hH hroom
  | decrement l => exact even_decrement hH
  | root l => exact even_root hH
  | release r => exact even_release hH hpolicy r
  | takeDefects =>
      exact hH.of_same (fun h => by rw [graph_andThen]; rfl) (fun h => by rw [graph_andThen]; rfl)
        (fun h => raised_of_not_counts rfl) (fun h => lowered_of_not_counts rfl)
        (fun h => underflows_of_not_release (by simp))

/-- Accounts are even at every point, if there was always room to count. -/
theorem even (H : History) (hpolicy : H.settings.policy = .report) (hsat : H.NeverSaturated) :
    H.Even := by
  induction H using History.induction with
  | opened id settings =>
      intro h e he
      rw [get?_opened] at he
      cases he
  | andThen H c ih =>
      have hH := ih hpolicy (hsat.of_mem_past mem_past_andThen)
      exact even_andThen hpolicy hH fun h e => hsat.lt (self_mem_past _)

/-- An audit counts edges in 32 bits, so it reports a live node, once, exactly if the references
taken away are not those added and the underflows modulo `2 ^ 32`. -/
theorem audit_modEq (hpolicy : H.settings.policy = .report) (hsat : H.NeverSaturated) {e : Entry}
    (he : H.graph.get? h = some e) : H.graph.audit.filter (Fault.isMismatchAt h) =
      if H.lowered h ≡ H.raised h + H.underflows h [MOD 2 ^ 32] then [] else
        [.countMismatch h e.count.value (H.graph.recount h)] := by
  have heven := H.even hpolicy hsat h e he
  have hfits : e.count.value < 2 ^ 32 := Nat.lt_succ_of_le e.count.value_le
  have hiff : H.graph.recount h = e.count.value ↔
      H.lowered h ≡ H.raised h + H.underflows h [MOD 2 ^ 32] := by
    unfold Graph.recount UInt32.size Nat.ModEq
    omega
  rw [Graph.filter_audit he]
  simp only [hiff]

/-- **Every live node's account is even.** Its count and the references taken from it directly come
to the edges that lead to it, the references added to it directly and the underflows that releases
recorded at it; so the stored and the actual number differ by the difference between the references
taken away and those added with the underflows. Hence an audit reports the node, once and with these
two numbers, exactly if there is such a difference. Besides, an audit reports each edge of a live
node to one that is gone, as often as it is there, and nothing else.

Counters must not run over: neither those that are stored, nor the one in which the audit counts the
edges to the node, whose 32 bits hold numbers up to `Count.max`. What becomes of larger ones is said
by `History.audit_modEq`. -/
theorem drift_exact (H : History) (hpolicy : H.settings.policy = .report)
    (hsat : H.NeverSaturated) :
    (∀ h e, H.graph.get? h = some e →
      e.count.value + H.lowered h = H.graph.inDegree h + H.raised h + H.underflows h ∧
      (e.count.value : ℤ) - H.graph.inDegree h = H.raised h + H.underflows h - H.lowered h ∧
      (H.graph.inDegree h ≤ Count.max → H.graph.audit.filter (Fault.isMismatchAt h) =
        if H.lowered h = H.raised h + H.underflows h then [] else
          [.countMismatch h e.count.value (H.graph.inDegree h)])) ∧
    (∀ p c, H.graph.audit.count (.danglingEdge p c) =
      if H.graph.contains c then 0 else (H.graph.childrenOf p).count c) ∧
    ∀ fault ∈ H.graph.audit, (∃ h, H.graph.contains h ∧ fault.isMismatchAt h) ∨
      ∃ p c, (p, c) ∈ H.graph.edges ∧ ¬ H.graph.contains c ∧ fault = .danglingEdge p c := by
  refine ⟨?_, H.graph.count_audit, fun fault => Graph.of_mem_audit⟩
  intro h e he
  have heven := H.even hpolicy hsat h e he
  refine ⟨heven, by omega, ?_⟩
  intro hfits
  have hiff : H.graph.inDegree h = e.count.value ↔ H.lowered h = H.raised h + H.underflows h := by
    omega
  rw [Graph.filter_audit he, Graph.recount_of_le hfits]
  simp only [hiff]

/-- A number that is rooted and added to itself, and from which a reference was taken that the sum
accounts for; the sum is held by a root. -/
def strained : History where
  id := ⟨1⟩
  settings := .standard
  commands := [.intLiteral 7, .root (.ofSlot 1 0), .arithmetic .add [.ofSlot 1 0, .ofSlot 1 0],
    .root (.ofSlot 1 1), .decrement (.ofSlot 1 0)]

/-- When the sum goes, the number has one reference for two edges, and the underflow makes good for
the reference that was taken. -/
theorem strained_account :
    (strained.andThen (.release ⟨.ofSlot 1 1⟩)).settings.policy = .report ∧
      (strained.andThen (.release ⟨.ofSlot 1 1⟩)).NeverSaturated ∧
      (strained.andThen (.release ⟨.ofSlot 1 1⟩)).graph.inDegree (.ofSlot 1 0) ≤ Count.max ∧
      (strained.andThen (.release ⟨.ofSlot 1 1⟩)).lowered (.ofSlot 1 0) = 1 ∧
      (strained.andThen (.release ⟨.ofSlot 1 1⟩)).underflows (.ofSlot 1 0) = 1 ∧
      (strained.andThen (.release ⟨.ofSlot 1 1⟩)).graph.audit.filter
        (Fault.isMismatchAt (.ofSlot 1 0)) = [] := by
  have hrun : ((Cascade.start (strained.graph.unroot (.ofSlot 1 1)) (.ofSlot 1 1)).runWithin
      7).map (fun result => (result.1, result.2.entries, result.2.defects)) =
        some (.done #[.ofSlot 1 1], [(.ofSlot 1 0, ⟨.intLiteral 7, .zero, true⟩)],
          #[.underflow (.ofSlot 1 0) 0]) := by decide
  obtain ⟨⟨outcome, G⟩, hG, heq⟩ := Option.map_eq_some_iff.1 hrun
  obtain ⟨rfl, heq⟩ := Prod.mk.inj heq
  obtain ⟨hentries, hdefects⟩ := Prod.mk.inj heq
  have hsum : strained.graph.get? (.ofSlot 1 1) =
      some ⟨.arithmetic .add [.ofSlot 1 0, .ofSlot 1 0], .zero, true⟩ := by decide
  have hrel := Graph.release_of_runWithin (r := ⟨.ofSlot 1 1⟩) hsum rfl rfl hG
  have hafter : (strained.andThen (.release ⟨.ofSlot 1 1⟩)).graph.entries =
      [(.ofSlot 1 0, ⟨.intLiteral 7, .zero, true⟩)] := by
    rw [graph_andThen, Graph.perform, hrel]
    exact hentries
  have hbefore : strained.NeverSaturated := by decide
  have hsat : (strained.andThen (.release ⟨.ofSlot 1 1⟩)).NeverSaturated := by
    apply hbefore.andThen
    rw [hafter]
    decide
  have hfits : (strained.andThen (.release ⟨.ofSlot 1 1⟩)).graph.inDegree (.ofSlot 1 0) ≤
      Count.max := by
    rw [Graph.inDegree, Graph.edges, hafter]
    decide
  have hlowered : (strained.andThen (.release ⟨.ofSlot 1 1⟩)).lowered (.ofSlot 1 0) = 1 :=
    (lowered_of_not_counts rfl).trans (by decide)
  have hunder : (strained.andThen (.release ⟨.ofSlot 1 1⟩)).underflows (.ofSlot 1 0) = 1 := by
    have hbefore : strained.underflows (.ofSlot 1 0) = 0 := by decide
    have hsize : strained.graph.defects.size = 0 := by decide
    have hdef : (strained.graph.release ⟨.ofSlot 1 1⟩).2.defects =
        #[.underflow (.ofSlot 1 0) 0] := by
      rw [hrel]
      exact hdefects
    rw [underflows_andThen, hbefore, recordedAt, Graph.recordedBy, hdef, hsize]
    rfl
  have hraised : (strained.andThen (.release ⟨.ofSlot 1 1⟩)).raised (.ofSlot 1 0) = 0 :=
    (raised_of_not_counts rfl).trans (by decide)
  refine ⟨rfl, hsat, hfits, hlowered, hunder, ?_⟩
  obtain ⟨haccount, -, -⟩ := drift_exact (strained.andThen (.release ⟨.ofSlot 1 1⟩)) rfl hsat
  have hnumber := Graph.mem_entries.1 (hafter ▸ List.mem_singleton_self _)
  obtain ⟨-, -, haudit⟩ := haccount _ _ hnumber
  rw [haudit hfits, hlowered, hunder, hraised]
  rfl

end History

end SharedExpr
