import SharedExpr.Proofs.Cascade.Accounts
import SharedExpr.Proofs.Cascade.Totals
import SharedExpr.Proofs.Graph.Evolution

/-!
# What a release comes to

A release is refused, or only takes the root away, or reclaims nodes, or is abandoned at a defect.
`Graph.Released` says what is known in each case, in terms of the account of the cascade, and
`Graph.release_released` says that there is no other case.
-/

namespace SharedExpr.Graph

variable {g : Graph} {r : Root} {h : Handle}

/-- The graph in which the cascade of a release begins: the root is taken away already. -/
def unroot (g : Graph) (h : Handle) : Graph :=
  g.setRooted h false

/-- Giving up a root changes no children. -/
@[simp] theorem childrenOf_unroot (h p : Handle) : (g.unroot h).childrenOf p = g.childrenOf p :=
  childrenOf_congr (g.node?_setRooted h p false)

/-- Giving up a root changes no edges. -/
theorem mem_edges_unroot {p c : Handle} : (p, c) ∈ (g.unroot h).edges ↔ (p, c) ∈ g.edges := by
  rw [mem_edges_iff, mem_edges_iff, childrenOf_unroot]

/-- Giving up a root takes the mark from its node, and nothing else changes. -/
theorem get?_unroot (l : Handle) : (g.unroot h).get? l =
    if l = h then (g.get? h).map (fun e => { e with rooted := false }) else g.get? l :=
  g.get?_setRooted h false l

/-- The node of a root that is given up is still live. -/
theorem contains_unroot {e : Entry} (he : g.get? r.node = some e) :
    (g.unroot r.node).contains r.node :=
  contains_iff.2 ⟨_, by rw [get?_unroot, if_pos rfl, he]; rfl⟩

/-- A node whose count is zero keeps that count when its root is taken away. -/
theorem count_unroot_of_zero {e : Entry} (he : g.get? r.node = some e)
    (hzero : e.count.value = 0) :
    ∀ e', (g.unroot r.node).get? r.node = some e' → e'.count.value = 0 := by
  intro e' he'
  rw [get?_unroot, if_pos rfl, he] at he'
  cases he'
  exact hzero

/-! ### What is known during the cascade of a release -/

section moves

variable {e : Entry} {c : Cascade} (hm : Cascade.Moves (.start (g.unroot r.node) r.node) c)
include hm

/-- The accounts of a cascade that begins with a released node hold. -/
theorem accounts_of_moves (he : g.get? r.node = some e) (hzero : e.count.value = 0) :
    Cascade.Accounts (g.unroot r.node) r.node c :=
  hm.keep (fun hc => hc.move (count_unroot_of_zero he hzero))
    (Cascade.accounts_start (contains_unroot he))

/-- The sums of a cascade that begins with a released node hold. -/
theorem conserves_of_moves : Cascade.Conserves (g.unroot r.node) c :=
  hm.keep (fun hc => hc.move) (Cascade.conserves_start _ _)

/-- What a cascade does is made up of changes. -/
theorem evolves_of_moves : (g.unroot r.node).Evolves c.graph :=
  hm.keep (P := fun c => (g.unroot r.node).Evolves c.graph) (fun hc hd => hc.trans hd.evolves) .refl

end moves

/-! ### There is no other case -/

/-- What a release of the root `r` can come to in the graph `g`. -/
inductive Released (g : Graph) (r : Root) : Outcome (Array Handle) × Graph → Prop
  /-- The node is not rooted here. -/
  | refused (hr : g.isRooted? r.node ≠ some true) :
      Released g r (.refused (.unknownNode r.node), g)
  /-- References keep the node. -/
  | unrooted {e} (he : g.get? r.node = some e) (hroot : e.rooted = true)
      (hpos : 0 < e.count.value) :
      Released g r (.done #[], (g.unroot r.node).tell (.unrooted r.node e.count.value))
  /-- The node is reclaimed, and what goes with it. -/
  | reclaimed {e c} (he : g.get? r.node = some e) (hroot : e.rooted = true)
      (hzero : e.count.value = 0) (hm : Cascade.Moves (.start (g.unroot r.node) r.node) c)
      (hedges : c.edges = []) (hpending : c.pending = []) :
      Released g r
        (.done c.report, c.graph.write .debug (releaseRecord r.node c.report.size c.graph.size))
  /-- The policy abandons the release at a defect. -/
  | aborted {e c parent child edges fault} (he : g.get? r.node = some e) (hroot : e.rooted = true)
      (hzero : e.count.value = 0) (hm : Cascade.Moves (.start (g.unroot r.node) r.node) c)
      (hpolicy : g.policy = .abort) (hedges : c.edges = (parent, child) :: edges)
      (hf : c.graph.edgeFate parent child = .defective fault) :
      Released g r (.aborted fault, c.graph.note child fault)

/-- A release has one of the outcomes listed. -/
theorem release_released (g : Graph) (r : Root) : Released g r (g.release r) := by
  unfold release
  split
  · rename_i he
    exact .refused (by simp [isRooted?, he])
  · rename_i e he
    split
    · rename_i hroot
      dsimp only
      split
      · rename_i hz
        have hzero := Count.isZero_iff.1 hz
        obtain ⟨c, hm, hend⟩ := (Cascade.start (g.unroot r.node) r.node).exists_moves_ends
        show Released g r ((g.unroot r.node).reclaimFrom r.node)
        unfold reclaimFrom
        generalize (Cascade.start (g.unroot r.node) r.node).run = result at hend
        cases hend with
        | finished hedges hpending =>
            exact .reclaimed he hroot hzero hm hedges hpending
        | aborted hpolicy hedges hf =>
            have hp : g.policy = .abort := by
              rw [← hpolicy, (accounts_of_moves hm he hzero).policy, unroot, policy_setRooted]
            exact .aborted he hroot hzero hm hp hedges hf
      · rename_i hz
        exact .unrooted he hroot (by rw [Count.isZero_iff] at hz; omega)
    · rename_i hroot
      exact .refused (by simpa [isRooted?, he] using hroot)

/-- A root of a node that is not rooted here is refused, and nothing happens. -/
theorem release_of_not_rooted (hr : g.isRooted? r.node ≠ some true) :
    g.release r = (.refused (.unknownNode r.node), g) := by
  unfold release
  split
  · rfl
  · rename_i e he
    rw [if_neg (by simpa [isRooted?, he] using hr)]

section root

variable {e : Entry} (he : g.get? r.node = some e) (hroot : e.rooted = true)
include he hroot

/-- The root of a node with references is given up, and that is all. -/
theorem release_of_pos (hpos : 0 < e.count.value) :
    g.release r = (.done #[], (g.unroot r.node).tell (.unrooted r.node e.count.value)) := by
  have hrel := g.release_released r
  generalize g.release r = result at hrel
  cases hrel with
  | refused hr => exact absurd (by simp [isRooted?, he, hroot]) hr
  | unrooted he' _ _ =>
      rw [he, Option.some_inj] at he'
      rw [he']
  | reclaimed he' _ hzero =>
      rw [he, Option.some_inj] at he'
      subst he'
      omega
  | aborted he' _ hzero =>
      rw [he, Option.some_inj] at he'
      subst he'
      omega

/-- A node without references goes as its cascade does, step by step. -/
theorem release_of_runWithin {n : ℕ} {report : Array Handle} {G : Graph}
    (hzero : e.count.value = 0)
    (hrun : (Cascade.start (g.unroot r.node) r.node).runWithin n = some (.done report, G)) :
    g.release r = (.done report, G.write .debug (releaseRecord r.node report.size G.size)) := by
  have hrun' : (Cascade.start (g.setRooted r.node false) r.node).run = (.done report, G) :=
    Cascade.run_eq_of_runWithin hrun
  unfold release
  rw [he]
  simp only [hroot, ↓reduceIte, Count.isZero_iff.2 hzero, reclaimFrom, hrun']

/-- A release is abandoned where its cascade is, step by step. -/
theorem release_of_runWithin_aborted {n : ℕ} {fault : Fault} {G : Graph}
    (hzero : e.count.value = 0)
    (hrun : (Cascade.start (g.unroot r.node) r.node).runWithin n = some (.aborted fault, G)) :
    g.release r = (.aborted fault, G) := by
  have hrun' : (Cascade.start (g.setRooted r.node false) r.node).run = (.aborted fault, G) :=
    Cascade.run_eq_of_runWithin hrun
  unfold release
  rw [he]
  simp only [hroot, ↓reduceIte, Count.isZero_iff.2 hzero, reclaimFrom, hrun']

/-- A node without references goes with a cascade, which is at its natural end if the release was
not abandoned. -/
theorem exists_cascade (hzero : e.count.value = 0)
    (hab : ∀ fault, (g.release r).1 ≠ .aborted fault) :
    ∃ c, Cascade.Moves (.start (g.unroot r.node) r.node) c ∧ c.edges = [] ∧ c.pending = [] ∧
      g.release r = (.done c.report,
        c.graph.write .debug (releaseRecord r.node c.report.size c.graph.size)) := by
  have hrel := g.release_released r
  generalize g.release r = result at hrel hab
  cases hrel with
  | refused hr => exact absurd (by simp [isRooted?, he, hroot]) hr
  | unrooted he' _ hpos =>
      rw [he, Option.some_inj] at he'
      subst he'
      omega
  | reclaimed _ _ _ hm hedges hpending => exact ⟨_, hm, hedges, hpending, rfl⟩
  | aborted => exact absurd rfl (hab _)

end root

/-- Only the aborting policy abandons a release. -/
theorem release_fst_ne_aborted (hpolicy : g.policy = .report) (r : Root) (fault : Fault) :
    (g.release r).1 ≠ .aborted fault := by
  have hrel := g.release_released r
  generalize g.release r = result at hrel
  cases hrel with
  | aborted _ _ _ _ habort => simp [hpolicy] at habort
  | _ => simp

end SharedExpr.Graph
