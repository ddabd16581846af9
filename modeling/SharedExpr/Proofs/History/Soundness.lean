import SharedExpr.Proofs.History.Evolution
import SharedExpr.Proofs.History.Roots
import SharedExpr.Proofs.Release.Soundness

/-!
# Counts are sound in every history

The references that a user adds directly and does not take away again are what a sound count may
have beyond the edges. As long as a user takes away no more than was added, and no count comes to
its limit, nothing that the graph does by itself is ever wrong.

* `History.outstanding` — the references to a node that were added directly and not taken away.
* `History.NeverOverdrawn`, `History.NeverSaturated` — the two provisos, at every point of a run.
* `History.sound_of_room` — the invariant, command by command.
* `History.counts_sound` — **what the counts are at every point of a run, and what follows**: no
  release is ever caught out, and an audit finds exactly the references that are outstanding.
-/

namespace SharedExpr.History

variable {H K : History} {c : Command} {h l : Handle}

/-! ### References added directly -/

/-- The references to a node that were added directly and not taken away. -/
def outstanding (H : History) (h : Handle) : ℕ :=
  H.raised h - H.lowered h

/-- At no point of the run were more references taken from a node than were added to it. -/
def NeverOverdrawn (H : History) : Prop :=
  ∀ K ∈ H.past, ∀ h, K.lowered h ≤ K.raised h

/-- At no point of the run was a count the largest one. -/
def NeverSaturated (H : History) : Prop :=
  ∀ K ∈ H.past, ∀ p ∈ K.graph.entries, p.2.count.value < Count.max

/-- Only nodes from which a command takes a reference can be overdrawn. -/
theorem neverOverdrawn_iff : H.NeverOverdrawn ↔
    ∀ K ∈ H.past, ∀ c ∈ K.commands, ∀ l ∈ c.decremented?, K.lowered l ≤ K.raised l := by
  refine ⟨fun hH K hK _ _ l _ => hH K hK l, ?_⟩
  intro hH K hK h
  by_cases hzero : K.lowered h = 0
  · omega
  · obtain ⟨⟨c, outcome⟩, hmem, hlowers⟩ := List.countP_pos_iff.1 (Nat.pos_of_ne_zero hzero)
    apply hH K hK c (List.of_mem_zip hmem).1 h
    unfold lowers at hlowers
    split at hlowers
    · rename_i l _ heq
      obtain ⟨rfl, -⟩ := Prod.mk.inj heq
      simpa [Command.decremented?] using hlowers
    · cases hlowers

/-- Whether a history is ever overdrawn is decided at the handles that its commands touch. -/
instance : Decidable H.NeverOverdrawn :=
  decidable_of_iff _ neverOverdrawn_iff.symm

/-- Whether a count ever comes to the largest one is decided point by point. -/
instance : Decidable H.NeverSaturated :=
  inferInstanceAs (Decidable (∀ K ∈ H.past, ∀ p ∈ K.graph.entries, p.2.count.value < Count.max))

/-- A count of a history that never comes to the largest one is below it. -/
theorem NeverSaturated.lt (hH : H.NeverSaturated) (hK : K ∈ H.past) {e : Entry}
    (he : K.graph.get? h = some e) : e.count.value < Count.max :=
  hH K hK (h, e) (Graph.mem_entries.2 he)

/-- A command that does not count directly adds no direct reference. -/
theorem raised_of_not_counts (hc : c.countsDirectly = false) :
    (H.andThen c).raised h = H.raised h := by
  rw [raised_andThen]
  cases c <;> simp_all [raises, Command.countsDirectly]

/-- A command that does not count directly takes no direct reference away. -/
theorem lowered_of_not_counts (hc : c.countsDirectly = false) :
    (H.andThen c).lowered h = H.lowered h := by
  rw [lowered_andThen]
  cases c <;> simp_all [lowers, Command.countsDirectly]

/-- A command that does not count directly leaves the outstanding references as they are. -/
theorem outstanding_of_not_counts (hc : c.countsDirectly = false) :
    (H.andThen c).outstanding = H.outstanding := by
  funext h
  rw [outstanding, outstanding, raised_of_not_counts hc, lowered_of_not_counts hc]

/-- A history without direct references has none outstanding. -/
theorem counted_of_not_counts (H : History) (hH : ∀ c ∈ H.commands, c.countsDirectly = false)
    (h : Handle) : H.raised h = 0 ∧ H.lowered h = 0 := by
  induction H using History.induction with
  | opened id settings => exact ⟨rfl, rfl⟩
  | andThen H c ih =>
      have hc : c.countsDirectly = false :=
        hH c (List.mem_append_right _ (List.mem_singleton_self c))
      rw [raised_of_not_counts hc, lowered_of_not_counts hc]
      exact ih fun d hd => hH d (List.mem_append_left _ hd)

/-- Without direct references none is outstanding. -/
theorem outstanding_eq_zero (hH : ∀ c ∈ H.commands, c.countsDirectly = false) :
    H.outstanding = fun _ => 0 := by
  funext h
  rw [outstanding, (H.counted_of_not_counts hH h).1, Nat.zero_sub]

/-- A reference is added to a live node. -/
theorem contains_of_raises {g : Graph} (hr : raises h (c, (g.perform c).1)) : g.contains h := by
  cases c with
  | increment l =>
      rcases g.increment_cases l with ⟨fault, hinc⟩ | ⟨hlive, n, hinc⟩
      · rw [Graph.perform, hinc] at hr
        cases hr
      · rw [Graph.perform, hinc] at hr
        obtain rfl : l = h := by simpa [raises, Graph.replying, Outcome.map] using hr
        exact hlive
  | _ => simp [raises] at hr

/-- Only nodes that the graph has had are given references. -/
theorem issued_of_raised (H : History) (hh : 0 < H.raised h) : H.graph.Issued h := by
  apply issued_of_mem_transcript (P := fun step => raises h step)
  · exact fun g c => contains_of_raises
  · exact List.countP_pos_iff.1 hh

/-! ### One command -/

section step

variable (hsound : H.graph.Sound H.outstanding)
include hsound

/-- A new handle has no references outstanding. -/
theorem sound_build {node : Node} (hc : c.node? = some node) :
    (H.andThen c).graph.Capped (H.andThen c).outstanding := by
  rw [graph_andThen, Graph.perform_of_node? hc,
    outstanding_of_not_counts (Command.countsDirectly_of_node? hc)]
  apply hsound.build node
  by_contra hne
  apply H.graph.not_issued_add_fst node
  apply H.issued_of_raised
  unfold outstanding at hne
  omega

/-- A direct reference is one more that is outstanding. -/
theorem sound_increment (hle : H.lowered l ≤ H.raised l) :
    (H.andThen (.increment l)).graph.Capped (H.andThen (.increment l)).outstanding := by
  rw [graph_andThen]
  show (H.graph.increment l).2.Capped _
  rcases H.graph.increment_cases l with ⟨fault, hinc⟩ | ⟨-, n, hinc⟩
  · have hout : (H.andThen (.increment l)).outstanding = H.outstanding := by
      funext h
      rw [outstanding, outstanding, raised_andThen, lowered_andThen, Graph.perform, hinc]
      rfl
    rw [hinc, hout]
    exact hsound.capped
  · rw [hinc]
    apply hsound.raise l
    intro h
    rw [outstanding, outstanding, raised_andThen, lowered_andThen, Graph.perform, hinc]
    by_cases hh : h = l
    · subst hh
      simp [raises, lowers, Graph.replying, Outcome.map]
      omega
    · simp [raises, lowers, Graph.replying, Outcome.map, hh, Ne.symm hh]

/-- A reference taken directly is one less that is outstanding. -/
theorem sound_decrement (hle : ∀ h, (H.andThen (.decrement l)).lowered h ≤
    (H.andThen (.decrement l)).raised h) :
    (H.andThen (.decrement l)).graph.Sound (H.andThen (.decrement l)).outstanding := by
  rw [graph_andThen]
  show (H.graph.decrement l).2.Sound _
  rcases H.graph.decrement_cases l with ⟨e, count, he, hcount, hdec⟩ | ⟨hno, hstore, hid, -⟩
  · rw [hdec]
    apply hsound.lowerTo he hcount
    intro h
    have hle := hle h
    rw [raised_andThen, lowered_andThen, Graph.perform, hdec] at hle
    rw [outstanding, outstanding, raised_andThen, lowered_andThen, Graph.perform, hdec]
    by_cases hh : h = l
    · subst hh
      simp [raises, lowers, Graph.replying, Outcome.map] at hle ⊢
      omega
    · simp [raises, lowers, Graph.replying, Outcome.map, hh, Ne.symm hh]
  · have hout : (H.andThen (.decrement l)).outstanding = H.outstanding := by
      funext h
      rw [outstanding, outstanding, raised_andThen, lowered_andThen, Graph.perform]
      rcases ho : (H.graph.decrement l).1 with n | fault | fault
      · exact absurd ho (hno n)
      · simp [raises, lowers, Graph.replying, Outcome.map, ho]
      · simp [raises, lowers, Graph.replying, Outcome.map, ho]
    have hget := Graph.get?_congr hid hstore
    rw [hout]
    exact hsound.congr (fun h => by rw [Graph.node?, hget]; rfl)
      (fun h => by rw [Graph.count?, hget]; rfl)

/-- A new root leaves counts sound. -/
theorem sound_root : (H.andThen (.root l)).graph.Sound (H.andThen (.root l)).outstanding := by
  rw [graph_andThen, outstanding_of_not_counts rfl]
  exact hsound.congr (H.graph.node?_root l) (H.graph.count?_root l)

/-- A command keeps counts sound, up to the largest count. -/
theorem sound_andThen (c : Command) (hle : ∀ h, H.lowered h ≤ H.raised h)
    (hle' : ∀ h, (H.andThen c).lowered h ≤ (H.andThen c).raised h) :
    (H.andThen c).graph.Capped (H.andThen c).outstanding := by
  induction c using Command.byKind with
  | build c node hc => exact sound_build hsound hc
  | increment l => exact sound_increment hsound (hle l)
  | decrement l => exact (sound_decrement hsound hle').capped
  | root l => exact (sound_root hsound).capped
  | release r =>
      rw [graph_andThen, outstanding_of_not_counts rfl]
      exact (hsound.release r).1.capped
  | takeDefects =>
      rw [graph_andThen, outstanding_of_not_counts rfl]
      have htake : (H.graph.perform .takeDefects).2.Sound H.outstanding :=
        hsound.congr (fun _ => rfl) (fun _ => rfl)
      exact htake.capped

end step

/-! ### Every point of a run -/

/-- If no count was at its limit, or no sound count would have been, counts are sound. -/
theorem sound_of_room (H : History) (hover : H.NeverOverdrawn)
    (hroom : ∀ K ∈ H.past, ∀ h e, K.graph.get? h = some e → e.count.value < Count.max ∨
      K.graph.inDegree h + K.outstanding h < Count.max) :
    H.graph.Sound H.outstanding := by
  induction H using History.induction with
  | opened id settings =>
      constructor
      · intro p c hpc
        simp [edges_opened] at hpc
      · intro h e he
        rw [get?_opened] at he
        cases he
  | andThen H c ih =>
      have hsound := ih (forall_past_of_andThen hover) (forall_past_of_andThen hroom)
      exact (sound_andThen hsound c (hover H mem_past_andThen) (hover _ (self_mem_past _))).sound
        (hroom _ (self_mem_past _))

/-- What is never overdrawn was not overdrawn before. -/
theorem NeverOverdrawn.of_mem_past (hH : H.NeverOverdrawn) (hK : K ∈ H.past) : K.NeverOverdrawn :=
  fun _ hL => hH _ (past_trans hL hK)

/-- What never comes to the largest count did not before. -/
theorem NeverSaturated.of_mem_past (hH : H.NeverSaturated) (hK : K ∈ H.past) : K.NeverSaturated :=
  fun _ hL => hH _ (past_trans hL hK)

/-- A history with room at its end, and at all points before, never comes to the largest count. -/
theorem NeverSaturated.andThen (hH : H.NeverSaturated)
    (hroom : ∀ p ∈ (H.andThen c).graph.entries, p.2.count.value < Count.max) :
    (H.andThen c).NeverSaturated := by
  intro K hK
  rw [past_andThen, List.mem_append, List.mem_singleton] at hK
  rcases hK with hK | rfl
  · exact hH K hK
  · exact hroom

/-- With room to count, and no more references taken away than added, counts are sound. -/
theorem sound_of_neverSaturated (hover : H.NeverOverdrawn) (hsat : H.NeverSaturated) :
    H.graph.Sound H.outstanding :=
  H.sound_of_room hover fun _ hK _ _ he => Or.inl (hsat.lt hK he)

/-- Without direct references there were none before. -/
theorem not_counts_of_mem_past (hH : ∀ c ∈ H.commands, c.countsDirectly = false)
    (hK : K ∈ H.past) : ∀ c ∈ K.commands, c.countsDirectly = false :=
  fun c hc => hH c ((mem_past_iff.1 hK).2.2.subset hc)

/-- Without direct references a count is the number of edges to its node, if there was room. -/
theorem sound_of_not_counts (hH : ∀ c ∈ H.commands, c.countsDirectly = false)
    (hroom : ∀ K ∈ H.past, ∀ h e, K.graph.get? h = some e → e.count.value < Count.max ∨
      K.graph.inDegree h < Count.max) : H.graph.Sound fun _ => 0 := by
  rw [← outstanding_eq_zero hH]
  refine H.sound_of_room (fun K hK h => ?_) fun K hK h e he => ?_
  · obtain ⟨hr, hl⟩ := K.counted_of_not_counts (not_counts_of_mem_past hH hK) h
    rw [hr, hl]
  · rw [outstanding_eq_zero (not_counts_of_mem_past hH hK)]
    exact hroom K hK h e he

/-- **Counts at every point of a run.** Children are live; a count is the number of edges to the
node together with the references added directly, less those taken away; no release records a
defect or is abandoned, whichever root it is of; and an audit finds nothing exactly if on each live
node as many references were taken away as added, hence always if there were none. -/
theorem counts_sound (H : History) (hover : H.NeverOverdrawn) (hsat : H.NeverSaturated) :
    ∀ K ∈ H.past,
      (∀ p c, (p, c) ∈ K.graph.edges → K.graph.contains c) ∧
      (∀ h e, K.graph.get? h = some e →
        e.count.value + K.lowered h = K.graph.inDegree h + K.raised h) ∧
      (∀ r, (K.graph.release r).2.defects = K.graph.defects ∧
        ∀ fault, (K.graph.release r).1 ≠ .aborted fault) ∧
      (K.graph.audit = [] ↔ ∀ h, K.graph.contains h → K.raised h = K.lowered h) ∧
      ((∀ c ∈ K.commands, c.countsDirectly = false) → K.graph.audit = []) := by
  intro K hK
  have hle := hover K hK
  have hsound := sound_of_neverSaturated (hover.of_mem_past hK) (hsat.of_mem_past hK)
  have haudit : K.graph.audit = [] ↔ ∀ h, K.graph.contains h → K.raised h = K.lowered h := by
    rw [hsound.audit_eq_nil_iff]
    refine forall_congr' fun h => imp_congr_right fun _ => ?_
    have := hle h
    unfold outstanding
    omega
  refine ⟨hsound.live, ?_, fun r => (hsound.release r).2, haudit, ?_⟩
  · intro h e he
    have := hsound.count h e he
    have := hle h
    unfold outstanding at *
    omega
  · intro hdirect
    apply haudit.2
    intro h _
    obtain ⟨hr, hl⟩ := K.counted_of_not_counts hdirect h
    rw [hr, hl]

/-- A number that is added to itself, to which a reference is added and taken away again; a second
attempt to take it from another graph's node is refused, and the number loses its root. -/
def lent : History where
  id := ⟨1⟩
  settings := ⟨.discarding, .abort⟩
  commands := [.intLiteral 7, .arithmetic .add [.ofSlot 1 0, .ofSlot 1 0], .root (.ofSlot 1 0),
    .increment (.ofSlot 1 0), .release ⟨.ofSlot 1 0⟩, .decrement (.ofSlot 1 0),
    .decrement (.ofSlot 2 0)]

/-- At its end the audit finds nothing. -/
theorem audit_lent : lent.NeverOverdrawn ∧ lent.NeverSaturated ∧
    lent.raised (.ofSlot 1 0) = 1 ∧ lent.graph.audit = [] := by
  have hover : lent.NeverOverdrawn := by decide
  have hsat : lent.NeverSaturated := by decide
  obtain ⟨-, -, -, haudit, -⟩ := counts_sound lent hover hsat lent (self_mem_past lent)
  refine ⟨hover, hsat, by decide, haudit.2 fun h hh => ?_⟩
  obtain ⟨e, he⟩ := Graph.contains_iff.1 hh
  have hall : ∀ p ∈ lent.graph.entries, lent.raised p.1 = lent.lowered p.1 := by decide
  exact hall (h, e) (Graph.mem_entries.2 he)

end SharedExpr.History
