import SharedExpr.Graph.Build
import SharedExpr.Graph.Release

/-!
# What the operations leave alone

Each operation on a graph changes the entry of one node and perhaps one total. Everything else
stays, and the simplifier is told so here, operation by operation, for the parts of a graph that
are not entries: its identity, its policy, its totals, its recorded defects, its sink and its log.
-/

namespace SharedExpr.Graph

variable (g : Graph) (h : Handle) (f : Entry → Entry) (count : Count) (kind : Kind)
  (fault : Fault) (m : Message) (node : Node)

/-! ### Changes of one entry -/

/-- A change of an entry is a change of the store and of nothing else. -/
theorem exists_modify : ∃ store, g.modify h f = { g with store := store } := by
  unfold modify
  split
  · split
    · exact ⟨_, rfl⟩
    · exact ⟨g.store, rfl⟩
  · exact ⟨g.store, rfl⟩

/-- Removing an entry changes the store only. -/
theorem exists_remove : ∃ store, g.remove h = { g with store := store } := by
  unfold remove
  split
  · split
    · exact ⟨_, rfl⟩
    · exact ⟨g.store, rfl⟩
  · exact ⟨g.store, rfl⟩

/-- Changing an entry leaves the policy as it is. -/
@[simp] theorem policy_modify : (g.modify h f).policy = g.policy := by
  obtain ⟨store, hs⟩ := g.exists_modify h f
  rw [hs]

/-- Changing an entry leaves the totals as they are. -/
@[simp] theorem totals_modify : (g.modify h f).totals = g.totals := by
  obtain ⟨store, hs⟩ := g.exists_modify h f
  rw [hs]

/-- Changing an entry records no defect. -/
@[simp] theorem defects_modify : (g.modify h f).defects = g.defects := by
  obtain ⟨store, hs⟩ := g.exists_modify h f
  rw [hs]

/-- Changing an entry logs nothing. -/
@[simp] theorem log_modify : (g.modify h f).log = g.log := by
  obtain ⟨store, hs⟩ := g.exists_modify h f
  rw [hs]

/-- Changing an entry tells the sink nothing. -/
@[simp] theorem sink_modify : (g.modify h f).sink = g.sink := by
  obtain ⟨store, hs⟩ := g.exists_modify h f
  rw [hs]

/-- Removing an entry leaves the identity as it is. -/
@[simp] theorem id_remove : (g.remove h).id = g.id := by
  obtain ⟨store, hs⟩ := g.exists_remove h
  rw [hs]

/-- Removing an entry leaves the policy as it is. -/
@[simp] theorem policy_remove : (g.remove h).policy = g.policy := by
  obtain ⟨store, hs⟩ := g.exists_remove h
  rw [hs]

/-- Removing an entry leaves the totals as they are. -/
@[simp] theorem totals_remove : (g.remove h).totals = g.totals := by
  obtain ⟨store, hs⟩ := g.exists_remove h
  rw [hs]

/-- Removing an entry records no defect. -/
@[simp] theorem defects_remove : (g.remove h).defects = g.defects := by
  obtain ⟨store, hs⟩ := g.exists_remove h
  rw [hs]

/-! ### Messages -/

/-- A message to the sink leaves the totals as they are. -/
@[simp] theorem totals_tell : (g.tell m).totals = g.totals := rfl

/-! ### Lowering a count -/

/-- A reference that is taken away leaves the identity as it is. -/
@[simp] theorem id_lowerTo : (g.lowerTo h count).id = g.id := g.id_modify h _

/-- A reference that is taken away leaves the policy as it is. -/
@[simp] theorem policy_lowerTo : (g.lowerTo h count).policy = g.policy := g.policy_modify h _

/-- A reference that is taken away records no defect. -/
@[simp] theorem defects_lowerTo : (g.lowerTo h count).defects = g.defects := g.defects_modify h _

/-- A reference that is taken away is counted as a decrement. -/
@[simp] theorem totals_lowerTo : (g.lowerTo h count).totals =
    { g.totals with decrements := g.totals.decrements + 1 } := by
  simp [lowerTo]

/-! ### Raising a count -/

/-- A reference that is added leaves the identity as it is. -/
@[simp] theorem id_raiseTo : (g.raiseTo h count).id = g.id := g.id_modify h _

/-- A reference that is added leaves the policy as it is. -/
@[simp] theorem policy_raiseTo : (g.raiseTo h count).policy = g.policy := g.policy_modify h _

/-- A reference that is added records no defect. -/
@[simp] theorem defects_raiseTo : (g.raiseTo h count).defects = g.defects := g.defects_modify h _

/-- A reference that is added is counted as an increment. -/
@[simp] theorem totals_raiseTo : (g.raiseTo h count).totals =
    { g.totals with increments := g.totals.increments + 1 } := by
  simp [raiseTo]

/-! ### Noting a defect -/

/-- A defect is logged, told of and perhaps recorded, and nothing else happens. -/
theorem exists_note : ∃ defects sink log,
    g.note h fault = { g with defects := defects, sink := sink, log := log } := by
  unfold note
  dsimp only
  split
  · exact ⟨_, _, _, rfl⟩
  · exact ⟨_, _, _, rfl⟩

/-- A defect that is noted leaves the identity as it is. -/
@[simp] theorem id_note : (g.note h fault).id = g.id := by
  obtain ⟨defects, sink, log, hnote⟩ := g.exists_note h fault
  rw [hnote]

/-- A defect that is noted leaves the policy as it is. -/
@[simp] theorem policy_note : (g.note h fault).policy = g.policy := by
  obtain ⟨defects, sink, log, hnote⟩ := g.exists_note h fault
  rw [hnote]

/-- A defect that is noted leaves the totals as they are. -/
@[simp] theorem totals_note : (g.note h fault).totals = g.totals := by
  obtain ⟨defects, sink, log, hnote⟩ := g.exists_note h fault
  rw [hnote]

/-- A defect that is noted leaves the store as it is. -/
@[simp] theorem store_note : (g.note h fault).store = g.store := by
  obtain ⟨defects, sink, log, hnote⟩ := g.exists_note h fault
  rw [hnote]

/-- Under the reporting policy a defect that is noted is recorded. -/
theorem defects_note_of_report (hp : g.policy = .report) :
    (g.note h fault).defects = g.defects.push fault := by
  have hp' : ((g.write .error fault.message).tell (.defect h fault)).policy = .report := hp
  unfold note
  dsimp only
  rw [hp']
  rfl

/-! ### Reclaiming a node -/

/-- Reclaiming a node leaves the identity as it is. -/
@[simp] theorem id_reclaim : (g.reclaim h kind).id = g.id := g.id_remove h

/-- Reclaiming a node leaves the policy as it is. -/
@[simp] theorem policy_reclaim : (g.reclaim h kind).policy = g.policy := g.policy_remove h

/-- Reclaiming a node records no defect. -/
@[simp] theorem defects_reclaim : (g.reclaim h kind).defects = g.defects := g.defects_remove h

/-- A node that is reclaimed is counted as released. -/
@[simp] theorem totals_reclaim : (g.reclaim h kind).totals =
    { g.totals with released := g.totals.released + 1 } := by
  simp [reclaim]

/-! ### Adding a node -/

/-- Adding a node leaves the identity as it is. -/
@[simp] theorem id_add : (g.add node).2.id = g.id := rfl

/-- Adding a node leaves the policy as it is. -/
@[simp] theorem policy_add : (g.add node).2.policy = g.policy := rfl

/-- Adding a node records no defect. -/
@[simp] theorem defects_add : (g.add node).2.defects = g.defects := rfl

/-! ### Marking a root -/

/-- The mark is set at its node, and nothing else changes. -/
theorem get?_setRooted (rooted : Bool) (l : Handle) : (g.setRooted h rooted).get? l =
    if l = h then (g.get? h).map (fun e => { e with rooted := rooted }) else g.get? l :=
  g.get?_modify h _ l

/-- A mark leaves the identity as it is. -/
@[simp] theorem id_setRooted (rooted : Bool) : (g.setRooted h rooted).id = g.id := g.id_modify h _

/-- A mark leaves the policy as it is. -/
@[simp] theorem policy_setRooted (rooted : Bool) : (g.setRooted h rooted).policy = g.policy :=
  g.policy_modify h _

/-- A mark leaves the totals as they are. -/
@[simp] theorem totals_setRooted (rooted : Bool) : (g.setRooted h rooted).totals = g.totals :=
  g.totals_modify h _

/-- A mark records no defect. -/
@[simp] theorem defects_setRooted (rooted : Bool) : (g.setRooted h rooted).defects = g.defects :=
  g.defects_modify h _

/-- A mark logs nothing. -/
@[simp] theorem log_setRooted (rooted : Bool) : (g.setRooted h rooted).log = g.log :=
  g.log_modify h _

/-- A mark leaves the number of nodes as it is. -/
@[simp] theorem size_setRooted (rooted : Bool) : (g.setRooted h rooted).size = g.size :=
  g.size_modify h _

/-- A mark leaves the counts as they are. -/
theorem count?_setRooted (rooted : Bool) (l : Handle) :
    (g.setRooted h rooted).count? l = g.count? l := by
  rw [count?, count?, get?_setRooted]
  split
  · rename_i hl
    rw [hl, Option.map_map]
    rfl
  · rfl

/-! ### Nodes under all of these -/

variable (l : Handle)

/-- A change that keeps the node of an entry changes no node. -/
theorem node?_modify (hf : ∀ e, (f e).node = e.node) : (g.modify h f).node? l = g.node? l := by
  rw [node?, node?, get?_modify]
  split
  · rename_i hl
    rw [hl, Option.map_map]
    congr 1
    funext e
    exact hf e
  · rfl

/-- A message to the sink changes no node. -/
@[simp] theorem node?_tell : (g.tell m).node? l = g.node? l := rfl

/-- A reference that is taken away changes no node. -/
@[simp] theorem node?_lowerTo : (g.lowerTo h count).node? l = g.node? l :=
  node?_modify g h _ l fun _ => rfl

/-- A reference that is added changes no node. -/
@[simp] theorem node?_raiseTo : (g.raiseTo h count).node? l = g.node? l :=
  node?_modify g h _ l fun _ => rfl

/-- A mark changes no node. -/
@[simp] theorem node?_setRooted (rooted : Bool) : (g.setRooted h rooted).node? l = g.node? l :=
  node?_modify g h _ l fun _ => rfl

/-- A defect that is noted changes no node. -/
@[simp] theorem node?_note : (g.note h fault).node? l = g.node? l := by
  rw [node?, node?, get?_note]

/-- A node that is reclaimed is gone, and the others stay. -/
theorem node?_reclaim :
    (g.reclaim h kind).node? l = if l = h then none else g.node? l := by
  rw [node?, node?, get?_reclaim]
  split <;> rfl

/-- A node that is added is there, and the others stay. -/
theorem node?_add :
    (g.add node).2.node? l = if l = (g.add node).1 then some node else g.node? l := by
  rw [node?, node?, get?_add]
  split <;> rfl

end SharedExpr.Graph
