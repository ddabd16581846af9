import SharedExpr.Proofs.Graph.Expansion
import SharedExpr.Proofs.Walk.Listing
import SharedExpr.Proofs.Walk.Log

/-!
# The order of listings

A listing goes through the tree below its start, and passes over what it has met. What it passes
over is settled: on an ordered graph a node that was met and is come to again is not one that the
listing is still in the middle of, so it and all that it reaches are live and listed already. Going
through it once more would list nothing new and find no fault.

* `Listing.Lister` — visitors that go through a tree in this way and list each node once, before or
  after what is below it. Both listings are made by such (`Listing.lister_preorder`,
  `Listing.lister_postorder`).
* `Listing.Settled` — the invariant: whatever was met and is below a node is settled.
* `Graph.Lists` — a walk lists what a tree lists, without repetition, or fails at its first edge to
  a child that is not live. `Graph.Ordered.lists_expansion` — **so it is below each node**.
* `Graph.Ordered.walk_of_lister` — the whole walk.
-/

namespace SharedExpr

open Std (HashSet)

variable {ι : Type} {g : Graph} {visitor : Visitor Listing ι} {down : ι}
  {before after : Handle → List Handle} {l l' : Listing} {a b : Agenda (Visit ι)} {h c : Handle}
  {v : Visit ι} {rest : List (Visit ι)}

/-! ### Visitors that list -/

/-- A visitor that passes over nodes that were met. At others it goes to the children, and lists the
node before or afterwards. -/
structure Listing.Lister (g : Graph) (visitor : Visitor Listing ι) (down : ι)
    (before after : Handle → List Handle) : Prop where
  /-- Each node is listed once. -/
  once : ∀ h, before h ++ after h = [h]
  /-- A node that was met is passed over. -/
  skip : ∀ l v n, v.input = down → v.node ∈ l.met → visitor l v n = (l, [])
  /-- At another node the children are visited before the rest of the agenda, and then the visitor
  may come back. -/
  enter : ∀ a l v n rest, a.toList = v :: rest → v.input = down → g.node? v.node = some n →
    v.node ∉ l.met → ∃ b l' back, g.Leads visitor a l 1 b l' ∧
      b.toList = n.children.map (fun child => v.toChild child down) ++ (back ++ rest) ∧
      l'.order.toList = l.order.toList ++ before v.node ∧
      (∀ x, x ∈ l'.met ↔ x = v.node ∨ x ∈ l.met) ∧
      ∀ c m, c.toList = back ++ rest → ∃ k d m', g.Leads visitor c m k d m' ∧ d.toList = rest ∧
        m'.order.toList = m.order.toList ++ after v.node ∧ m'.met = m.met

/-- A node was met if it is the one that is met now or was met before. -/
theorem Listing.mem_insert_met {met : HashSet Handle} (x : Handle) :
    x ∈ met.insert h ↔ x = h ∨ x ∈ met := by
  rw [HashSet.mem_insert, beq_iff_eq, eq_comm]

/-- The pre-order visitor lists a node when it comes to it. -/
theorem Listing.lister_preorder (g : Graph) :
    Listing.Lister g Listing.preorderVisitor () (fun h => [h]) fun _ => [] where
  once := fun _ => rfl
  skip := by
    intro l v n _ hmet
    rw [preorderVisitor, if_pos (HashSet.mem_iff_contains.1 hmet)]
  enter := by
    intro a l v n rest ha _ hn hmet
    have hvisit : preorderVisitor l v n =
        (⟨l.met.insert v.node, l.order.push v.node⟩, [.children ()]) := by
      rw [preorderVisitor, if_neg (mt HashSet.mem_iff_contains.2 hmet)]
    obtain ⟨b, hb, hab⟩ := Graph.exists_leads_of_cons preorderVisitor l ha hn
    rw [hvisit] at hb hab
    refine ⟨b, _, [], hab, ?_, by simp, mem_insert_met, ?_⟩
    · rw [hb, List.flatMap_singleton, Visit.foldl_apply_children, List.nil_append]
    · intro c m hc
      exact ⟨0, c, m, .refl, hc, by simp, rfl⟩

/-- The post-order visitor lists a node when it comes back to it. -/
theorem Listing.lister_postorder (g : Graph) :
    Listing.Lister g Listing.postorderVisitor .enter (fun _ => []) fun h => [h] where
  once := fun _ => rfl
  skip := by
    intro l v n hdown hmet
    rw [postorderVisitor, hdown]
    exact if_pos (HashSet.mem_iff_contains.1 hmet)
  enter := by
    intro a l v n rest ha hdown hn hmet
    have hvisit : postorderVisitor l v n =
        (⟨l.met.insert v.node, l.order⟩, [.again .leave, .children .enter]) := by
      rw [postorderVisitor, hdown]
      exact if_neg (mt HashSet.mem_iff_contains.2 hmet)
    obtain ⟨b, hb, hab⟩ := Graph.exists_leads_of_cons postorderVisitor l ha hn
    rw [hvisit] at hb hab
    refine ⟨b, _, [⟨v.node, v.parent, .leave⟩], hab, ?_, by simp, mem_insert_met, ?_⟩
    · rw [hb, List.flatMap_cons, List.flatMap_singleton, List.foldl_append,
        Visit.foldl_apply_children]
      rfl
    · -- the visitor comes back once what was put in front is done
      intro c m hc
      obtain ⟨d, hd, hcd⟩ := Graph.exists_leads_of_cons postorderVisitor m hc hn
      exact ⟨1, d, _, hcd, hd, by simp [postorderVisitor], rfl⟩

/-- What is true of a listing throughout. -/
structure Listing.Proper (l : Listing) : Prop where
  /-- No node is listed twice. -/
  nodup : l.order.toList.Nodup
  /-- What was listed was met. -/
  met : ∀ x ∈ l.order.toList, x ∈ l.met

/-- Whatever was met below the node is settled: what it reaches is live and was listed. -/
def Listing.Settled (g : Graph) (l : Listing) (h : Handle) : Prop :=
  ∀ x ∈ l.met, g.Reaches h x → g.Whole x ∧ ∀ y, g.Reaches x y → y ∈ l.order.toList

namespace Graph

/-- From the agenda and the listing a walk lists what is in the order and was not listed, and is
left with the rest of the agenda. But if one of the edges leads to a node that is not live, it fails
at the first one. -/
def Lists (g : Graph) (visitor : Visitor Listing ι) (a : Agenda (Visit ι)) (l : Listing)
    (edges : List (Handle × Handle)) (order : List Handle) (rest : List (Visit ι)) : Prop :=
  ∃ k b l', g.Leads visitor a l k b l' ∧
    ((edges.find? (fun e => !g.contains e.2) = none ∧ b.toList = rest ∧
        l'.order.toList = (l.order.toList ++ order).eraseDups ∧
        ∀ x, x ∈ l'.met ↔ x ∈ l.met ∨ x ∈ order) ∨
      ∃ p c, edges.find? (fun e => !g.contains e.2) = some (p, c) ∧
        g.EndsWith b.toList (.failed (.danglingEdge p c)))

variable {es fs : List (Handle × Handle)} {order order' : List Handle} {rest' : List (Visit ι)}

/-- Where there are no edges and nothing is to be listed, nothing is done. -/
theorem lists_nil (hl : l.Proper) (ha : a.toList = rest) : g.Lists visitor a l [] [] rest := by
  refine ⟨0, a, l, .refl, .inl ⟨rfl, ha, ?_, by simp⟩⟩
  rw [List.append_nil, eraseDups_of_nodup hl.nodup]

/-- One thing is listed after the other. -/
theorem Lists.append (h : g.Lists visitor a l es order rest')
    (hthen : ∀ b l', es.find? (fun e => !g.contains e.2) = none → b.toList = rest' →
      l'.order.toList = (l.order.toList ++ order).eraseDups →
      (∀ x, x ∈ l'.met ↔ x ∈ l.met ∨ x ∈ order) → g.Lists visitor b l' fs order' rest) :
    g.Lists visitor a l (es ++ fs) (order ++ order') rest := by
  obtain ⟨k, b, l', hab, ⟨hnone, hb, horder, hmet⟩ | ⟨p, c, hsome, hb⟩⟩ := h
  · obtain ⟨k', d, l'', hbd, hend⟩ := hthen b l' hnone hb horder hmet
    refine ⟨k + k', d, l'', hab.trans hbd, ?_⟩
    rw [List.find?_append, hnone, Option.none_or]
    apply hend.imp_left
    rintro ⟨hnone', hd, horder', hmet'⟩
    refine ⟨hnone', hd, ?_, ?_⟩
    · rw [horder', horder, eraseDups_eraseDups_append, List.append_assoc]
    · intro x
      rw [hmet', hmet, List.mem_append, or_assoc]
  · refine ⟨k, b, l', hab, .inr ⟨p, c, ?_, hb⟩⟩
    rw [List.find?_append, hsome, Option.some_or]

/-- An edge to a live node changes nothing. -/
theorem Lists.cons {e : Handle × Handle} (h : g.Lists visitor a l es order rest)
    (he : g.contains e.2) : g.Lists visitor a l (e :: es) order rest := by
  unfold Lists
  rwa [List.find?_cons_of_neg (by simpa using he)]

/-- A node that is not live is where a walk fails. -/
theorem lists_of_dead {p : Handle} (ha : a.toList = v :: rest') (hv : v.parent = some p)
    (hdead : ¬ g.contains v.node) : g.Lists visitor a l ((p, v.node) :: es) order rest := by
  refine ⟨0, a, l, .refl, .inr ⟨p, v.node, List.find?_cons_of_pos (by simpa using hdead), ?_⟩⟩
  have hnone : g.node? v.node = none := by
    simpa [contains_iff_node?, ← Option.ne_none_iff_exists'] using hdead
  have hends : g.EndsWith (v :: rest') (.failed v.fault) := .failed hnone
  rwa [ha, ← show v.fault = .danglingEdge p v.node by rw [Visit.fault, hv]]

/-! ### The invariant -/

/-- What a listing adds to a proper one is proper. -/
theorem proper_of_lists (hmet : ∀ x, x ∈ l'.met ↔ x ∈ l.met ∨ x ∈ order) (hl : l.Proper)
    (horder : l'.order.toList = (l.order.toList ++ order).eraseDups) : l'.Proper where
  nodup := horder ▸ nodup_eraseDups _
  met := by
    intro x hx
    rw [horder, List.mem_eraseDups, List.mem_append] at hx
    exact (hmet x).2 (hx.imp_left (hl.met x))

/-- A listing stays proper when a node is entered that was not met. -/
theorem proper_of_enter {pre post : List Handle} (hone : pre ++ post = [h])
    (hnot : h ∉ l.order.toList) (hmet : ∀ x, x ∈ l'.met ↔ x = h ∨ x ∈ l.met) (hl : l.Proper)
    (horder : l'.order.toList = l.order.toList ++ pre) : l'.Proper where
  nodup := by
    rw [horder]
    rcases List.append_eq_singleton_iff.1 hone with ⟨rfl, -⟩ | ⟨rfl, -⟩
    · rw [List.append_nil]
      exact hl.nodup
    · rw [← List.concat_eq_append]
      exact hl.nodup.concat hnot
  met := by
    have hpre : pre ⊆ [h] := hone ▸ List.subset_append_left pre post
    intro x hx
    rw [horder, List.mem_append] at hx
    exact (hmet x).2 (hx.symm.imp (fun hx => List.mem_singleton.1 (hpre hx)) (hl.met x))

/-- What was settled stays settled, and what is below a whole node is settled when it is listed. -/
theorem settled_of_lists (hmet : ∀ x, x ∈ l'.met ↔ x ∈ l.met ∨ x ∈ order)
    (horder : l'.order.toList = (l.order.toList ++ order).eraseDups) (hl : l.Settled g h)
    (hwhole : g.Whole c) (hc : ∀ x, x ∈ order ↔ g.Reaches c x) : l'.Settled g h := by
  have hlisted : ∀ y, y ∈ l'.order.toList ↔ y ∈ l.order.toList ∨ g.Reaches c y := by
    intro y
    rw [horder, List.mem_eraseDups, List.mem_append, hc]
  intro x hx hhx
  rcases (hmet x).1 hx with hx | hx
  · obtain ⟨hwhole, hbelow⟩ := hl x hx hhx
    exact ⟨hwhole, fun y hy => (hlisted y).2 (.inl (hbelow y hy))⟩
  · have hcx := (hc x).1 hx
    exact ⟨fun y hy => hwhole y (hcx.trans hy), fun y hy => (hlisted y).2 (.inr (hcx.trans hy))⟩

/-- When a node is entered, what was settled below it is settled below each child. The node itself
is not: no child reaches it. -/
theorem Ordered.settled_of_enter (hg : g.Ordered) (hmet : ∀ x, x ∈ l'.met ↔ x = h ∨ x ∈ l.met)
    (horder : l.order.toList ⊆ l'.order.toList) (hl : l.Settled g h) (hc : c ∈ g.childrenOf h) :
    l'.Settled g c := by
  have hedge : (h, c) ∈ g.edges := mem_edges_iff.2 hc
  intro x hx hcx
  rcases (hmet x).1 hx with rfl | hx
  · exact absurd (Relation.TransGen.head' hedge hcx) (hg.not_transGen_self x)
  · obtain ⟨hwhole, hbelow⟩ := hl x hx (.head hedge hcx)
    exact ⟨hwhole, fun y hy => horder (hbelow y hy)⟩

/-! ### Below a node -/

section below

variable (hg : g.Ordered) (hvisitor : Listing.Lister g visitor down before after)
include hvisitor

/-- A node that was met is passed over, and nothing is missed. -/
theorem Ordered.lists_of_met (ha : a.toList = v :: rest) (hdown : v.input = down) (hl : l.Proper)
    (hsettled : l.Settled g v.node) (hmet : v.node ∈ l.met) :
    g.Lists visitor a l (hg.expansion v.node).edges
      ((hg.expansion v.node).traverse before after) rest := by
  obtain ⟨hwhole, hbelow⟩ := hsettled v.node hmet .refl
  obtain ⟨n, hn⟩ := hwhole.exists_node?
  obtain ⟨b, hb, hab⟩ := exists_leads_of_cons visitor l ha hn
  rw [hvisitor.skip l v n hdown hmet] at hb hab
  have hsubset : (hg.expansion v.node).traverse before after ⊆ l.order.toList :=
    fun x hx => hbelow x ((hg.mem_traverse hvisitor.once).1 hx)
  refine ⟨1, b, l, hab, .inl ⟨?_, hb, ?_, ?_⟩⟩
  · exact (hg.firstDangling_eq_none_iff_whole (hwhole _ .refl)).2 hwhole
  · rw [eraseDups_append_of_subset hsubset, eraseDups_of_nodup hl.nodup]
  · intro x
    exact (or_iff_left_of_imp fun hx => hl.met x (hsubset hx)).symm

/-- Children are listed one after the other. -/
theorem Ordered.lists_children {cs : List Handle}
    (hlists : ∀ c ∈ cs, ∀ a l w rest, w.node = c → a.toList = w :: rest → w.input = down →
      g.contains c → l.Proper → l.Settled g c →
        g.Lists visitor a l (hg.expansion c).edges ((hg.expansion c).traverse before after) rest)
    (ha : a.toList = cs.map (fun child => v.toChild child down) ++ rest) (hl : l.Proper)
    (hsettled : ∀ c ∈ cs, l.Settled g c) :
    g.Lists visitor a l (cs.flatMap fun c => (v.node, c) :: (hg.expansion c).edges)
      (cs.flatMap fun c => (hg.expansion c).traverse before after) rest := by
  induction cs generalizing a l with
  | nil => exact lists_nil hl ha
  | cons c cs ih =>
      rw [List.map_cons, List.cons_append] at ha
      rw [List.flatMap_cons, List.flatMap_cons]
      obtain ⟨hfirst, hothers⟩ := List.forall_mem_cons.1 hlists
      obtain ⟨hc, hcs⟩ := List.forall_mem_cons.1 hsettled
      by_cases hlive : g.contains c
      · have hchild := hfirst a l _ _ rfl ha rfl hlive hl hc
        apply (hchild.cons hlive).append
        intro b l' hnone hb horder hmet
        have hwhole : g.Whole c := by
          rw [List.find?_cons_of_neg (by simpa using hlive)] at hnone
          exact (hg.firstDangling_eq_none_iff_whole hlive).1 hnone
        apply ih hothers hb (proper_of_lists hmet hl horder)
        intro d hd
        exact settled_of_lists hmet horder (hcs d hd) hwhole fun x => hg.mem_traverse hvisitor.once
      · exact lists_of_dead ha rfl hlive

/-- A node that was not met is listed before or after what its children list. -/
theorem Ordered.lists_of_enter (ha : a.toList = v :: rest) (hdown : v.input = down)
    (hlive : g.contains v.node) (hl : l.Proper) (hsettled : l.Settled g v.node)
    (hmet : v.node ∉ l.met)
    (hlists : ∀ c ∈ g.childrenOf v.node, ∀ a l w rest, w.node = c → a.toList = w :: rest →
      w.input = down → g.contains c → l.Proper → l.Settled g c →
        g.Lists visitor a l (hg.expansion c).edges ((hg.expansion c).traverse before after) rest) :
    g.Lists visitor a l (hg.expansion v.node).edges
      ((hg.expansion v.node).traverse before after) rest := by
  obtain ⟨n, hn⟩ := contains_iff_node?.1 hlive
  obtain ⟨b, l₁, back, hab, hb, horder₁, hmet₁, hback⟩ :=
    hvisitor.enter a l v n rest ha hdown hn hmet
  have hchildren : n.children = g.childrenOf v.node := by simp [childrenOf, hn]
  rw [hchildren] at hb
  have hnot : v.node ∉ l.order.toList := fun hmem => hmet (hl.met _ hmem)
  have hproper₁ := proper_of_enter (hvisitor.once v.node) hnot hmet₁ hl horder₁
  have hsettled₁ : ∀ c ∈ g.childrenOf v.node, l₁.Settled g c := by
    intro c hc
    exact hg.settled_of_enter hmet₁ (horder₁ ▸ List.subset_append_left _ _) hsettled hc
  obtain ⟨k, d, l₂, hbd, hend⟩ := hg.lists_children hvisitor hlists hb hproper₁ hsettled₁
  rw [hg.edges_expansion]
  rcases hend with ⟨hnone, hd, horder₂, hmet₂⟩ | hfailed
  · -- all is listed below the node, and the visitor comes back to it
    obtain ⟨k', e, l₃, hde, he, horder₃, hmet₃⟩ := hback d l₂ hd
    refine ⟨1 + k + k', e, l₃, (hab.trans hbd).trans hde, .inl ⟨hnone, he, ?_, ?_⟩⟩
    · rw [horder₃, horder₂, horder₁, hg.traverse_expansion]
      exact eraseDups_append_once (hvisitor.once _) hnot (hg.not_mem_below hvisitor.once _)
    · intro x
      have hhere : x = v.node ↔ x ∈ before v.node ∨ x ∈ after v.node := by
        rw [← List.mem_append, hvisitor.once, List.mem_singleton]
      rw [hmet₃, hmet₂, hmet₁, hhere, hg.traverse_expansion, List.mem_append, List.mem_append]
      simp only [or_assoc, or_comm, or_left_comm]
  · exact ⟨1 + k, d, l₂, hab.trans hbd, .inr hfailed⟩

/-- **Below each live node a listing lists the tree without repetitions**, or fails at its first
edge to a node that is not live. -/
theorem Ordered.lists_expansion (ha : a.toList = v :: rest) (hdown : v.input = down)
    (hlive : g.contains v.node) (hl : l.Proper) (hsettled : l.Settled g v.node) :
    g.Lists visitor a l (hg.expansion v.node).edges
      ((hg.expansion v.node).traverse before after) rest := by
  induction hv : v.node using hg.wellFounded.induction generalizing a l v rest with
  | _ h ih =>
  subst hv
  by_cases hmet : v.node ∈ l.met
  · exact hg.lists_of_met hvisitor ha hdown hl hsettled hmet
  · apply hg.lists_of_enter hvisitor ha hdown hlive hl hsettled hmet
    rintro c hc a l w rest rfl hw hdown hlive hl hsettled
    exact ih w.node (mem_edges_iff.2 hc) hw hdown hlive hl hsettled rfl

end below

/-! ### The two listings -/

/-- A walk of a visitor that lists goes through the tree, or fails at the first edge of it to a node
that is not live. -/
theorem Ordered.walk_of_lister (hg : g.Ordered)
    (hvisitor : Listing.Lister g visitor down before after) (hh : g.contains h) {fuel : ℕ}
    (hfuel : (g.walk fuel h down visitor .empty).ending ≠ .outOfFuel) :
    (∀ p c, hg.firstDangling h = some (p, c) →
      (g.walk fuel h down visitor .empty).ending = .failed (.danglingEdge p c)) ∧
    (hg.firstDangling h = none →
      (g.walk fuel h down visitor .empty).ending = .finished ∧
      (g.walk fuel h down visitor .empty).state.order.toList =
        ((hg.expansion h).traverse before after).eraseDups) := by
  have hstart : (Agenda.empty.pushFront (⟨h, none, down⟩ : Visit ι)).toList = [⟨h, none, down⟩] :=
    rfl
  have hproper : Listing.empty.Proper := ⟨.nil, by simp [Listing.empty]⟩
  have hsettled : Listing.empty.Settled g h := by
    intro x hx
    simp [Listing.empty] at hx
  obtain ⟨k, b, l, hab, hend⟩ := hg.lists_expansion hvisitor hstart rfl hh hproper hsettled
  -- however much it was given, the walk ends as it does with one visit more than it makes
  have hwalk : ∀ ending, g.EndsWith b.toList ending → ending ≠ .outOfFuel →
      g.walk fuel h down visitor .empty = ⟨l, k, ending⟩ := by
    intro ending hb hne
    have hends : g.walk (k + 1) h down visitor .empty = ⟨l, k, ending⟩ := by
      rw [walk, hab.walkOn_eq hb hne (Nat.lt_succ_self k), Nat.zero_add]
    rw [← hends]
    exact walk_eq_of_ending hfuel (by rwa [hends])
  have hedges : (hg.expansion h).edges.find? (fun e => !g.contains e.2) = hg.firstDangling h := rfl
  rw [hedges] at hend
  rcases hend with ⟨hnone, hb, horder, -⟩ | ⟨p, c, hsome, hb⟩
  · rw [hwalk .finished (hb ▸ .finished) (by simp), hnone]
    exact ⟨by simp, fun _ => ⟨rfl, horder⟩⟩
  · rw [hwalk _ hb (by simp), hsome]
    refine ⟨?_, by simp⟩
    intro p' c' heq
    cases heq
    rfl

end Graph

end SharedExpr
