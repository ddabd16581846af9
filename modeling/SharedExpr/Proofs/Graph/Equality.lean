import SharedExpr.Graph.Equality
import SharedExpr.Proofs.Graph.Descent

/-!
# Equality of expressions, with and without a table

The comparison of two handles keeps a table of the pairs that it has met. On ordered graphs the
table saves work and nothing else: the comparison that looks at each pair anew whenever it comes up
ends as well, and with the same answer.

* `Graph.Alike` — the nodes have equal heads and equally many children, and so on down to the
  leaves.
* `Graph.allSame_of_alike`, `Graph.Ordered.alike_of_allSame` — the comparison with a table decides
  this, for the pairs that are pending.
* `Graph.compareWithin` — the comparison without a table, in a number of rounds. Its answer decides
  the same (`Graph.compareWithin_eq_some`).
* `Graph.Ordered.exists_compareWithin` — **it has an answer after some number of rounds, and it is
  that of the comparison with a table**.
-/

namespace SharedExpr.Graph

open Std (HashSet)

variable {g k : Graph} {a b : Handle} {m n : Node} {compared : HashSet (Handle × Handle)}
  {pending : List (Handle × Handle)}

/-! ### Handles that stand for the same expression -/

/-- The nodes have the same form, and so have their children, pair by pair, down to the leaves. -/
inductive Alike (g k : Graph) : Handle → Handle → Prop
  | intro {a b : Handle} {m n : Node} (hm : g.node? a = some m) (hn : k.node? b = some n)
      (hform : sameForm m n) (hchildren : ∀ p ∈ m.children.zip n.children, Alike g k p.1 p.2) :
      Alike g k a b

/-- Live handles are alike if their nodes have one form and their children are alike in pairs. -/
theorem alike_iff (hm : g.node? a = some m) (hn : k.node? b = some n) :
    g.Alike k a b ↔ sameForm m n ∧ ∀ p ∈ m.children.zip n.children, g.Alike k p.1 p.2 := by
  constructor
  · rintro ⟨hm', hn', hform, hchildren⟩
    obtain rfl := Option.some_inj.1 (hm.symm.trans hm')
    obtain rfl := Option.some_inj.1 (hn.symm.trans hn')
    exact ⟨hform, hchildren⟩
  · rintro ⟨hform, hchildren⟩
    exact .intro hm hn hform hchildren

/-- Handles that are alike are live. -/
theorem Alike.exists_nodes (hab : g.Alike k a b) :
    ∃ m n, g.node? a = some m ∧ k.node? b = some n := by
  obtain ⟨hm, hn, -, -⟩ := hab
  exact ⟨_, _, hm, hn⟩

/-! ### With a table -/

/-- Comparing a pair of live nodes compares their forms and puts off their children. -/
theorem allSame_of_nodes (hc : ¬ compared.contains (a, b)) (hm : g.node? a = some m)
    (hn : k.node? b = some n) :
    allSame g k compared ((a, b) :: pending) = if sameForm m n then
      allSame g k (compared.insert (a, b)) (m.children.zip n.children ++ pending) else false := by
  rw [allSame, dif_neg hc]
  split
  · rename_i m' n' hm' hn'
    obtain rfl := Option.some_inj.1 (hm.symm.trans hm')
    obtain rfl := Option.some_inj.1 (hn.symm.trans hn')
    rfl
  · rename_i hnone
    exact absurd hn (hnone m n hm)

/-- A pair of which one handle is not live settles the comparison. -/
theorem allSame_of_no_nodes (hc : ¬ compared.contains (a, b))
    (hnone : ∀ m n, g.node? a = some m → k.node? b = some n → False) :
    allSame g k compared ((a, b) :: pending) = false := by
  rw [allSame, dif_neg hc]
  split
  · rename_i m n hm hn
    exact absurd hn (hnone m n hm)
  · rfl

/-- Pairs that are alike are found to be the same. -/
theorem allSame_of_alike (hpending : ∀ p ∈ pending, g.Alike k p.1 p.2) :
    allSame g k compared pending := by
  induction compared, pending using allSame.induct g k with
  | case1 compared => rw [allSame]
  | case2 compared a b pending hc ih =>
      rw [allSame, dif_pos hc]
      exact ih fun p hp => hpending p (List.mem_cons_of_mem _ hp)
  | case3 compared a b pending hc m n hm hn hform ih =>
      obtain ⟨-, hchildren⟩ := (alike_iff hm hn).1 (hpending (a, b) List.mem_cons_self)
      rw [allSame_of_nodes hc hm hn, if_pos hform]
      apply ih
      intro p hp
      rcases List.mem_append.1 hp with hp | hp
      · exact hchildren p hp
      · exact hpending p (List.mem_cons_of_mem _ hp)
  | case4 compared a b pending hc m n hm hn hform =>
      obtain ⟨hsame, -⟩ := (alike_iff hm hn).1 (hpending (a, b) List.mem_cons_self)
      exact absurd hsame hform
  | case5 compared a b pending hc hnone =>
      obtain ⟨m, n, hm, hn⟩ := (hpending (a, b) List.mem_cons_self).exists_nodes
      exact absurd hn (hnone m n hm)

/-- The nodes of a pair have the same form, and the pairs of their children are in `R`. -/
def Unfolds (g k : Graph) (R : Handle × Handle → Prop) (p : Handle × Handle) : Prop :=
  ∃ m n, g.node? p.1 = some m ∧ k.node? p.2 = some n ∧ sameForm m n ∧
    ∀ q ∈ m.children.zip n.children, R q

/-- What unfolds to related pairs unfolds to pairs that are related more loosely. -/
theorem Unfolds.mono {R S : Handle × Handle → Prop} {p : Handle × Handle} (hp : Unfolds g k R p)
    (hRS : ∀ q, R q → S q) : Unfolds g k S p := by
  obtain ⟨m, n, hm, hn, hform, hchildren⟩ := hp
  exact ⟨m, n, hm, hn, hform, fun q hq => hRS q (hchildren q hq)⟩

/-- When all is found to be the same, the pairs that were met unfold into one another. -/
theorem exists_unfolds_of_allSame (hsame : allSame g k compared pending)
    (hcompared : ∀ p, p ∈ compared → Unfolds g k (fun q => q ∈ compared ∨ q ∈ pending) p) :
    ∃ R : Handle × Handle → Prop, (∀ p, p ∈ compared ∨ p ∈ pending → R p) ∧
      ∀ p, R p → Unfolds g k R p := by
  induction compared, pending using allSame.induct g k with
  | case1 compared =>
      refine ⟨fun p => p ∈ compared, by simp, ?_⟩
      intro p hp
      exact (hcompared p hp).mono (by simp)
  | case2 compared a b pending hc ih =>
      rw [allSame, dif_pos hc] at hsame
      -- the pair is in the table, so it need not be pending
      have hmem : ∀ q, q ∈ compared ∨ q ∈ (a, b) :: pending → q ∈ compared ∨ q ∈ pending := by
        rintro q (hq | hq)
        · exact Or.inl hq
        · rcases List.mem_cons.1 hq with rfl | hq
          · exact Or.inl hc
          · exact Or.inr hq
      obtain ⟨R, hR, hunfolds⟩ := ih hsame fun p hp => (hcompared p hp).mono hmem
      exact ⟨R, fun p hp => hR p (hmem p hp), hunfolds⟩
  | case3 compared a b pending hc m n hm hn hform ih =>
      rw [allSame_of_nodes hc hm hn, if_pos hform] at hsame
      -- the pair goes into the table, and the pairs of its children are pending
      have hmem : ∀ q, q ∈ compared ∨ q ∈ (a, b) :: pending →
          q ∈ compared.insert (a, b) ∨ q ∈ m.children.zip n.children ++ pending := by
        intro q hq
        rw [HashSet.mem_insert, List.mem_append]
        rcases hq with hq | hq
        · exact Or.inl (Or.inr hq)
        · rcases List.mem_cons.1 hq with rfl | hq
          · exact Or.inl (Or.inl (beq_self_eq_true _))
          · exact Or.inr (Or.inr hq)
      obtain ⟨R, hR, hunfolds⟩ := ih hsame (by
        intro p hp
        rcases HashSet.mem_insert.1 hp with heq | hp
        · obtain rfl := eq_of_beq heq
          exact ⟨m, n, hm, hn, hform, fun q hq => Or.inr (List.mem_append_left _ hq)⟩
        · exact (hcompared p hp).mono hmem)
      exact ⟨R, fun p hp => hR p (hmem p hp), hunfolds⟩
  | case4 compared a b pending hc m n hm hn hform =>
      rw [allSame_of_nodes hc hm hn, if_neg hform] at hsame
      cases hsame
  | case5 compared a b pending hc hnone =>
      rw [allSame_of_no_nodes hc hnone] at hsame
      cases hsame

/-- In an ordered graph, pairs that unfold into one another are alike. -/
theorem Ordered.alike_of_unfolds (hg : g.Ordered) {R : Handle × Handle → Prop}
    (hR : ∀ p, R p → Unfolds g k R p) (hab : R (a, b)) : g.Alike k a b := by
  induction a using hg.wellFounded.induction generalizing b with
  | _ a ih =>
  obtain ⟨m, n, hm, hn, hform, hchildren⟩ := hR _ hab
  apply Alike.intro hm hn hform
  rintro ⟨c, d⟩ hcd
  apply ih c
  · rw [mem_edges_iff, childrenOf, hm]
    exact (List.of_mem_zip hcd).1
  · exact hchildren _ hcd

/-- In an ordered graph a comparison that succeeds is right. -/
theorem Ordered.alike_of_allSame (hg : g.Ordered) (hsame : allSame g k ∅ pending) :
    ∀ p ∈ pending, g.Alike k p.1 p.2 := by
  obtain ⟨R, hR, hunfolds⟩ := exists_unfolds_of_allSame hsame (by simp)
  intro p hp
  exact hg.alike_of_unfolds hunfolds (hR p (Or.inr hp))

/-- On ordered graphs, handles are the same expression exactly if they are alike. -/
theorem Ordered.sameExpression_iff (hg : g.Ordered) :
    g.sameExpression a k b ↔ g.Alike k a b := by
  constructor
  · intro hsame
    exact hg.alike_of_allSame hsame (a, b) (List.mem_singleton_self _)
  · intro hab
    apply allSame_of_alike
    intro p hp
    obtain rfl := List.mem_singleton.1 hp
    exact hab

/-! ### Without a table -/

/-- The pairs of children of two nodes in the order in which they are compared: those of a
comparison from the left, those of other forms from the right. -/
def pairsOf (m n : Node) : List (Handle × Handle) :=
  match m with
  | .comparison .. => m.children.zip n.children
  | _ => (m.children.zip n.children).reverse

/-- The pairs of children listed for two nodes are their children in pairs. -/
theorem mem_pairsOf {p : Handle × Handle} :
    p ∈ pairsOf m n ↔ p ∈ m.children.zip n.children := by
  unfold pairsOf
  split
  · rfl
  · exact List.mem_reverse

/-- Whether all pending pairs stand for the same expressions, if no more than `rounds` pairs have to
be looked at. A pair is looked at as often as it comes up. -/
def compareWithin (g k : Graph) : (rounds : ℕ) → List (Handle × Handle) → Option Bool
  | _, [] => some true
  | 0, _ :: _ => none
  | rounds + 1, (a, b) :: pending =>
    match g.node? a, k.node? b with
    | some m, some n =>
      if sameForm m n then compareWithin g k rounds (pairsOf m n ++ pending) else some false
    | _, _ => some false

/-- An answer says whether the pending pairs are alike. -/
theorem compareWithin_eq_some {rounds : ℕ} {answer : Bool}
    (h : compareWithin g k rounds pending = some answer) :
    answer ↔ ∀ p ∈ pending, g.Alike k p.1 p.2 := by
  induction rounds, pending using compareWithin.induct g k with
  | case1 rounds =>
      rw [compareWithin] at h
      cases h
      simp
  | case2 p pending => cases h
  | case3 rounds a b pending m n hn hm hform ih =>
      simp only [compareWithin, hm, hn, hform, ↓reduceIte] at h
      rw [ih h, List.forall_mem_cons, alike_iff hm hn]
      simp [hform, or_imp, forall_and, mem_pairsOf]
  | case4 rounds a b pending m n hn hm hform =>
      simp only [compareWithin, hm, hn, hform] at h
      cases h
      simp [alike_iff hm hn, hform]
  | case5 rounds a b pending hnone =>
      have hdead : ¬ g.Alike k a b := by
        intro hab
        obtain ⟨m, n, hm, hn⟩ := hab.exists_nodes
        exact hnone m n hm hn
      simp only [compareWithin] at h
      cases h
      simp [hdead]

/-- On ordered graphs there is an answer. -/
theorem Ordered.exists_compareWithin_eq_some (hg : g.Ordered) (k : Graph)
    (pending : List (Handle × Handle)) :
    ∃ rounds answer, compareWithin g k rounds pending = some answer := by
  induction hwork : (↑(pending.map Prod.fst) : Multiset Handle) using
    hg.wellFounded_descends.induction generalizing pending with
  | _ work ih =>
  subst hwork
  match pending with
  | [] => exact ⟨0, true, rfl⟩
  | (a, b) :: pending =>
      by_cases hboth : ∃ m n, g.node? a = some m ∧ k.node? b = some n ∧ sameForm m n
      · obtain ⟨m, n, hm, hn, hform⟩ := hboth
        obtain ⟨rounds, answer, hanswer⟩ := ih _ (by
          refine ⟨a, ↑((pairsOf m n).map Prod.fst), ↑(pending.map Prod.fst), 0, by simp, rfl, ?_⟩
          intro c hc
          obtain ⟨p, hp, rfl⟩ := List.mem_map.1 (Multiset.mem_coe.1 hc)
          rw [mem_edges_iff, childrenOf, hm]
          exact (List.of_mem_zip (mem_pairsOf.1 hp)).1) (pairsOf m n ++ pending) (by simp)
        refine ⟨rounds + 1, answer, ?_⟩
        simp only [compareWithin, hm, hn, hform, ↓reduceIte, hanswer]
      · refine ⟨1, false, ?_⟩
        unfold compareWithin
        split
        · rename_i m n hm hn
          rw [if_neg fun hform => hboth ⟨m, n, hm, hn, hform⟩]
        · rfl

/-- **The comparison without a table ends with the answer of the comparison with one.** -/
theorem Ordered.exists_compareWithin (hg : g.Ordered) (k : Graph) (a b : Handle) :
    ∃ rounds, compareWithin g k rounds [(a, b)] = some (g.sameExpression a k b) := by
  obtain ⟨rounds, answer, hanswer⟩ := hg.exists_compareWithin_eq_some k [(a, b)]
  refine ⟨rounds, ?_⟩
  rw [hanswer, Option.some_inj, Bool.eq_iff_iff, compareWithin_eq_some hanswer,
    hg.sameExpression_iff]
  simp

end SharedExpr.Graph
