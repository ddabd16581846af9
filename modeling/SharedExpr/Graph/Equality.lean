import SharedExpr.Graph.Basic
import Std.Data.HashSet

/-!
# Equality of expressions

Two handles stand for the same expression if their nodes have equal heads and equally many children
and the children stand for the same expressions, in order. How the nodes are shared plays no part,
and neither does the graph they are in; a handle that is not live equals nothing, itself included.

* `Graph.sameForm m n` — two nodes agree in everything but what their children stand for.
* `Graph.allSame` — the comparison, pair by pair. A pair that was compared once is not compared
  again, so the work is bounded by the pairs of live nodes (`Graph.uncompared`, which every new
  pair lowers, `Graph.uncompared_insert_lt`) and not by the size of the expressions written out.
* `Graph.sameExpression g a k b` — the comparison of two handles.

Scope: a pair that was compared is taken care of and not known to be equal, so on a cyclic graph
the answer would be the largest relation that fits. What trees the handles stand for, and that on
graphs without cycles equality is equality of these trees, is not said here.
-/

namespace SharedExpr

open Std (HashSet)

/-- The number of elements with a property, where one of them has lost it. -/
theorem countP_lt_countP_of_mem {α : Type} {p q : α → Bool} {l : List α} {x : α} (hx : x ∈ l)
    (hpq : ∀ y, p y → q y) (hp : p x = false) (hq : q x) : l.countP p < l.countP q := by
  induction l with
  | nil => cases hx
  | cons y l ih =>
    rw [List.countP_cons, List.countP_cons]
    have hle : l.countP p ≤ l.countP q := List.countP_mono_left fun y _ => hpq y
    rcases List.mem_cons.1 hx with rfl | hx
    · simp [hp, hq]
      omega
    · have hlt := ih hx
      have hy : (if p y then 1 else 0) ≤ if q y then 1 else 0 := by
        by_cases hpy : p y
        · simp [hpy, hpq y hpy]
        · simp [hpy]
      omega

namespace Graph

/-- Pairs of a live handle of each of two graphs. -/
def livePairs (g k : Graph) : List (Handle × Handle) :=
  g.entries.flatMap fun p => k.entries.map fun q => (p.1, q.1)

/-- The number of pairs of live handles that are still to be compared. -/
def uncompared (g k : Graph) (compared : HashSet (Handle × Handle)) : Nat :=
  (livePairs g k).countP fun p => !compared.contains p

/-- The pairs are those of a live handle of the one graph and a live handle of the other. -/
theorem mem_livePairs {g k : Graph} {a b : Handle} :
    (a, b) ∈ livePairs g k ↔ g.contains a ∧ k.contains b := by
  simp only [livePairs, List.mem_flatMap, List.mem_map, Prod.exists, Prod.mk.injEq, mem_entries,
    contains, Option.isSome_iff_exists]
  constructor
  · rintro ⟨a', e, he, b', f, hf, rfl, rfl⟩
    exact ⟨⟨e, he⟩, ⟨f, hf⟩⟩
  · rintro ⟨⟨e, he⟩, ⟨f, hf⟩⟩
    exact ⟨a, e, he, b, f, hf, rfl, rfl⟩

/-- A pair that was not compared yet is one pair less to compare. -/
theorem uncompared_insert_lt {g k : Graph} {compared : HashSet (Handle × Handle)} {a b : Handle}
    (ha : g.contains a) (hb : k.contains b) (hn : ¬ compared.contains (a, b)) :
    uncompared g k (compared.insert (a, b)) < uncompared g k compared := by
  refine countP_lt_countP_of_mem (mem_livePairs.2 ⟨ha, hb⟩) (fun y hy => ?_) ?_ ?_
  · simp_all
  · simp
  · simpa using hn

/-- Whether two nodes agree in everything but what their children stand for. -/
def sameForm (m n : Node) : Bool :=
  m.head = n.head ∧ m.children.length = n.children.length

/-- Whether all pending pairs stand for the same expressions, given that those compared before are
taken care of. -/
def allSame (g k : Graph) (compared : HashSet (Handle × Handle)) :
    List (Handle × Handle) → Bool
  | [] => true
  | (a, b) :: pending =>
    if _hc : compared.contains (a, b) then allSame g k compared pending
    else
      match _ha : g.node? a, _hb : k.node? b with
      | some m, some n =>
        if sameForm m n then
          allSame g k (compared.insert (a, b)) (m.children.zip n.children ++ pending)
        else false
      | _, _ => false
termination_by pending => (uncompared g k compared, pending.length)
decreasing_by
  · exact Prod.Lex.right _ (Nat.lt_succ_self _)
  · refine Prod.Lex.left _ _ (uncompared_insert_lt ?_ ?_ _hc)
    · simpa [node?, contains] using congrArg Option.isSome _ha
    · simpa [node?, contains] using congrArg Option.isSome _hb

/-- Whether handle `a` of graph `g` and handle `b` of graph `k` stand for the same expression. -/
def sameExpression (g : Graph) (a : Handle) (k : Graph) (b : Handle) : Bool :=
  allSame g k ∅ [(a, b)]

end Graph

end SharedExpr
