import Mathlib.Data.List.Forall2
import Mathlib.Data.List.Induction
import Mathlib.Data.List.Infix
import Mathlib.Data.List.Nodup

/-!
# Lists

Facts about lists that the library does not have and that know nothing of graphs. The modules that
need them cite them from here.

* `eraseDups_append_of_subset`, `eraseDups_concat_of_not_mem`, `nodup_eraseDups` — the list of first
  occurrences, which is how the listings of a graph are stated.
* `exists_forall₂`, `exists_of_forall₂`, `forall₂_of_forall₂` — lists that are related element by
  element, such as operands and the trees that they stand for.
* `zip_inits_concat`, `filterMap_getElem?_range`, `find?_not_eq_some_iff` — a list by its
  beginnings, by its positions and by the first element that lacks a property.
-/

namespace SharedExpr

/-! ### First occurrences -/

section firstOccurrences

variable {α : Type} [BEq α] [LawfulBEq α] {l m : List α} {x : α}

/-- What was listed before is not listed again. -/
theorem eraseDups_append_of_subset (hm : m ⊆ l) : (l ++ m).eraseDups = l.eraseDups := by
  have hnone : m.removeAll l = [] := by
    rw [List.removeAll, List.filter_eq_nil_iff]
    intro x hx
    simpa using hm hx
  rw [List.eraseDups_append, hnone, List.eraseDups_nil, List.append_nil]

/-- What was not listed before is listed at the end. -/
theorem eraseDups_concat_of_not_mem (hx : x ∉ l) :
    (l ++ [x]).eraseDups = l.eraseDups ++ [x] := by
  have hnew : [x].removeAll l = [x] := by simpa [List.removeAll] using hx
  rw [List.eraseDups_append, hnew]
  rfl

/-- First occurrences are listed once. -/
theorem nodup_eraseDups (l : List α) : l.eraseDups.Nodup := by
  induction l using List.reverseRecOn with
  | nil => exact .nil
  | append_singleton l x ih =>
      by_cases hx : x ∈ l
      · rwa [eraseDups_append_of_subset (by simpa using hx)]
      · rw [eraseDups_concat_of_not_mem hx, ← List.concat_eq_append]
        exact ih.concat (by simpa using hx)

/-- A list without repetitions is the list of its first occurrences. -/
theorem eraseDups_of_nodup (hl : l.Nodup) : l.eraseDups = l := by
  induction l using List.reverseRecOn with
  | nil => rfl
  | append_singleton l x ih =>
      obtain ⟨hl, -, hx⟩ := List.nodup_append.1 hl
      rw [eraseDups_concat_of_not_mem fun hmem => hx x hmem x List.mem_cons_self rfl, ih hl]

/-- What was listed may be thinned out before more is listed. -/
theorem eraseDups_eraseDups_append (l m : List α) :
    (l.eraseDups ++ m).eraseDups = (l ++ m).eraseDups := by
  have hsame : m.removeAll l.eraseDups = m.removeAll l := by
    apply List.filter_congr
    simp
  rw [List.eraseDups_append, List.eraseDups_append, hsame, eraseDups_of_nodup (nodup_eraseDups l)]

/-- What is new is listed, whether it comes before the rest or after it. -/
theorem eraseDups_append_once {pre post : List α} (hone : pre ++ post = [x]) (hl : x ∉ l)
    (hm : x ∉ m) : ((l ++ pre) ++ m).eraseDups ++ post = (l ++ (pre ++ m ++ post)).eraseDups := by
  rcases List.append_eq_singleton_iff.1 hone with ⟨rfl, rfl⟩ | ⟨rfl, rfl⟩
  · rw [List.append_nil, List.nil_append, ← List.append_assoc, eraseDups_concat_of_not_mem]
    exact List.not_mem_append hl hm
  · rw [List.append_nil, List.append_nil, List.append_assoc]

end firstOccurrences

/-! ### Lists related element by element -/

/-- If each element of a list is related to something, the list is related to a list. -/
theorem exists_forall₂ {α β : Type} {R : α → β → Prop} {l : List α} (h : ∀ a ∈ l, ∃ b, R a b) :
    ∃ m, List.Forall₂ R l m := by
  induction l with
  | nil => exact ⟨[], .nil⟩
  | cons a l ih =>
      obtain ⟨b, hb⟩ := h a List.mem_cons_self
      obtain ⟨m, hm⟩ := ih fun x hx => h x (List.mem_cons_of_mem _ hx)
      exact ⟨b :: m, .cons hb hm⟩

/-- Lists that are related to one list element by element are related to one another. -/
theorem forall₂_of_forall₂ {α β γ : Type} {R : α → γ → Prop} {S : β → γ → Prop} {Q : α → β → Prop}
    (hQ : ∀ a b c, R a c → S b c → Q a b) {l : List α} {m : List β} {n : List γ}
    (hl : List.Forall₂ R l n) (hm : List.Forall₂ S m n) : List.Forall₂ Q l m := by
  induction hl generalizing m with
  | nil =>
      cases hm
      exact .nil
  | cons hfirst _ ih =>
      cases hm with
      | cons hfirst' hrest' => exact .cons (hQ _ _ _ hfirst hfirst') (ih hrest')

/-- What is in a list that is related to another one is related to something. -/
theorem exists_of_forall₂ {α β : Type} {R : α → β → Prop} {l : List α} {m : List β}
    (h : List.Forall₂ R l m) : ∀ b ∈ m, ∃ a, R a b := by
  induction h with
  | nil => simp
  | cons hfirst _ ih => exact List.forall_mem_cons.2 ⟨⟨_, hfirst⟩, ih⟩

/-! ### Beginnings and positions -/

/-- The beginnings of a list, each with the element that comes next. -/
theorem zip_inits_concat {α : Type} (l : List α) (a : α) :
    (l ++ [a]).inits.zip (l ++ [a]) = l.inits.zip l ++ [(l, a)] := by
  induction l with
  | nil => rfl
  | cons x l ih =>
      rw [List.cons_append, List.inits, List.inits, List.zip_cons_cons, List.zip_cons_cons,
        List.zip_map_left, List.zip_map_left, ih, List.map_append]
      rfl

/-- All positions of a list hold the list. -/
theorem filterMap_getElem?_range {α : Type} (xs : List α) :
    (List.range xs.length).filterMap (fun i => xs[i]?) = xs := by
  induction xs with
  | nil => rfl
  | cons x xs ih =>
      rw [List.length_cons, List.range_succ_eq_map, List.filterMap_cons, List.filterMap_map]
      simpa using ih

/-- A list begins with elements that have a property, up to the first that has not. -/
theorem find?_not_eq_some_iff {α : Type} {p : α → Bool} {xs : List α} {x : α} :
    xs.find? (fun y => !p y) = some x ↔
      ∃ as bs, xs = as ++ x :: bs ∧ (∀ y ∈ as, p y) ∧ ¬ p x := by
  rw [List.find?_eq_some_iff_append]
  constructor
  · rintro ⟨hx, as, bs, rfl, has⟩
    exact ⟨as, bs, rfl, fun y hy => by simpa using has y hy, by simpa using hx⟩
  · rintro ⟨as, bs, rfl, has, hx⟩
    exact ⟨by simpa using hx, as, bs, rfl, fun y hy => by simpa using has y hy⟩

end SharedExpr
