import Mathlib.Data.List.Forall2
import SharedExpr.Walk.Agenda

/-!
# What becomes of the items of an agenda

An item that is put on an agenda is taken off it once, or is dropped with all others when the agenda
is cleared, or is still there. Equal items may be on an agenda at once, so an item is told by the
moment at which it was put there: its position in a log of what was done with the agenda.

* `Agenda.Event`, `Agenda.Logged` — what can be done with an agenda, and the logs of agendas that
  were empty at first.
* `Agenda.Delivers` — what was taken at one position of a log is what was put at another, with no
  clearing in between.
* `Agenda.Settlement` — every item that was put on the agenda is accounted for once.
* `Agenda.Logged.exists_settlement` — **every log has one**.
-/

namespace SharedExpr.Agenda

open scoped List

variable {α : Type}

/-- Something that is done with an agenda. -/
inductive Event (α : Type) where
  /-- The next item is taken off. -/
  | taken (item : α)
  /-- An item is put before all others. -/
  | front (item : α)
  /-- An item is put after all others. -/
  | back (item : α)
  /-- All items are dropped. -/
  | cleared

namespace Event

/-- The item that is put on the agenda. -/
def put? : Event α → Option α
  | front x | back x => some x
  | taken _ | cleared => none

/-- The item that is taken off. -/
def taken? : Event α → Option α
  | taken x => some x
  | front _ | back _ | cleared => none

/-- The items after an event, given those before. -/
def apply (items : List α) : Event α → List α
  | taken _ => items.tail
  | front x => x :: items
  | back x => items ++ [x]
  | cleared => []

end Event

/-- The events lead from the empty agenda to the items. Only what comes next is taken. -/
inductive Logged : List (Event α) → List α → Prop
  /-- Nothing was done yet. -/
  | nil : Logged [] []
  /-- The next item is taken. -/
  | take {log : List (Event α)} {x : α} {items : List α} (hlog : Logged log (x :: items)) :
      Logged (log ++ [.taken x]) items
  /-- Anything else is done. -/
  | other {log : List (Event α)} {items : List α} (e : Event α) (he : e.taken? = none)
      (hlog : Logged log items) : Logged (log ++ [e]) (e.apply items)

variable {log : List (Event α)} {items : List α} {e : Event α} {x : α} {k m : ℕ}
  {made dropped kept : List ℕ}

/-- Events that take nothing can be added to a log. -/
theorem Logged.others {es : List (Event α)} (hes : ∀ e ∈ es, e.taken? = none)
    (hlog : Logged log items) : Logged (log ++ es) (es.foldl Event.apply items) := by
  induction es generalizing log items with
  | nil => simpa using hlog
  | cons e es ih =>
      obtain ⟨he, hes⟩ := List.forall_mem_cons.1 hes
      simpa using ih hes (.other e he hlog)

/-! ### Positions in a log -/

/-- At position `k` of the log the item is put on the agenda. -/
def PutAt (log : List (Event α)) (k : ℕ) (x : α) : Prop :=
  ∃ e, log[k]? = some e ∧ e.put? = some x

/-- What is taken at position `m` of the log is what is put there at position `k`, and the agenda is
not cleared in between. -/
def Delivers (log : List (Event α)) (k m : ℕ) : Prop :=
  k < m ∧ (∃ x, PutAt log k x ∧ log[m]? = some (.taken x)) ∧
    ∀ i, k < i → i < m → log[i]? ≠ some .cleared

/-- The positions at which an item is put on the agenda. -/
def puts (log : List (Event α)) : List ℕ :=
  log.findIdxs fun e => e.put?.isSome

/-- The positions at which an item is taken off the agenda. -/
def takes (log : List (Event α)) : List ℕ :=
  log.findIdxs fun e => e.taken?.isSome

/-- Items are put at positions of the log. -/
theorem PutAt.lt (hk : PutAt log k x) : k < log.length := by
  obtain ⟨e, he, -⟩ := hk
  exact (List.getElem?_eq_some_iff.1 he).1

/-- What is at a position of a log stays there. -/
theorem getElem?_append_of_eq_some (hk : log[k]? = some e) (es : List (Event α)) :
    (log ++ es)[k]? = some e := by
  rwa [List.getElem?_append_left (List.getElem?_eq_some_iff.1 hk).1]

/-- Items stay where they were put when a log grows. -/
theorem PutAt.append (hk : PutAt log k x) (es : List (Event α)) : PutAt (log ++ es) k x := by
  obtain ⟨e, he, hput⟩ := hk
  exact ⟨e, getElem?_append_of_eq_some he es, hput⟩

/-- The last event puts its item at the end of the log. -/
theorem putAt_concat (he : e.put? = some x) : PutAt (log ++ [e]) log.length x :=
  ⟨e, List.getElem?_concat_length, he⟩

/-- What is put at a position of a longer log is put there by what was added, or was before. -/
theorem putAt_concat_iff :
    PutAt (log ++ [e]) k x ↔ PutAt log k x ∨ k = log.length ∧ e.put? = some x := by
  constructor
  · rintro ⟨f, hf, hput⟩
    rcases Nat.lt_trichotomy k log.length with hlt | rfl | hlt
    · exact Or.inl ⟨f, by rwa [List.getElem?_append_left hlt] at hf, hput⟩
    · rw [List.getElem?_concat_length, Option.some_inj] at hf
      exact Or.inr ⟨rfl, hf ▸ hput⟩
    · rw [List.getElem?_eq_none (by simp; omega)] at hf
      cases hf
  · rintro (hk | ⟨rfl, he⟩)
    · exact hk.append [e]
    · exact putAt_concat he

/-- What was delivered stays delivered when a log grows. -/
theorem Delivers.append (hkm : Delivers log k m) (es : List (Event α)) :
    Delivers (log ++ es) k m := by
  obtain ⟨hlt, ⟨x, hput, htaken⟩, hnot⟩ := hkm
  refine ⟨hlt, ⟨x, hput.append es, getElem?_append_of_eq_some htaken es⟩, ?_⟩
  intro i hki him
  have hm := (List.getElem?_eq_some_iff.1 htaken).1
  rw [List.getElem?_append_left (Nat.lt_trans him hm)]
  exact hnot i hki him

/-- The last event is one more position if it puts an item. -/
theorem puts_concat (log : List (Event α)) (e : Event α) :
    puts (log ++ [e]) = puts log ++ if e.put?.isSome then [log.length] else [] := by
  simp [puts, List.findIdxs_append]

/-- The last event is one more position if it takes an item. -/
theorem takes_concat (log : List (Event α)) (e : Event α) :
    takes (log ++ [e]) = takes log ++ if e.taken?.isSome then [log.length] else [] := by
  simp [takes, List.findIdxs_append]

/-- The positions listed are those at which items are put. -/
theorem mem_puts_iff : k ∈ puts log ↔ ∃ x, PutAt log k x := by
  simp only [puts, PutAt, List.mem_findIdxs_iff_exists_getElem_pos, Option.isSome_iff_exists,
    List.getElem?_eq_some_iff]
  constructor
  · rintro ⟨hk, x, hx⟩
    exact ⟨x, _, ⟨hk, rfl⟩, hx⟩
  · rintro ⟨x, e, ⟨hk, rfl⟩, hx⟩
    exact ⟨hk, x, hx⟩

/-! ### Every item is accounted for -/

/-- What became of the items of a log, by the positions at which they were put on the agenda. -/
structure Settlement (log : List (Event α)) (made dropped kept : List ℕ) : Prop where
  /-- Each is in one of the lists, once. -/
  each : made ++ dropped ++ kept ~ puts log
  /-- Those that were taken off, in this order. -/
  delivered : List.Forall₂ (Delivers log) made (takes log)
  /-- Those that were dropped: the agenda was cleared after they were put there. -/
  dropped : ∀ k ∈ dropped, ∃ i, k < i ∧ log[i]? = some .cleared
  /-- Those that are still there: the agenda was not cleared since. -/
  kept : ∀ k ∈ kept, ∀ i, k < i → log[i]? ≠ some .cleared

/-- As many items were put on the agenda as were taken, dropped, and are still there. -/
theorem Settlement.length_eq (h : Settlement log made dropped kept) :
    (takes log).length + dropped.length + kept.length = (puts log).length := by
  rw [← h.each.length_eq, ← h.delivered.length_eq, List.length_append, List.length_append]

section concat

variable (h : Settlement log made dropped kept)
include h

/-- What was delivered stays so with one event more. -/
theorem Settlement.delivered_concat (e : Event α) :
    List.Forall₂ (Delivers (log ++ [e])) made (takes log) :=
  h.delivered.imp fun _ _ hkm => hkm.append [e]

/-- What was dropped stays so with one event more. -/
theorem Settlement.dropped_concat (e : Event α) :
    ∀ k ∈ dropped, ∃ i, k < i ∧ (log ++ [e])[i]? = some .cleared := by
  intro k hk
  obtain ⟨i, hki, hi⟩ := h.dropped k hk
  exact ⟨i, hki, getElem?_append_of_eq_some hi [e]⟩

/-- What was kept is kept with one event more, unless that clears the agenda. -/
theorem Settlement.kept_concat (he : e ≠ .cleared) :
    ∀ k ∈ kept, ∀ i, k < i → (log ++ [e])[i]? ≠ some .cleared := by
  intro k hk i hki
  rcases Nat.lt_or_ge i log.length with hlt | hge
  · rw [List.getElem?_append_left hlt]
    exact h.kept k hk i hki
  · rw [List.getElem?_append_right hge]
    rcases Nat.eq_zero_or_pos (i - log.length) with hzero | hpos
    · simpa [hzero] using he
    · simp [List.getElem?_eq_none (l := [e]) (i := i - log.length) hpos]

/-- A new item is still there. -/
theorem Settlement.put (he : e.put? = some x) {kept' : List ℕ}
    (hkept : kept' ~ log.length :: kept) : Settlement (log ++ [e]) made dropped kept' where
  each := by
    rw [puts_concat, he, Option.isSome_some, if_pos rfl]
    calc made ++ dropped ++ kept'
      _ ~ made ++ dropped ++ log.length :: kept := hkept.append_left _
      _ ~ log.length :: (made ++ dropped ++ kept) := List.perm_middle
      _ ~ log.length :: puts log := h.each.cons _
      _ ~ puts log ++ [log.length] := (List.perm_append_singleton _ _).symm
  delivered := by
    have htaken : e.taken? = none := by cases e <;> simp_all [Event.put?, Event.taken?]
    rw [takes_concat, htaken]
    simpa using h.delivered_concat e
  dropped := h.dropped_concat e
  kept := by
    have hne : e ≠ .cleared := by
      rintro rfl
      cases he
    intro k hk
    rcases List.mem_cons.1 (hkept.mem_iff.1 hk) with rfl | hk
    · intro i hi
      rw [List.getElem?_eq_none (by rw [List.length_append]; exact hi)]
      simp
    · exact h.kept_concat hne k hk

/-- All that were there are dropped. -/
theorem Settlement.clear : Settlement (log ++ [.cleared]) made (dropped ++ kept) [] where
  each := by
    rw [puts_concat]
    simpa [Event.put?] using h.each
  delivered := by
    rw [takes_concat]
    simpa [Event.taken?] using h.delivered_concat .cleared
  dropped := by
    intro k hk
    rcases List.mem_append.1 hk with hk | hk
    · exact h.dropped_concat .cleared k hk
    · have hput : k ∈ puts log := h.each.mem_iff.1 (List.mem_append_right _ hk)
      obtain ⟨x, hx⟩ := mem_puts_iff.1 hput
      exact ⟨log.length, hx.lt, List.getElem?_concat_length⟩
  kept := by simp

end concat

/-- The next of those that were there is taken off. -/
theorem Settlement.take (h : Settlement log made dropped (k :: kept)) (hk : PutAt log k x) :
    Settlement (log ++ [.taken x]) (made ++ [k]) dropped kept where
  each := by
    rw [puts_concat]
    calc made ++ [k] ++ dropped ++ kept
      _ ~ k :: (made ++ dropped ++ kept) := by simp [List.perm_middle]
      _ ~ made ++ dropped ++ k :: kept := List.perm_middle.symm
      _ ~ puts log := h.each
      _ = _ := by simp [Event.put?]
  delivered := by
    have hnow : Delivers (log ++ [.taken x]) k log.length := by
      refine ⟨hk.lt, ⟨x, hk.append _, List.getElem?_concat_length⟩, ?_⟩
      intro i hki hi
      rw [List.getElem?_append_left hi]
      exact h.kept k List.mem_cons_self i hki
    rw [takes_concat]
    exact List.rel_append (h.delivered_concat _) (.cons hnow .nil)
  dropped := h.dropped_concat _
  kept := fun l hl => h.kept_concat (by simp) l (List.mem_cons_of_mem _ hl)

/-- **Every item that was put on an agenda is accounted for**: it was taken off once, or it was
dropped, or it is still there. -/
theorem Logged.exists_settlement (hlog : Logged log items) :
    ∃ made dropped kept, Settlement log made dropped kept ∧
      List.Forall₂ (PutAt log) kept items := by
  induction hlog with
  | nil => exact ⟨[], [], [], ⟨.nil, .nil, by simp, by simp⟩, .nil⟩
  | @take log x items _ ih =>
      obtain ⟨made, dropped, kept, h, hitems⟩ := ih
      cases hitems with
      | cons hk hrest =>
          exact ⟨_, _, _, h.take hk, hrest.imp fun _ _ hput => hput.append _⟩
  | @other log items e he _ ih =>
      obtain ⟨made, dropped, kept, h, hitems⟩ := ih
      have hitems' : List.Forall₂ (PutAt (log ++ [e])) kept items :=
        hitems.imp fun _ _ hput => hput.append _
      cases e with
      | taken x => cases he
      | front x =>
          exact ⟨_, _, _, h.put rfl (.refl _), .cons (putAt_concat rfl) hitems'⟩
      | back x =>
          exact ⟨_, _, _, h.put rfl (List.perm_append_singleton _ _),
            List.rel_append hitems' (.cons (putAt_concat rfl) .nil)⟩
      | cleared => exact ⟨_, _, _, h.clear, .nil⟩

end SharedExpr.Agenda
