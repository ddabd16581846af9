/-!
# Agendas: queues with two open ends

What is still to be done, in order. New items go to the front, where they come next, or to the back,
where they come last. The two halves of the representation are an economy; `Agenda.toList` is the
agenda as it is meant, and every operation is described by what it does to that list.
-/

namespace SharedExpr

/-- Items in order. The front half is kept as it is, the back half in reverse. -/
structure Agenda (α : Type) where
  /-- The items that come first. -/
  front : List α
  /-- The items that come after them, the last one at the head. -/
  back : List α
deriving Inhabited

namespace Agenda

variable {α : Type}

/-- The items in order. -/
def toList (a : Agenda α) : List α :=
  a.front ++ a.back.reverse

/-- The agenda without items. -/
def empty : Agenda α :=
  ⟨[], []⟩

/-- The agenda with an item that comes next. -/
def pushFront (a : Agenda α) (x : α) : Agenda α :=
  ⟨x :: a.front, a.back⟩

/-- The agenda with an item that comes last. -/
def pushBack (a : Agenda α) (x : α) : Agenda α :=
  ⟨a.front, x :: a.back⟩

/-- The next item, and the agenda without it. -/
def pop? (a : Agenda α) : Option (α × Agenda α) :=
  match a.front with
  | x :: front => some (x, ⟨front, a.back⟩)
  | [] =>
    match a.back.reverse with
    | x :: front => some (x, ⟨front, []⟩)
    | [] => none

/-- Nothing is on the empty agenda. -/
@[simp] theorem toList_empty : (empty : Agenda α).toList = [] := rfl

/-- What is put in front comes first. -/
@[simp] theorem toList_pushFront (a : Agenda α) (x : α) :
    (a.pushFront x).toList = x :: a.toList := rfl

/-- What is put at the end comes last. -/
@[simp] theorem toList_pushBack (a : Agenda α) (x : α) :
    (a.pushBack x).toList = a.toList ++ [x] := by
  simp [toList, pushBack]

/-- Nothing can be taken exactly from an agenda that holds nothing. -/
theorem pop?_eq_none_iff {a : Agenda α} : a.pop? = none ↔ a.toList = [] := by
  unfold pop? toList
  split
  · simp_all
  · split <;> simp_all

/-- What is taken comes first, and the rest stays in order. -/
theorem toList_of_pop? {a b : Agenda α} {x : α} (h : a.pop? = some (x, b)) :
    a.toList = x :: b.toList := by
  unfold pop? at h
  unfold toList
  split at h
  · cases h
    simp_all
  · split at h
    · cases h
      simp_all
    · cases h

end Agenda

end SharedExpr
