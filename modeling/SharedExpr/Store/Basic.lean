import SharedExpr.Handle

/-!
# Stores: slots that are used again, keys that are not

A store keeps values in numbered slots. A value that is taken out leaves its slot vacant; the next
value to arrive moves into the slot that was vacated last, or into a new slot at the end when no
slot is vacant. Every departure raises the slot's generation, so the key of a departed value never
finds a later one.

* `Store` — the slots and the list of vacant ones, with the proof that the list holds each vacant
  slot exactly once. That is what makes `Store.insert` safe to read as "put the value where nothing
  is" and `Store.size` an exact count without a scan.
* `Store.get?`, `Store.entries`, `Store.size` — the readers.
* `Store.insert`, `Store.erase`, `Store.modify` — the writers.

What each writer does to the readers is said in `SharedExpr.Store.Lemmas`; later modules use those
equations and never look at slots.

Scope: generations are natural numbers and grow for ever. Whatever is said of keys and handles over
a run says so of runs in which no slot was vacated so often that a bounded generation would wrap
round and an old key be issued again.
-/

namespace SharedExpr

/-- One place of a store: how many occupants have left it, and the present one. -/
structure Slot (α : Type) where
  /-- The number of occupants that have left. -/
  generation : Nat
  /-- The present occupant. -/
  content : Option α

/-- Values in numbered slots, with the vacant slots in the order in which they are filled. -/
structure Store (α : Type) where
  /-- The slots, by position. -/
  slots : Array (Slot α)
  /-- The vacant slots, the one vacated last at the head. -/
  free : List Nat
  /-- No slot is listed twice. -/
  free_nodup : free.Nodup
  /-- The listed slots are exactly the vacant ones. -/
  mem_free : ∀ i, i ∈ free ↔ ∃ s, slots[i]? = some s ∧ s.content = none

namespace Store

variable {α : Type}

/-- The store without slots. -/
def empty : Store α where
  slots := #[]
  free := []
  free_nodup := List.nodup_nil
  mem_free := by simp

/-- A store starts empty. -/
instance : Inhabited (Store α) :=
  ⟨empty⟩

/-! ## Reading -/

/-- The value under a key, if its slot still holds that generation's occupant. -/
def get? (s : Store α) (k : Key) : Option α :=
  match s.slots[k.slot]? with
  | some c => if c.generation = k.generation then c.content else none
  | none => none

/-- The number of values in the store. -/
def size (s : Store α) : Nat :=
  s.slots.size - s.free.length

/-- The entry of the slot at a position, if the slot is occupied. -/
def entryAt? (c : Slot α) (i : Nat) : Option (Key × α) :=
  c.content.map fun a => (⟨i, c.generation⟩, a)

/-- The keys in use with their values, in ascending order of slots. -/
def entries (s : Store α) : List (Key × α) :=
  s.slots.toList.zipIdx.filterMap fun p => entryAt? p.1 p.2

/-! ## Writing -/

/-- A free slot is one of the slots of the store. -/
theorem lt_size_of_mem_free (s : Store α) {i : Nat} (h : i ∈ s.free) : i < s.slots.size := by
  obtain ⟨c, hc, -⟩ := (s.mem_free i).1 h
  exact (Array.getElem?_eq_some_iff.1 hc).1

/-- The store with one more value, and the key under which it is found. -/
def insert (s : Store α) (a : α) : Key × Store α :=
  match h : s.free with
  | [] =>
    (⟨s.slots.size, 0⟩,
      { slots := s.slots.push ⟨0, some a⟩
        free := []
        free_nodup := List.nodup_nil
        mem_free := by
          intro i
          have hs := s.mem_free i
          rw [h] at hs
          rw [Array.getElem?_push]
          split <;> simp_all })
  | i :: rest =>
    have hi : i < s.slots.size := s.lt_size_of_mem_free (by simp [h])
    let generation := s.slots[i].generation
    (⟨i, generation⟩,
      { slots := s.slots.set i ⟨generation, some a⟩
        free := rest
        free_nodup := by
          have := s.free_nodup
          rw [h] at this
          exact (List.nodup_cons.1 this).2
        mem_free := by
          intro j
          have hs := s.mem_free j
          have hn := s.free_nodup
          rw [h] at hs hn
          rw [Array.getElem?_set]
          split
          · subst j
            simp [(List.nodup_cons.1 hn).1]
          · rw [← hs]
            simp only [List.mem_cons]
            constructor
            · exact Or.inr
            · rintro (rfl | h')
              · contradiction
              · exact h' })

/-- The store without the value under a key, if there is one. -/
def erase (s : Store α) (k : Key) : Store α :=
  if h : k.slot < s.slots.size then
    if hc : s.slots[k.slot].generation = k.generation ∧ s.slots[k.slot].content.isSome then
      { slots := s.slots.set k.slot ⟨k.generation + 1, none⟩
        free := k.slot :: s.free
        free_nodup := by
          rw [List.nodup_cons]
          refine ⟨fun hm => ?_, s.free_nodup⟩
          obtain ⟨c, h₁, h₂⟩ := (s.mem_free _).1 hm
          rw [Array.getElem?_eq_getElem h, Option.some_inj] at h₁
          subst h₁
          simp [h₂] at hc
        mem_free := by
          intro j
          rw [Array.getElem?_set, List.mem_cons, s.mem_free j]
          split
          · subst j
            simp
          · rename_i hj
            constructor
            · rintro (rfl | h')
              · exact absurd rfl hj
              · exact h'
            · exact Or.inr }
    else s
  else s

/-- The store in which the value under a key, if there is one, is replaced by its image. -/
def modify (s : Store α) (k : Key) (f : α → α) : Store α :=
  if h : k.slot < s.slots.size then
    if s.slots[k.slot].generation = k.generation then
      { s with
        slots := s.slots.set k.slot ⟨k.generation, s.slots[k.slot].content.map f⟩
        mem_free := by
          intro j
          rw [Array.getElem?_set, s.mem_free j]
          split
          · subst j
            simp [Array.getElem?_eq_getElem h]
          · rfl }
    else s
  else s

end Store

end SharedExpr
