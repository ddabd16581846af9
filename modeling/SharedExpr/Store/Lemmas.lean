import SharedExpr.Store.Basic

/-!
# What the operations of a store do to its view

* **Looking up** (`get?_insert`, `get?_erase`, `get?_modify`): an insertion adds one key, which was
  not in use (`get?_insert_fst`), an erasure removes one, and a modification maps one value.
* **Listing** (`mem_entries`, `entries_pairwise`): the entries are what can be looked up, in
  ascending order of slots.
* **Counting** (`size_eq_length_entries`): the size is the number of entries, and it moves by one
  (`size_insert`, `size_erase`) or not at all (`size_modify`).
-/

namespace SharedExpr.Store

variable {α : Type}

/-! ## Looking up -/

/-- A key finds what its slot holds, if the slot is of the key's generation. -/
theorem get?_eq_some_iff {s : Store α} {k : Key} {a : α} :
    s.get? k = some a ↔ s.slots[k.slot]? = some ⟨k.generation, some a⟩ := by
  unfold get?
  split
  · rename_i c hc
    rw [hc]
    obtain ⟨g, v⟩ := c
    constructor
    · intro h
      split at h
      · simp_all
      · cases h
    · intro h
      simp_all
  · rename_i hc
    simp [hc]

/-- The key of an insertion was not in use. -/
theorem get?_insert_fst (s : Store α) (a : α) : s.get? (s.insert a).1 = none := by
  unfold insert
  split
  · simp [get?]
  · rename_i i rest h
    obtain ⟨c, hc, hv⟩ := (s.mem_free i).1 (by simp [h])
    simp [get?, hc, hv]

/-- What was stored is found under its key, and the rest as before. -/
theorem get?_insert (s : Store α) (a : α) (k : Key) :
    (s.insert a).2.get? k = if k = (s.insert a).1 then some a else s.get? k := by
  obtain ⟨i, g⟩ := k
  unfold insert
  split
  · simp only [get?, Array.getElem?_push, Key.mk.injEq]
    by_cases hi : i = s.slots.size
    · by_cases hg : g = 0
      · simp [hi, hg]
      · have : ¬ 0 = g := fun h => hg h.symm
        simp [hi, hg, this]
    · simp [hi]
  · rename_i j rest h
    have hj : j < s.slots.size := s.lt_size_of_mem_free (by simp [h])
    obtain ⟨c, hc, hv⟩ := (s.mem_free j).1 (by simp [h])
    rw [Array.getElem?_eq_getElem hj, Option.some_inj] at hc
    subst hc
    simp only [get?, Array.getElem?_set, Key.mk.injEq]
    by_cases hi : j = i
    · subst hi
      simp only [↓reduceIte, Array.getElem?_eq_getElem hj, hv, ite_self, true_and]
      by_cases hg : s.slots[j].generation = g
      · simp [hg]
      · have : ¬ g = s.slots[j].generation := fun h => hg h.symm
        simp [hg, this]
    · have : ¬ i = j := fun h => hi h.symm
      simp [hi, this]

/-- What was erased is no longer found, and the rest is found as before. -/
theorem get?_erase (s : Store α) (k l : Key) :
    (s.erase k).get? l = if l = k then none else s.get? l := by
  unfold erase
  obtain ⟨i, g⟩ := l
  by_cases hk : k.slot < s.slots.size
  · by_cases hc : s.slots[k.slot].generation = k.generation ∧ s.slots[k.slot].content.isSome
    · simp only [dif_pos hk, dif_pos hc, get?, Array.getElem?_set]
      by_cases hi : k.slot = i
      · subst hi
        simp only [↓reduceIte, ite_self, Array.getElem?_eq_getElem hk, hc.1]
        by_cases hkg : k.generation = g
        · subst hkg
          simp
        · simp [hkg]
      · have : ¬ (⟨i, g⟩ : Key) = k := fun h => hi (by rw [← h])
        simp [hi, this]
    · simp only [dif_pos hk, dif_neg hc]
      split
      · rename_i h
        subst h
        have hk' : i < s.slots.size := hk
        simp only [get?, Array.getElem?_eq_getElem hk']
        simp only [not_and, Option.isSome_iff_ne_none, Decidable.not_not] at hc
        split
        · rename_i hg
          exact hc hg
        · rfl
      · rfl
  · simp only [dif_neg hk]
    split
    · rename_i h
      subst h
      simp [get?, Array.getElem?_eq_none (Nat.not_lt.1 hk)]
    · rfl

/-- What was changed is found changed, and the rest as before. -/
theorem get?_modify (s : Store α) (k : Key) (f : α → α) (l : Key) :
    (s.modify k f).get? l = if l = k then (s.get? k).map f else s.get? l := by
  unfold modify
  obtain ⟨i, g⟩ := l
  by_cases hk : k.slot < s.slots.size
  · by_cases hg : s.slots[k.slot].generation = k.generation
    · simp only [dif_pos hk, if_pos hg, get?, Array.getElem?_set]
      by_cases hi : k.slot = i
      · subst hi
        simp only [↓reduceIte, Array.getElem?_eq_getElem hk, hg]
        by_cases hkg : k.generation = g
        · subst hkg
          simp
        · have : ¬ (⟨k.slot, g⟩ : Key) = k := fun h => hkg (by rw [← h])
          simp [hkg, this]
      · have : ¬ (⟨i, g⟩ : Key) = k := fun h => hi (by rw [← h])
        simp [hi, this]
    · simp only [dif_pos hk, if_neg hg]
      split
      · rename_i h
        have : s.get? k = none := by simp [get?, Array.getElem?_eq_getElem hk, hg]
        simp [h, this]
      · rfl
  · simp only [dif_neg hk]
    split
    · rename_i h
      have : s.get? k = none := by simp [get?, Array.getElem?_eq_none (Nat.not_lt.1 hk)]
      simp [h, this]
    · rfl

/-! ## Listing -/

/-- The entries are listed exactly with the keys under which they are found. -/
theorem mem_entries {s : Store α} {k : Key} {a : α} :
    (k, a) ∈ s.entries ↔ s.get? k = some a := by
  obtain ⟨i, g⟩ := k
  rw [get?_eq_some_iff]
  simp only [entries, List.mem_filterMap, Prod.exists, List.mem_zipIdx_iff_getElem?,
    Array.getElem?_toList, entryAt?, Option.map_eq_some_iff, Prod.mk.injEq, Key.mk.injEq]
  constructor
  · rintro ⟨⟨g', v⟩, j, h, b, rfl, ⟨rfl, rfl⟩, rfl⟩
    exact h
  · intro h
    exact ⟨_, _, h, a, rfl, ⟨rfl, rfl⟩, rfl⟩

/-- The entries are listed in ascending order of their slots. -/
theorem entries_pairwise (s : Store α) :
    s.entries.Pairwise fun p q => p.1.slot < q.1.slot := by
  have h : s.slots.toList.zipIdx.Pairwise fun p q => p.2 < q.2 := by
    rw [← List.pairwise_map (f := Prod.snd) (R := (· < ·)), List.zipIdx_map_snd]
    exact List.pairwise_lt_range'
  refine List.pairwise_filterMap.2 (h.imp fun {p q} hpq => ?_)
  rintro ⟨k, a⟩ hp ⟨l, b⟩ hq
  simp only [entryAt?, Option.map_eq_some_iff, Prod.mk.injEq] at hp hq
  obtain ⟨_, _, rfl, _⟩ := hp
  obtain ⟨_, _, rfl, _⟩ := hq
  exact hpq

/-! ## Counting -/

/-- There are no more free slots than slots. -/
theorem length_free_le (s : Store α) : s.free.length ≤ s.slots.size := by
  have h : s.free ⊆ List.range s.slots.size := fun _ hi =>
    List.mem_range.2 (s.lt_size_of_mem_free hi)
  simpa using s.free_nodup.length_le_of_subset h

/-- The list of vacant slots holds each vacant position once. -/
theorem length_free (s : Store α) :
    s.free.length = s.slots.toList.zipIdx.countP fun p => p.1.content.isNone := by
  have hn : ((s.slots.toList.zipIdx.filter fun p => p.1.content.isNone).map Prod.snd).Nodup := by
    have h : (s.slots.toList.zipIdx.map Prod.snd).Nodup := by
      rw [List.zipIdx_map_snd]
      exact List.nodup_range'
    exact h.sublist ((List.filter_sublist).map _)
  have hp := (List.perm_ext_iff_of_nodup s.free_nodup hn).2 fun i => by
    rw [s.mem_free]
    simp only [List.mem_map, List.mem_filter, List.mem_zipIdx_iff_getElem?, Array.getElem?_toList,
      Option.isNone_iff_eq_none, Prod.exists]
    constructor
    · rintro ⟨c, hc, hv⟩
      exact ⟨c, i, ⟨hc, hv⟩, rfl⟩
    · rintro ⟨c, j, ⟨hc, hv⟩, rfl⟩
      exact ⟨c, hc, hv⟩
  rw [hp.length_eq, List.length_map, List.countP_eq_length_filter]

/-- The size is the number of entries. -/
theorem size_eq_length_entries (s : Store α) : s.size = s.entries.length := by
  have h := List.length_eq_countP_add_countP (fun p : Slot α × Nat => p.1.content.isNone)
    (l := s.slots.toList.zipIdx)
  have he : s.entries.length =
      s.slots.toList.zipIdx.countP fun p => decide ¬ p.1.content.isNone = true := by
    rw [entries, List.length_filterMap_eq_countP]
    refine List.countP_congr fun p _ => ?_
    cases hp : p.1.content <;> simp [entryAt?, hp]
  rw [he, size, length_free]
  simp only [List.length_zipIdx, Array.length_toList] at h
  omega

/-- Storing something makes one entry more. -/
theorem size_insert (s : Store α) (a : α) : (s.insert a).2.size = s.size + 1 := by
  have hle := s.length_free_le
  unfold insert
  split
  · rename_i h
    simp [size, h]
  · rename_i i rest h
    simp only [size, Array.size_set, h, List.length_cons] at hle ⊢
    omega

/-- Erasing what is there leaves one entry less. -/
theorem size_erase {s : Store α} {k : Key} {a : α} (h : s.get? k = some a) :
    (s.erase k).size + 1 = s.size := by
  have hle := (s.erase k).length_free_le
  obtain ⟨hk, hs⟩ := Array.getElem?_eq_some_iff.1 (get?_eq_some_iff.1 h)
  unfold erase at hle ⊢
  rw [dif_pos hk, dif_pos (by simp [hs])] at hle ⊢
  simp only [size, Array.size_set, List.length_cons] at hle ⊢
  omega

/-- Changing an entry leaves the number of entries as it is. -/
@[simp] theorem size_modify (s : Store α) (k : Key) (f : α → α) :
    (s.modify k f).size = s.size := by
  unfold modify
  split
  · split <;> simp [size]
  · rfl

end SharedExpr.Store
