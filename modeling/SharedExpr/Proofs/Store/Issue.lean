import SharedExpr.Store.Lemmas

/-!
# Keys that were issued

A store issues a key when a value moves in. The key of an occupied slot was issued, and so was every
key of an earlier generation of a slot; the next key of a vacant slot was not.

* `Store.Issued` — a key was given to some value of the store, which may have left since.
* `Store.not_issued_insert_fst` — **a new value gets a key that was never issued**.
* `Store.Issued.insert`, `Store.Issued.erase`, `Store.Issued.modify` — a key once issued stays
  issued, whatever is done to the store.
-/

namespace SharedExpr.Store

variable {α : Type} {s : Store α} {k : Key}

/-- The key was given to a value, which may have left since. -/
def Issued (s : Store α) (k : Key) : Prop :=
  ∃ c, s.slots[k.slot]? = some c ∧
    (k.generation < c.generation ∨ k.generation = c.generation ∧ c.content.isSome)

/-- A key under which a value is found was issued. -/
theorem issued_of_get? {a : α} (h : s.get? k = some a) : s.Issued k :=
  ⟨_, get?_eq_some_iff.1 h, Or.inr ⟨rfl, rfl⟩⟩

/-- The key of an insertion was not issued before. -/
theorem not_issued_insert_fst (s : Store α) (a : α) : ¬ s.Issued (s.insert a).1 := by
  unfold insert
  split
  · rintro ⟨c, hc, -⟩
    simp at hc
  · rename_i i rest hfree
    dsimp only
    rintro ⟨c, hc, hg⟩
    obtain ⟨d, hd, hvacant⟩ := (s.mem_free i).1 (by simp [hfree])
    obtain rfl : d = c := Option.some_inj.1 (hd.symm.trans hc)
    rw [(Array.getElem?_eq_some_iff.1 hd).2, hvacant] at hg
    simp at hg

/-- A key that was issued stays issued when something is stored. -/
theorem Issued.insert (h : s.Issued k) (a : α) : (s.insert a).2.Issued k := by
  obtain ⟨c, hc, hg⟩ := h
  unfold Store.insert
  split
  · have hlt := (Array.getElem?_eq_some_iff.1 hc).1
    refine ⟨c, ?_, hg⟩
    rw [Array.getElem?_push, if_neg (Nat.ne_of_lt hlt), hc]
  · rename_i i rest hfree
    by_cases hi : i = k.slot
    · subst hi
      obtain ⟨hlt, hget⟩ := Array.getElem?_eq_some_iff.1 hc
      refine ⟨⟨c.generation, some a⟩, ?_, ?_⟩
      · rw [Array.getElem?_set_self, hget]
      · rcases hg with hg | ⟨hg, -⟩
        · exact Or.inl hg
        · exact Or.inr ⟨hg, rfl⟩
    · refine ⟨c, ?_, hg⟩
      rw [Array.getElem?_set_ne _ hi, hc]

/-- A key that was issued stays issued when something is erased. -/
theorem Issued.erase (h : s.Issued k) (l : Key) : (s.erase l).Issued k := by
  obtain ⟨c, hc, hg⟩ := h
  unfold Store.erase
  split
  · split
    · rename_i hlt hl
      by_cases hk : l.slot = k.slot
      · have hget := (Array.getElem?_eq_some_iff.1 hc).2
        simp only [← hk] at hget
        refine ⟨⟨l.generation + 1, none⟩, ?_, Or.inl ?_⟩
        · rw [← hk, Array.getElem?_set_self]
        · have : c.generation = l.generation := by rw [← hget]; exact hl.1
          simp only
          omega
      · exact ⟨c, by rw [Array.getElem?_set_ne _ hk, hc], hg⟩
    · exact ⟨c, hc, hg⟩
  · exact ⟨c, hc, hg⟩

/-- A key that was issued stays issued when something is changed. -/
theorem Issued.modify (h : s.Issued k) (l : Key) (f : α → α) : (s.modify l f).Issued k := by
  obtain ⟨c, hc, hg⟩ := h
  unfold Store.modify
  split
  · split
    · rename_i hlt hl
      by_cases hk : l.slot = k.slot
      · have hget := (Array.getElem?_eq_some_iff.1 hc).2
        simp only [← hk] at hget
        refine ⟨⟨l.generation, c.content.map f⟩, ?_, ?_⟩
        · rw [← hk, Array.getElem?_set_self, hget]
        · rw [← hl, hget]
          simpa using hg
      · exact ⟨c, by rw [Array.getElem?_set_ne _ hk, hc], hg⟩
    · exact ⟨c, hc, hg⟩
  · exact ⟨c, hc, hg⟩

end SharedExpr.Store
