import Mathlib.Data.List.TakeWhile

/-!
# Words and lines

A word is a text without spaces, ends of lines and parentheses, so a text in which words are
followed by one of these can be taken apart. Joining lines puts a space for the end of each,
together with the spaces in front of the next.

* `Text.IsWord.append_inj` — a word can be told from what follows it.
* `Text.isWord_repr` — decimal numbers are words.
* `Text.joinLines` — a text with its lines joined; words stay as they are
  (`Text.IsWord.joinFrom_append`).
-/

namespace SharedExpr.Text

/-! ### Words -/

/-- Whether a character ends a word. -/
def isSeparator (c : Char) : Bool :=
  c == ' ' || c == '\n' || c == '(' || c == ')'

/-- What separates words is no character of one. -/
theorem ne_of_isSeparator_eq_false {c d : Char} (hc : isSeparator c = false)
    (hd : isSeparator d) : c ≠ d := by
  rintro rfl
  rw [hc] at hd
  cases hd

/-- A text that is not empty and has no character that ends a word. -/
structure IsWord (cs : List Char) : Prop where
  /-- It is not empty. -/
  ne_nil : cs ≠ []
  /-- No character ends it. -/
  isSeparator_eq_false : ∀ c ∈ cs, isSeparator c = false

/-- Whether characters make a word can be looked up in them. -/
theorem isWord_iff {cs : List Char} :
    IsWord cs ↔ cs.isEmpty = false ∧ cs.all (fun c => !isSeparator c) := by
  rw [List.isEmpty_eq_false_iff]
  simp only [List.all_eq_true, Bool.not_eq_true']
  exact ⟨fun hw => ⟨hw.ne_nil, hw.isSeparator_eq_false⟩, fun ⟨hne, hall⟩ => ⟨hne, hall⟩⟩

/-- It can be decided whether characters make a word. -/
instance (cs : List Char) : Decidable (IsWord cs) :=
  decidable_of_iff _ isWord_iff.symm

/-- A word ends in front of this text: at its first character, or since nothing follows. -/
def EndsWord (rest : List Char) : Prop :=
  ∀ c ∈ rest.head?, isSeparator c

variable {w w' rest rest' : List Char}

/-- A word ends where the text does. -/
theorem endsWord_nil : EndsWord [] := by
  simp [EndsWord]

/-- A word ends in front of a separator. -/
theorem endsWord_cons {c : Char} (hc : isSeparator c) : EndsWord (c :: rest) := by
  simpa [EndsWord] using hc

/-- A word is read up to where it ends. -/
theorem IsWord.takeWhile_append (hw : IsWord w) (hrest : EndsWord rest) :
    (w ++ rest).takeWhile (fun c => !isSeparator c) = w := by
  have hnone : rest.takeWhile (fun c => !isSeparator c) = [] := by
    cases rest with
    | nil => rfl
    | cons c rest => simp [hrest c rfl]
  rw [List.takeWhile_append_of_pos (by simpa using hw.isSeparator_eq_false), hnone,
    List.append_nil]

/-- **A word can be told from what follows it.** -/
theorem IsWord.append_inj (hw : IsWord w) (hw' : IsWord w') (hrest : EndsWord rest)
    (hrest' : EndsWord rest') (heq : w ++ rest = w' ++ rest') : w = w' ∧ rest = rest' := by
  have hwords : w = w' := by
    rw [← hw.takeWhile_append hrest, heq, hw'.takeWhile_append hrest']
  subst hwords
  exact ⟨rfl, List.append_cancel_left heq⟩

/-- A word does not begin with a character that ends words. -/
theorem IsWord.append_ne_cons (hw : IsWord w) {c : Char} (hc : isSeparator c) :
    w ++ rest ≠ c :: rest' := by
  obtain ⟨d, w, rfl⟩ := List.exists_cons_of_ne_nil hw.ne_nil
  have hd := hw.isSeparator_eq_false d List.mem_cons_self
  intro heq
  exact ne_of_isSeparator_eq_false hd hc (List.cons.inj heq).1

/-! ### Numbers -/

/-- Digits do not separate words. -/
theorem isSeparator_of_isDigit {c : Char} (hc : c.isDigit) : isSeparator c = false := by
  by_contra hsep
  simp only [isSeparator, Bool.not_eq_false, Bool.or_eq_true, beq_iff_eq] at hsep
  obtain ((rfl | rfl) | rfl) | rfl := hsep <;> cases hc

/-- A decimal number consists of digits. -/
theorem isDigit_of_mem_natRepr {n : ℕ} {c : Char} (hc : c ∈ (Nat.repr n).toList) : c.isDigit := by
  rw [Nat.toList_repr] at hc
  exact Nat.isDigit_of_mem_toDigits (by decide) (by decide) hc

/-- A decimal number has digits, behind a minus or not. -/
theorem eq_minus_or_isDigit_of_mem_repr {v : ℤ} {c : Char} (hc : c ∈ (Int.repr v).toList) :
    c = '-' ∨ c.isDigit := by
  rw [Int.repr_eq_if] at hc
  split at hc
  · exact .inr (isDigit_of_mem_natRepr hc)
  · rw [String.toList_append, List.mem_append] at hc
    exact hc.imp (by simp) isDigit_of_mem_natRepr

/-- Decimal numbers are words. -/
theorem isWord_repr (v : ℤ) : IsWord (Int.repr v).toList where
  ne_nil := by
    rw [Int.repr_eq_if]
    split
    · rw [Nat.toList_repr]
      exact Nat.toDigits_ne_nil
    · simp
  isSeparator_eq_false c hc := by
    rcases eq_minus_or_isDigit_of_mem_repr hc with rfl | hdigit
    · rfl
    · exact isSeparator_of_isDigit hdigit

/-! ### Lines -/

/-- Characters with their lines joined, where `skipping` tells whether the spaces in front are
indentation. -/
def joinFrom : (skipping : Bool) → List Char → List Char
  | _, [] => []
  | skipping, c :: cs =>
    if c = '\n' then ' ' :: joinFrom true cs
    else if skipping ∧ c = ' ' then joinFrom true cs
    else c :: joinFrom false cs

/-- A text with a space for the end of each line and the indentation of the next. -/
def joinLines (s : String) : String :=
  String.ofList (joinFrom false s.toList)

variable {skipping : Bool}

/-- The end of a line becomes a space, and the indentation behind it is skipped. -/
theorem joinFrom_newline : joinFrom skipping ('\n' :: rest) = ' ' :: joinFrom true rest := by
  simp [joinFrom]

/-- A space within a line is kept. -/
theorem joinFrom_space : joinFrom false (' ' :: rest) = ' ' :: joinFrom false rest := by
  simp [joinFrom]

/-- Indentation is skipped. -/
theorem joinFrom_indentation (indent : ℕ) :
    joinFrom true (List.replicate indent ' ' ++ rest) = joinFrom true rest := by
  induction indent with
  | zero => rfl
  | succ indent ih => simpa [List.replicate_succ, joinFrom] using ih

/-- Any other character ends the indentation. -/
theorem joinFrom_cons {c : Char} (hline : c ≠ '\n') (hspace : c ≠ ' ') :
    joinFrom skipping (c :: rest) = c :: joinFrom false rest := by
  simp [joinFrom, hline, hspace]

/-- What holds no separator stays as it is. -/
theorem joinFrom_append {cs : List Char} (hcs : ∀ c ∈ cs, isSeparator c = false) :
    joinFrom false (cs ++ rest) = cs ++ joinFrom false rest := by
  induction cs with
  | nil => rfl
  | cons c cs ih =>
      obtain ⟨hc, hcs⟩ := List.forall_mem_cons.1 hcs
      rw [List.cons_append, joinFrom_cons (ne_of_isSeparator_eq_false hc rfl)
        (ne_of_isSeparator_eq_false hc rfl), ih hcs, List.cons_append]

/-- Words stay, and they end the indentation. -/
theorem IsWord.joinFrom_append (hw : IsWord w) :
    joinFrom skipping (w ++ rest) = w ++ joinFrom false rest := by
  obtain ⟨c, cs, rfl⟩ := List.exists_cons_of_ne_nil hw.ne_nil
  obtain ⟨hc, hcs⟩ := List.forall_mem_cons.1 hw.isSeparator_eq_false
  rw [List.cons_append, joinFrom_cons (ne_of_isSeparator_eq_false hc rfl)
    (ne_of_isSeparator_eq_false hc rfl), Text.joinFrom_append hcs, List.cons_append]

end SharedExpr.Text
