import Mathlib.Data.List.Basic
import SharedExpr.Node
import SharedExpr.Proofs.Text.Words

/-!
# Reading texts back

A text whose parts have neither spaces nor line feeds in them can be taken apart again where they
were put together. Handles, kinds and numbers are written as such parts, and can be read back.

* `Text.Unbroken` — texts without spaces and line feeds; handles (`Handle.unbroken_text`), kinds and
  numbers are.
* `Text.fields`, `Text.lines` — the parts of a text between spaces, and its lines;
  `Text.fields_intercalate` and `Text.lines_unlines` say that **what was put together is found
  again**.
* `Text.numbers`, `Text.number?` — the decimal numbers in a text, and the one if it is alone.
* `Kind.read?`, `Handle.read?` — kinds and handles read back (`Kind.read?_name`,
  `Handle.read?_text_append`).
-/

namespace SharedExpr

namespace Text

/-! ### Texts in one piece -/

/-- There is no space and no line feed in the text. -/
def Unbroken (s : String) : Prop :=
  ∀ c ∈ s.toList, c ≠ ' ' ∧ c ≠ '\n'

/-- Whether a text is unbroken can be looked up in its characters. -/
theorem unbroken_iff {s : String} :
    Unbroken s ↔ s.toList.all (fun c => c != ' ' && c != '\n') := by
  simp [Unbroken]

/-- It can be decided whether a text is unbroken. -/
instance (s : String) : Decidable (Unbroken s) :=
  decidable_of_iff _ unbroken_iff.symm

/-- A text is unbroken if both its parts are. -/
theorem unbroken_append {s t : String} : Unbroken (s ++ t) ↔ Unbroken s ∧ Unbroken t := by
  simp only [Unbroken, String.toList_append, List.forall_mem_append]

/-- A decimal number is unbroken. -/
@[simp] theorem unbroken_repr (n : ℕ) : Unbroken (Nat.repr n) := by
  intro c hc
  have hword := isSeparator_of_isDigit (isDigit_of_mem_natRepr hc)
  exact ⟨ne_of_isSeparator_eq_false hword rfl, ne_of_isSeparator_eq_false hword rfl⟩

/-! ### Parts and lines -/

/-- The parts of a text between its spaces. -/
def fields (s : String) : List String :=
  (s.toList.splitOn ' ').map String.ofList

/-- The lines of a text, each of which is ended by a line feed. -/
def lines (s : String) : List String :=
  (s.toList.splitOn '\n').dropLast.map String.ofList

/-- The text with these lines. -/
def unlines (ls : List String) : String :=
  String.join (ls.map fun l => l ++ "\n")

/-- **Parts that are put together with spaces are found again.** -/
theorem fields_intercalate {ws : List String} (hws : ∀ w ∈ ws, Unbroken w) (hne : ws ≠ []) :
    fields (" ".intercalate ws) = ws := by
  have hspace : ∀ w ∈ ws.map String.toList, ' ' ∉ w := by
    intro w hw hmem
    obtain ⟨s, hs, rfl⟩ := List.mem_map.1 hw
    exact (hws s hs ' ' hmem).1 rfl
  rw [fields, String.toList_intercalate]
  show (([' '].intercalate (ws.map String.toList)).splitOn ' ').map String.ofList = ws
  rw [List.splitOn_intercalate ' ' hspace (by simpa using hne), List.map_map]
  simp [Function.comp_def]

/-- There is no line feed in a text that is put together so. -/
theorem newline_not_mem_intercalate {ws : List String} (hws : ∀ w ∈ ws, Unbroken w) :
    '\n' ∉ (" ".intercalate ws).toList := by
  induction ws with
  | nil => simp
  | cons w ws ih =>
      obtain ⟨hw, hws⟩ := List.forall_mem_cons.1 hws
      have hfirst : '\n' ∉ w.toList := fun hmem => (hw '\n' hmem).2 rfl
      rcases eq_or_ne ws [] with rfl | hne
      · rwa [String.intercalate_singleton]
      · rw [String.intercalate_cons_of_ne_nil hne, String.toList_append, String.toList_append,
          List.mem_append, List.mem_append]
        rintro ((hmem | hmem) | hmem)
        · exact hfirst hmem
        · simp at hmem
        · exact ih hws hmem

/-- **Lines that are put one after the other are found again.** -/
theorem lines_unlines {ls : List String} (hls : ∀ l ∈ ls, '\n' ∉ l.toList) :
    lines (unlines ls) = ls := by
  have hsplit : (unlines ls).toList.splitOn '\n' = ls.map String.toList ++ [[]] := by
    induction ls with
    | nil => rfl
    | cons l ls ih =>
        obtain ⟨hl, hls⟩ := List.forall_mem_cons.1 hls
        have hcons : (unlines (l :: ls)).toList = l.toList ++ '\n' :: (unlines ls).toList := by
          simp [unlines]
        rw [hcons, List.splitOn_append_cons_self_of_not_mem hl, ih hls, List.map_cons,
          List.cons_append]
  rw [lines, hsplit, List.dropLast_concat, List.map_map]
  simp [Function.comp_def]

/-! ### Numbers -/

/-- The decimal numbers in a text, in order. -/
def numbers (cs : List Char) : List ℕ :=
  ((cs.splitOnP fun c => !c.isDigit).filter (· ≠ [])).map fun digits =>
    Nat.ofDigitChars 10 digits 0

variable {rest : List Char} {c : Char}

/-- What is no digit in front adds no number. -/
theorem numbers_cons (hc : c.isDigit = false) : numbers (c :: rest) = numbers rest := by
  simp [numbers, List.splitOnP_cons_eq_if_modifyHead, hc]

/-- A number that stands alone. -/
theorem numbers_toDigits (n : ℕ) : numbers (Nat.toDigits 10 n) = [n] := by
  have hdigits : ∀ c ∈ Nat.toDigits 10 n, (!c.isDigit) = false := by
    intro c hc
    rw [Nat.isDigit_of_mem_toDigits (by decide) (by decide) hc, Bool.not_true]
  have hvalue : Nat.ofDigitChars 10 (Nat.toDigits 10 n) 0 = n := Nat.ofDigitChars_ten_toDigits
  rw [numbers, List.splitOnP_eq_singleton hdigits]
  simp [hvalue]

/-- Otherwise a number ends where no digit follows. -/
theorem numbers_toDigits_append (n : ℕ) (hc : c.isDigit = false) :
    numbers (Nat.toDigits 10 n ++ c :: rest) = n :: numbers rest := by
  have hsplit : (Nat.toDigits 10 n ++ c :: rest).splitOnP (fun c => !c.isDigit) =
      (Nat.toDigits 10 n).splitOnP (fun c => !c.isDigit) ++ rest.splitOnP fun c => !c.isDigit :=
    List.splitOnP_append_cons _ _ (by simp [hc])
  rw [numbers, hsplit, List.filter_append, List.map_append]
  exact congrArg (· ++ numbers rest) (numbers_toDigits n)

/-- The number that is written in a text, if there is one only. -/
def number? (s : String) : Option ℕ :=
  match numbers s.toList with
  | [n] => some n
  | _ => none

/-- A number is read back from its decimal form. -/
@[simp] theorem number?_repr (n : ℕ) : number? (Nat.repr n) = some n := by
  rw [number?, Nat.toList_repr, numbers_toDigits]

end Text

/-! ### Kinds and handles -/

/-- The kind that a name stands for. -/
def Kind.read? (s : String) : Option Kind :=
  Kind.all.find? fun kind => kind.name = s

/-- A kind is read back from its name. -/
@[simp] theorem Kind.read?_name (kind : Kind) : Kind.read? kind.name = some kind := by
  cases kind <;> decide

/-- The name of a kind is unbroken. -/
@[simp] theorem Kind.unbroken_name (kind : Kind) : Text.Unbroken kind.name := by
  cases kind <;> decide

/-- The handle that is written in a text. The numbers in it are those of the graph and, if it names
a node, of the slot and the version. -/
def Handle.read? (s : String) : Option Handle :=
  match Text.numbers s.toList with
  | [graph] => some ⟨⟨graph⟩, none⟩
  | [graph, slot, version] => some ⟨⟨graph⟩, some ⟨slot - 1, version / 2⟩⟩
  | _ => none

/-- The numbers in a handle are found again whatever follows it, since it ends with a
parenthesis. -/
theorem Handle.numbers_text_append (h : Handle) (rest : List Char) :
    Text.numbers (h.text.toList ++ rest) =
      h.graph.number :: (h.key.elim [] fun k => [k.slot + 1, k.version]) ++ Text.numbers rest := by
  obtain ⟨⟨graph⟩, key⟩ := h
  cases key with
  | none => simp [text, Text.numbers_cons, Text.numbers_toDigits_append]
  | some k => simp [text, Key.text, Text.numbers_cons, Text.numbers_toDigits_append]

/-- **A handle can be read back**, also if something without digits follows it. -/
theorem Handle.read?_text_append (h : Handle) {s : String} (hs : Text.numbers s.toList = []) :
    Handle.read? (h.text ++ s) = some h := by
  rw [read?, String.toList_append, numbers_text_append, hs, List.append_nil]
  obtain ⟨graph, _ | ⟨slot, generation⟩⟩ := h
  · rfl
  · have hgeneration : (2 * generation + 1) / 2 = generation := by omega
    simp [Key.version, hgeneration]

/-- A handle is read back from its text. -/
@[simp] theorem Handle.read?_text (h : Handle) : Handle.read? h.text = some h := by
  rw [← String.append_empty (s := h.text)]
  exact h.read?_text_append rfl

/-- The text of a handle is unbroken. -/
@[simp] theorem Handle.unbroken_text (h : Handle) : Text.Unbroken h.text := by
  obtain ⟨graph, _ | k⟩ := h
  · simp +decide [text, Text.unbroken_append]
  · simp +decide [text, Key.text, Text.unbroken_append]

end SharedExpr
