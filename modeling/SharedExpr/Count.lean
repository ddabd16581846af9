/-!
# Reference counts

A count of the operand occurrences that name a node, kept in 32 bits. Counting up stops at the
largest value instead of wrapping round; counting down from zero is refused.

A count that has stopped at `Count.max` no longer tells how many occurrences there are, which is
why statements about exact counts say that no count has come so far.
-/

namespace SharedExpr

/-- The largest number of references that can be counted: the largest number of 32 bits. -/
def Count.max : Nat :=
  4294967295

/-- A number of references. -/
structure Count where
  /-- The number. -/
  value : Nat
  /-- It fits in 32 bits. -/
  value_le : value ≤ Count.max
deriving DecidableEq

namespace Count

/-- No references. -/
def zero : Count :=
  ⟨0, Nat.zero_le _⟩

/-- A count starts without references. -/
instance : Inhabited Count :=
  ⟨zero⟩

/-- A number as a count, if it fits. -/
def ofNat? (n : Nat) : Option Count :=
  if h : n ≤ max then some ⟨n, h⟩ else none

/-- Whether there are no references. -/
def isZero (c : Count) : Bool :=
  c.value == 0

/-- One reference more; the largest count stays as it is. -/
def increment (c : Count) : Count :=
  if h : c.value < max then ⟨c.value + 1, h⟩ else c

/-- One reference less, or nothing when there is none to take away. -/
def decrement? (c : Count) : Option Count :=
  if 0 < c.value then some ⟨c.value - 1, by have := c.value_le; omega⟩ else none

/-- The written form of a count. -/
def text (c : Count) : String :=
  Nat.repr c.value

/-- Counts are told apart by their numbers. -/
@[ext] theorem ext {a b : Count} (h : a.value = b.value) : a = b := by
  cases a; cases b; cases h; rfl

/-- The count of no references is zero. -/
@[simp] theorem value_zero : zero.value = 0 := rfl

/-- There are no references exactly if the number is zero. -/
theorem isZero_iff {c : Count} : c.isZero ↔ c.value = 0 := by
  simp [isZero]

/-- Counting up adds one, up to the largest count. -/
theorem value_increment (c : Count) : c.increment.value = min (c.value + 1) max := by
  have h := c.value_le
  unfold increment
  split
  · simp only
    omega
  · omega

/-- Below the largest count, counting up adds one. -/
theorem value_increment_of_lt {c : Count} (h : c.value < max) :
    c.increment.value = c.value + 1 := by
  rw [value_increment]
  omega

/-- There is nothing to take away exactly from zero. -/
theorem decrement?_eq_none_iff {c : Count} : c.decrement? = none ↔ c.value = 0 := by
  unfold decrement?
  split <;> simp <;> omega

/-- Counting down takes one away. -/
theorem value_of_decrement? {c d : Count} (h : c.decrement? = some d) : d.value + 1 = c.value := by
  unfold decrement? at h
  split at h
  · cases h
    simp only
    omega
  · cases h

end Count

end SharedExpr
