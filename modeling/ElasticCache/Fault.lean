/-!
# Faults of machine arithmetic

Sizes, offsets and amounts are natural numbers kept within machine words. A computation that would
leave its word, address a cell that does not exist, need more memory than can be addressed or go in
circles has no result but a fault.
-/

namespace ElasticCache

/-- Why a computation on machine words has no result. -/
inductive Fault where
  /-- A sum, product, duration or object size does not fit its word. -/
  | overflow
  /-- A difference would be negative. -/
  | underflow
  /-- A quotient by zero. -/
  | divisionByZero
  /-- An address or index names no cell. -/
  | outOfBounds
  /-- A number is not of the form that is required of it. -/
  | malformed
  /-- A walk along links comes back to where it was. -/
  | endless
  deriving DecidableEq, Repr

/-- The number of values of a 32-bit word. -/
def wordLimit : Nat := 0x1_0000_0000

/-- The number of values of a 64-bit word. -/
def longLimit : Nat := 0x1_0000_0000_0000_0000

/-- The largest 64-bit value. -/
def longMax : Nat := longLimit - 1

/-- Bytes that no single object may reach: offsets into an object are signed words. -/
def objectLimit : Nat := 0x8000_0000_0000_0000

/-- A result that must fit a 32-bit word. -/
def fitWord (n : Nat) : Except Fault Nat :=
  if n < wordLimit then .ok n else .error .overflow

/-- A result that must fit a 64-bit word. -/
def fitLong (n : Nat) : Except Fault Nat :=
  if n < longLimit then .ok n else .error .overflow

/-- Requires that one object can hold `count` parts of `size` bytes. -/
def fitObject (count size : Nat) : Except Fault Unit :=
  if count * size < objectLimit then .ok () else .error .overflow

/-- The difference of two words, which must not be negative. -/
def minus (a b : Nat) : Except Fault Nat :=
  if b ≤ a then .ok (a - b) else .error .underflow

/-- The sum of sizes or counts. -/
def sumSizes (sizes : List Nat) : Nat := sizes.foldr (· + ·) 0

/-- The sum of 64-bit amounts, added one after the other. -/
def sumLongs (amounts : List Nat) : Except Fault Nat :=
  amounts.foldlM (fun total amount => fitLong (total + amount)) 0

/-- The sum of two amounts, held at the largest 64-bit value. -/
def saturatingSum (a b : Nat) : Nat := min (a + b) longMax

/-- A number below the limit of a word fits it. -/
theorem fitWord_eq_ok {n : Nat} (h : n < wordLimit) : fitWord n = .ok n := if_pos h

/-- A number below the limit of a long word fits it. -/
theorem fitLong_eq_ok {n : Nat} (h : n < longLimit) : fitLong n = .ok n := if_pos h

/-- Parts that are smaller together than any object may be fit one object. -/
theorem fitObject_eq_ok {count size : Nat} (h : count * size < objectLimit) :
    fitObject count size = .ok () := if_pos h

/-- A smaller number can be taken from a larger one. -/
theorem minus_eq_ok {a b : Nat} (h : b ≤ a) : minus a b = .ok (a - b) := if_pos h

/-- What fits a word is the number itself, below the limit of a word. -/
theorem fitWord_eq_ok_iff {n m : Nat} : fitWord n = .ok m ↔ n < wordLimit ∧ n = m := by
  unfold fitWord
  split <;> simp <;> omega

/-- What fits a long word is the number itself, below the limit of a long word. -/
theorem fitLong_eq_ok_iff {n m : Nat} : fitLong n = .ok m ↔ n < longLimit ∧ n = m := by
  unfold fitLong
  split <;> simp <;> omega

/-- The difference is there exactly when it is not negative. -/
theorem minus_eq_ok_iff {a b c : Nat} : minus a b = .ok c ↔ b ≤ a ∧ a - b = c := by
  unfold minus
  split <;> simp <;> omega

/-- A computation goes on from the result of a step that succeeds. -/
@[simp] theorem ok_bind {ε α β : Type} (a : α) (f : α → Except ε β) :
    ((.ok a : Except ε α) >>= f) = f a := rfl

/-- A computation of two steps succeeds exactly when both steps do. -/
theorem bind_eq_ok_iff {ε α β : Type} {x : Except ε α} {f : α → Except ε β} {b : β} :
    x >>= f = .ok b ↔ ∃ a, x = .ok a ∧ f a = .ok b := by
  cases x <;> simp [bind, Except.bind]

/-- A computation has a result exactly when it succeeds with it. -/
theorem toOption_eq_some_iff {ε α : Type} {x : Except ε α} {a : α} :
    x.toOption = some a ↔ x = .ok a := by
  cases x <;> simp [Except.toOption]

end ElasticCache
