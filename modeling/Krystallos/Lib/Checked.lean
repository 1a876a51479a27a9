import Mathlib

namespace Checked

/-!
# Fixed-width arithmetic with overflow checks

Machine integers are `Nat` or `Int` values; an operation whose result leaves the range of
its type, an index outside its slice, or an `expect` that is not met is a `Panic`.  Where no
operation panics the wrapping build computes the same values.  Each operation has one lemma for the operands
it accepts.
-/

/-- Why a step of the program aborted. -/
inductive Panic
  | addOverflow
  | subOverflow
  | sliceIndex
  | expect (message : String)
deriving DecidableEq, Repr

universe u

variable {α β : Type u}

/-- The largest value of an unsigned integer of `w` bits. -/
def umax (w : Nat) : Nat := 2 ^ w - 1

/-- `a + b` on unsigned integers of `w` bits. -/
def addU (w a b : Nat) : Except Panic Nat :=
  if a + b ≤ umax w then .ok (a + b) else .error .addOverflow

/-- `a - b` on unsigned integers. -/
def subU (a b : Nat) : Except Panic Nat :=
  if b ≤ a then .ok (a - b) else .error .subOverflow

/-- `a.saturating_add(b)` on unsigned integers of `w` bits. -/
def saturatingAdd (w a b : Nat) : Nat := min (a + b) (umax w)

/-- `x as T` for an unsigned type `T` of `w` bits. -/
def castU (w x : Nat) : Nat := x % 2 ^ w

/-- `a + b` on signed integers of `w` bits. -/
def addI (w : Nat) (a b : Int) : Except Panic Int :=
  if -(2 ^ (w - 1)) ≤ a + b ∧ a + b < 2 ^ (w - 1) then .ok (a + b) else .error .addOverflow

/-- `-a` on signed integers of `w` bits. -/
def negI (w : Nat) (a : Int) : Except Panic Int :=
  if -a < 2 ^ (w - 1) then .ok (-a) else .error .subOverflow

/-- `xs[start..stop]`. -/
def sliceRange (xs : List α) (start stop : Nat) : Except Panic (List α) :=
  if start ≤ stop ∧ stop ≤ xs.length then .ok ((xs.drop start).take (stop - start))
  else .error .sliceIndex

/-- A step that did not abort gave a value, and so did what follows it. -/
theorem bind_eq_ok {x : Except Panic α} {f : α → Except Panic β} {b : β} :
    (x >>= f) = .ok b ↔ ∃ a, x = .ok a ∧ f a = .ok b := by
  cases x with
  | error p => simp [bind, Except.bind]
  | ok a => simp [bind, Except.bind]

/-- The largest value is the one below the power of two. -/
theorem lt_two_pow_iff_le_umax {w a : Nat} : a ≤ umax w ↔ a < 2 ^ w := by
  have := Nat.two_pow_pos w
  unfold umax
  omega

/-- A sum that fits. -/
theorem addU_ok {w a b : Nat} (h : a + b < 2 ^ w) : addU w a b = .ok (a + b) :=
  if_pos (lt_two_pow_iff_le_umax.mpr h)

/-- A sum that did not overflow is the sum. -/
theorem eq_add_of_addU {w a b c : Nat} (h : addU w a b = .ok c) : c = a + b := by
  unfold addU at h
  split at h
  · cases h
    rfl
  · cases h

/-- A difference that is not negative. -/
theorem subU_ok {a b : Nat} (h : b ≤ a) : subU a b = .ok (a - b) := if_pos h

/-- A cast that loses nothing. -/
theorem castU_of_lt {w x : Nat} (h : x < 2 ^ w) : castU w x = x := Nat.mod_eq_of_lt h

/-- Every value but the least can be negated. -/
theorem negI_ok {w : Nat} {a : Int} (h : -a < 2 ^ (w - 1)) : negI w a = .ok (-a) := if_pos h

/-- The least cannot. -/
theorem negI_overflow {w : Nat} {a : Int} (h : ¬ -a < 2 ^ (w - 1)) :
    negI w a = .error .subOverflow := if_neg h

/-- A signed sum that did not overflow is the sum. -/
theorem eq_add_of_addI {w : Nat} {a b c : Int} (h : addI w a b = .ok c) : c = a + b := by
  unfold addI at h
  split at h
  · cases h
    rfl
  · cases h

/-- Bounds that are in order and inside the slice. -/
theorem sliceRange_ok {xs : List α} {start stop : Nat} (h : start ≤ stop) (h' : stop ≤ xs.length) :
    sliceRange xs start stop = .ok ((xs.drop start).take (stop - start)) := if_pos ⟨h, h'⟩

end Checked
