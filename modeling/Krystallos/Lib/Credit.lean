import Mathlib

/-!
# Credits

A transfer in parts: each request offers a range of bytes and is credited with a count, which
whoever answers may make up.  Where the next request starts at what the last one was credited
with, too large a credit skips bytes; nothing else does (`Fed.complete_iff`).
-/

/-- A request for the bytes from `start` on, and what it was credited with. -/
structure Credit where
  start : Nat
  offered : Nat
  credited : Nat
deriving DecidableEq, Repr

namespace Credit

/-- The end of the range that is offered. -/
def stop (r : Credit) : Nat := r.start + r.offered

/-- What a credit comes to where it is held to what was offered. -/
def taken (r : Credit) : Nat := min r.credited r.offered

/-! ### Sums -/

/-- **No credit is too large** if and only if they add up to no more than what was taken. -/
theorem sum_credited_eq_iff (l : List Credit) :
    (l.map credited).sum = (l.map taken).sum ↔ ∀ r ∈ l, r.credited ≤ r.offered := by
  have hle : ∀ l : List Credit, (l.map taken).sum ≤ (l.map credited).sum := by
    intro l
    induction l with
    | nil => exact le_rfl
    | cons r l ih => exact Nat.add_le_add (Nat.min_le_left _ _) ih
  induction l with
  | nil => simp
  | cons r l ih =>
    have hrest := hle l
    simp only [List.map_cons, List.sum_cons, List.forall_mem_cons, ← ih, taken]
    omega

/-! ### Ranges -/

/-- How far the requests reach. -/
def reach : List Credit → Nat
  | [] => 0
  | r :: l => max r.stop (reach l)

/-- A byte was offered. -/
def Covers (l : List Credit) (x : Nat) : Prop := ∃ r ∈ l, r.start ≤ x ∧ x < r.stop

/-- No request is credited past what the requests up to it reach, where `R` had been reached. -/
def WithinFrom (R : Nat) : List Credit → Prop
  | [] => True
  | r :: l => r.start + r.credited ≤ max R r.stop ∧ WithinFrom (max R r.stop) l

/-- No request is credited past what the requests up to it reach. -/
abbrev Within : List Credit → Prop := WithinFrom 0

variable {l : List Credit} {r : Credit} {size pos R x : Nat}

/-- The furthest end, with one more. -/
theorem reach_snoc (l : List Credit) (r : Credit) : reach (l ++ [r]) = max (reach l) r.stop := by
  induction l with
  | nil => simp [reach]
  | cons r' l ih => rw [List.cons_append, reach, reach, ih, Nat.max_assoc]

/-- What is covered, with one more. -/
theorem covers_snoc : Covers (l ++ [r]) x ↔ Covers l x ∨ r.start ≤ x ∧ x < r.stop := by
  simp [Covers, or_and_right, exists_or]

/-- What stays within, with one more. -/
theorem withinFrom_snoc : WithinFrom R (l ++ [r]) ↔
    WithinFrom R l ∧ r.start + r.credited ≤ max (max R (reach l)) r.stop := by
  induction l generalizing R with
  | nil => simp [WithinFrom, reach]
  | cons r' l ih =>
    simp only [List.cons_append, WithinFrom, ih, reach, and_assoc, Nat.max_assoc]

/-- No byte is covered past the reach. -/
theorem Covers.lt_reach (h : Covers l x) : x < reach l := by
  obtain ⟨r, hr, -, hx⟩ := h
  induction l with
  | nil => cases hr
  | cons r' l ih =>
    rw [reach]
    rcases List.mem_cons.mp hr with rfl | hr
    · exact lt_of_lt_of_le hx (Nat.le_max_left _ _)
    · exact lt_of_lt_of_le (ih hr) (Nat.le_max_right _ _)

/-! ### A transfer -/

/-- A transfer of `size` bytes that has come to `pos`: each request starts where the transfer is,
    stays in the size, and moves the transfer on by its credit. -/
inductive Fed (size : Nat) : Nat → List Credit → Prop
  | nil : Fed size 0 []
  | snoc {pos : Nat} {l : List Credit} (h : Fed size pos l) (offered credited : Nat)
      (hin : pos + offered ≤ size) :
      Fed size (pos + credited) (l ++ [⟨pos, offered, credited⟩])

/-- Nothing was skipped. -/
structure Gapless (size pos : Nat) (l : List Credit) : Prop where
  within : Within l
  covers : ∀ x < reach l, Covers l x
  pos_le : pos ≤ reach l
  reach_le : reach l ≤ size

/-- A credit was too large: the transfer is past its size, or past a byte that no request covers. -/
structure Astray (size pos : Nat) (l : List Credit) : Prop where
  exceeds : ¬ Within l
  lost : size < pos ∨ ∃ x < size, x < pos ∧ ¬ Covers l x

/-- A credit within what was reached skips nothing, and any other skips a byte. -/
theorem Gapless.snoc (h : Gapless size pos l) (offered credited : Nat)
    (hin : pos + offered ≤ size) :
    Gapless size (pos + credited) (l ++ [⟨pos, offered, credited⟩]) ∨
      Astray size (pos + credited) (l ++ [⟨pos, offered, credited⟩]) := by
  obtain ⟨hwithin, hcovers, hpos, hreach⟩ := h
  have hreach' := reach_snoc l ⟨pos, offered, credited⟩
  have hwithin' := withinFrom_snoc (R := 0) (l := l) (r := ⟨pos, offered, credited⟩)
  simp only [stop, Nat.zero_max] at hreach' hwithin'
  by_cases hfits : pos + credited ≤ max (reach l) (pos + offered)
  · left
    refine ⟨hwithin'.mpr ⟨hwithin, hfits⟩, fun x hx => covers_snoc.mpr ?_, by omega, by omega⟩
    by_cases hold : x < reach l
    · exact .inl (hcovers x hold)
    · exact .inr ⟨by dsimp only; omega, by dsimp only [stop]; omega⟩
  · right
    refine ⟨fun hin => hfits (hwithin'.mp hin).2, ?_⟩
    by_cases hend : reach (l ++ [⟨pos, offered, credited⟩]) = size
    · exact .inl (by omega)
    · -- the byte after all that was offered
      refine .inr ⟨reach (l ++ [⟨pos, offered, credited⟩]), by omega, by omega, fun hcov => ?_⟩
      exact lt_irrefl _ hcov.lt_reach

/-- What was skipped stays behind. -/
theorem Astray.snoc (h : Astray size pos l) (offered credited : Nat) :
    Astray size (pos + credited) (l ++ [⟨pos, offered, credited⟩]) := by
  refine ⟨fun hwithin => h.exceeds (withinFrom_snoc.mp hwithin).1, ?_⟩
  rcases h.lost with hpast | ⟨x, hx, hpos, hhole⟩
  · exact .inl (by omega)
  · refine .inr ⟨x, hx, by omega, fun hcov => ?_⟩
    rcases covers_snoc.mp hcov with hold | ⟨hstart, -⟩
    · exact hhole hold
    · dsimp only at hstart
      omega

/-- What was fed has no gap, or has gone astray. -/
theorem Fed.gapless_or_astray (h : Fed size pos l) : Gapless size pos l ∨ Astray size pos l := by
  induction h with
  | nil => exact .inl ⟨trivial, fun _ hx => absurd hx (Nat.not_lt_zero _), le_rfl, Nat.zero_le _⟩
  | snoc _ offered credited hin ih =>
    rcases ih with hgood | hbad
    · exact hgood.snoc offered credited hin
    · exact .inr (hbad.snoc offered credited)

/-- **A transfer that has come to its end** came to exactly its size, with every byte offered, if
    and only if no request was credited past what had been reached. -/
theorem Fed.complete_iff (h : Fed size pos l) (hend : size ≤ pos) :
    (pos = size ∧ ∀ x < size, Covers l x) ↔ Within l := by
  rcases h.gapless_or_astray with ⟨hwithin, hcovers, hpos, hreach⟩ | ⟨hover, hlost⟩
  · refine iff_of_true ⟨by omega, fun x hx => hcovers x (by omega)⟩ hwithin
  · refine iff_of_false (fun hdone => ?_) hover
    rcases hlost with hpast | ⟨x, hx, -, hhole⟩
    · omega
    · exact hhole (hdone.2 x hx)

end Credit
