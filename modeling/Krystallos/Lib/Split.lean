import Mathlib

namespace Separated

/-!
# Texts made of pieces between separators

`List.splitOnP` cuts a list at the elements a predicate picks; `prefixed sep segs` writes a
separator in front of every piece and `terminated sep segs` behind it.  Reading back what was
written gives the pieces (`splitOnP_prefixed`, `splitOnP_terminated`), no piece of a split holds a
separator (`not_sep_of_mem_splitOnP`), and `lastIdx?` finds the separator in front of the last piece.
-/

variable {α : Type*} {p : α → Bool}

/-- Every piece with the separator in front of it. -/
def prefixed (sep : α) (segs : List (List α)) : List α := segs.flatMap (sep :: ·)

/-- Position of the last element that satisfies `p`. -/
def lastIdx? (p : α → Bool) (xs : List α) : Option Nat :=
  (xs.reverse.findIdx? p).map (xs.length - 1 - ·)

@[simp] theorem prefixed_nil (sep : α) : prefixed sep [] = [] := rfl

@[simp] theorem prefixed_cons (sep : α) (s : List α) (segs : List (List α)) :
    prefixed sep (s :: segs) = sep :: (s ++ prefixed sep segs) := by
  simp [prefixed]

/-- Pieces one after the other. -/
theorem prefixed_append (sep : α) (segs segs' : List (List α)) :
    prefixed sep (segs ++ segs') = prefixed sep segs ++ prefixed sep segs' := by
  simp [prefixed]

/-- Empty pieces are separators alone. -/
theorem prefixed_replicate_nil (sep : α) (n : Nat) :
    prefixed sep (List.replicate n []) = List.replicate n sep := by
  induction n with
  | zero => rfl
  | succ n ih => rw [List.replicate_succ, prefixed_cons, ih, List.nil_append, List.replicate_succ]

/-- No piece of a split holds an element that was split at. -/
theorem not_sep_of_mem_splitOnP {xs w : List α} (hw : w ∈ xs.splitOnP p) :
    ∀ c ∈ w, p c = false := by
  induction xs generalizing w with
  | nil =>
    obtain rfl : w = [] := by simpa using hw
    simp
  | cons x xs ih =>
    rw [List.splitOnP_cons_eq_if_modifyHead] at hw
    by_cases hx : p x = true
    · rw [if_pos hx] at hw
      rcases List.mem_cons.mp hw with rfl | hw
      · simp
      · exact ih hw
    · rw [if_neg hx] at hw
      obtain ⟨r, rs, hr⟩ := List.exists_cons_of_ne_nil (List.splitOnP_ne_nil p xs)
      rw [hr, List.modifyHead_cons] at hw
      rcases List.mem_cons.mp hw with rfl | hw
      · intro c hc
        rcases List.mem_cons.mp hc with rfl | hc
        · simpa using hx
        · exact ih (by simp [hr]) c hc
      · exact ih (by simp [hr, hw])

/-- Pieces free of separators are read back from behind any text. -/
theorem splitOnP_append_prefixed_any {sep : α} (hsep : p sep = true) (xs : List α)
    (segs : List (List α)) (hsegs : ∀ s ∈ segs, ∀ c ∈ s, p c = false) :
    (xs ++ prefixed sep segs).splitOnP p = xs.splitOnP p ++ segs := by
  induction segs generalizing xs with
  | nil => simp
  | cons s segs ih =>
    have hs := hsegs s (by simp)
    have hrest : ∀ s' ∈ segs, ∀ c ∈ s', p c = false := fun s' h => hsegs s' (by simp [h])
    rw [prefixed_cons, List.splitOnP_append_cons xs _ hsep, ih s hrest,
      List.splitOnP_eq_singleton hs]
    rfl

/-- Pieces free of separators are read back from the text that prefixes each with one. -/
theorem splitOnP_append_prefixed {sep : α} (hsep : p sep = true) (x : List α)
    (segs : List (List α)) (hx : ∀ c ∈ x, p c = false)
    (hsegs : ∀ s ∈ segs, ∀ c ∈ s, p c = false) :
    (x ++ prefixed sep segs).splitOnP p = x :: segs := by
  rw [splitOnP_append_prefixed_any hsep x segs hsegs, List.splitOnP_eq_singleton hx]
  rfl

/-- What is split are the pieces, after an empty one. -/
theorem splitOnP_prefixed {sep : α} (hsep : p sep = true) (segs : List (List α))
    (hsegs : ∀ s ∈ segs, ∀ c ∈ s, p c = false) :
    (prefixed sep segs).splitOnP p = [] :: segs := by
  simpa using splitOnP_append_prefixed hsep [] segs (by simp) hsegs

/-- Every piece with the separator behind it. -/
def terminated (sep : α) (segs : List (List α)) : List α := segs.flatMap (· ++ [sep])

/-- Pieces free of separators are read back from the text that ends each with one. -/
theorem splitOnP_terminated {sep : α} (hsep : p sep = true) (segs : List (List α))
    (hsegs : ∀ s ∈ segs, ∀ c ∈ s, p c = false) :
    (terminated sep segs).splitOnP p = segs ++ [[]] := by
  induction segs with
  | nil => exact List.splitOnP_nil
  | cons s segs ih =>
    have hrest : ∀ s' ∈ segs, ∀ c ∈ s', p c = false := fun s' h => hsegs s' (by simp [h])
    have hcons : terminated sep (s :: segs) = s ++ sep :: terminated sep segs := by
      simp [terminated]
    rw [hcons, List.splitOnP_append_cons_of_forall_mem (hsegs s (by simp)) sep hsep, ih hrest]
    rfl

/-- The last separator stands right before a tail that holds none. -/
theorem lastIdx?_append_cons {sep : α} (hsep : p sep = true) (xs ys : List α)
    (hys : ∀ c ∈ ys, p c = false) : lastIdx? p (xs ++ sep :: ys) = some xs.length := by
  have hrev : (xs ++ sep :: ys).reverse = ys.reverse ++ sep :: xs.reverse := by simp
  have hnone : ys.reverse.findIdx? p = none := by
    rw [List.findIdx?_eq_none_iff]
    intro c hc
    exact hys c (by simpa using hc)
  rw [lastIdx?, hrev, List.findIdx?_append, hnone, List.findIdx?_cons, hsep]
  simp only [Option.none_or, if_true, Option.map_some, List.length_append, List.length_reverse,
    List.length_cons, Option.some.injEq]
  omega

end Separated
