import Mathlib

namespace Slices

/-!
# Positioned reads and writes of a list

`slice F off n` is what a read of `n` elements at `off` finds in the content `F`: fewer
than `n` exactly where the content ends.  `overwrite` and `resize` are a positioned write
and a truncation.  The lemmas say how slices compose, and that writing the next piece of
`G` onto a prefix of `G` gives a longer prefix of `G`.
-/

variable {α : Type*}

/-- The elements of `F` in `[off, off + n)`. -/
def slice (F : List α) (off n : Nat) : List α := (F.drop off).take n

@[simp] theorem length_slice (F : List α) (off n : Nat) :
    (slice F off n).length = min n (F.length - off) := by
  simp [slice]

@[simp] theorem slice_zero (F : List α) (off : Nat) : slice F off 0 = [] := by
  simp [slice]

theorem slice_zero_left (F : List α) (n : Nat) : slice F 0 n = F.take n := by
  simp [slice]

/-- A read at or past the end finds nothing. -/
theorem slice_of_length_le {F : List α} {off : Nat} (h : F.length ≤ off) (n : Nat) :
    slice F off n = [] := by
  simp [slice, List.drop_eq_nil_of_le h]

/-- A slice is determined by its length. -/
theorem slice_length_self (F : List α) (off n : Nat) :
    slice F off (slice F off n).length = slice F off n := by
  rw [length_slice]
  unfold slice
  rw [Nat.min_def]
  split
  · rfl
  · rw [List.take_of_length_le (by simp), List.take_of_length_le (by simp; omega)]

/-- Two adjacent slices make one. -/
theorem slice_add (F : List α) (off m n : Nat) :
    slice F off (m + n) = slice F off m ++ slice F (off + m) n := by
  simp [slice, List.take_add, List.drop_drop]

/-- A prefix of a slice. -/
theorem take_slice (F : List α) (off m n : Nat) :
    (slice F off m).take n = slice F off (min n m) := by
  simp [slice, List.take_take]

/-- The rest of a slice. -/
theorem drop_slice (F : List α) (off m n : Nat) :
    (slice F off m).drop n = slice F (off + n) (m - n) := by
  rw [slice, slice, List.drop_take, List.drop_drop]

/-- A slice of a slice. -/
theorem slice_slice (F : List α) (off m k n : Nat) :
    slice (slice F off m) k n = slice F (off + k) (min n (m - k)) := by
  unfold slice
  rw [List.drop_take, List.drop_drop, List.take_take]

/-- Appending the next slice to a prefix gives a longer prefix. -/
theorem take_append_slice (F : List α) (off n : Nat) :
    F.take off ++ slice F off n = F.take (off + n) := by
  rw [slice, List.take_add]

/-- A list that is a slice of `F` and not empty lies inside `F`. -/
theorem add_length_le_of_eq_slice {F bs : List α} {off : Nat} (h : bs = slice F off bs.length)
    (hne : bs ≠ []) : off + bs.length ≤ F.length := by
  have hlen := congrArg List.length h
  rw [length_slice] at hlen
  have := List.length_pos_iff.mpr hne
  omega

/-- A list that is a slice of `F` reaches at most its end. -/
theorem length_le_of_eq_slice {F bs : List α} {off : Nat} (h : bs = slice F off bs.length) :
    bs.length ≤ F.length - off := by
  have hlen := congrArg List.length h
  rw [length_slice] at hlen
  omega

/-- A slice that starts within the range of its offsets ends within it. -/
theorem add_length_lt_of_eq_slice {F bs : List α} {off b : Nat} (h : bs = slice F off bs.length)
    (hF : F.length < b) (hoff : off < b) : off + bs.length < b := by
  have := length_le_of_eq_slice h
  omega

/-! ### Filling a buffer -/

variable {buf bs : List α} {n : Nat}

/-- What is read into the rest of a buffer fits in it. -/
theorem length_append_le_of_rest (hlt : buf.length < n) (hfits : bs.length ≤ n - buf.length) :
    (buf ++ bs).length ≤ n := by
  rw [List.length_append]
  omega

/-- Whatever is read makes the rest of the buffer shorter. -/
theorem rest_append_lt (hlt : buf.length < n) (hne : bs ≠ []) :
    n - (buf ++ bs).length < n - buf.length := by
  have hpos := List.length_pos_iff.mpr hne
  rw [List.length_append]
  omega

variable [Inhabited α]

/-- `F` after `d` was written at `off`: a gap before `off` is filled with the default
    element, and writing nothing changes nothing. -/
def overwrite (F : List α) (off : Nat) (d : List α) : List α :=
  if d = [] then F
  else (F ++ List.replicate (off - F.length) default).take off ++ d ++ F.drop (off + d.length)

/-- `F` truncated or extended to `n` elements. -/
def resize (F : List α) (n : Nat) : List α :=
  F.take n ++ List.replicate (n - F.length) default

@[simp] theorem overwrite_nil (F : List α) (off : Nat) : overwrite F off [] = F := if_pos rfl

/-- What was written lies inside the file. -/
theorem add_length_le_overwrite (F : List α) (off : Nat) {d : List α} (hne : d ≠ []) :
    off + d.length ≤ (overwrite F off d).length := by
  rw [overwrite, if_neg hne]
  simp only [List.length_append, List.length_take, List.length_replicate, List.length_drop]
  omega

@[simp] theorem length_resize (F : List α) (n : Nat) : (resize F n).length = n := by
  simp only [resize, List.length_append, List.length_take, List.length_replicate]
  omega

/-- **Prefix growth.** Writing a slice of `G` at its own offset onto the first `m` elements
    of `G` leaves a prefix of `G`, no shorter than before. -/
theorem overwrite_take_slice (G : List α) (m off n : Nat) (hoff : off ≤ m)
    (hm : m ≤ G.length) (hn : off + n ≤ G.length) :
    overwrite (G.take m) off (slice G off n) = G.take (max m (off + n)) := by
  by_cases hz : n = 0
  · subst hz
    rw [slice_zero, overwrite_nil, Nat.add_zero, Nat.max_eq_left hoff]
  have hlen : (slice G off n).length = n := by rw [length_slice]; omega
  have hne : slice G off n ≠ [] := by
    rw [← List.length_pos_iff, hlen]; omega
  rw [overwrite, if_neg hne, hlen]
  have hfill : (G.take m ++ List.replicate (off - (G.take m).length) default).take off
      = G.take off := by
    rw [List.take_append_of_le_length (by simp; omega), List.take_take, Nat.min_eq_left hoff]
  rw [hfill, take_append_slice, List.drop_take]
  calc G.take (off + n) ++ (G.drop (off + n)).take (m - (off + n))
      = G.take (off + n + (m - (off + n))) := take_append_slice G (off + n) (m - (off + n))
    _ = G.take (max m (off + n)) := by congr 1; omega

end Slices
