import Mathlib

namespace Assoc

/-!
# Association lists

`List.lookup` on a list of pairs whose keys are removed with `filter`: the part of a hash
map's interface that a table of handles needs.
-/

variable {α β : Type*} [DecidableEq α]

/-- Looking up after a key was removed. -/
theorem lookup_filter_ne (xs : List (α × β)) (a b : α) :
    (xs.filter (·.1 ≠ a)).lookup b = if b = a then none else xs.lookup b := by
  induction xs with
  | nil => simp
  | cons x xs ih =>
    obtain ⟨k, v⟩ := x
    by_cases hk : k = a
    · -- the entry goes
      subst hk
      rw [List.filter_cons_of_neg (by simp), ih]
      split
      · rfl
      · next hb => rw [List.lookup_cons, beq_eq_false_iff_ne.mpr hb]
    · -- the entry stays
      rw [List.filter_cons_of_pos (by simpa using hk), List.lookup_cons, List.lookup_cons, ih]
      by_cases hb : b = k
      · subst hb
        simp [hk]
      · simp [beq_eq_false_iff_ne.mpr hb]

/-- What is found is in the list. -/
theorem mem_of_lookup {xs : List (α × β)} {a : α} {b : β} (h : xs.lookup a = some b) :
    (a, b) ∈ xs := by
  obtain ⟨l₁, l₂, rfl, -⟩ := List.lookup_eq_some_iff.mp h
  simp

/-- A key that is in the list is found. -/
theorem lookup_isSome_of_mem {xs : List (α × β)} {a : α} {b : β} (h : (a, b) ∈ xs) :
    (xs.lookup a).isSome :=
  List.lookup_isSome_iff.mpr ⟨(a, b), h, by simp⟩

/-- Nothing is removed with a key that is not found. -/
theorem filter_ne_of_lookup {xs : List (α × β)} {a : α} (h : xs.lookup a = none) :
    xs.filter (·.1 ≠ a) = xs := by
  rw [List.filter_eq_self]
  rintro ⟨b, v⟩ hmem
  have hne : a ≠ b := by simpa using List.lookup_eq_none_iff.mp h _ hmem
  exact decide_eq_true hne.symm

/-- Where keys differ, a key takes one entry with it. -/
theorem perm_of_lookup {xs : List (α × β)} {a : α} {v : β} (hkeys : (xs.map Prod.fst).Nodup)
    (h : xs.lookup a = some v) : xs.Perm ((a, v) :: xs.filter (·.1 ≠ a)) := by
  induction xs with
  | nil => cases h
  | cons x xs ih =>
    obtain ⟨k, w⟩ := x
    obtain ⟨hfresh, hrest⟩ := List.nodup_cons.mp hkeys
    by_cases hk : a = k
    · subst hk
      obtain rfl : w = v := by simpa using h
      have hnone : xs.lookup a = none := by
        rw [List.lookup_eq_none_iff]
        rintro ⟨b, u⟩ hmem
        rw [bne_iff_ne]
        rintro rfl
        exact hfresh (List.mem_map.mpr ⟨(a, u), hmem, rfl⟩)
      rw [List.filter_cons_of_neg (by simp), filter_ne_of_lookup hnone]
    · rw [List.lookup_cons, beq_eq_false_iff_ne.mpr hk] at h
      rw [List.filter_cons_of_pos (by simpa using Ne.symm hk)]
      exact ((ih hrest h).cons (k, w)).trans (.swap _ _ _)

/-- Where no key is given twice, the element with a key is unique. -/
theorem eq_of_nodup_filterMap {γ κ : Type*} {f : γ → Option κ} {l : List γ} {a b : γ} {k : κ}
    (h : (l.filterMap f).Nodup) (ha : a ∈ l) (hb : b ∈ l) (hfa : f a = some k)
    (hfb : f b = some k) : a = b := by
  let R : γ → γ → Prop := fun a b => ∀ k, f a = some k → ∀ k', f b = some k' → k ≠ k'
  have hpair : l.Pairwise R := List.pairwise_filterMap.mp h
  have hsymm : Std.Symm R := ⟨fun _ _ hab k hk k' hk' heq => hab k' hk' k hk heq.symm⟩
  by_contra hne
  exact hpair.forall ha hb hne k hfa k hfb rfl

end Assoc
