import Mathlib.Data.List.Basic
import Mathlib.Data.Nat.Notation
import Mathlib.Logic.Function.Basic

namespace Escape

/-!
# Codes that can be read back

A code writes a word for each letter.  Where each word says where it ends (`Instant`), two
texts that are written alike are the same text (`Instant.flatMap_injective`).  The digits of
a number are such a word as soon as something follows that is no digit.
-/

variable {α β : Type*}

/-- Each word of the code says where it ends. -/
structure Instant (f : α → List β) : Prop where
  nonempty : ∀ a, f a ≠ []
  decode : ∀ a b xs ys, f a ++ xs = f b ++ ys → a = b ∧ xs = ys

/-- **Texts** are read back letter by letter. -/
theorem Instant.flatMap_injective {f : α → List β} (h : Instant f) :
    Function.Injective (List.flatMap f) := by
  intro as
  induction as with
  | nil =>
    intro bs heq
    cases bs with
    | nil => rfl
    | cons b bs =>
      rw [List.flatMap_nil, List.flatMap_cons] at heq
      exact absurd (List.append_eq_nil_iff.mp heq.symm).1 (h.nonempty b)
  | cons a as ih =>
    intro bs heq
    cases bs with
    | nil =>
      rw [List.flatMap_nil, List.flatMap_cons] at heq
      exact absurd (List.append_eq_nil_iff.mp heq).1 (h.nonempty a)
    | cons b bs =>
      rw [List.flatMap_cons, List.flatMap_cons] at heq
      obtain ⟨rfl, hrest⟩ := h.decode a b _ _ heq
      rw [ih hrest]

/-- A word that is closed by a letter it does not have. -/
theorem eq_of_append_cons {x y xs ys : List α} {c : α} (hx : c ∉ x) (hy : c ∉ y)
    (h : x ++ c :: xs = y ++ c :: ys) : x = y ∧ xs = ys := by
  induction x generalizing y with
  | nil =>
    cases y with
    | nil => exact ⟨rfl, (List.cons.inj h).2⟩
    | cons d y => exact absurd (List.cons.inj h).1 (List.ne_of_not_mem_cons hy)
  | cons b x ih =>
    cases y with
    | nil => exact absurd (List.cons.inj h).1.symm (List.ne_of_not_mem_cons hx)
    | cons d y =>
      obtain ⟨rfl, hrest⟩ := List.cons.inj h
      obtain ⟨rfl, hxs⟩ :=
        ih (List.not_mem_of_not_mem_cons hx) (List.not_mem_of_not_mem_cons hy) hrest
      exact ⟨rfl, hxs⟩

/-! ### Hexadecimal digits -/

theorem digitChar_inj : ∀ m < 16, ∀ n < 16, Nat.digitChar m = Nat.digitChar n → m = n := by
  decide

/-- Every digit is one of sixteen. -/
theorem mem_hex {n : ℕ} {c : Char} (h : c ∈ Nat.toDigits 16 n) :
    ∃ d < 16, c = Nat.digitChar d := by
  induction n using Nat.strongRecOn with
  | ind n ih =>
    by_cases hn : n < 16
    · rw [Nat.toDigits_of_lt_base hn, List.mem_singleton] at h
      exact ⟨n, hn, h⟩
    · rw [Nat.toDigits_of_base_le (by decide) (Nat.not_lt.mp hn), List.mem_append] at h
      rcases h with hrest | hlast
      · exact ih (n / 16) (by omega) hrest
      · exact ⟨n % 16, Nat.mod_lt _ (by decide), List.mem_singleton.mp hlast⟩

/-- **Numbers** are read back from their digits. -/
theorem hex_injective : Function.Injective (Nat.toDigits 16) := by
  intro m
  induction m using Nat.strongRecOn with
  | ind m ih =>
    intro n h
    by_cases hm : m < 16
    · by_cases hn : n < 16
      · -- one digit each
        rw [Nat.toDigits_of_lt_base hm, Nat.toDigits_of_lt_base hn] at h
        exact digitChar_inj m hm n hn (List.cons.inj h).1
      · rw [Nat.toDigits_of_lt_base hm, Nat.toDigits_of_base_le (by decide) (Nat.not_lt.mp hn)] at h
        -- one has more digits than the other
        have hlen := congrArg List.length h
        have hpos := Nat.length_toDigits_pos (b := 16) (n := n / 16)
        simp only [List.length_append, List.length_singleton] at hlen
        omega
    · by_cases hn : n < 16
      · rw [Nat.toDigits_of_lt_base hn, Nat.toDigits_of_base_le (by decide) (Nat.not_lt.mp hm)] at h
        -- as above
        have hlen := congrArg List.length h
        have hpos := Nat.length_toDigits_pos (b := 16) (n := m / 16)
        simp only [List.length_append, List.length_singleton] at hlen
        omega
      · rw [Nat.toDigits_of_base_le (by decide) (Nat.not_lt.mp hm),
          Nat.toDigits_of_base_le (by decide) (Nat.not_lt.mp hn)] at h
        -- the last digit is the rest modulo 16, and those in front are the quotient's
        obtain ⟨hrest, hlast⟩ := List.append_inj' h rfl
        have hdiv := ih (m / 16) (by omega) hrest
        have hmod := digitChar_inj _ (Nat.mod_lt _ (by decide)) _ (Nat.mod_lt _ (by decide))
          (List.cons.inj hlast).1
        omega

end Escape
