import Mathlib

namespace Pending

/-!
# A value behind by some updates

A copy of a value misses the updates in a list, oldest first: `applyAll` brings it up to date.  An
update made ahead of older ones leaves the copy behind by the others where that makes no difference,
which is so where it commutes with them (`harmless_of_commute`) and where a later update does not
look at the value at all (`harmless_of_resets`).
-/

variable {α : Type*}

/-- The value once it has every update. -/
def applyAll (updates : List (α → α)) (x : α) : α := updates.foldl (fun y u => u y) x

/-- The update does not look at the value. -/
def Resets (u : α → α) : Prop := ∀ x y, u x = u y

/-- Made ahead of those before it, the update makes no difference to what all come to. -/
def Harmless (before : List (α → α)) (u : α → α) (after : List (α → α)) : Prop :=
  ∀ x, applyAll (before ++ after) (u x) = applyAll (before ++ u :: after) x

variable {before after updates : List (α → α)} {u : α → α}

@[simp] theorem applyAll_nil (x : α) : applyAll [] x = x := rfl

@[simp] theorem applyAll_cons (u : α → α) (updates : List (α → α)) (x : α) :
    applyAll (u :: updates) x = applyAll updates (u x) := rfl

@[simp] theorem applyAll_append (before after : List (α → α)) (x : α) :
    applyAll (before ++ after) x = applyAll after (applyAll before x) := by
  simp [applyAll]

/-- Where one of the updates does not look at the value, all of them together do not. -/
theorem resets_applyAll (h : ∃ v ∈ updates, Resets v) : Resets (applyAll updates) := by
  obtain ⟨v, hv, hresets⟩ := h
  obtain ⟨front, rest, rfl⟩ := List.append_of_mem hv
  intro x y
  rw [applyAll_append, applyAll_append, applyAll_cons, applyAll_cons,
    hresets (applyAll front x) (applyAll front y)]

/-- What commutes with each update commutes with all of them. -/
theorem commute_applyAll (h : ∀ v ∈ updates, Function.Commute v u) :
    Function.Commute (applyAll updates) u := by
  induction updates with
  | nil => exact fun _ => rfl
  | cons v updates ih =>
    intro x
    have hrest := ih fun v' hv' => h v' (List.mem_cons_of_mem _ hv')
    rw [applyAll_cons, applyAll_cons, h v List.mem_cons_self x, hrest]

theorem harmless_first (u : α → α) (after : List (α → α)) : Harmless [] u after := fun _ => rfl

/-- An update that commutes with what is waiting comes to nothing by being late. -/
theorem harmless_of_commute (h : ∀ v ∈ before, Function.Commute v u) (after : List (α → α)) :
    Harmless before u after := by
  intro x
  rw [applyAll_append, applyAll_append, applyAll_cons, commute_applyAll h x]

/-- Nor does one that comes before a reset. -/
theorem harmless_of_resets (h : ∃ v ∈ after, Resets v) (before : List (α → α)) (u : α → α) :
    Harmless before u after := by
  intro x
  rw [applyAll_append, applyAll_append, applyAll_cons]
  exact resets_applyAll h _ _

/-! ### Raising a value, and setting it -/

variable {β : Type*} [LinearOrder β]

/-- The update raises the value to a bound. -/
def Raises (u : β → β) : Prop := ∃ b, u = (max · b)

/-- Two raises come to the same in either order. -/
theorem Raises.commute {u v : β → β} (hu : Raises u) (hv : Raises v) : Function.Commute u v := by
  obtain ⟨b, rfl⟩ := hu
  obtain ⟨c, rfl⟩ := hv
  exact fun x => max_right_comm x c b

/-- **Raising and setting**: where an update makes a difference at all, it makes one at every
    value. -/
theorem harmless_iff_at {before after : List (β → β)} {u : β → β}
    (h : ∀ v ∈ before ++ u :: after, Raises v ∨ Resets v) (x : β) :
    Harmless before u after ↔
      applyAll (before ++ after) (u x) = applyAll (before ++ u :: after) x := by
  refine ⟨fun hharmless => hharmless x, fun hsame => ?_⟩
  by_cases hafter : ∃ v ∈ after, Resets v
  · exact harmless_of_resets hafter before u
  by_cases hreset : Resets u ∨ ∃ v ∈ before, Resets v
  · -- neither side looks at the value
    have hearly : Resets fun y => applyAll (before ++ after) (u y) := by
      intro y z
      rcases hreset with hu | ⟨v, hv, hresets⟩
      · exact congrArg _ (hu y z)
      · exact resets_applyAll ⟨v, List.mem_append_left _ hv, hresets⟩ _ _
    have hlate : Resets (applyAll (before ++ u :: after)) := by
      rcases hreset with hu | ⟨v, hv, hresets⟩
      · exact resets_applyAll ⟨u, by simp, hu⟩
      · exact resets_applyAll ⟨v, List.mem_append_left _ hv, hresets⟩
    intro y
    exact (hearly y x).trans (hsame.trans (hlate x y))
  · -- all of them raise the value
    rw [not_or] at hreset
    have hraises : ∀ v ∈ before, Raises v := fun v hv =>
      (h v (List.mem_append_left _ hv)).resolve_right fun hv' => hreset.2 ⟨v, hv, hv'⟩
    have hu : Raises u := (h u (by simp)).resolve_right hreset.1
    exact harmless_of_commute (fun v hv => (hraises v hv).commute hu) after

/-- Raised by many bounds, a value is below what all of them are below. -/
theorem applyAll_max_le_iff {bounds : List β} {x y : β} :
    applyAll (bounds.map fun b => (max · b)) x ≤ y ↔ x ≤ y ∧ ∀ b ∈ bounds, b ≤ y := by
  induction bounds generalizing x with
  | nil => simp
  | cons b bounds ih =>
    rw [List.map_cons, applyAll_cons, ih, max_le_iff, List.forall_mem_cons, and_assoc]

/-- A value may be set ahead of being raised if it is set no lower than it is raised to. -/
theorem harmless_const_iff {bounds : List β} {c : β} :
    Harmless (bounds.map fun b => (max · b)) (fun _ => c) [] ↔ ∀ b ∈ bounds, b ≤ c := by
  have hraised : ∀ x : β, x ≤ applyAll (bounds.map fun b => (max · b)) x :=
    fun x => (applyAll_max_le_iff.mp le_rfl).1
  constructor
  · intro h
    have hset := h c
    rw [applyAll_append, applyAll_append, applyAll_cons, applyAll_nil, applyAll_nil] at hset
    exact (applyAll_max_le_iff.mp hset.le).2
  · intro h x
    rw [applyAll_append, applyAll_append, applyAll_cons, applyAll_nil, applyAll_nil]
    apply le_antisymm
    · exact applyAll_max_le_iff.mpr ⟨le_rfl, h⟩
    · exact hraised c

end Pending
