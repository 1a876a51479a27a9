import Krystallos.Lib.Lts

namespace Resource

/-!
# Handles that are acquired, used and released

A trace says what was done with handles of a library that is shut down at the end.  `replay`
accepts the traces in which a handle is used and released only while it is held, and the
library is shut down once, last, and with nothing held.  A handle value may come back after
its release: it then stands for a new acquisition.

In an accepted trace each acquisition is released at most once, and exactly once if the
library was shut down (`count_release`).
-/

variable {H : Type} [DecidableEq H]

/-- What an event does. -/
inductive Use (H : Type)
  | idle
  | acquire (h : H)
  | use (h : H)
  | release (h : H)
  | shutdown
deriving DecidableEq, Repr

/-- The handles held, and whether the library is up. -/
structure Held (H : Type) where
  live : Finset H
  up : Bool

/-- Nothing is held yet. -/
def Held.start : Held H := ⟨∅, true⟩

/-- Nothing is held any more. -/
def Held.ended : Held H := ⟨∅, false⟩

/-- One event; `none` where it is out of order. -/
def Held.step (s : Held H) (u : Use H) : Option (Held H) :=
  if s.up then
    match u with
    | .idle => some s
    | .acquire h => if h ∈ s.live then none else some ⟨insert h s.live, true⟩
    | .use h => if h ∈ s.live then some s else none
    | .release h => if h ∈ s.live then some ⟨s.live.erase h, true⟩ else none
    | .shutdown => if s.live = ∅ then some .ended else none
  else none

/-- What is held after a trace; `none` where an event is out of order. -/
def replay (us : List (Use H)) : Option (Held H) := Lts.run Held.step .start us

/-- One more event. -/
theorem replay_concat {us : List (Use H)} {u : Use H} {s t : Held H} (h : replay us = some s)
    (hstep : s.step u = some t) : replay (us ++ [u]) = some t :=
  Lts.run_append_iff.mpr ⟨s, h, Lts.run_cons_iff.mpr ⟨t, hstep, rfl⟩⟩

/-! ### The events in order -/

variable {live : Finset H} {h : H}

@[simp] theorem step_idle : Held.step ⟨live, true⟩ .idle = some ⟨live, true⟩ := rfl

/-- What is not held can be acquired. -/
theorem step_acquire (hnew : h ∉ live) :
    Held.step ⟨live, true⟩ (.acquire h) = some ⟨insert h live, true⟩ := if_neg hnew

/-- What is held can be used. -/
theorem step_use (hheld : h ∈ live) : Held.step ⟨live, true⟩ (.use h) = some ⟨live, true⟩ :=
  if_pos hheld

/-- What is held can be released. -/
theorem step_release (hheld : h ∈ live) :
    Held.step ⟨live, true⟩ (.release h) = some ⟨live.erase h, true⟩ := if_pos hheld

/-- Nothing held, the end. -/
theorem step_shutdown : Held.step ⟨(∅ : Finset H), true⟩ .shutdown = some .ended := if_pos rfl

/-! ### What an accepted trace says -/

/-- One, for a handle that is held. -/
def Held.holds (s : Held H) (h : H) : Nat := if h ∈ s.live then 1 else 0

/-- One event, counted. -/
theorem count_step {s t : Held H} {u : Use H} (hstep : s.step u = some t) (h : H) :
    (if u = .release h then 1 else 0) + t.holds h
      = (if u = .acquire h then 1 else 0) + s.holds h := by
  obtain ⟨live, up⟩ := s
  unfold Held.step at hstep
  split at hstep
  · cases u with
    | idle => cases hstep; simp
    | acquire h' =>
      simp only [Option.ite_none_left_eq_some, Option.some.injEq] at hstep
      obtain ⟨hnew, rfl⟩ := hstep
      -- the handle itself, or another one
      by_cases heq : h' = h
      · subst heq
        simp [Held.holds, hnew]
      · simp [Held.holds, heq, Ne.symm heq]
    | use h' =>
      simp only [Option.ite_none_right_eq_some, Option.some.injEq] at hstep
      obtain ⟨-, rfl⟩ := hstep
      simp
    | release h' =>
      simp only [Option.ite_none_right_eq_some, Option.some.injEq] at hstep
      obtain ⟨hheld, rfl⟩ := hstep
      by_cases heq : h' = h
      · subst heq
        simp [Held.holds, hheld]
      · simp [Held.holds, heq, Ne.symm heq]
    | shutdown =>
      simp only [Option.ite_none_right_eq_some, Option.some.injEq] at hstep
      obtain ⟨hnone, rfl⟩ := hstep
      simp [Held.holds, Held.ended, hnone]
  · cases hstep

/-- **Each acquisition is released at most once**, and has been unless it is held. -/
theorem count_release {us : List (Use H)} {s : Held H} (hrun : replay us = some s) (h : H) :
    us.count (.release h) + s.holds h = us.count (.acquire h) := by
  have hcount : ∀ (us : List (Use H)) (s t : Held H), Lts.run Held.step s us = some t →
      us.count (.release h) + t.holds h = us.count (.acquire h) + s.holds h := by
    intro us
    induction us with
    | nil =>
      intro s t hrun
      cases hrun
      rfl
    | cons u us ih =>
      intro s t hrun
      obtain ⟨v, hstep, hrest⟩ := Lts.run_cons_iff.mp hrun
      have hhead := count_step hstep h
      have htail := ih v t hrest
      simp only [List.count_cons, beq_iff_eq]
      omega
  have hstart := hcount us .start s hrun
  simpa [Held.holds, Held.start] using hstart

end Resource
