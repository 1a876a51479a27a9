import Krystallos.Core.Stays
import Krystallos.Smb.Hosted
import Krystallos.Smb.Lifecycle

namespace Krystallos.Smb

open Lts Prog Resource

/-!
# Whatever is called on a session

Every call of an `SmbBackend` and of its files is a run of the session, and a shutdown that returns
has ended the thread: it has closed what it had opened, and is done with the context.
-/

variable {W : Type} {lib : Libsmb2 W} {limits : Limits} {fuel : Nat}

namespace Sys

variable {P : Sys W → Prop} {s u : Sys W} {w : W}

/-- A session that was connected in `w` can be in this state. -/
def Reached (lib : Libsmb2 W) (limits : Limits) (w : W) (s : Sys W) : Prop :=
  ∃ acts, Lts.run (step lib limits) (init w) acts = some s

/-- One step further. -/
theorem Reached.step {a : Action} (h : Reached lib limits w s)
    (hstep : Sys.step lib limits s a = some u) : Reached lib limits w u := by
  obtain ⟨acts, hrun⟩ := h
  exact ⟨acts ++ [a], run_append_iff.mpr ⟨s, hrun, run_cons_iff.mpr ⟨u, hstep, rfl⟩⟩⟩

/-- **A call** goes through states that steps lead to, whatever becomes of it. -/
theorem wp_perform_keeping (hs : Reached lib limits w s) (a : Action) :
    wp (perform lib limits fuel a) (keeping (Reached lib limits w)) s := by
  simp only [perform, wp_bind, wp_current]
  refine wp_act trivial fun u hstep => ?_
  refine wp_iterate_partial (fun _ u => Reached lib limits w u) trivial ?_ 7 (hs.step hstep)
  rintro - v hv
  simp only [awaitTurn, wp_bind, wp_current]
  split
  · next kind r _ =>
    rw [wp_bind, wp_ofExcept]
    cases r <;> exact hv
  · exact (wp_bind _ _).mpr (wp_act trivial fun v' hstep' => hv.step hstep')

/-- The thread is over. -/
def Over (lib : Libsmb2 W) (limits : Limits) (w : W) (s : Sys W) : Prop :=
  s.phase = .exited ∧ Reached lib limits w s

/-- **A shutdown that returns** has ended the thread. -/
theorem wp_shutdown_over (hs : Reached lib limits w s) :
    wp (perform lib limits fuel .shutdown) (keeping (Over lib limits w)) s := by
  simp only [perform, wp_bind, wp_current]
  refine wp_act trivial fun u hstep => ?_
  have hkind : kindAt u.tasks s.tasks.length = some .shutdown := by
    cases moved_of_step hstep with
    | shutdown =>
      rw [kindAt, spawn, List.getElem?_concat_length]
      rfl
  refine wp_iterate_partial (fun _ u => kindAt u.tasks s.tasks.length = some .shutdown ∧
    Reached lib limits w u) trivial ?_ 7 ⟨hkind, hs.step hstep⟩
  rintro - v ⟨hk, hv⟩
  simp only [awaitTurn, wp_bind, wp_current]
  split
  · next kind r hdone =>
    obtain rfl : kind = .shutdown := by simpa [kindAt, hdone] using hk
    obtain ⟨acts, hrun⟩ := id hv
    have hexited := exited_of_done hrun hdone
    rw [wp_bind, wp_ofExcept]
    cases r <;> exact ⟨hexited, hv⟩
  · exact (wp_bind _ _).mpr (wp_act trivial fun v' hstep' => ⟨kindAt_step hk hstep', hv.step hstep'⟩)

/-- What a session leaves behind that is over: everything it was given is given back. -/
theorem Over.replay_ended {opened : W → Finset Fh} (ht : Tracks lib opened) (hw : opened w = ∅)
    (h : Over lib limits w s) : replay s.uses = some .ended := by
  obtain ⟨hexited, acts, hrun⟩ := h
  have horder : InOrder opened s :=
    Lts.run_invariant (fun _ _ _ => inOrder_step ht) (inOrder_init hw) hrun
  exact horder.ended (.inr hexited)

/-- Every handle was closed as often as it was opened. -/
theorem Over.given_back {opened : W → Finset Fh} (ht : Tracks lib opened) (hw : opened w = ∅)
    (h : Over lib limits w s) : s.phase = .exited ∧ replay s.uses = some .ended ∧
      ∀ fh, s.uses.count (.release fh) = s.uses.count (.acquire fh) := by
  have hended := h.replay_ended ht hw
  exact ⟨h.1, hended, fun fh => by simpa [Held.holds, Held.ended] using count_release hended fh⟩

end Sys

/-! ### The backend -/

variable {w : W}

/-- A request is a number of steps. -/
theorem wp_request_keeping {s : Sys W} (hs : Sys.Reached lib limits w s) (req : Request) :
    wp (request lib limits fuel req) (keeping (Sys.Reached lib limits w)) s :=
  Sys.wp_perform_keeping hs _

/-- So is one whose answer is expected to be of a kind. -/
theorem wp_expect_keeping {α : Type} {g : Answer → Option α} {m : Prog Error (Sys W) Answer}
    {P : Sys W → Prop} {s : Sys W} (h : wp m (keeping P) s) : wp (expect g m) (keeping P) s := by
  refine wp_bind_keeping h fun answer s' hs' => ?_
  cases g answer with
  | none => trivial
  | some a => exact hs'

/-- **A file on the session** takes steps of it, and no others. -/
theorem stays_fileHandle (f : Nat) :
    (fileHandle lib limits fuel f).Stays (Sys.Reached lib limits w) where
  readAt _ _ _ hs := wp_expect_keeping (Sys.wp_perform_keeping hs _)
  writeAt _ _ _ hs := wp_expect_keeping (Sys.wp_perform_keeping hs _)
  setLen _ _ hs := wp_bind_keeping (Sys.wp_perform_keeping hs _) fun _ _ h => h
  flush _ hs := wp_bind_keeping (Sys.wp_perform_keeping hs _) fun _ _ h => h
  close _ hs := wp_bind_keeping (Sys.wp_perform_keeping hs _) fun _ _ h => h

/-- **Whatever is called** on the backend is a run of its session, which is over when the backend was
    shut down. -/
theorem stays_backend :
    (backend lib limits fuel).Stays (Sys.Reached lib limits w) (Sys.Over lib limits w) where
  storage :=
    { stat := fun _ _ hs => wp_expect_keeping (wp_request_keeping hs _)
      openFile := by
        intro path mode s hs
        refine (wp_bind _ _).mpr ((wp_bind _ _).mpr ?_)
        refine wp_mono (wp_request_keeping hs (.openFile path mode)) ?_ (fun _ _ h => h)
          (fun _ h => h)
        intro answer s' hs'
        cases answer with
        | opened id len => exact ⟨hs', stays_fileHandle _⟩
        | _ => trivial
      shutdown := fun _ hs => wp_bind_keeping (Sys.wp_shutdown_over hs) fun _ _ h => h }
  list _ _ hs := wp_expect_keeping (wp_request_keeping hs _)
  removeFile _ _ hs := wp_bind_keeping (wp_request_keeping hs _) fun _ _ h => h
  removeDir _ _ hs := wp_bind_keeping (wp_request_keeping hs _) fun _ _ h => h
  rename _ _ _ hs := wp_bind_keeping (wp_request_keeping hs _) fun _ _ h => h
  copy _ _ _ hs := wp_expect_keeping (wp_request_keeping hs _)
  mkdir _ _ hs := wp_bind_keeping (wp_request_keeping hs _) fun _ _ h => h

end Krystallos.Smb
