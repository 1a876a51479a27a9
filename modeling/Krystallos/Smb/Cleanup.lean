import Krystallos.Smb.Calls
import Krystallos.Smb.MemServer

namespace Krystallos.Smb

open Prog

/-!
# A failed copy leaves the share as it was

The cleanup of `copy_file` fires exactly where this call created the destination: before
that nothing on the share was changed, and from then on only the new file is, so removing it
gives the share back.  Where the destination was there already the exclusive open fails, and
no call that could alter anything is made at all.

Only the frame of each call is assumed, not that counts are truthful.
-/

/-- Whether a call may change what a name stands for, or what a file holds. -/
def Call.alters : Call → Bool
  | .mkdir _ | .unlink _ | .rmdir _ | .rename _ _ => true
  | .pwrite _ _ _ | .ftruncate _ _ | .copychunk _ _ _ => true
  | .openFile _ flags => flags.trunc || flags.creat && !flags.excl
  | _ => false

variable {W κ : Type} [DecidableEq κ] {lib : Libsmb2 W} {view : W → Share κ} {key : String → κ}

/-- A file on which no handle is open can be unlinked. -/
def Unlinks (lib : Libsmb2 W) (view : W → Share κ) (key : String → κ) (path : String) : Prop :=
  ∀ w D, (view w).nodes (key path) = some (.file D) →
    (∀ fh, (view w).handles fh ≠ some (key path)) → (lib.call (.unlink path) w).1 = (0 : Int)

/-- While the bytes are moved: share `b` with a new file at `k`, open as `dst`, and no other
    difference. -/
def Filling (view : W → Share κ) (b : Share κ) (dst : Fh) (k : κ) (w : W) : Prop :=
  ∃ D, (view w).nodes = Function.update b.nodes k (some (.file D)) ∧
    (view w).handles = Function.update b.handles dst (some k)

/-- A call that moves bytes changes the new file only. -/
theorem Framed.filling (h : Framed lib view key) {b : Share κ} {src dst : Fh} {k : κ} {c : Call}
    {s : Ctx W} (hc : MovesBytes src dst c) (hs : Filling view b dst k s.world) :
    Filling view b dst k (s.after lib c).world := by
  obtain ⟨D, hnodes, hhandles⟩ := hs
  have hdst : (view s.world).handles dst = some k := by rw [hhandles, Function.update_self]
  have hfile : (view s.world).nodes k = some (.file D) := by rw [hnodes, Function.update_self]
  -- to put the file again, with other bytes, is still to fill it
  have hput : ∀ w D', view w = (view s.world).put k (some (.file D')) →
      Filling view b dst k w := by
    intro w D' hw
    refine ⟨D', ?_, ?_⟩
    · rw [hw, Share.put_nodes, hnodes, Function.update_idem]
    · rw [hw, Share.put_handles, hhandles]
  cases hc with
  | requestResumeKey =>
    obtain ⟨keys, hview⟩ := h.requestResumeKey src s.world
    exact ⟨D, by rw [Ctx.after_world, hview]; exact ⟨hnodes, hhandles⟩⟩
  | copychunk rk chunk =>
    obtain ⟨D', hview⟩ := h.copychunk rk dst chunk s.world k D hdst hfile
    exact hput _ D' hview
  | pread count offset =>
    exact ⟨D, by rw [Ctx.after_world, h.pread]; exact ⟨hnodes, hhandles⟩⟩
  | pwrite data offset =>
    obtain ⟨D', hview⟩ := h.pwrite dst data offset s.world k D hdst hfile
    exact hput _ D' hview

/-- **The cleanup.** Once the destination was created, a copy that fails has removed it. -/
theorem wp_copyInto_failed (h : Framed lib view key) {path : String}
    (hunlink : Unlinks lib view key path) {b : Share κ} (habs : b.nodes (key path) = none)
    (hshut : ∀ fh, b.handles fh ≠ some (key path)) {src dst : Fh} {s : Ctx W}
    (hs : Filling view b dst (key path) s.world) (size fuel : Nat) :
    wp (copyInto lib src dst path size fuel)
      ⟨fun _ _ => True, fun _ s' => (view s'.world).nodes = b.nodes, fun _ => True⟩ s := by
  refine wp_ite (fun _ => trivial) (fun _ => ?_)
  simp only [wp_bind, wp_capture, wp_guarding]
  refine wp_mono ((makes_copyBytes size fuel).wp_invariant (I := fun s => Filling view b dst _ s.world)
    (fun c s hc hs => h.filling hc hs) hs) ?_ ?_
    (fun _ _ => trivial)
  · intro copied s' _
    trivial
  · rintro e s₁ ⟨D, hnodes, hhandles⟩
    -- the handle goes first, then the file
    have hclosed := h.close dst s₁.world
    have hfile : (view (s₁.after lib (.close dst)).world).nodes (key path) = some (.file D) := by
      rw [Ctx.after_world, hclosed, Share.closed_nodes, hnodes, Function.update_self]
    have hfree : ∀ fh, (view (s₁.after lib (.close dst)).world).handles fh ≠ some (key path) := by
      intro fh
      rw [Ctx.after_world, hclosed, Share.closed_handles, hhandles, Function.update_idem,
        Function.update_apply]
      split
      · exact (Option.some_ne_none _).symm
      · exact hshut fh
    have hgone := h.unlinked path _ (hunlink _ D hfile hfree)
    show (view (lib.call (.unlink path) (s₁.after lib (.close dst)).world).2).nodes = b.nodes
    rw [hgone, Share.put_nodes, Ctx.after_world, hclosed, Share.closed_nodes, hnodes,
      Function.update_idem, ← habs, Function.update_eq_self]

/-- From `s` to `s'` nothing on the share has changed, and if there was something at `k`
    then no call was made that could alter anything. -/
structure Undone (lib : Libsmb2 W) (view : W → Share κ) (k : κ) (s s' : Ctx W) : Prop where
  nodes : (view s'.world).nodes = (view s.world).nodes
  harmless : (view s.world).nodes k ≠ none → Led lib (fun c => c.alters = false) s s'

omit [DecidableEq κ] in
theorem Undone.refl (k : κ) (s : Ctx W) : Undone lib view k s s := ⟨rfl, fun _ => .refl⟩

omit [DecidableEq κ] in
theorem Undone.trans {k : κ} {s s' s'' : Ctx W} (h : Undone lib view k s s')
    (h' : Undone lib view k s' s'') : Undone lib view k s s'' where
  nodes := h'.nodes.trans h.nodes
  harmless := fun hk => (h.harmless hk).trans (h'.harmless (by rwa [h.nodes]))

omit [DecidableEq κ] in
/-- A call that alters nothing. -/
theorem Undone.call {k : κ} {s : Ctx W} {c : Call} (hc : c.alters = false)
    (hnodes : (view (lib.call c s.world).2).nodes = (view s.world).nodes) :
    Undone lib view k s (s.after lib c) :=
  ⟨hnodes, fun _ => .single ⟨c, hc, rfl⟩⟩

/-- Everything after the source was opened. -/
theorem wp_copyFrom_failed (h : Framed lib view key) {path : String} {s : Ctx W}
    (hunlink : (view s.world).nodes (key path) = none → Unlinks lib view key path) (src : Fh)
    (toPath : VfsPath) (fuel : Nat) :
    wp (copyFrom lib src toPath path fuel)
      ⟨fun _ _ => True, fun _ s' => Undone lib view (key path) s s', fun _ => True⟩ s := by
  have hstat : Undone lib view (key path) s (s.after lib (.fstat src)) :=
    .call rfl (by rw [h.fstat])
  rw [copyFrom, wp_bind, wp_ffi]
  generalize s.after lib (.fstat src) = s₁ at hstat
  have hsame := hstat.nodes
  simp only [wp_bind, wp_ffi]
  cases hdst : (lib.call (.openFile path destinationFlags) s₁.world).1 with
  | none =>
    -- nothing was created
    have hopen : Undone lib view (key path) s₁ (s₁.after lib (.openFile path destinationFlags)) :=
      .call rfl (by rw [h.open_failed path _ _ hdst])
    exact wp_failWith (fun _ => hstat.trans hopen) (fun _ => trivial)
  | some dst =>
    obtain ⟨-, habs, hshut, hview⟩ := h.open_destination path _ dst hdst
    have hfill : Filling view (view s₁.world) dst (key path)
        (s₁.after lib (.openFile path destinationFlags)).world :=
      ⟨[], by rw [Ctx.after_world, hview]; rfl, by rw [Ctx.after_world, hview]; rfl⟩
    refine wp_mono (wp_copyInto_failed h (hunlink (by rw [← hsame, habs])) habs hshut hfill _ _)
      (fun _ _ h => h) ?_ (fun _ h => h)
    intro e s' hnodes
    exact ⟨hnodes.trans hsame, fun hk => absurd (by rw [← hsame, habs]) hk⟩

/-- The whole copy, where it fails. -/
theorem wp_copyFile_failed (h : Framed lib view key) {fromPath toPath : VfsPath} {s : Ctx W}
    (hunlink : (view s.world).nodes (key (toSmbPath toPath)) = none →
      Unlinks lib view key (toSmbPath toPath)) (fuel : Nat) :
    wp (copyFile lib fromPath toPath fuel)
      ⟨fun _ _ => True, fun _ s' => Undone lib view (key (toSmbPath toPath)) s s',
        fun _ => True⟩ s := by
  refine (wp_bind _ _).mpr (wp_cstring (fun _ => ?_) (fun _ _ => .refl _ _))
  refine (wp_bind _ _).mpr (wp_cstring (fun _ => ?_) (fun _ _ => .refl _ _))
  simp only [wp_bind, wp_ffi]
  cases hsrc : (lib.call (.openFile (toSmbPath fromPath) sourceFlags) s.world).1 with
  | none =>
    -- the source could not be opened
    -- the source is open, and closed again however the copy ends
    have hopen : Undone lib view (key (toSmbPath toPath)) s
        (s.after lib (.openFile (toSmbPath fromPath) sourceFlags)) :=
      .call rfl (by rw [h.open_failed _ _ _ hsrc])
    exact wp_failWith (fun _ => hopen) (fun _ => trivial)
  | some src =>
    have hopen : Undone lib view (key (toSmbPath toPath)) s
        (s.after lib (.openFile (toSmbPath fromPath) sourceFlags)) :=
      .call rfl (by rw [(h.open_source _ _ _ hsrc).2.2, Share.opened_nodes])
    show wp (withGuard lib src _) _ _
    rw [wp_withGuard]
    refine wp_mono (wp_copyFrom_failed h (by rwa [hopen.nodes]) src toPath fuel)
      (fun _ _ _ => trivial) ?_ (fun _ h => h)
    intro e s' hundone
    exact (hopen.trans hundone).trans (.call rfl (by rw [h.close, Share.closed_nodes]))

/-- **A failed copy leaves the share as it was.**  Every name stands for what it stood for
    and every file holds what it held; and where the destination was there already, none of
    the calls made can write to anything, truncate or unlink it. -/
theorem copyFile_failed (h : Framed lib view key) (fromPath toPath : VfsPath) (fuel : Nat)
    (s s' : Ctx W) (e : Error)
    (hunlink : (view s.world).nodes (key (toSmbPath toPath)) = none →
      Unlinks lib view key (toSmbPath toPath))
    (hrun : copyFile lib fromPath toPath fuel s = .ok (.error e, s')) :
    (view s'.world).nodes = (view s.world).nodes ∧
    ((view s.world).nodes (key (toSmbPath toPath)) ≠ none →
      ∃ calls, s'.trace = s.trace ++ calls ∧ ∀ ev ∈ calls, ev.call.alters = false) := by
  have hundone : Undone lib view (key (toSmbPath toPath)) s s' :=
    wp_fail_of_run (wp_copyFile_failed h hunlink fuel) hrun
  exact ⟨hundone.nodes, fun hk => (hundone.harmless hk).trace⟩

/-- The server in memory unlinks what is not open, unless that call fails. -/
theorem MemServer.unlinks {q : Quirks} {path : String} (hq : q.fails (.unlink path) = false) :
    Unlinks (MemServer.lib q) MemServer.view id path := by
  intro m D hfile hshut
  have hexists : m.nodes path = some (.file D) := hfile
  have hclosed : m.isOpen path = false := MemServer.isOpen_eq_false.mpr hshut
  show (MemServer.serve q (.unlink path) m).1 = (0 : Int)
  simp only [MemServer.serve, MemServer.refusal, hq, MemServer.answer, MemServer.unlink, hexists,
    hclosed]
  rfl

/-- A server that refuses to copy, for a reason that moving the bytes would not cure. -/
def refusesChunks : Quirks :=
  .failing (fun | .copychunk _ _ _ => true | _ => false) Status.accessDenied

/-- The first chunk fails: the destination that had been created is gone again. -/
theorem copyFile_failed_refusedChunk : ∃ s',
    copyFile (MemServer.lib refusesChunks) ⟨"/a"⟩ ⟨"/b"⟩ 1
        ⟨MemServer.holding "a" (.file [1, 2, 3]), []⟩
      = .ok (.error (.permissionDenied "copy"), s') ∧
    s'.world.nodes = (MemServer.holding "a" (.file [1, 2, 3])).nodes := by
  obtain ⟨s', hrun⟩ : ∃ s', copyFile (MemServer.lib refusesChunks) ⟨"/a"⟩ ⟨"/b"⟩ 1
      ⟨MemServer.holding "a" (.file [1, 2, 3]), []⟩
        = .ok (.error (.permissionDenied "copy"), s') := ⟨_, rfl⟩
  exact ⟨s', hrun, (copyFile_failed (MemServer.framed refusesChunks) ⟨"/a"⟩ ⟨"/b"⟩ 1 _ _ _
    (fun _ => MemServer.unlinks rfl) hrun).1⟩

end Krystallos.Smb
