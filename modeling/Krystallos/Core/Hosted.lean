import Krystallos.Core.Backend
import Krystallos.Core.PlainFile

namespace Krystallos

open Prog Slices

/-!
# What a backend is for

A backend that is connected has a file at a path.  While the file is open it is a plain file, with
the content it was opened on; what it holds when it is closed is what the backend has from then
on, and what it leaves behind when it is shut down.  Nothing is said of calls that fail.
-/

variable {σ : Type}

attribute [ext] FileContent

/-- What a file that held `F` holds once it was opened. -/
def OpenMode.start (mode : OpenMode) (F : FileContent) : FileContent :=
  if mode.truncate then .empty else F

/-- While `up F` holds the file at `path` holds `F`, and when the backend was shut down `left F` does
    for what the file held then. -/
structure StorageBackend.Hosts (b : StorageBackend σ) (up left : FileContent → σ → Prop)
    (path : VfsPath) : Prop where
  stat : ∀ F s, up F s → wp (b.stat path) (ifDone fun _ s' => up F s') s
  openFile : ∀ mode F s, up F s → wp (b.openFile path mode) (ifDone fun h s' =>
    ∃ R : PlainFile → σ → Prop, R (.holding (mode.start F)) s' ∧ h.IsShort R ∧
      ∀ x t, R x t → wp h.close (ifDone fun _ t' => up x.content t') t) s
  shutdown : ∀ F s, up F s → wp b.shutdown (ifDone fun _ s' => left F s') s

/-- An endpoint that can be connected to where the last connection has left it. -/
def HostsAt (connect : Prog Error σ (StorageBackend σ)) (up left : FileContent → σ → Prop)
    (path : String) : Prop :=
  ∀ F w, left F w → wp connect (ifDone fun b w' => up F w' ∧
    ∀ p, VfsPath.new path = .ok p → b.Hosts up left p) w

/-- A plain file that nobody writes to has one content. -/
theorem FileHandle.IsPlain.reads {h : FileHandle σ} {R : PlainFile → σ → Prop}
    (hplain : h.IsShort R) (x : PlainFile) : h.Reads (R x) x.content.bytes (· < 2 ^ 64) where
  readAt := fun offset len s hoff hR => hplain.readAt offset len x s hR hoff trivial

end Krystallos
