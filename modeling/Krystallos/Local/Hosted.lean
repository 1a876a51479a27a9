import Krystallos.Core.Hosted
import Krystallos.Local.PlainFile

namespace Krystallos.Local

open Prog Slices

/-!
# A local directory hosts a file

`KeepsPath` is what the file system's calls do to one file, by its path and while it is open.  A
`LocalBackend` has nothing of its own to add, and nothing to leave behind.
-/

variable {W : Type}

/-- Nobody else changes the file at `file`, whose content `content` reads off the world: `idle` holds
    throughout, and `busy fd` while it is open as `fd`.  Dropping the descriptor changes nothing. -/
structure KeepsPath (fs : LocalFs W) (idle : W → Prop) (busy : Fd → W → Prop)
    (content : W → FileContent) (file : String) : Prop where
  metadata : ∀ w r w', idle w → fs.metadata file w = (r, w') → idle w' ∧ content w' = content w
  openWith : ∀ (mode : OpenMode) w fd w', idle w → fs.openWith file mode w = (.ok fd, w') →
    busy fd w' ∧ content w' = mode.start (content w)
  fileMetadata : ∀ fd w r w', busy fd w → fs.fileMetadata fd w = (r, w') →
    busy fd w' ∧ content w' = content w
  keeps : ∀ fd, Keeps fs (busy fd) fd content
  drop : ∀ fd w, busy fd w → idle w

/-- The file holds `F`. -/
def Left (idle : W → Prop) (content : W → FileContent) (F : FileContent) (w : W) : Prop :=
  idle w ∧ content w = F

variable {fs : LocalFs W} {idle : W → Prop} {busy : Fd → W → Prop} {content : W → FileContent}
  {root : String} {path : VfsPath} {fuel : Nat}

/-- An operation on a path ends in its result, its error with the path put into it. -/
theorem wp_onPath {α : Type} {op : W → Except IoError α × W} {Q : α → W → Prop} {w : W}
    (hret : ∀ a w', op w = (.ok a, w') → Q a w') : wp (onPath path op) (ifDone Q) w := by
  rw [onPath, wp_mapErr, wp_call]
  rcases hrun : op w with ⟨e | a, w'⟩
  · trivial
  · exact hret a w' hrun

/-- **A local directory hosts the file** that the file system keeps. -/
theorem hosts_backend (hkeeps : KeepsPath fs idle busy content (resolve root path)) :
    (backend fs root fuel).toStorageBackend.Hosts (Left idle content) (Left idle content) path where
  stat := by
    rintro F w ⟨hidle, hF⟩
    refine wp_bind_done (p := ifDone fun _ w' => Left idle content F w') (wp_onPath ?_)
      (fun _ _ h => h)
    intro md w' hrun
    obtain ⟨hidle', hsame⟩ := hkeeps.metadata w _ w' hidle hrun
    exact ⟨hidle', hsame.trans hF⟩
  openFile := by
    rintro mode F w ⟨hidle, hF⟩
    refine wp_bind_done (wp_onPath fun fd w' hrun => hkeeps.openWith mode w fd w' hidle hrun) ?_
    rintro fd w' ⟨hbusy, hcontent⟩
    refine wp_bind_done (wp_onPath fun md w'' hrun =>
      hkeeps.fileMetadata fd w' _ w'' hbusy hrun) ?_
    rintro md w'' ⟨hbusy', hsame⟩
    refine ⟨Kept (busy fd) content, ⟨hbusy', ?_⟩, isShort_fileHandle (hkeeps.keeps fd) _, ?_⟩
    · rw [hsame, hcontent, hF]
      rfl
    · rintro x t ⟨hbusy, hx⟩
      exact ⟨hkeeps.drop fd t hbusy, hx.symm⟩
  shutdown := fun F w hw => hw

/-- `LocalDriver::connect`, as a program. -/
def connectTo (fs : LocalFs W) (host : W → LocalHost) (fuel : Nat) (endpoint : Endpoint)
    (_ : Credentials) (_ : ConnectionOptions) : Prog Error W (TreeBackend W) := do
  let w ← current
  let root ← ofExcept (Driver.connect (host w) endpoint)
  pure (backend fs root fuel)

/-! ### A file system with one file -/

/-- A file system with one file, which every path names and every open gives `3` for.  It is in the
    directory that every path leads to.  A write that would make it too large fails. -/
def oneFileFs : LocalFs FileContent where
  openRead _ F := (.ok 3, F)
  createNew _ F := (.error denied, F)
  read _ n F := (.ok (F.bytes.take n), F)
  write _ _ F := (.error denied, F)
  readDir _ F := (.error denied, F)
  next _ F := (.ok none, F)
  symlinkMetadata _ F := (.ok (regular F), F)
  metadata _ F := (.ok (regular F), F)
  openWith _ mode F := (.ok 3, mode.start F)
  fileMetadata _ F := (.ok (regular F), F)
  removeFile _ F := (.error denied, F)
  removeDir _ F := (.error denied, F)
  rename _ _ F := (.error denied, F)
  createDir _ F := (.error denied, F)
  pread _ offset n F := (.ok (slice F.bytes offset n), F)
  pwrite _ offset data F :=
    if h : (overwrite F.bytes offset data).length < 2 ^ 64 then (.ok data.length, ⟨_, h⟩)
    else (.error denied, F)
  setLen _ n F :=
    if h : (resize F.bytes n).length < 2 ^ 64 then (.ok (), ⟨_, h⟩) else (.error denied, F)
  syncAll _ F := (.ok (), F)
where
  denied : IoError := ⟨.permissionDenied, "Permission denied (os error 13)"⟩
  regular (F : FileContent) : FsMetadata :=
    ⟨false, false, true, F.bytes.length, .ok ⟨0, 0⟩, .ok ⟨0, 0⟩, .ok ⟨0, 0⟩, false⟩

/-- Every path is a directory. -/
def oneFileHost : LocalHost where
  windows := false
  canonicalize path := .ok path
  metadata _ := .ok ⟨false, true, false, 0, .ok ⟨0, 0⟩, .ok ⟨0, 0⟩, .ok ⟨0, 0⟩, false⟩

/-- The one file is kept under every handle. -/
theorem keeps_oneFile (fd : Fd) : Keeps oneFileFs (fun _ => True) fd id where
  pread := by
    rintro offset n F r F' - - h
    cases h
    refine ⟨trivial, rfl, fun bs hbs => ?_⟩
    cases hbs
    exact shortRead_slice _ _ _
  pwrite := by
    rintro offset data F r F' - - h
    simp only [oneFileFs] at h
    split at h
    · cases h
      refine ⟨trivial, fun n hn => ?_⟩
      cases hn
      exact ⟨le_rfl, by rw [List.take_length]; rfl⟩
    · cases h
      exact ⟨trivial, nofun⟩
  setLen := by
    rintro len F r F' - - h
    simp only [oneFileFs] at h
    split at h
    · cases h
      exact ⟨trivial, fun _ => rfl⟩
    · cases h
      exact ⟨trivial, nofun⟩
  syncAll := by
    rintro F r F' - h
    cases h
    exact ⟨trivial, rfl⟩

/-- The one file is kept under every path. -/
theorem keepsPath_oneFile (file : String) :
    KeepsPath oneFileFs (fun _ => True) (fun _ _ => True) id file where
  metadata := by
    rintro F r F' - h
    cases h
    exact ⟨trivial, rfl⟩
  openWith := by
    rintro mode F fd F' - h
    cases h
    exact ⟨trivial, rfl⟩
  fileMetadata := by
    rintro fd F r F' - h
    cases h
    exact ⟨trivial, rfl⟩
  keeps := keeps_oneFile
  drop := fun _ _ _ => trivial

end Krystallos.Local
