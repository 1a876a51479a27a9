import Krystallos.Core.PlainFile
import Krystallos.Local.Files

namespace Krystallos.Local

open Contract Prog Slices

/-!
# A local file is a plain file

A `LocalFileHandle` adds nothing to the file system's own calls on the descriptor, so it is a
plain file where those are what their documentation says (`Keeps`).
-/

variable {W : Type}

/-- While `J` holds, nobody else changes the file open as `fd`: reads give parts of what `content`
    reads off the world, and what is written or cut is what was reported. -/
structure Keeps (fs : LocalFs W) (J : W → Prop) (fd : Fd) (content : W → FileContent) : Prop where
  pread : ∀ offset n w r w', offset < 2 ^ 64 → J w → fs.pread fd offset n w = (r, w') →
    J w' ∧ content w' = content w ∧
      ∀ bs, r = .ok bs → ShortRead (content w).bytes offset n bs
  pwrite : ∀ offset data w r w', offset < 2 ^ 64 → J w → fs.pwrite fd offset data w = (r, w') →
    J w' ∧ ∀ n, r = .ok n → n ≤ data.length ∧
      (content w').bytes = overwrite (content w).bytes offset (data.take n)
  setLen : ∀ len w r w', len < 2 ^ 64 → J w → fs.setLen fd len w = (r, w') →
    J w' ∧ (r = .ok () → (content w').bytes = resize (content w).bytes len)
  syncAll : ∀ w r w', J w → fs.syncAll fd w = (r, w') → J w' ∧ content w' = content w

/-- The file is what the world says it is. -/
def Kept (J : W → Prop) (content : W → FileContent) (x : PlainFile) (w : W) : Prop :=
  J w ∧ x.content = content w

variable {fs : LocalFs W} {J : W → Prop} {fd : Fd} {content : W → FileContent} {α : Type}

/-- A call on the descriptor, by what it has answered. -/
theorem wp_onFile {op : W → Except IoError α × W} {p : Post Error W α} {w : W}
    (hret : ∀ a w', op w = (.ok a, w') → p.ret a w')
    (hfail : ∀ e w', op w = (.error e, w') → p.fail (.io e) w') : wp (onFile op) p w := by
  rw [onFile, wp_mapErr, wp_call]
  rcases hrun : op w with ⟨e | a, w'⟩
  · exact hfail e w' hrun
  · exact hret a w' hrun

theorem isShort_fileHandle (hkeeps : Keeps fs J fd content) (len : Nat) :
    (fileHandle fs fd len).IsShort (Kept J content) where
  readAt := by
    rintro offset n x w ⟨hJ, hx⟩ hoff -
    refine wp_onFile (fun bs w' hrun => ?_) (fun e w' hrun => ?_)
    · obtain ⟨hJ', hsame, hread⟩ := hkeeps.pread offset n w _ w' hoff hJ hrun
      refine ⟨⟨hJ', hx.trans hsame.symm⟩, ?_⟩
      show ShortRead x.content.bytes offset n bs
      rw [hx]
      exact hread bs rfl
    · obtain ⟨hJ', hsame, -⟩ := hkeeps.pread offset n w _ w' hoff hJ hrun
      exact ⟨hJ', hx.trans hsame.symm⟩
  writeAt := by
    rintro offset data x w ⟨hJ, hx⟩ hoff
    refine wp_onFile (fun n w' hrun => ?_) (fun e w' hrun => ?_)
    · obtain ⟨hJ', hwrote⟩ := hkeeps.pwrite offset data w _ w' hoff hJ hrun
      obtain ⟨hn, hbytes⟩ := hwrote n rfl
      rw [← hx] at hbytes
      exact ⟨.holding (content w'), ⟨hn, hbytes, rfl⟩, hJ', rfl⟩
    · obtain ⟨hJ', -⟩ := hkeeps.pwrite offset data w _ w' hoff hJ hrun
      exact ⟨⟨content w', x.contents⟩, rfl, hJ', rfl⟩
  setLen := by
    rintro len x w ⟨hJ, hx⟩ hlen
    refine wp_onFile (fun _ w' hrun => ?_) (fun e w' hrun => ?_)
    · obtain ⟨hJ', hcut⟩ := hkeeps.setLen len w _ w' hlen hJ hrun
      have hbytes := hcut rfl
      rw [← hx] at hbytes
      exact ⟨.holding (content w'), ⟨hbytes, rfl⟩, hJ', rfl⟩
    · obtain ⟨hJ', -⟩ := hkeeps.setLen len w _ w' hlen hJ hrun
      exact ⟨⟨content w', x.contents⟩, rfl, hJ', rfl⟩
  flush := by
    rintro x w ⟨hJ, hx⟩
    refine wp_onFile (fun _ w' hrun => ?_) (fun e w' hrun => ?_)
    · obtain ⟨hJ', hsame⟩ := hkeeps.syncAll w _ w' hJ hrun
      exact ⟨hJ', hx.trans hsame.symm⟩
    · obtain ⟨hJ', hsame⟩ := hkeeps.syncAll w _ w' hJ hrun
      exact ⟨hJ', hx.trans hsame.symm⟩

end Krystallos.Local
