import Krystallos.Local.Resolve
import Krystallos.Smb.Paths

namespace Krystallos

open VfsPath

/-!
# Paths stay confined

A path from a caller, on both backends: on the local one it leads below the root, on SMB it
is sent as it is, relative to the share.  `confined` puts the two together.
-/

/-- On the local backend the path leads below the root, through its own segments, and no other
    path leads to the same place. -/
structure BelowRoot (root : String) (p : VfsPath) : Prop where
  components : Local.components (Local.resolve root p)
    = Local.components root ++ p.segments.map .normal
  segment : ∀ s ∈ p.segments, s ≠ "" ∧ s ≠ "." ∧ s ≠ ".." ∧ '/' ∉ s.toList
  alone : ∀ q, Built q →
    Local.components (Local.resolve root p) = Local.components (Local.resolve root q) → p = q

/-- On SMB the path is sent whole, in its relative form, or it is refused before any call. -/
structure SentWhole (p : VfsPath) : Prop where
  relative : Smb.Relative p
  nul_refused : '\x00' ∈ p.str.toList → ∀ {W : Type} (lib : Smb.Libsmb2 W) (fuel : Nat)
    (req : Smb.Request) (a : Smb.Actor W), p ∈ req.paths →
      ∃ text, Smb.execute lib fuel req a
        = .ok (.error (.invalidPath text "contains an interior NUL byte"), a)
  whole : ∀ {W : Type} (lib : Smb.Libsmb2 W) (fuel : Nat) (req : Smb.Request)
    (a a' : Smb.Actor W) (r : Result Smb.Answer), Smb.execute lib fuel req a = .ok (r, a') →
      ∃ calls, a'.ctx.trace = a.ctx.trace ++ calls ∧ ∀ ev ∈ calls, ∀ text ∈ ev.call.paths,
        '\x00' ∉ text.toList ∧ ∃ q ∈ req.paths, text = Smb.toSmbPath q

/-- A local path stays below the root. -/
theorem belowRoot_of_built {root : String} (habs : root.toList.head? = some '/') {p : VfsPath}
    (hp : Built p) : BelowRoot root p where
  components := Local.components_resolve habs hp
  segment := by
    obtain ⟨segs, hsegs, rfl⟩ := hp.exists_render
    rw [segments_render hsegs]
    intro s hs
    have hname := hsegs s hs
    refine ⟨hname.1, hname.2.1, hname.2.2.1, fun hmem => ?_⟩
    have hsep := hname.not_slash '/' hmem
    revert hsep
    decide
  alone := fun q hq h => Local.resolve_inj habs hp hq h

/-- A path on a share is sent whole. -/
theorem sentWhole_of_built {p : VfsPath} (hp : Built p) : SentWhole p where
  relative := Smb.relative_of_built hp
  nul_refused := by
    intro hnul W lib fuel req a hmem
    refine Smb.execute_of_nul hmem (fun hfree => ?_) fuel a
    exact (Smb.nulFree_iff hp).mp hfree hnul
  whole := by
    intro W lib fuel req a a' r hrun
    obtain ⟨calls, htrace, hcalls⟩ := Smb.execute_whole hrun
    refine ⟨calls, htrace, fun ev hev text htext => ?_⟩
    obtain ⟨q, hq, hfree, rfl⟩ := hcalls ev hev text htext
    exact ⟨hfree, q, hq, rfl⟩

/-- **Confinement.** Whatever a caller writes, a path that could be built leads below an
    absolute root, and is sent to an SMB server whole or not at all. -/
theorem confined {root : String} (habs : root.toList.head? = some '/') {p : VfsPath}
    (hp : Built p) : BelowRoot root p ∧ SentWhole p :=
  ⟨belowRoot_of_built habs hp, sentWhole_of_built hp⟩

/-- Dots, drives and backslashes below the root of the file system. -/
theorem confined_mixed : BelowRoot "/" ⟨"/C:/b"⟩ ∧ SentWhole ⟨"/C:/b"⟩ :=
  confined (by decide) (Built.new "x/..\\C:\\.//b/" (by decide))

example : Local.resolve "/" ⟨"/C:/b"⟩ = "//C:/b" := by decide

end Krystallos
