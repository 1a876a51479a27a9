import Krystallos.Core.PathNormal
import Krystallos.Smb.Commands

namespace Krystallos.Smb

open Prog Separated VfsPath

/-!
# The paths that are sent to the server

`to_smb_path` drops the leading slash and keeps the segments, so that `VfsPath::new` reads
the same path back (`new_toSmbPath`).  A path with a NUL in it is refused by `cstring` before
any call is made (`execute_of_nul`).
-/

variable {W : Type} {lib : Libsmb2 W} {s : String} {segs : List String} {p : VfsPath}

/-! ### The text of a path -/

/-- The text sent for a list of names. -/
theorem toList_toSmbPath (h : ∀ t ∈ s :: segs, IsName t) :
    (toSmbPath (render (s :: segs))).toList =
      s.toList ++ prefixed '/' (segs.map String.toList) := by
  rw [toSmbPath, segments_render h]
  clear h
  induction segs generalizing s with
  | nil => simp
  | cons t segs ih =>
    rw [String.intercalate_cons_cons, String.toList_append, ih]
    simp

theorem splitAt_toSmbPath {sep : Char → Bool} (hsep : sep '/' = true)
    (h : ∀ t ∈ s :: segs, IsName t) (hfree : ∀ t ∈ s :: segs, ∀ c ∈ t.toList, sep c = false) :
    splitAt sep (toSmbPath (render (s :: segs))) = s :: segs := by
  have hpieces : ∀ w ∈ segs.map String.toList, ∀ c ∈ w, sep c = false := by
    intro w hw
    obtain ⟨t, ht, rfl⟩ := List.mem_map.mp hw
    exact hfree t (by simp [ht])
  rw [splitAt, toList_toSmbPath h,
    splitOnP_append_prefixed hsep _ _ (hfree s (by simp)) hpieces]
  simp [Function.comp_def]

/-- The path's text is a slash and what is sent. -/
theorem str_eq_toSmbPath (h : ∀ t ∈ s :: segs, IsName t) :
    (render (s :: segs)).str.toList = '/' :: (toSmbPath (render (s :: segs))).toList := by
  rw [toList_toSmbPath h]
  exact toList_joinSegments (s :: segs)

/-- **What is sent is the path.** -/
theorem new_toSmbPath (hp : Built p) : VfsPath.new (toSmbPath p) = .ok p := by
  obtain ⟨segs, hsegs, rfl⟩ := hp.exists_render
  cases segs with
  | nil => decide
  | cons s segs =>
    have hsep : isSep '/' = true := by decide
    have hsplit := splitAt_toSmbPath hsep hsegs
      (fun t ht => (hsegs t ht).2.2.2)
    rw [new_eq_ok_iff]
    refine ⟨s :: segs, ?_, rfl⟩
    rw [hsplit]
    exact foldlM_pushSegment_names [] (s :: segs) hsegs

/-- A path can be sent if and only if there is no NUL in it. -/
theorem nulFree_iff (hp : Built p) : NulFree p ↔ '\x00' ∉ p.str.toList := by
  obtain ⟨segs, hsegs, rfl⟩ := hp.exists_render
  cases segs with
  | nil => decide
  | cons s segs =>
    rw [NulFree, str_eq_toSmbPath hsegs, List.mem_cons, not_or]
    exact (and_iff_right (by decide)).symm

/-- What is sent for a path: relative, nothing to normalize, and read back as the path. -/
structure Relative (p : VfsPath) : Prop where
  no_leading_slash : (toSmbPath p).toList.head? ≠ some '/'
  no_trailing_slash : (toSmbPath p).toList.getLast? ≠ some '/'
  no_backslash : '\\' ∉ (toSmbPath p).toList
  no_dot_segment : ∀ s ∈ splitAt isSlash (toSmbPath p), s ≠ "." ∧ s ≠ ".."
  read_back : VfsPath.new (toSmbPath p) = .ok p

theorem relative_of_built (hp : Built p) : Relative p := by
  obtain ⟨segs, hsegs, rfl⟩ := hp.exists_render
  cases segs with
  -- the root is the empty path, and any other its names with slashes between them
  | nil => exact ⟨by decide, by decide, by decide, by decide, new_toSmbPath hp⟩
  | cons s segs =>
    have hnf := normalForm_render hsegs
    have hstr := str_eq_toSmbPath hsegs
    have hfirst := hsegs s (by simp)
    obtain ⟨c, cs, hs⟩ : ∃ c cs, s.toList = c :: cs :=
      List.exists_cons_of_ne_nil fun hnil => hfirst.1 (String.ext (by simp [hnil]))
    have htext : (toSmbPath (render (s :: segs))).toList
        = c :: (cs ++ prefixed '/' (segs.map String.toList)) := by
      rw [toList_toSmbPath hsegs, hs]
      rfl
    refine ⟨?_, ?_, ?_, ?_, new_toSmbPath hp⟩
    · -- it starts with the first name
      rw [htext]
      intro hhead
      obtain rfl : c = '/' := Option.some.inj hhead
      have hsep := hfirst.not_slash '/' (by simp [hs])
      revert hsep
      decide
    · -- it ends as the path does
      have hne : render (s :: segs) ≠ root := by
        intro heq
        have hroot : (render (s :: segs)).isRoot = false := isRoot_render_cons hfirst.1
        rw [heq, isRoot_root] at hroot
        cases hroot
      have hlast := hnf.no_trailing_slash hne
      rw [hstr, htext, List.getLast?_cons_cons, ← htext] at hlast
      exact hlast
    · -- and its characters are those of the path
      have hback := hnf.no_backslash
      rw [hstr, List.mem_cons, not_or] at hback
      exact hback.2
    · rw [splitAt_toSmbPath (by decide) hsegs fun t ht => (hsegs t ht).not_slash]
      exact fun t ht => ⟨(hsegs t ht).2.1, (hsegs t ht).2.2.1⟩

/-! ### Paths with a NUL -/

/-- What `cstring` makes of a path with a NUL. -/
theorem cstring_of_nul (h : ¬ NulFree p) :
    ∃ text, cstring (toSmbPath p) = .error (.invalidPath text "contains an interior NUL byte") :=
  ⟨_, if_pos (not_not.mp h)⟩

/-- **A NUL in a path** of a request, whichever of its paths that is, is an `InvalidPath`, and
    the session thread is left as it was: no call is made. -/
theorem execute_of_nul {req : Request} (hmem : p ∈ req.paths) (h : ¬ NulFree p) (fuel : Nat)
    (a : Actor W) : ∃ text, execute lib fuel req a
      = .ok (.error (.invalidPath text "contains an interior NUL byte"), a) := by
  obtain ⟨text, htext⟩ := cstring_of_nul h
  have hone : ∀ {q : VfsPath}, p ∈ [q] → cstring (toSmbPath q)
      = .error (.invalidPath text "contains an interior NUL byte") := by
    intro q hq
    rwa [← List.mem_singleton.mp hq]
  -- where there are two paths, either may be the one that is refused
  have htwo : ∀ {from' to' : VfsPath}, p ∈ [from', to'] →
      (∃ text', cstring (toSmbPath from')
        = .error (.invalidPath text' "contains an interior NUL byte")) ∨
      (cstring (toSmbPath from') = .ok (toSmbPath from') ∧
        cstring (toSmbPath to') = .error (.invalidPath text "contains an interior NUL byte")) := by
    intro from' to' hmem
    by_cases hfrom : NulFree from'
    · refine .inr ⟨if_neg hfrom, ?_⟩
      rcases List.mem_cons.mp hmem with rfl | hmem
      · exact absurd hfrom h
      · exact hone hmem
    · exact .inl (cstring_of_nul hfrom)
  cases req with
  | list | stat | mkdir | removeFile | removeDir | openFile =>
    refine ⟨text, ?_⟩
    simp only [execute, listDir, statPath, mkdir, removeFile, removeDir, pathCall, openFile, onCtx,
      zoom, bind, Prog.ofExcept, hone hmem]
  | rename | copy =>
    rcases htwo hmem with ⟨text', hfrom⟩ | ⟨hfrom, hto⟩
    · refine ⟨text', ?_⟩
      simp only [execute, rename, copyFile, onCtx, zoom, bind, Prog.ofExcept, hfrom]
    · refine ⟨text, ?_⟩
      simp only [execute, rename, copyFile, onCtx, zoom, bind, Prog.ofExcept, hfrom, hto]
  | close | readAt | writeAt | setLen | flush => cases hmem

/-- The calls a command makes on a path are all on paths of its request, whole. -/
theorem execute_whole {req : Request} {fuel : Nat} {a a' : Actor W} {r : Result Answer}
    (hrun : execute lib fuel req a = .ok (r, a')) :
    ∃ calls, a'.ctx.trace = a.ctx.trace ++ calls ∧ ∀ ev ∈ calls, ev.call.Whole req.paths := by
  rcases post_of_run (sends_execute fuel req a) hrun with ⟨_, -, hled⟩ | ⟨_, -, hled⟩
  · exact hled.trace
  · exact hled.trace

end Krystallos.Smb
