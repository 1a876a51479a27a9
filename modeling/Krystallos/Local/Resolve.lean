import Krystallos.Local.Backend

namespace Krystallos.Local

open Separated VfsPath

/-!
# Where a virtual path leads

`resolve` concatenates texts, and still never leaves the root: the components of what it
gives are the root's, followed by the segments of the path (`components_resolve`).  So two
paths that lead to the same place are the same path (`resolve_inj`).
-/

/-! ### Components -/

/-- A name is a component of its own. -/
theorem component?_name {s : String} (h : s ≠ "" ∧ s ≠ "." ∧ s ≠ "..") :
    component? s = some (.normal s) := by
  simp [component?, h]

/-- Names are the components of a path made of them. -/
theorem filterMap_component?_names {segs : List String} (h : ∀ s ∈ segs, IsName s) :
    segs.filterMap component? = segs.map .normal := by
  rw [← List.filterMap_eq_map]
  refine List.filterMap_congr fun s hs => ?_
  have hname := h s hs
  exact component?_name ⟨hname.1, hname.2.1, hname.2.2.1⟩

/-- The text of a resolved path, as characters. -/
theorem toList_resolve (root : String) (path : VfsPath) :
    (resolve root path).toList = root.toList ++ prefixed '/' (path.segments.map String.toList) := by
  rw [resolve, foldl_push_append, String.toList_append, toList_joinSegments]

/-- Pieces put behind an absolute text are read behind its components. -/
theorem components_append {s t : String} {segs : List String}
    (habs : s.toList.head? = some '/')
    (ht : t.toList = s.toList ++ prefixed '/' (segs.map String.toList))
    (hsegs : ∀ s ∈ segs, ∀ c ∈ s.toList, isSlash c = false) :
    components t = components s ++ segs.filterMap component? := by
  have hpieces : ∀ w ∈ segs.map String.toList, ∀ c ∈ w, isSlash c = false := by
    intro w hw
    obtain ⟨s, hs, rfl⟩ := List.mem_map.mp hw
    exact hsegs s hs
  have hsplit : splitAt isSlash t = splitAt isSlash s ++ segs := by
    rw [splitAt, ht, splitOnP_append_prefixed_any (by decide) _ _ hpieces, List.map_append,
      splitAt]
    simp [Function.comp_def]
  have hhead : t.toList.head? = some '/' := by
    rw [ht, List.head?_append, habs]
    rfl
  rw [components, components, leading, leading, if_pos habs, if_pos hhead, hsplit,
    List.filterMap_append, List.append_assoc]

/-- **Confinement.** A path resolves to the root's components and its own segments. -/
theorem components_resolve {root : String} (habs : root.toList.head? = some '/') {p : VfsPath}
    (hp : Built p) : components (resolve root p) = components root ++ p.segments.map .normal := by
  obtain ⟨segs, hsegs, rfl⟩ := hp.exists_render
  have hslash : ∀ s ∈ segs, ∀ c ∈ s.toList, isSlash c = false :=
    fun s hs => (hsegs s hs).not_slash
  rw [components_append habs (toList_resolve root _) (by rwa [segments_render hsegs]),
    segments_render hsegs, filterMap_component?_names hsegs]

/-- **No collisions.** Paths that lead to the same place are the same. -/
theorem resolve_inj {root : String} (habs : root.toList.head? = some '/') {p q : VfsPath}
    (hp : Built p) (hq : Built q)
    (h : components (resolve root p) = components (resolve root q)) : p = q := by
  rw [components_resolve habs hp, components_resolve habs hq] at h
  have hnormal : p.segments.map Component.normal = q.segments.map .normal :=
    List.append_cancel_left h
  have hinj : Function.Injective Component.normal := fun s t hst => by cases hst; rfl
  exact (built_ext hp hq).mpr (hinj.list_map hnormal)

end Krystallos.Local
