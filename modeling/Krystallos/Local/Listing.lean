import Krystallos.Core.PathParts
import Krystallos.Local.Resolve

namespace Krystallos.Local

open Prog Separated VfsPath

/-!
# Using a listed name

A name from a listing, joined to the directory's path, is to address the entry it was listed
for.  On Unix a file name may hold a backslash, which `VfsPath` reads as a separator:
`listed_addresses_iff` says that the name addresses its entry exactly where it holds none.
-/

/-! ### Names and paths -/

/-- A Unix name without a backslash can be a segment. -/
theorem UnixName.isName_iff {name : String} (h : UnixName name) :
    IsName name ↔ '\\' ∉ name.toList := by
  obtain ⟨hne, hdot, hdots, hslash, -⟩ := h
  constructor
  · intro hname hmem
    have hsep := hname.2.2.2 _ hmem
    revert hsep
    decide
  · intro hback
    refine ⟨hne, hdot, hdots, fun c hc => ?_⟩
    have h1 : c ≠ '/' := fun h => hslash (h ▸ hc)
    have h2 : c ≠ '\\' := fun h => hback (h ▸ hc)
    simp [isSep, h1, h2]

/-! ### Where the entry is -/

/-- The path of an entry has one component more than its directory's. -/
theorem components_entryPath {dir name : String} (habs : dir.toList.head? = some '/')
    (hname : UnixName name) :
    components (entryPath dir name) = components dir ++ [.normal name] := by
  have hslash : ∀ c ∈ name.toList, isSlash c = false := by
    intro c hc
    have hne : c ≠ '/' := fun h => hname.2.2.2.1 (h ▸ hc)
    simpa [isSlash] using hne
  have hnormal : [name].filterMap component? = [.normal name] := by
    simp [component?_name ⟨hname.1, hname.2.1, hname.2.2.1⟩]
  by_cases hlast : dir.toList.getLast? = some '/'
  · -- the name takes the place of the empty piece behind the last slash
    obtain ⟨front, hfront⟩ := List.getLast?_eq_some_iff.mp hlast
    have hsplit : ∀ piece : List Char, (∀ c ∈ piece, isSlash c = false) →
        (front ++ prefixed '/' [piece]).splitOnP isSlash = front.splitOnP isSlash ++ [piece] :=
      fun piece h => splitOnP_append_prefixed_any (by decide) _ _ (by simpa using h)
    have hdir : dir.toList = front ++ prefixed '/' [[]] := by simp [hfront]
    have hentry : (dir ++ name).toList = front ++ prefixed '/' [name.toList] := by simp [hfront]
    have hhead : (dir ++ name).toList.head? = some '/' := by
      rw [String.toList_append, List.head?_append, habs]
      rfl
    rw [entryPath, if_pos hlast, components, components, leading, leading, if_pos habs,
      if_pos hhead, splitAt, splitAt, hdir, hentry, hsplit [] (by simp), hsplit _ hslash]
    have hempty : component? "" = none := by decide
    simp [hempty, component?_name ⟨hname.1, hname.2.1, hname.2.2.1⟩]
  · -- the name is one more component behind a slash of its own
    have hparts : components (entryPath dir name) =
        components dir ++ [name].filterMap component? := by
      rw [entryPath, if_neg hlast]
      exact components_append habs (by simp) (by simpa using hslash)
    rw [hparts, hnormal]

/-- A name, joined to the path it was listed under, addresses the entry: the path's parent and
    file name are what they should be, and it leads to the entry's own path. -/
def Addresses (root : String) (p : VfsPath) (name : String) : Prop :=
  ∃ q, p.join name = .ok q ∧ q.parent = p ∧ q.fileName = some name ∧
    components (resolve root q) = components (entryPath (resolve root p) name)

theorem addresses_iff {root : String} (habs : root.toList.head? = some '/') {p : VfsPath}
    (hp : Built p) {name : String} (hname : UnixName name) :
    Addresses root p name ↔ '\\' ∉ name.toList := by
  rw [← hname.isName_iff]
  constructor
  · rintro ⟨q, hjoin, -, hfile, -⟩
    exact isName_of_fileName (hp.join name hjoin) hfile
  · intro hseg
    obtain ⟨segs, hsegs, rfl⟩ := hp.exists_render
    have hjoin := join_render hsegs hseg
    have hq := hp.join name hjoin
    have hall : ∀ s ∈ segs ++ [name], IsName s := by
      intro s hs
      rcases List.mem_append.mp hs with hs | hs
      · exact hsegs s hs
      · rwa [List.mem_singleton.mp hs]
    refine ⟨_, hjoin, ?_, fileName_render_concat hall, ?_⟩
    · rw [parent_render hall, List.dropLast_concat]
    · -- the entry's path and the joined path have the same components
      have hdir : (resolve root (render segs)).toList.head? = some '/' := by
        rw [toList_resolve, List.head?_append, habs]
        rfl
      rw [components_entryPath hdir hname, components_resolve habs hp, components_resolve habs hq,
        segments_render hall, segments_render hsegs, List.map_append, List.append_assoc]
      rfl

/-- **Listed names.** On a file system whose names are Unix names, an entry that `list`
    returns is addressed by its name if and only if the name holds no backslash. -/
theorem listed_addresses_iff {W : Type} {fs : DirFs W}
    (hnames : ∀ fd w name, (fs.next fd w).1 = .ok (some name) → UnixName name) {root : String}
    (habs : root.toList.head? = some '/') {p : VfsPath} (hp : Built p) {fuel : Nat} {w w' : W}
    {entries : List Entry} (hrun : list fs root p fuel w = .ok (.ok entries, w')) {e : Entry}
    (he : e ∈ entries) : Addresses root p e.name ↔ '\\' ∉ e.name.toList :=
  addresses_iff habs hp (wp_ret (wp_list hnames root p fuel w) hrun e he)

/-! ### A directory with one file -/

/-- A file system where every directory holds one empty file.  The state says whether its
    name was given. -/
def oneFile (name : String) : DirFs Bool where
  readDir _ _ := (.ok 3, false)
  next _ given := (.ok (if given then none else some name), true)
  symlinkMetadata _ given :=
    let none' := .error ⟨.other, "not recorded"⟩
    (.ok ⟨false, false, true, 0, none', none', none', false⟩, given)

theorem next_oneFile {name : String} (h : UnixName name) (fd : Fd) (given : Bool) (name' : String)
    (hnext : ((oneFile name).next fd given).1 = .ok (some name')) : UnixName name' := by
  cases given with
  | true => cases hnext
  | false =>
    cases hnext
    exact h

/-- It is listed with one entry. -/
theorem list_oneFile (name root : String) (path : VfsPath) :
    list (oneFile name) root path 2 false = .ok (.ok [⟨name, .file 0⟩], true) := by
  have hfirst : listTurn (oneFile name) (resolve root path) path 3 [] false
      = .ok (.ok (.again [⟨name, .file 0⟩]), true) := rfl
  have hlast : listTurn (oneFile name) (resolve root path) path 3 [⟨name, .file 0⟩] true
      = .ok (.ok (.leave [⟨name, .file 0⟩]), true) := rfl
  have hloop : iterate 2 (listTurn (oneFile name) (resolve root path) path 3) [] false
      = .ok (.ok [⟨name, .file 0⟩], true) := by
    rw [run_iterate_again hfirst]
    simp only [iterate, bind, hlast]
    rfl
  show (iterate 2 (listTurn (oneFile name) (resolve root path) path 3) [] >>= fun out =>
    pure (out.mergeSort fun a b => decide (a.name ≤ b.name))) false = _
  simp only [bind, hloop, List.mergeSort_singleton]
  rfl

/-- An ordinary name below the root of the file system, where resolving doubles the slash. -/
theorem listed_addresses_ordinary :
    ('\\' ∉ "a b.txt".toList) ∧ (Addresses "/" ⟨"/d"⟩ "a b.txt" ↔ '\\' ∉ "a b.txt".toList) :=
  ⟨by decide, listed_addresses_iff (@next_oneFile "a b.txt" (by decide)) (by decide)
    (Built.new "d" (by decide)) (list_oneFile "a b.txt" "/" ⟨"/d"⟩) (List.mem_singleton.mpr rfl)⟩

/-- `a\b` is listed in the root directory, and its name addresses the file `b` of the
    directory `a`. -/
theorem listed_backslash_misdirected :
    (∃ w', list (oneFile "a\\b") "/srv" VfsPath.root 2 false = .ok (.ok [⟨"a\\b", .file 0⟩], w')) ∧
    UnixName "a\\b" ∧
    VfsPath.root.join "a\\b" = .ok ⟨"/a/b"⟩ ∧
    components (resolve "/srv" ⟨"/a/b"⟩)
      = [.rootDir, .normal "srv", .normal "a", .normal "b"] ∧
    components (entryPath (resolve "/srv" VfsPath.root) "a\\b")
      = [.rootDir, .normal "srv", .normal "a\\b"] ∧
    ¬ Addresses "/srv" VfsPath.root "a\\b" := by
  refine ⟨⟨true, list_oneFile _ _ _⟩, by decide, by decide, by decide, by decide, ?_⟩
  rw [addresses_iff (by decide) .root (by decide)]
  decide

end Krystallos.Local
