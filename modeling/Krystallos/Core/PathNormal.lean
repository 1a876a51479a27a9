import Krystallos.Core.Path

namespace Krystallos

open Separated

/-!
# Every path that can be built is in normal form

The purpose of `VfsPath` is to stand for a list of names: `Name` is a text that is not
empty, not `.` and not `..`, and holds no separator, and `render` writes a list of names as
a path.  The string operations of `Path.lean` refine the list operations: `new` reads a
rendered path back (`new_render`), `parent` drops the last name (`parent_render`), and
`segments` recovers the list (`segments_render`).  So every composition of `root`, `new`,
`join` and `parent` renders a list of names (`Built.exists_render`), and the normal form of
a rendered path is the normal form of every path.
-/

namespace VfsPath

/-- A text that can be one segment of a path. -/
def IsName (s : String) : Prop :=
  s ≠ "" ∧ s ≠ "." ∧ s ≠ ".." ∧ ∀ c ∈ s.toList, isSep c = false

instance (s : String) : Decidable (IsName s) := inferInstanceAs (Decidable (_ ∧ _ ∧ _ ∧ _))

/-- A segment, with the proof that it can be one. -/
abbrev Name := {s : String // IsName s}

/-- The path that a list of segments is written as. -/
def render : List String → VfsPath
  | [] => root
  | s :: segs => ⟨joinSegments (s :: segs)⟩

/-- The paths that a caller can get hold of. -/
inductive Built : VfsPath → Prop
  | root : Built root
  | new (raw : String) {p : VfsPath} (h : VfsPath.new raw = .ok p) : Built p
  | join {p : VfsPath} (name : String) {q : VfsPath} (hp : Built p) (h : p.join name = .ok q) :
      Built q
  | parent {p : VfsPath} (hp : Built p) : Built p.parent

/-- The normal form of a path's text. -/
structure NormalForm (p : VfsPath) : Prop where
  leading_slash : p.str.toList.head? = some '/'
  no_backslash : '\\' ∉ p.str.toList
  no_dot_segment : ∀ s ∈ (splitAt isSlash p.str).tail, s ≠ "." ∧ s ≠ ".."
  no_empty_segment : p ≠ VfsPath.root → ∀ s ∈ (splitAt isSlash p.str).tail, s ≠ ""
  no_trailing_slash : p ≠ VfsPath.root → p.str.toList.getLast? ≠ some '/'
  new_fixed : VfsPath.new p.str = .ok p

/-! ### The text of a rendered path -/

theorem IsName.not_slash {s : String} (h : IsName s) : ∀ c ∈ s.toList, isSlash c = false := by
  intro c hc
  have := h.2.2.2 c hc
  simp only [isSep, Bool.or_eq_false_iff] at this
  exact this.1

@[simp] theorem joinSegments_nil : joinSegments [] = "" := rfl

theorem foldl_push_append (acc : String) (segs : List String) :
    segs.foldl (fun out s => out.push '/' ++ s) acc = acc ++ joinSegments segs := by
  induction segs generalizing acc with
  | nil => simp
  | cons s segs ih =>
    have h1 := ih (acc.push '/' ++ s)
    have h2 := ih ("".push '/' ++ s)
    rw [joinSegments, List.foldl_cons, List.foldl_cons, h1, h2]
    apply String.ext
    simp

theorem joinSegments_cons (s : String) (segs : List String) :
    joinSegments (s :: segs) = "/" ++ s ++ joinSegments segs := by
  rw [joinSegments, List.foldl_cons, foldl_push_append]
  apply String.ext
  simp

/-- The text of a rendered path, as characters. -/
theorem toList_joinSegments (segs : List String) :
    (joinSegments segs).toList = prefixed '/' (segs.map String.toList) := by
  induction segs with
  | nil => rfl
  | cons s segs ih => simp [joinSegments_cons, ih]

/-- Every segment is read back from the text between the separators. -/
theorem splitAt_joinSegments {sep : Char → Bool} (hsep : sep '/' = true) (segs : List String)
    (h : ∀ s ∈ segs, ∀ c ∈ s.toList, sep c = false) :
    splitAt sep (joinSegments segs) = "" :: segs := by
  have hpieces : ∀ s ∈ segs.map String.toList, ∀ c ∈ s, sep c = false := by
    intro s hs
    obtain ⟨s', hs', rfl⟩ := List.mem_map.mp hs
    exact h s' hs'
  rw [splitAt, toList_joinSegments, splitOnP_prefixed hsep _ hpieces]
  simp [Function.comp_def]

theorem isRoot_root : root.isRoot = true := by decide

/-- Only the root's text is one byte long. -/
theorem isRoot_render_cons {s : String} {segs : List String} (hs : s ≠ "") :
    (render (s :: segs)).isRoot = false := by
  have hpos : s.utf8ByteSize ≠ 0 := fun h => hs (String.utf8ByteSize_eq_zero_iff.mp h)
  have hslash : ("/" : String).utf8ByteSize = 1 := by decide
  simp only [isRoot, render, joinSegments_cons, String.utf8ByteSize_append, hslash,
    beq_eq_false_iff_ne]
  omega

/-! ### `new` on rendered paths -/

/-- Names are pushed as they come. -/
theorem foldlM_pushSegment_names (stack names : List String) (h : ∀ s ∈ names, IsName s) :
    names.foldlM pushSegment stack = some (stack ++ names) := by
  induction names generalizing stack with
  | nil => simp
  | cons s names ih =>
    obtain ⟨h1, h2, h3, -⟩ := h s (by simp)
    have hpush : pushSegment stack s = some (stack ++ [s]) := by
      simp [pushSegment, h1, h2, h3]
    rw [List.foldlM_cons, hpush]
    simpa using ih (stack ++ [s]) (fun s' hs' => h s' (by simp [hs']))

/-- What the loop of `new` leaves on the stack is names, if what it pushes holds no
    separator. -/
theorem foldlM_pushSegment_isName {pieces stack out : List String}
    (hpieces : ∀ s ∈ pieces, ∀ c ∈ s.toList, isSep c = false) (hstack : ∀ s ∈ stack, IsName s)
    (h : pieces.foldlM pushSegment stack = some out) : ∀ s ∈ out, IsName s := by
  induction pieces generalizing stack with
  | nil =>
    obtain rfl : stack = out := by simpa using h
    exact hstack
  | cons s pieces ih =>
    rw [List.foldlM_cons] at h
    obtain ⟨stack', hpush, hrest⟩ := Option.bind_eq_some_iff.mp h
    refine ih (fun s' hs' => hpieces s' (by simp [hs'])) ?_ hrest
    unfold pushSegment at hpush
    -- the piece is skipped, or takes a segment off, or is one
    split_ifs at hpush with h1 h2
    · obtain rfl := Option.some.inj hpush
      exact hstack
    · cases stack with
      | nil => simp at hpush
      | cons t ts =>
        obtain rfl := Option.some.inj hpush
        intro s' hs'
        exact hstack s' (List.mem_of_mem_dropLast hs')
    · obtain rfl := Option.some.inj hpush
      intro s' hs'
      rcases List.mem_append.mp hs' with hs' | hs'
      · exact hstack s' hs'
      · obtain rfl : s' = s := by simpa using hs'
        have h1' := not_or.mp h1
        exact ⟨h1'.1, h1'.2, h2, hpieces s' (by simp)⟩

/-- No piece of a split string holds a separator. -/
theorem not_sep_of_mem_splitAt {sep : Char → Bool} {raw s : String} (hs : s ∈ splitAt sep raw) :
    ∀ c ∈ s.toList, sep c = false := by
  obtain ⟨w, hw, rfl⟩ := List.mem_map.mp hs
  rw [String.toList_ofList]
  exact not_sep_of_mem_splitOnP hw

/-- `new` answers with the rendering of the stack its loop ends with. -/
theorem new_eq_ok_iff {raw : String} {p : VfsPath} :
    new raw = .ok p ↔
      ∃ segs, (splitAt isSep raw).foldlM pushSegment [] = some segs ∧ p = render segs := by
  unfold new
  cases h : (splitAt isSep raw).foldlM pushSegment [] with
  | none => simp
  | some segs =>
    cases segs with
    | nil => simp [render, eq_comm]
    | cons s segs => simp [render, eq_comm]

/-- **`new` reads back what `render` writes.** -/
theorem new_render {segs : List String} (h : ∀ s ∈ segs, IsName s) :
    new (render segs).str = .ok (render segs) := by
  rw [new_eq_ok_iff]
  refine ⟨segs, ?_, rfl⟩
  cases segs with
  | nil => decide
  | cons s segs =>
    have hsplit : splitAt isSep (render (s :: segs)).str = "" :: s :: segs :=
      splitAt_joinSegments (by decide) _ (fun s' hs' => (h s' hs').2.2.2)
    rw [hsplit, List.foldlM_cons]
    have hempty : pushSegment [] "" = some [] := by decide
    rw [hempty]
    simpa using foldlM_pushSegment_names [] (s :: segs) h

/-- `new` accepts a text only as the rendering of a list of names. -/
theorem exists_render_of_new {raw : String} {p : VfsPath} (h : new raw = .ok p) :
    ∃ segs, (∀ s ∈ segs, IsName s) ∧ p = render segs := by
  obtain ⟨segs, hfold, rfl⟩ := new_eq_ok_iff.mp h
  exact ⟨segs, foldlM_pushSegment_isName (fun s hs => not_sep_of_mem_splitAt hs) (by simp) hfold,
    rfl⟩

/-- A joined path is one that `new` accepted. -/
theorem exists_new_of_join {p q : VfsPath} {name : String} (h : p.join name = .ok q) :
    ∃ raw, new raw = .ok q := by
  unfold join at h
  by_cases hdots : ".." ∈ splitAt isSep name
  · rw [if_pos hdots] at h
    cases h
  · rw [if_neg hdots] at h
    generalize (if p.str.toList.getLast? = some '/' then p.str else p.str.push '/') = out at h
    cases hnew : new (out ++ name) with
    | error e => simp [hnew] at h
    | ok joined =>
      by_cases hsame : joined = p
      · simp [hnew, hsame] at h
      · simp only [hnew, if_neg hsame, Except.ok.injEq] at h
        exact ⟨_, h ▸ hnew⟩

/-! ### The operations on a list of names -/

/-- **`segments` recovers the list.** -/
theorem segments_render {segs : List String} (h : ∀ s ∈ segs, IsName s) :
    (render segs).segments = segs := by
  cases segs with
  | nil => decide
  | cons s segs =>
    have hsplit : splitAt isSlash (render (s :: segs)).str = "" :: s :: segs :=
      splitAt_joinSegments (by decide) _ (fun s' hs' => (h s' hs').not_slash)
    have hfilter : (s :: segs).filter (· ≠ "") = s :: segs :=
      List.filter_eq_self.mpr (fun s' hs' => by simpa using (h s' hs').1)
    rw [segments, hsplit, List.filter_cons_of_neg (by simp), hfilter]

/-- **`parent` drops the last name.** -/
theorem parent_render {segs : List String} (h : ∀ s ∈ segs, IsName s) :
    (render segs).parent = render segs.dropLast := by
  rcases List.eq_nil_or_concat segs with rfl | ⟨init, last, rfl⟩
  · decide
  rw [List.concat_eq_append] at h ⊢
  have hlast : ∀ c ∈ last.toList, isSlash c = false := (h last (by simp)).not_slash
  have hrender : render (init ++ [last]) = ⟨joinSegments (init ++ [last])⟩ := by
    cases init <;> rfl
  have hnotroot : (render (init ++ [last])).isRoot = false := by
    cases init with
    | nil => exact isRoot_render_cons (h last (by simp)).1
    | cons s init => exact isRoot_render_cons (h s (by simp)).1
  have htext : (joinSegments (init ++ [last])).toList
      = prefixed '/' (init.map String.toList) ++ '/' :: last.toList := by
    rw [toList_joinSegments, List.map_append, prefixed_append]
    simp
  -- the last slash is the one in front of the last name
  have hidx : lastIdx? isSlash (joinSegments (init ++ [last])).toList
      = some (prefixed '/' (init.map String.toList)).length := by
    rw [htext]
    exact lastIdx?_append_cons (by decide) _ _ hlast
  rw [parent, if_neg (by simp [hnotroot]), hrender]
  simp only [hidx, List.dropLast_concat]
  cases init with
  | nil => rfl
  | cons s init =>
    have hlen : (prefixed '/' ((s :: init).map String.toList)).length
        = s.toList.length + (prefixed '/' (init.map String.toList)).length + 1 := by
      simp
    rw [hlen]
    simp only [render, VfsPath.mk.injEq]
    apply String.ext
    rw [String.toList_ofList, htext, toList_joinSegments, ← hlen, List.take_left]

/-- **Every path that can be built renders a list of names.** -/
theorem Built.exists_render {p : VfsPath} (hp : Built p) :
    ∃ segs, (∀ s ∈ segs, IsName s) ∧ p = render segs := by
  induction hp with
  | root => exact ⟨[], by simp, rfl⟩
  | new raw h => exact exists_render_of_new h
  | join name hp h ih =>
    obtain ⟨raw, hnew⟩ := exists_new_of_join h
    exact exists_render_of_new hnew
  | parent hp ih =>
    obtain ⟨segs, hsegs, rfl⟩ := ih
    exact ⟨segs.dropLast, fun s hs => hsegs s (List.mem_of_mem_dropLast hs),
      parent_render hsegs⟩

/-- The paths that can be built are the renderings of lists of names. -/
theorem built_iff_exists_names {p : VfsPath} :
    Built p ↔ ∃ names : List Name, p = render (names.map Subtype.val) := by
  constructor
  · intro hp
    obtain ⟨segs, hsegs, rfl⟩ := hp.exists_render
    refine ⟨segs.attach.map (fun s => ⟨s.1, hsegs s.1 s.2⟩), ?_⟩
    rw [List.map_map, Function.comp_def, List.attach_map_subtype_val]
  · rintro ⟨names, rfl⟩
    have hnames : ∀ s ∈ names.map Subtype.val, IsName s := by
      intro s hs
      obtain ⟨n, -, rfl⟩ := List.mem_map.mp hs
      exact n.2
    exact Built.new _ (new_render hnames)

/-! ### The normal form -/

/-- A rendered list of names is in normal form. -/
theorem normalForm_render {segs : List String} (h : ∀ s ∈ segs, IsName s) :
    NormalForm (render segs) := by
  cases segs with
  | nil =>
    refine ⟨by decide, by decide, by decide, fun hne => absurd rfl hne, fun hne => absurd rfl hne,
      new_render h⟩
  | cons s segs =>
    have hsplit : splitAt isSlash (render (s :: segs)).str = "" :: s :: segs :=
      splitAt_joinSegments (by decide) _ (fun s' hs' => (h s' hs').not_slash)
    have htext : (render (s :: segs)).str.toList = prefixed '/' ((s :: segs).map String.toList) :=
      toList_joinSegments (s :: segs)
    refine ⟨?_, ?_, ?_, ?_, ?_, new_render h⟩
    · simp [htext]
    · rw [htext, prefixed, List.mem_flatMap]
      rintro ⟨w, hw, hc⟩
      obtain ⟨s', hs', rfl⟩ := List.mem_map.mp hw
      have := (h s' hs').2.2.2 '\\' (by simpa using hc)
      exact absurd this (by decide)
    · rw [hsplit]
      exact fun s' hs' => ⟨(h s' hs').2.1, (h s' hs').2.2.1⟩
    · rw [hsplit]
      exact fun _ s' hs' => (h s' hs').1
    · intro _ hlast
      -- the text ends with the last name, which is not empty and holds no slash
      obtain ⟨init, last, hil⟩ : ∃ init last, s :: segs = init ++ [last] :=
        ⟨_, _, (List.dropLast_append_getLast (by simp)).symm⟩
      have hname := h last (by simp [hil])
      have hne : last.toList ≠ [] := fun hnil => hname.1 (String.ext (by simp [hnil]))
      rw [htext, hil, List.map_append, prefixed_append] at hlast
      simp only [List.map_cons, List.map_nil, prefixed_cons, prefixed_nil, List.append_nil] at hlast
      rw [List.getLast?_append_of_ne_nil _ (by simp), List.getLast?_cons_of_ne_nil hne] at hlast
      have hmem : '/' ∈ last.toList := List.mem_of_getLast? hlast
      exact absurd (hname.not_slash '/' hmem) (by decide)

theorem built_ext {p q : VfsPath} (hp : Built p) (hq : Built q) :
    p = q ↔ p.segments = q.segments := by
  constructor
  · rintro rfl
    rfl
  · intro hseg
    obtain ⟨segs, hsegs, rfl⟩ := hp.exists_render
    obtain ⟨segs', hsegs', rfl⟩ := hq.exists_render
    rw [segments_render hsegs, segments_render hsegs'] at hseg
    rw [hseg]

/-- **Normal form.** Whatever composition of `root`, `new`, `join` and `parent` a path was
    built by, its text is in normal form, and it equals another path that can be built
    exactly when their segments are the same. -/
theorem built_normalForm {p : VfsPath} (hp : Built p) :
    NormalForm p ∧ ∀ q, Built q → (p = q ↔ p.segments = q.segments) := by
  obtain ⟨segs, hsegs, hrender⟩ := hp.exists_render
  refine ⟨?_, fun q hq => built_ext hp hq⟩
  rw [hrender]
  exact normalForm_render hsegs

/-- The normal form of `join`'s result on mixed separators, dots and repeated slashes. -/
theorem built_normalForm_join :
    Built ⟨"/a/b/c"⟩ ∧ NormalForm ⟨"/a/b/c"⟩ ∧
      ∀ q, Built q → ((⟨"/a/b/c"⟩ : VfsPath) = q ↔ segments ⟨"/a/b/c"⟩ = q.segments) := by
  have hb : Built ⟨"/a/b/c"⟩ :=
    Built.join ".\\b//c/" (Built.new "x/..\\a" (p := ⟨"/a"⟩) (by decide)) (by decide)
  exact ⟨hb, built_normalForm hb⟩

end VfsPath

end Krystallos
