import Krystallos.Core.PathNormal

namespace Krystallos

open Separated

/-!
# What `new` accepts, and what `join` adds

The text given to `new` stands for its `parts`, the pieces between separators that are neither
empty nor a dot.  The loop of `new` reads nothing else (`foldlM_pushSegment_filter`), and it
fails exactly where the parts climb above the root on the way (`new_accepts_iff`).  `join` takes
the parts of a name as they are, or not at all (`join_render_eq`).
-/

namespace VfsPath

/-- A piece that counts: neither empty nor a dot. -/
def isPart (piece : String) : Bool := decide (piece ≠ "" ∧ piece ≠ ".")

/-- The parts of a text: its pieces without the empty ones and the dots. -/
def parts (s : String) : List String := (splitAt isSep s).filter isPart

/-- How many ordinary names there are among some parts. -/
def names (parts : List String) : Nat := (parts.filter (· ≠ "..")).length

/-- Read from the start, the parts climb higher than they have come down. -/
def Escapes (parts : List String) : Prop :=
  ∃ front, front <+: parts ∧ names front < front.count ".."

/-- The error of `new`. -/
def escapeError (raw : String) : Error := .invalidPath raw "path escapes the backend root"

/-- The error of `join` for a name that would climb. -/
def dotsError (name : String) : Error :=
  .invalidPath name ("`..` is not allowed in a joined name; build the full path with "
    ++ "VfsPath::new if you mean to traverse upward")

/-- The error of `join` for a name that adds nothing. -/
def unchangedError (name : String) : Error :=
  .invalidPath name "joining this name does not change the path"

@[simp] theorem names_nil : names [] = 0 := rfl

/-- A `..` adds no name. -/
theorem names_dots (l : List String) : names (".." :: l) = names l := by
  simp [names]

/-- Any other segment adds one. -/
theorem names_cons {s : String} (hs : s ≠ "..") (l : List String) :
    names (s :: l) = names l + 1 := by
  simp [names, hs]

/-- What counts of a path: neither nothing nor a dot. -/
theorem isPart_iff {piece : String} : isPart piece = true ↔ piece ≠ "" ∧ piece ≠ "." :=
  decide_eq_true_iff

theorem dots_mem_parts {s : String} : ".." ∈ parts s ↔ ".." ∈ splitAt isSep s := by
  simp [parts, isPart]

/-- A part other than `..` can be a segment. -/
theorem isName_of_mem_parts {s part : String} (h : part ∈ parts s) (hdots : part ≠ "..") :
    IsName part := by
  obtain ⟨hmem, hcounts⟩ := List.mem_filter.mp h
  obtain ⟨hne, hdot⟩ := isPart_iff.mp hcounts
  exact ⟨hne, hdot, hdots, not_sep_of_mem_splitAt hmem⟩

/-! ### The loop -/

theorem pushSegment_of_not_isPart {s : String} (h : ¬ isPart s = true) (stack : List String) :
    pushSegment stack s = some stack := by
  rw [isPart_iff, ← not_or, not_not] at h
  exact if_pos h

/-- A name is put on the stack. -/
theorem pushSegment_name {s : String} (h : isPart s = true) (hs : s ≠ "..") (stack : List String) :
    pushSegment stack s = some (stack ++ [s]) := by
  rw [isPart_iff, ← not_or] at h
  unfold pushSegment
  rw [if_neg h, if_neg hs]

/-- **Empty pieces and dots** change nothing. -/
theorem foldlM_pushSegment_filter (stack pieces : List String) :
    pieces.foldlM pushSegment stack = (pieces.filter isPart).foldlM pushSegment stack := by
  induction pieces generalizing stack with
  | nil => rfl
  | cons s pieces ih =>
    by_cases hs : isPart s = true
    · rw [List.filter_cons_of_pos hs, List.foldlM_cons, List.foldlM_cons]
      exact congrArg _ (funext fun stack' => ih stack')
    · rw [List.filter_cons_of_neg hs, List.foldlM_cons, pushSegment_of_not_isPart hs]
      exact ih stack

/-- What a prefix of a list that begins with `s` can be. -/
theorem exists_prefix_cons {P : List String → Prop} {s : String} {l : List String}
    (hnil : ¬ P []) :
    (∃ front, front <+: s :: l ∧ P front) ↔ ∃ front, front <+: l ∧ P (s :: front) := by
  constructor
  · rintro ⟨front, hfront, hP⟩
    rcases List.prefix_cons_iff.mp hfront with rfl | ⟨rest, rfl, hrest⟩
    · exact absurd hP hnil
    · exact ⟨rest, hrest, hP⟩
  · rintro ⟨front, hfront, hP⟩
    exact ⟨s :: front, List.prefix_cons_iff.mpr (.inr ⟨front, rfl, hfront⟩), hP⟩

/-- **The stack runs out** where the parts climb higher than they and the stack are deep. -/
theorem foldlM_pushSegment_eq_none {stack l : List String} (h : ∀ s ∈ l, isPart s = true) :
    l.foldlM pushSegment stack = none ↔
      ∃ front, front <+: l ∧ stack.length + names front < front.count ".." := by
  induction l generalizing stack with
  | nil => simp
  | cons s l ih =>
    obtain ⟨hs, hrest⟩ := List.forall_mem_cons.mp h
    rw [exists_prefix_cons (by simp), List.foldlM_cons]
    by_cases hdots : s = ".."
    · subst hdots
      simp only [names_dots, List.count_cons_self]
      cases stack with
      | nil =>
        -- there is nothing to climb out of
        refine ⟨fun _ => ⟨[], List.nil_prefix, by simp⟩, fun _ => rfl⟩
      | cons t ts =>
        show l.foldlM pushSegment (t :: ts).dropLast = none ↔ _
        rw [ih hrest, List.length_dropLast]
        refine exists_congr fun front => and_congr_right fun _ => ?_
        simp only [List.length_cons]
        omega
    · rw [pushSegment_name hs hdots]
      show l.foldlM pushSegment (stack ++ [s]) = none ↔ _
      rw [ih hrest, List.length_append, List.length_singleton]
      refine exists_congr fun front => and_congr_right fun _ => ?_
      rw [names_cons hdots, List.count_cons_of_ne hdots]
      omega

/-! ### What `new` accepts -/

/-- `new` fails only where its stack runs out. -/
theorem new_eq_error_iff {raw : String} {e : Error} :
    new raw = .error e ↔
      (splitAt isSep raw).foldlM pushSegment [] = none ∧ e = escapeError raw := by
  unfold new
  cases h : (splitAt isSep raw).foldlM pushSegment [] with
  | none => simp [escapeError, eq_comm]
  | some segs => cases segs <;> simp

/-- A path is refused where it climbs above the root, and nowhere else. -/
theorem new_error_iff {raw : String} : (∃ e, new raw = .error e) ↔ Escapes (parts raw) := by
  have hloop : (splitAt isSep raw).foldlM pushSegment [] = none ↔ Escapes (parts raw) := by
    rw [foldlM_pushSegment_filter, foldlM_pushSegment_eq_none fun s hs => ?_]
    · simp [Escapes, parts]
    · exact (List.mem_filter.mp hs).2
  rw [← hloop]
  constructor
  · rintro ⟨e, he⟩
    exact (new_eq_error_iff.mp he).1
  · intro h
    exact ⟨_, new_eq_error_iff.mpr ⟨h, rfl⟩⟩

/-- The path that `new` gives, if any, is the rendering of its stack. -/
theorem toOption_new (raw : String) :
    (new raw).toOption = ((splitAt isSep raw).foldlM pushSegment []).map render := by
  unfold new
  cases h : (splitAt isSep raw).foldlM pushSegment [] with
  | none => rfl
  | some segs => cases segs <;> rfl

/-- A slash between two texts parts their pieces. -/
theorem splitAt_append_slash (a b : String) :
    splitAt isSep (a ++ "/" ++ b) = splitAt isSep a ++ splitAt isSep b := by
  have htext : (a ++ "/" ++ b).toList = a.toList ++ '/' :: b.toList := by simp
  rw [splitAt, htext, List.splitOnP_append_cons _ _ (by decide), List.map_append]
  rfl

/-- **A path read back** leaves its segments on the stack. -/
theorem foldlM_splitAt_render {segs : List String} (h : ∀ s ∈ segs, IsName s) :
    (splitAt isSep (render segs).str).foldlM pushSegment [] = some segs := by
  obtain ⟨segs', hfold, hrender⟩ := new_eq_ok_iff.mp (new_render h)
  have hnames := foldlM_pushSegment_isName (fun s hs => not_sep_of_mem_splitAt hs) (by simp) hfold
  have hsame := congrArg segments hrender
  rw [segments_render h, segments_render hnames] at hsame
  rw [hfold, hsame]

/-- What follows a text that `new` accepts is read from that text's path. -/
theorem toOption_new_append {a : String} {segs : List String}
    (h : (splitAt isSep a).foldlM pushSegment [] = some segs) (b : String) :
    (new (a ++ "/" ++ b)).toOption = ((splitAt isSep b).foldlM pushSegment segs).map render := by
  rw [toOption_new, splitAt_append_slash, List.foldlM_append, h]
  rfl

/-- **`new` is compositional**, and accepts what never climbs above the root: it fails exactly for
    the texts that do, with an error that carries the text; a text stays rejected whatever follows
    it, and one that is accepted can be replaced by its path. -/
theorem new_accepts_iff :
    (∀ s, (∃ e, new s = .error e) ↔ Escapes (parts s)) ∧
    (∀ s e, new s = .error e → e = .invalidPath s "path escapes the backend root") ∧
    (∀ a b e, new a = .error e → ∃ e', new (a ++ "/" ++ b) = .error e') ∧
    ∀ a b p, new a = .ok p →
      (new (a ++ "/" ++ b)).toOption = (new (p.str ++ "/" ++ b)).toOption := by
  refine ⟨fun s => new_error_iff, fun s e h => (new_eq_error_iff.mp h).2, ?_, ?_⟩
  · intro a b e h
    refine ⟨_, new_eq_error_iff.mpr ⟨?_, rfl⟩⟩
    rw [splitAt_append_slash, List.foldlM_append, (new_eq_error_iff.mp h).1]
    rfl
  · intro a b p h
    obtain ⟨segs, hfold, rfl⟩ := new_eq_ok_iff.mp h
    have hnames := foldlM_pushSegment_isName (fun s hs => not_sep_of_mem_splitAt hs) (by simp) hfold
    rw [toOption_new_append hfold, toOption_new_append (foldlM_splitAt_render hnames)]

/-- Climbing and descending, with both separators. -/
example : Escapes (parts "/a/../../b") ∧ new "a\\./b//../c" = .ok ⟨"/a/c"⟩ :=
  ⟨⟨["a", "..", ".."], by decide, by decide⟩, by decide⟩

/-! ### What `join` adds -/

/-- The text that `join` hands to `new` leaves the path's segments in front of the name's parts. -/
theorem foldlM_joined {segs : List String} (h : ∀ s ∈ segs, IsName s) (name : String) :
    (splitAt isSep ((if (render segs).str.toList.getLast? = some '/' then (render segs).str
      else (render segs).str.push '/') ++ name)).foldlM pushSegment [] =
      (splitAt isSep name).foldlM pushSegment segs := by
  cases segs with
  | nil =>
    -- the root's slash is the separator
    have htext : (render []).str ++ name = "" ++ "/" ++ name := by
      apply String.ext
      simp [render, root]
    rw [if_pos (by decide), htext, splitAt_append_slash, List.foldlM_append]
    rfl
  | cons s segs =>
    have hne : render (s :: segs) ≠ root := by
      intro heq
      have hroot : (render (s :: segs)).isRoot = false := isRoot_render_cons (h s (by simp)).1
      rw [heq, isRoot_root] at hroot
      cases hroot
    have htext : (render (s :: segs)).str.push '/' ++ name =
        (render (s :: segs)).str ++ "/" ++ name := by
      apply String.ext
      simp
    rw [if_neg ((normalForm_render h).no_trailing_slash hne), htext, splitAt_append_slash,
      List.foldlM_append, foldlM_splitAt_render h]
    rfl

/-- **`join`** refuses a name with a `..`, and one that has no parts; it appends the parts of any
    other. -/
theorem join_render_eq {segs : List String} (h : ∀ s ∈ segs, IsName s) (name : String) :
    (render segs).join name =
      if ".." ∈ parts name then .error (dotsError name)
      else if parts name = [] then .error (unchangedError name)
      else .ok (render (segs ++ parts name)) := by
  rw [join]
  by_cases hdots : ".." ∈ parts name
  · rw [if_pos (dots_mem_parts.mp hdots), if_pos hdots]
    rfl
  · rw [if_neg (fun hmem => hdots (dots_mem_parts.mpr hmem)), if_neg hdots]
    have hnames : ∀ s ∈ parts name, IsName s := fun s hs =>
      isName_of_mem_parts hs fun heq => hdots (heq ▸ hs)
    have hall : ∀ s ∈ segs ++ parts name, IsName s := List.forall_mem_append.mpr ⟨h, hnames⟩
    -- the parts of the joined text are those of the path and those of the name
    have hnew : new ((if (render segs).str.toList.getLast? = some '/' then (render segs).str
        else (render segs).str.push '/') ++ name) = .ok (render (segs ++ parts name)) := by
      refine new_eq_ok_iff.mpr ⟨_, ?_, rfl⟩
      rw [foldlM_joined h, foldlM_pushSegment_filter]
      exact foldlM_pushSegment_names segs (parts name) hnames
    -- and so nothing was added only if the name has none
    have hsame : render (segs ++ parts name) = render segs ↔ parts name = [] := by
      constructor
      · intro heq
        have hsegs := congrArg segments heq
        rwa [segments_render hall, segments_render h, List.append_right_eq_self] at hsegs
      · intro hnil
        rw [hnil, List.append_nil]
    simp only [hnew, hsame]
    rfl

/-- The last name of a path. -/
theorem fileName_render_concat {segs : List String} {name : String}
    (h : ∀ s ∈ segs ++ [name], IsName s) : (render (segs ++ [name])).fileName = some name := by
  have hrender : (render (segs ++ [name])).str = joinSegments (segs ++ [name]) := by
    cases segs <;> rfl
  have hnotroot : (render (segs ++ [name])).isRoot = false := by
    cases segs with
    | nil => exact isRoot_render_cons (h name (by simp)).1
    | cons s segs => exact isRoot_render_cons (h s (by simp)).1
  have hslash : isSlash '/' = true := by decide
  have hsplit := splitAt_joinSegments hslash (segs ++ [name])
    (fun s hs => (h s hs).not_slash)
  rw [fileName, if_neg (by simp [hnotroot]), hrender, hsplit, ← List.cons_append,
    List.getLast?_concat]

/-- A path's last name holds no separator. -/
theorem isName_of_fileName {q : VfsPath} (hq : Built q) {name : String}
    (h : q.fileName = some name) : IsName name := by
  obtain ⟨segs, hsegs, rfl⟩ := hq.exists_render
  rcases List.eq_nil_or_concat segs with rfl | ⟨init, last, rfl⟩
  · simp [render, fileName, isRoot_root] at h
  · rw [List.concat_eq_append] at hsegs h
    rw [fileName_render_concat hsegs] at h
    obtain rfl := Option.some.inj h
    exact hsegs last (by simp)

/-- A name is its one part. -/
theorem parts_name {name : String} (h : IsName name) : parts name = [name] := by
  have hone : splitAt isSep name = [name] := by
    rw [splitAt, List.splitOnP_eq_singleton h.2.2.2]
    simp
  rw [parts, hone, List.filter_cons_of_pos (isPart_iff.mpr ⟨h.1, h.2.1⟩), List.filter_nil]

/-- **`join` appends a name.** -/
theorem join_render {segs : List String} {name : String} (hsegs : ∀ s ∈ segs, IsName s)
    (hname : IsName name) : (render segs).join name = .ok (render (segs ++ [name])) := by
  rw [join_render_eq hsegs, parts_name hname, if_neg (by simpa using Ne.symm hname.2.2.1),
    if_neg (by simp)]

/-- What `join` does with a name: it takes the parts as they are, or refuses them. -/
structure Joins (p : VfsPath) (name : String) : Prop where
  accepted : (∃ q, p.join name = .ok q) ↔ ".." ∉ parts name ∧ parts name ≠ []
  segments : ∀ q, p.join name = .ok q → q.segments = p.segments ++ parts name

/-- `parent` and `file_name` take a path apart, and `join` puts it together again. -/
structure TakenApart (q : VfsPath) : Prop where
  fileName : q.fileName = q.segments.getLast?
  parent : q.parent.segments = q.segments.dropLast
  rejoined : ∃ name, q.fileName = some name ∧ q.parent.join name = .ok q

/-- A built path takes a name as `Joins` says. -/
theorem joins_of_built {p : VfsPath} (hp : Built p) (name : String) : Joins p name := by
  obtain ⟨segs, hsegs, rfl⟩ := hp.exists_render
  have hjoin := join_render_eq hsegs name
  by_cases hdots : ".." ∈ parts name
  · rw [if_pos hdots] at hjoin
    exact ⟨by simp [hjoin, hdots], by simp [hjoin]⟩
  rw [if_neg hdots] at hjoin
  by_cases hnil : parts name = []
  · rw [if_pos hnil] at hjoin
    exact ⟨by simp [hjoin, hnil], by simp [hjoin]⟩
  rw [if_neg hnil] at hjoin
  refine ⟨⟨fun _ => ⟨hdots, hnil⟩, fun _ => ⟨_, hjoin⟩⟩, fun q hq => ?_⟩
  have hall : ∀ s ∈ segs ++ parts name, IsName s := List.forall_mem_append.mpr
    ⟨hsegs, fun s hs => isName_of_mem_parts hs fun heq => hdots (heq ▸ hs)⟩
  obtain rfl := Except.ok.inj (hjoin.symm.trans hq)
  rw [segments_render hall, segments_render hsegs]

/-- A built path but the root is its parent and its name. -/
theorem takenApart_of_built {q : VfsPath} (hq : Built q) (hroot : q ≠ root) : TakenApart q := by
  obtain ⟨segs, hsegs, rfl⟩ := hq.exists_render
  rcases List.eq_nil_or_concat segs with rfl | ⟨init, last, rfl⟩
  · exact absurd rfl hroot
  rw [List.concat_eq_append] at hsegs ⊢
  obtain ⟨hinit, hlast⟩ := List.forall_mem_append.mp hsegs
  have hfile := fileName_render_concat hsegs
  refine ⟨?_, ?_, last, hfile, ?_⟩
  · rw [hfile, segments_render hsegs, List.getLast?_concat]
  · rw [parent_render hsegs, List.dropLast_concat, segments_render hinit, segments_render hsegs,
      List.dropLast_concat]
  · rw [parent_render hsegs, List.dropLast_concat]
    exact join_render hinit (hlast last (by simp))

/-- **`join` only descends, and `parent` and `file_name` undo it.** A name is accepted exactly where
    it has a part and none is `..`, and its parts are then what the path gains; every path but the
    root is what `join` makes of its parent and its file name, and a single name comes back. -/
theorem join_descends {p : VfsPath} (hp : Built p) :
    (∀ name, Joins p name) ∧ (p ≠ root → TakenApart p) ∧
      ∀ name, IsName name →
        ∃ q, p.join name = .ok q ∧ q.parent = p ∧ q.fileName = some name := by
  refine ⟨joins_of_built hp, takenApart_of_built hp, fun name hname => ?_⟩
  obtain ⟨segs, hsegs, rfl⟩ := hp.exists_render
  have hall : ∀ s ∈ segs ++ [name], IsName s :=
    List.forall_mem_append.mpr ⟨hsegs, List.forall_mem_singleton.mpr hname⟩
  refine ⟨_, join_render hsegs hname, ?_, fileName_render_concat hall⟩
  rw [parent_render hall, List.dropLast_concat]

/-- Repeated and mixed separators below a directory. -/
theorem join_descends_mixed :
    Joins ⟨"/a"⟩ "b\\.//c/" ∧ TakenApart ⟨"/a"⟩ ∧
      ∃ q, join ⟨"/a"⟩ "b c" = .ok q ∧ q.parent = ⟨"/a"⟩ ∧ q.fileName = some "b c" := by
  have hname : IsName "b c" := ⟨by decide, by decide, by decide, by simp [isSep]⟩
  have hdescends := join_descends (Built.new "x/..\\a" (p := ⟨"/a"⟩) (by decide))
  exact ⟨hdescends.1 _, hdescends.2.1 (by decide), hdescends.2.2 "b c" hname⟩

end VfsPath

end Krystallos
