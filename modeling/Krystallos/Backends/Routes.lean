import Krystallos.Local.Driver
import Krystallos.Smb.Endpoints

namespace Krystallos

open Separated VfsPath

/-!
# URIs that the registry can route

`VfsPath::to_uri` puts a path behind the endpoint a backend reports.  It takes the slashes off the
endpoint's end first, and where nothing but slashes follows `://` those go too: `routed_iff` says
that every endpoint but that of a local backend at the root of the file system is routed back.
-/

/-- `trim_end_matches('/')`. -/
def trimSlashes (s : String) : String :=
  String.ofList (s.toList.reverse.dropWhile isSlash).reverse

/-- The registry finds the endpoint's scheme in the path's URI, and behind it the endpoint's
    remainder and the path. -/
def Routed (endpoint : String) (p : VfsPath) : Prop :=
  ∃ e₀ e, Endpoint.parse endpoint = .ok e₀ ∧ Endpoint.parse (p.toUri endpoint) = .ok e ∧
    e.scheme = e₀.scheme ∧ e.authorityAndPath = trimSlashes e₀.authorityAndPath ++ p.str

/-- What the local driver makes of the URI is where the backend finds the path. -/
def LeadsBack (root : String) (p : VfsPath) : Prop :=
  ∃ e path, Endpoint.parse (p.toUri (Local.LocalBackend.new root).endpoint) = .ok e ∧
    Local.parseRoot false e.authorityAndPath = .ok path ∧
    Local.components path = Local.components (Local.resolve root p)

variable {s root : String} {p : VfsPath}

/-! ### Trimming -/

theorem toUri_eq (p : VfsPath) (endpoint : String) :
    p.toUri endpoint = trimSlashes endpoint ++ p.str := rfl

theorem trimSlashes_append {t : String} (ht : ∃ c ∈ t.toList, isSlash c = false) (s : String) :
    trimSlashes (s ++ t) = s ++ trimSlashes t := by
  apply String.ext
  obtain ⟨c, hc, hslash⟩ := ht
  have hnot : ¬ (t.toList.reverse.dropWhile isSlash).isEmpty = true := by
    rw [List.isEmpty_iff, List.dropWhile_eq_nil_iff]
    intro hall
    exact absurd (hall c (by simpa using hc)) (by simp [hslash])
  rw [trimSlashes, String.toList_ofList, String.toList_append, List.reverse_append,
    List.dropWhile_append, if_neg hnot]
  simp [trimSlashes]

/-- What is trimmed off is slashes. -/
theorem exists_trimSlashes (s : String) :
    ∃ n, s.toList = (trimSlashes s).toList ++ List.replicate n '/' := by
  refine ⟨(s.toList.reverse.takeWhile isSlash).length, ?_⟩
  have hslashes : (s.toList.reverse.takeWhile isSlash).reverse =
      List.replicate (s.toList.reverse.takeWhile isSlash).length '/' := by
    rw [List.eq_replicate_iff]
    refine ⟨List.length_reverse, fun c hc => ?_⟩
    have hslash := List.mem_takeWhile_imp (List.mem_reverse.mp hc)
    exact beq_iff_eq.mp hslash
  rw [trimSlashes, String.toList_ofList, ← hslashes, ← List.reverse_append,
    List.takeWhile_append_dropWhile, List.reverse_reverse]

theorem trimSlashes_append_slashes {t : String} (ht : ∀ c ∈ t.toList, isSlash c = true)
    (s : String) : trimSlashes (s ++ t) = trimSlashes s := by
  have hnil : (t.toList.reverse.dropWhile isSlash).isEmpty = true := by
    rw [List.isEmpty_iff, List.dropWhile_eq_nil_iff]
    intro c hc
    exact ht c (List.mem_reverse.mp hc)
  rw [trimSlashes, String.toList_append, List.reverse_append, List.dropWhile_append, if_pos hnil]
  rfl

/-! ### Endpoints with something behind the scheme -/

/-- **A remainder that is more than slashes** is kept apart from the scheme. -/
theorem routed_of_scheme {scheme rest : String} (hne : scheme ≠ "")
    (hscheme : scheme.toList.all isSchemeChar = true) (hrest : ∃ c ∈ rest.toList, isSlash c = false)
    (p : VfsPath) : Routed (scheme ++ "://" ++ rest) p := by
  have huri : p.toUri (scheme ++ "://" ++ rest) =
      scheme ++ "://" ++ (trimSlashes rest ++ p.str) := by
    rw [toUri_eq, trimSlashes_append hrest, String.append_assoc]
  have hparse := Endpoint.parse_scheme hne hscheme (trimSlashes rest ++ p.str)
  rw [← huri] at hparse
  exact ⟨_, _, Endpoint.parse_scheme hne hscheme rest, hparse, rfl, rfl⟩

/-- Every endpoint that an SMB backend reports is routed. -/
theorem routed_label {parsed : Smb.ParsedEndpoint}
    (h : Smb.ParsedEndpoint.parse s = .ok parsed) (p : VfsPath) : Routed parsed.label p := by
  obtain ⟨hshare, hslash⟩ := Smb.share_of_parse h
  have hlabel : parsed.label = "smb" ++ "://" ++ (parsed.server ++ "/" ++ parsed.share) := by
    simp [Smb.ParsedEndpoint.label, String.append_assoc]
  have hnil : parsed.share.toList ≠ [] := fun hnil => hshare (String.ext (by simp [hnil]))
  obtain ⟨c, hc⟩ := List.exists_mem_of_ne_nil _ hnil
  rw [hlabel]
  apply routed_of_scheme (by decide) (by decide)
  refine ⟨c, by simp [hc], beq_eq_false_iff_ne.mpr ?_⟩
  rintro rfl
  exact hslash hc

/-! ### Local roots -/

theorem endpoint_local (habs : root.toList.head? = some '/') (hback : '\\' ∉ root.toList) :
    (Local.LocalBackend.new root).endpoint = "file" ++ "://" ++ root := by
  show Local.uriFor root = _
  rw [Local.uriFor, Local.forwardSlashes_eq_iff.mpr hback, if_pos habs]
  rfl

/-- A path's text is a slash in front of every piece. -/
theorem exists_pieces (hp : Built p) : ∃ pieces : List String,
    p.str.toList = prefixed '/' (pieces.map String.toList) ∧
    (∀ piece ∈ pieces, ∀ c ∈ piece.toList, isSlash c = false) ∧
    pieces.filterMap Local.component? = p.segments.map .normal := by
  obtain ⟨segs, hsegs, rfl⟩ := hp.exists_render
  cases segs with
  | nil => exact ⟨[""], by decide, by simp, by decide⟩
  | cons s segs =>
    refine ⟨s :: segs, toList_joinSegments _, fun t ht => (hsegs t ht).not_slash, ?_⟩
    rw [segments_render hsegs, Local.filterMap_component?_names hsegs]

/-- A root without its last slashes has the same components. -/
theorem components_trimSlashes (habs : (trimSlashes root).toList.head? = some '/') :
    Local.components root = Local.components (trimSlashes root) := by
  obtain ⟨n, hroot⟩ := exists_trimSlashes root
  have hprefixed : List.replicate n '/' =
      prefixed '/' ((List.replicate n "").map String.toList) := by
    rw [List.map_replicate]
    exact (prefixed_replicate_nil '/' n).symm
  rw [hprefixed] at hroot
  have hempty : Local.component? "" = none := by decide
  rw [Local.components_append habs hroot (by simp)]
  simp [hempty]

/-- A root with something behind its first slash starts with it when trimmed. -/
theorem head?_trimSlashes (habs : root.toList.head? = some '/')
    (hmore : ∃ c ∈ root.toList, isSlash c = false) :
    (trimSlashes root).toList.head? = some '/' := by
  obtain ⟨n, hroot⟩ := exists_trimSlashes root
  cases htrim : (trimSlashes root).toList with
  | cons c cs =>
    rw [hroot, htrim] at habs
    exact habs
  | nil =>
    obtain ⟨c, hc, hslash⟩ := hmore
    rw [hroot, htrim, List.nil_append] at hc
    rw [List.eq_of_mem_replicate hc] at hslash
    exact absurd hslash (by decide)

/-- **The way back.** Behind the scheme stands the place where the backend finds the path. -/
theorem components_trimmed (habs : root.toList.head? = some '/')
    (hmore : ∃ c ∈ root.toList, isSlash c = false) (hp : Built p) :
    Local.components (trimSlashes root ++ p.str) = Local.components (Local.resolve root p) := by
  obtain ⟨pieces, htext, hslash, hpieces⟩ := exists_pieces hp
  have hhead := head?_trimSlashes habs hmore
  have happend : (trimSlashes root ++ p.str).toList =
      (trimSlashes root).toList ++ prefixed '/' (pieces.map String.toList) := by
    rw [String.toList_append, htext]
  rw [Local.components_append hhead happend hslash, hpieces, ← components_trimSlashes hhead,
    Local.components_resolve habs hp]

theorem leadsBack_of_more (habs : root.toList.head? = some '/') (hback : '\\' ∉ root.toList)
    (hmore : ∃ c ∈ root.toList, isSlash c = false) (hp : Built p) : LeadsBack root p := by
  have hne : trimSlashes root ++ p.str ≠ "" := by
    apply Local.ne_empty_of_head?
    rw [String.toList_append, List.head?_append, head?_trimSlashes habs hmore]
    rfl
  have hparse : Endpoint.parse ("file" ++ "://" ++ (trimSlashes root ++ p.str)) = .ok _ :=
    Endpoint.parse_scheme (by decide) (by decide) _
  rw [← String.append_assoc, ← trimSlashes_append hmore, ← toUri_eq,
    ← endpoint_local habs hback] at hparse
  exact ⟨_, _, hparse, Local.parseRoot_unix hne, components_trimmed habs hmore hp⟩

/-! ### The root of the file system -/

/-- A path that can be built holds no two slashes in a row. -/
theorem no_double_slash (hp : Built p) (a b : List Char) : p.str.toList ≠ a ++ '/' :: '/' :: b := by
  intro htext
  by_cases hroot : p = VfsPath.root
  · rw [hroot] at htext
    have hlen := congrArg List.length htext
    simp [VfsPath.root] at hlen
    omega
  · apply (built_normalForm hp).1.no_empty_segment hroot "" _ rfl
    have hslash : isSlash '/' = true := rfl
    rw [splitAt, htext, List.splitOnP_append_cons a _ hslash, List.splitOnP_cons_eq_if_modifyHead,
      if_pos hslash]
    obtain ⟨w, ws, hw⟩ := List.exists_cons_of_ne_nil (List.splitOnP_ne_nil isSlash a)
    rw [hw]
    simp

/-- Behind a local backend's scheme, a path that follows without its slashes leaves no `://`. -/
theorem parse_file_path (hp : Built p) : Endpoint.parse ("file:" ++ p.str) =
    .error (.invalidPath ("file:" ++ p.str) "endpoint is missing a `scheme://` prefix") := by
  have hnone : splitOnce "://".toList ("file:" ++ p.str).toList = none := by
    cases hsplit : splitOnce "://".toList ("file:" ++ p.str).toList with
    | none => rfl
    | some parts =>
      have heq := eq_append_of_splitOnce hsplit
      have hpat : "://".toList = [':', '/', '/'] := rfl
      have happend : "file:".toList ++ p.str.toList =
          (parts.1 ++ [':']) ++ '/' :: '/' :: parts.2 := by
        rw [← String.toList_append, heq, hpat]
        simp
      exfalso
      -- the two slashes would be the path's own, or begin in the scheme
      rcases List.append_eq_append_iff.mp happend with ⟨as, -, htext⟩ | ⟨bs, hfile, htext⟩
      · exact no_double_slash hp as parts.2 htext
      · cases bs with
        | nil => exact no_double_slash hp [] parts.2 htext.symm
        | cons c bs =>
          obtain ⟨rfl, -⟩ := List.cons.inj htext
          have hmem : '/' ∈ "file:".toList := by rw [hfile]; simp
          exact absurd hmem (by decide)
  rw [Endpoint.parse, hnone]

/-- Nothing but the scheme's colon is left of the endpoint of a root that is only slashes. -/
theorem toUri_of_slashes (habs : root.toList.head? = some '/') (hback : '\\' ∉ root.toList)
    (hslashes : ∀ c ∈ root.toList, isSlash c = true) (p : VfsPath) :
    p.toUri (Local.LocalBackend.new root).endpoint = "file:" ++ p.str := by
  have hendpoint : (Local.LocalBackend.new root).endpoint = "file:" ++ ("//" ++ root) := by
    rw [endpoint_local habs hback, ← String.append_assoc]
    rfl
  have hpair : ∀ c ∈ "//".toList, isSlash c = true := by simp [isSlash]
  have hall : ∀ c ∈ ("//" ++ root).toList, isSlash c = true := by
    intro c hc
    rw [String.toList_append] at hc
    rcases List.mem_append.mp hc with hc | hc
    · exact hpair c hc
    · exact hslashes c hc
  have hfile : trimSlashes "file:" = "file:" := by decide
  rw [toUri_eq, hendpoint, trimSlashes_append_slashes hall, hfile]

/-! ### What is routed -/

/-- **Routing.** Of all the endpoints that the two drivers report, the URIs made behind them are
    routed back but for those of a local backend at the root of the file system. -/
theorem routed_iff (root s : String) (p : VfsPath) :
    (root.toList.head? = some '/' → '\\' ∉ root.toList → Built p →
      ((Routed (Local.LocalBackend.new root).endpoint p ∧ LeadsBack root p) ↔
        ∃ c ∈ root.toList, isSlash c = false)) ∧
    ∀ parsed, Smb.ParsedEndpoint.parse s = .ok parsed → Built p → Routed parsed.label p := by
  refine ⟨fun habs hback hp => ⟨?_, fun hmore => ⟨?_, ?_⟩⟩, fun parsed h _ => routed_label h p⟩
  · rintro ⟨⟨e₀, e, -, hparse, -⟩, -⟩
    by_contra hmore
    have hslashes : ∀ c ∈ root.toList, isSlash c = true := by
      intro c hc
      by_contra hslash
      exact hmore ⟨c, hc, by simpa using hslash⟩
    rw [toUri_of_slashes habs hback hslashes, parse_file_path hp] at hparse
    cases hparse
  · rw [endpoint_local habs hback]
    exact routed_of_scheme (by decide) (by decide) hmore p
  · exact leadsBack_of_more habs hback hmore hp

/-- The root of the file system: `file:/etc` is no endpoint. -/
theorem root_not_routed : ∃ p, VfsPath.new "/etc" = .ok p ∧
    p.toUri (Local.LocalBackend.new "/").endpoint = "file:/etc" ∧
    Endpoint.parse "file:/etc" =
      .error (.invalidPath "file:/etc" "endpoint is missing a `scheme://` prefix") ∧
    ¬ Routed (Local.LocalBackend.new "/").endpoint p := by
  refine ⟨⟨"/etc"⟩, by decide, by decide, by decide, ?_⟩
  rintro ⟨e₀, e, -, hparse, -⟩
  have huri : VfsPath.toUri ⟨"/etc"⟩ (Local.LocalBackend.new "/").endpoint = "file:/etc" := by
    decide
  have herror : Endpoint.parse "file:/etc" =
      .error (.invalidPath "file:/etc" "endpoint is missing a `scheme://` prefix") := by decide
  rw [huri, herror] at hparse
  cases hparse

end Krystallos
