import Krystallos.Local.Files
import Krystallos.Local.Resolve

namespace Krystallos.Local

open Separated VfsPath

/-!
# Local roots as URIs

`driver.rs`: `parse_root` takes what is behind `file://` literally, and `uri_for` is documented as
its inverse.  `uri_for` also turns every backslash into a slash, for Windows; on Unix a file name
may hold one, and `survives_iff` says that a root comes back from its URI exactly where it holds
none.
-/

/-- `replace('\\', "/")`. -/
def forwardSlashes (s : String) : String :=
  String.ofList (s.toList.map fun c => if c = '\\' then '/' else c)

/-- Render a canonical root as a `file://` URI. -/
def uriFor (root : String) : String :=
  let s := forwardSlashes root
  if s.toList.head? = some '/' then "file://" ++ s else "file:///" ++ s

/-- A backend rooted at one local directory. -/
structure LocalBackend where
  root : String
  rootStr : String
  endpoint : String
deriving DecidableEq, Repr

/-- `LocalBackend::new`. -/
def LocalBackend.new (root : String) : LocalBackend := ⟨root, root, uriFor root⟩

/-! ### Roots -/

/-- An absolute canonical root on Unix: a slash and a file name for each component. -/
def CanonicalRoot (r : String) : Prop :=
  ∃ components : List String, (∀ name ∈ components, UnixName name) ∧ r = (render components).str

/-- A directory whose canonical path is `r`. -/
structure RootedAt (host : LocalHost) (r : String) : Prop where
  canonical : host.canonicalize r = .ok r
  directory : ∃ md, host.metadata r = .ok md ∧ md.isDir = true

/-- The root comes back from its URI, and a session opened from the URI is rooted at it. -/
def Survives (r : String) : Prop :=
  ∃ e, Endpoint.parse (uriFor r) = .ok e ∧ e.scheme = "file" ∧
    parseRoot false e.authorityAndPath = .ok r ∧
    ∀ host : LocalHost, host.windows = false → RootedAt host r → Driver.connect host e = .ok r

variable {r : String}

/-- A text without a backslash stays as it is, and no other. -/
theorem forwardSlashes_eq_iff : forwardSlashes r = r ↔ '\\' ∉ r.toList := by
  rw [forwardSlashes, ← String.toList_inj, String.toList_ofList]
  constructor
  · intro heq hmem
    -- the image of the backslash is in the list, and no image is a backslash
    rw [← heq, List.mem_map] at hmem
    obtain ⟨c, -, hc⟩ := hmem
    split at hc
    · exact absurd hc (by decide)
    · next hne => exact hne hc
  · intro hnot
    rw [← List.map_id r.toList, List.map_map]
    apply List.map_congr_left
    intro c hc
    apply if_neg
    rintro rfl
    exact hnot hc

/-- A leading slash stays. -/
theorem head?_forwardSlashes (h : r.toList.head? = some '/') :
    (forwardSlashes r).toList.head? = some '/' := by
  simp [forwardSlashes, h]

/-- The URI of an absolute root is taken apart behind its scheme. -/
theorem parse_uriFor (h : r.toList.head? = some '/') :
    Endpoint.parse (uriFor r) = .ok ⟨"file", forwardSlashes r, uriFor r⟩ := by
  have huri : uriFor r = "file" ++ "://" ++ forwardSlashes r := by
    rw [uriFor, if_pos (head?_forwardSlashes h)]
    rfl
  rw [huri, Endpoint.parse_scheme (by decide) (by decide)]
  rfl

/-- On Unix a root is taken as it is. -/
theorem parseRoot_unix {rest : String} (h : rest ≠ "") : parseRoot false rest = .ok rest := by
  rw [parseRoot, if_neg h]
  rfl

theorem ne_empty_of_head? (h : r.toList.head? = some '/') : r ≠ "" := by
  rintro rfl
  cases h

/-- A canonical root begins with a slash. -/
theorem head?_canonicalRoot (h : CanonicalRoot r) : r.toList.head? = some '/' := by
  obtain ⟨components, -, rfl⟩ := h
  cases components with
  | nil => rfl
  | cons name names => simp [render, toList_joinSegments]

/-- Connecting finds the root where it is. -/
theorem connect_of_rootedAt {host : LocalHost} {e : Endpoint} (hunix : host.windows = false)
    (hparse : parseRoot false e.authorityAndPath = .ok r) (h : RootedAt host r) :
    Driver.connect host e = .ok r := by
  obtain ⟨md, hmetadata, hdir⟩ := h.directory
  rw [Driver.connect, hunix, hparse]
  simp [bind, Except.bind, h.canonical, hmetadata, Except.mapError, hdir]

/-- **A local root survives the trip through a URI** if and only if no component holds a
    backslash. -/
theorem survives_iff (h : CanonicalRoot r) : Survives r ↔ '\\' ∉ r.toList := by
  have hhead := head?_canonicalRoot h
  rw [← forwardSlashes_eq_iff]
  constructor
  · rintro ⟨e, he, -, hroot, -⟩
    rw [parse_uriFor hhead] at he
    obtain rfl := Except.ok.inj he
    have hne := ne_empty_of_head? (head?_forwardSlashes hhead)
    exact Except.ok.inj ((parseRoot_unix hne).symm.trans hroot)
  · intro hsame
    have hroot : parseRoot false (forwardSlashes r) = .ok r := by
      rw [hsame]
      exact parseRoot_unix (ne_empty_of_head? hhead)
    exact ⟨_, parse_uriFor hhead, rfl, hroot, fun host hunix => connect_of_rootedAt hunix hroot⟩

/-- Percent signs, colons and dots are nothing special. -/
theorem survives_percent : Survives "/100% a:b/..c" ↔ '\\' ∉ "/100% a:b/..c".toList :=
  survives_iff ⟨["100% a:b", "..c"], by decide, by decide⟩

/-- **A root with a backslash** in its name comes back as another directory. -/
theorem backslash_root_lost :
    CanonicalRoot "/a\\b" ∧ uriFor "/a\\b" = "file:///a/b" ∧
    Endpoint.parse "file:///a/b" = .ok ⟨"file", "/a/b", "file:///a/b"⟩ ∧
    parseRoot false "/a/b" = .ok "/a/b" ∧
    components "/a/b" ≠ components "/a\\b" ∧ ¬ Survives "/a\\b" := by
  have hcanonical : CanonicalRoot "/a\\b" := ⟨["a\\b"], by decide, by decide⟩
  refine ⟨hcanonical, by decide, by decide, by decide, by decide, ?_⟩
  rintro ⟨e, he, -, hroot, -⟩
  rw [parse_uriFor (head?_canonicalRoot hcanonical)] at he
  obtain rfl := Except.ok.inj he
  revert hroot
  decide

end Krystallos.Local
