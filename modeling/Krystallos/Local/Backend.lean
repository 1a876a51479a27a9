import Krystallos.Core.Backend
import Krystallos.Core.PathNormal

namespace Krystallos.Local

open Prog VfsPath

/-!
# `LocalBackend`: paths and listings

Where a virtual path leads in the file system, and what `list` reports of a directory.  A
Unix path is a text; two texts are one path if `components` reads the same from them.
-/

/-- A file descriptor. -/
abbrev Fd := Nat

variable {W : Type}

/-- Translate an `io::Error` into the portable error model. -/
def mapIo (err : IoError) (path : VfsPath) : Error :=
  match err.kind with
  | .notFound => .notFound path.str
  | .permissionDenied => .permissionDenied path.str
  | .alreadyExists => .alreadyExists path.str
  | .notADirectory => .notADirectory path.str
  | .isADirectory => .isADirectory path.str
  | .directoryNotEmpty => .directoryNotEmpty path.str
  | _ => .io err

/-- Map a virtual path onto the file system below `root`. -/
def resolve (root : String) (path : VfsPath) : String :=
  path.segments.foldl (fun s segment => s.push '/' ++ segment) root

/-! ### Unix paths -/

/-- A component of a path. -/
inductive Component
  | rootDir
  | curDir
  | parentDir
  | normal (name : String)
deriving DecidableEq, Repr

/-- What a piece between two slashes stands for: nothing, where it is empty or a dot. -/
def component? (piece : String) : Option Component :=
  if piece = "" ∨ piece = "." then none
  else if piece = ".." then some .parentDir
  else some (.normal piece)

/-- What is in front of the pieces: the root, or a leading dot. -/
def leading (s : String) : List Component :=
  if s.toList.head? = some '/' then [.rootDir]
  else if (splitAt isSlash s).head? = some "." then [.curDir]
  else []

/-- `Path::components`. -/
def components (s : String) : List Component := leading s ++ (splitAt isSlash s).filterMap component?

/-- `DirEntry::path`: the directory with a name pushed to it. -/
def entryPath (dir name : String) : String :=
  if dir.toList.getLast? = some '/' then dir ++ name else dir.push '/' ++ name

/-- What a file in a Unix directory can be called. -/
def UnixName (name : String) : Prop :=
  name ≠ "" ∧ name ≠ "." ∧ name ≠ ".." ∧ '/' ∉ name.toList ∧ '\x00' ∉ name.toList

instance (name : String) : Decidable (UnixName name) :=
  inferInstanceAs (Decidable (_ ∧ _ ∧ _ ∧ _ ∧ _))

/-! ### Listings -/

/-- What `std::fs::Metadata` tells. -/
structure FsMetadata where
  isSymlink : Bool
  isDir : Bool
  isFile : Bool
  len : Nat
  modified : Except IoError SystemTime
  created : Except IoError SystemTime
  accessed : Except IoError SystemTime
  readonly : Bool

/-- Translate the metadata into the portable model. -/
def toMetadata (m : FsMetadata) : Metadata where
  kind :=
    if m.isSymlink then .symlink
    else if m.isDir then .directory
    else if m.isFile then .file
    else .other
  len := m.len
  modified := m.modified.toOption
  created := m.created.toOption
  accessed := m.accessed.toOption
  readOnly := m.readonly

/-- The calls a listing makes on the file system: the next name of an open directory, if
    there is one, and the metadata of a path, links not followed. -/
structure DirFs (W : Type) where
  readDir : String → W → Except IoError Fd × W
  next : Fd → W → Except IoError (Option String) × W
  symlinkMetadata : String → W → Except IoError FsMetadata × W

/-- One turn of the loop in `list`. -/
def listTurn (fs : DirFs W) (dir : String) (path : VfsPath) (read : Fd) (out : List Entry) :
    Prog Error W (Turn (List Entry) (List Entry)) := do
  let item ← mapErr (mapIo · path) (call (fs.next read))
  match item with
  | none => pure (.leave out)
  | some name => do
    match ← capture (call (fs.symlinkMetadata (entryPath dir name))) with
    | .ok m => pure (.again (out ++ [⟨name, toMetadata m⟩]))
    | .error _ => pure (.again out)

/-- `LocalBackend::list`. -/
def list (fs : DirFs W) (root : String) (path : VfsPath) (fuel : Nat) :
    Prog Error W (List Entry) := do
  let dir := resolve root path
  let read ← mapErr (mapIo · path) (call (fs.readDir dir))
  let out ← iterate fuel (listTurn fs dir path read) []
  pure (out.mergeSort fun a b => decide (a.name ≤ b.name))

/-- Every name listed is one that the file system gave. -/
theorem wp_list {fs : DirFs W} {P : String → Prop}
    (hnames : ∀ fd w name, (fs.next fd w).1 = .ok (some name) → P name) (root : String)
    (path : VfsPath) (fuel : Nat) (w : W) :
    wp (list fs root path fuel)
      ⟨fun entries _ => ∀ e ∈ entries, P e.name, fun _ _ => True, fun _ => True⟩ w := by
  have hturn : ∀ read out w, (∀ e ∈ out, P e.name) →
      wp (listTurn fs (resolve root path) path read out)
        (keepPost (fun out _ => ∀ e ∈ out, P e.name)
          ⟨fun out _ => ∀ e ∈ out, P e.name, fun _ _ => True, fun _ => True⟩) w := by
    intro read out w hout
    rw [listTurn, wp_bind, wp_mapErr, wp_call]
    rcases hnext : fs.next read w with ⟨e | (_ | name), w'⟩
    · trivial
    · exact hout
    · -- the entry is added, or skipped where its metadata cannot be had
      have hP : P name := hnames read w name (by rw [hnext])
      show wp _ _ w'
      rw [wp_bind, wp_capture, wp_call]
      rcases fs.symlinkMetadata (entryPath (resolve root path) name) w' with ⟨e | m, w''⟩
      · exact hout
      · intro e he
        rcases List.mem_append.mp he with he | he
        · exact hout e he
        · obtain rfl : e = ⟨name, toMetadata m⟩ := by simpa using he
          exact hP
  rw [list, wp_bind, wp_mapErr, wp_call]
  rcases fs.readDir (resolve root path) w with ⟨e | read, w'⟩
  · trivial
  · show wp _ _ w'
    rw [wp_bind]
    -- and sorting adds no entry
    have hloop := wp_iterate_partial _ trivial (hturn read) fuel (b := []) (s := w') (by simp)
    refine wp_mono hloop ?_ (fun _ _ h => h) (fun _ h => h)
    intro out _ hout e he
    exact hout e (List.mem_mergeSort.mp he)

end Krystallos.Local
