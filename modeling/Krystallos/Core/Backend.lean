import Krystallos.Core.Handle
import Krystallos.Core.Path

namespace Krystallos

open Prog

/-!
# Backends

What a connected backend offers the callers modelled here, as programs over the world `σ`:
`open` modes, metadata, and the calls that `cat` and `get` make.
-/

/-- How to open a file. -/
structure OpenMode where
  read : Bool
  write : Bool
  create : Bool
  createNew : Bool
  truncate : Bool
deriving DecidableEq, Repr

namespace OpenMode

/-- Open an existing file for reading. -/
def reading : OpenMode := ⟨true, false, false, false, false⟩

/-- Open for writing, creating the file if it does not exist. -/
def writing : OpenMode := ⟨false, true, true, false, false⟩

/-- Open for reading and writing, creating the file if absent. -/
def readingWriting : OpenMode := ⟨true, true, true, false, false⟩

/-- Create a new file, failing if it already exists. -/
def creatingNew : OpenMode := ⟨false, true, true, true, false⟩

/-- Same access mode, but discard any existing contents on open. -/
def withTruncate (mode : OpenMode) : OpenMode := { mode with truncate := true }

end OpenMode

/-- What kind of thing an entry is. -/
inductive EntryKind
  | file
  | directory
  | symlink
  | other
deriving DecidableEq, Repr

/-- `EntryKind::is_dir`. -/
def EntryKind.isDir (kind : EntryKind) : Bool := kind == .directory

/-- A `SystemTime` at or after the Unix epoch: seconds and nanoseconds. -/
structure SystemTime where
  secs : Nat
  nanos : Nat
deriving DecidableEq, Repr

/-- Portable metadata for a single entry. -/
structure Metadata where
  kind : EntryKind
  len : Nat
  modified : Option SystemTime
  created : Option SystemTime
  accessed : Option SystemTime
  readOnly : Bool
deriving DecidableEq, Repr

/-- `Metadata::file`. -/
def Metadata.file (len : Nat) : Metadata := ⟨.file, len, none, none, none, false⟩

/-- `Metadata::is_dir`. -/
def Metadata.isDir (md : Metadata) : Bool := md.kind.isDir

/-- A directory listing entry. -/
structure Entry where
  name : String
  metadata : Metadata
deriving DecidableEq, Repr

variable {σ : Type}

/-- A connected storage backend. -/
structure StorageBackend (σ : Type) where
  stat : VfsPath → Prog Error σ Metadata
  openFile : VfsPath → OpenMode → Prog Error σ (FileHandle σ)
  shutdown : Prog Error σ Unit

/-- The calls of a backend on its tree of files, besides. -/
structure TreeBackend (σ : Type) extends StorageBackend σ where
  list : VfsPath → Prog Error σ (List Entry)
  removeFile : VfsPath → Prog Error σ Unit
  removeDir : VfsPath → Prog Error σ Unit
  rename : VfsPath → VfsPath → Prog Error σ Unit
  copy : VfsPath → VfsPath → Prog Error σ Nat
  mkdir : VfsPath → Prog Error σ Unit

/-- While `I` holds, the handle the backend opens at `path` reads content `F`.  `stat` and
    `open` may fail. -/
structure StorageBackend.Serves (b : StorageBackend σ) (I : σ → Prop) (F : List UInt8)
    (path : VfsPath) : Prop where
  stat : ∀ s, I s → wp (b.stat path) ⟨fun _ s' => I s', fun _ _ => True, fun _ => True⟩ s
  openFile : ∀ s, I s → wp (b.openFile path .reading)
    ⟨fun h s' => I s' ∧ h.Reads I F (· < 2 ^ 64), fun _ _ => True, fun _ => True⟩ s

/-- A handle on unchanging content that always reads everything asked for. -/
def FileHandle.ofContent (F : List UInt8) : FileHandle Unit where
  readAt offset len := pure (Slices.slice F offset len)
  writeAt _ _ := fail (.unsupported "write")
  setLen _ := fail (.unsupported "set_len")
  flush := pure ()
  close := pure ()
  len _ := F.length

/-- A backend that serves unchanging content at every path. -/
def StorageBackend.ofContent (F : List UInt8) : StorageBackend Unit where
  stat _ := pure (Metadata.file F.length)
  openFile _ _ := pure (FileHandle.ofContent F)
  shutdown := pure ()

theorem FileHandle.reads_ofContent (F : List UInt8) (D : Nat → Prop) :
    (FileHandle.ofContent F).Reads (fun _ => True) F D where
  readAt := fun offset len _ _ _ => ⟨trivial, shortRead_slice F offset len⟩

theorem StorageBackend.serves_ofContent (F : List UInt8) (path : VfsPath) :
    (StorageBackend.ofContent F).Serves (fun _ => True) F path where
  stat := fun _ _ => trivial
  openFile := fun _ _ => ⟨trivial, FileHandle.reads_ofContent F _⟩

end Krystallos
