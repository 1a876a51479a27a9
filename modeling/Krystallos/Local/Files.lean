import Krystallos.Core.Registry
import Krystallos.Local.Copy

namespace Krystallos.Local

open Prog

/-!
# `LocalBackend` and its files

The backend as the session calls it, over a file system that is a parameter.  Shutting it down
does nothing, and a file open on it does not know of the backend: what fails in a
`LocalFileHandle` is the file system.
-/

variable {W α : Type}

/-- The calls `LocalBackend` makes on the file system. `metadata` follows links. -/
structure LocalFs (W : Type) extends Fs W, DirFs W where
  metadata : String → W → Except IoError FsMetadata × W
  openWith : String → OpenMode → W → Except IoError Fd × W
  fileMetadata : Fd → W → Except IoError FsMetadata × W
  removeFile : String → W → Except IoError Unit × W
  removeDir : String → W → Except IoError Unit × W
  rename : String → String → W → Except IoError Unit × W
  createDir : String → W → Except IoError Unit × W
  pread : Fd → Nat → Nat → W → Except IoError (List UInt8) × W
  pwrite : Fd → Nat → List UInt8 → W → Except IoError Nat × W
  setLen : Fd → Nat → W → Except IoError Unit × W
  syncAll : Fd → W → Except IoError Unit × W

/-- A call on a path. -/
def onPath (path : VfsPath) (op : W → Except IoError α × W) : Prog Error W α :=
  mapErr (mapIo · path) (call op)

/-- A call on an open file. -/
def onFile (op : W → Except IoError α × W) : Prog Error W α := mapErr .io (call op)

/-- `LocalFileHandle`. Dropping the file is the close. -/
def fileHandle (fs : LocalFs W) (file : Fd) (len : Nat) : FileHandle W where
  readAt offset n := onFile (fs.pread file offset n)
  writeAt offset buf := onFile (fs.pwrite file offset buf)
  setLen n := onFile (fs.setLen file n)
  flush := onFile (fs.syncAll file)
  close := pure ()
  len _ := len

/-- `LocalBackend::open`. The size is the one seen at open. -/
def openFile (fs : LocalFs W) (root : String) (path : VfsPath) (mode : OpenMode) :
    Prog Error W (FileHandle W) := do
  let file ← onPath path (fs.openWith (resolve root path) mode)
  let md ← onPath path (fs.fileMetadata file)
  pure (fileHandle fs file md.len)

/-- `LocalBackend`. Each operation opens and closes its own handle, so there is nothing to
    tear down. -/
def backend (fs : LocalFs W) (root : String) (fuel : Nat) : TreeBackend W where
  list path := list fs.toDirFs root path fuel
  stat path := do return toMetadata (← onPath path (fs.metadata (resolve root path)))
  openFile path mode := openFile fs root path mode
  removeFile path := onPath path (fs.removeFile (resolve root path))
  removeDir path := onPath path (fs.removeDir (resolve root path))
  rename fromPath toPath := onPath fromPath (fs.rename (resolve root fromPath) (resolve root toPath))
  copy fromPath toPath := copy fs.toFs root fromPath toPath fuel
  mkdir path := onPath path (fs.createDir (resolve root path))
  shutdown := pure ()

/-! ### `LocalDriver` -/

/-- Whether a text looks like a URI path holding a Windows drive. -/
def looksLikeDrivePath (s : String) : Bool :=
  match s.toList with
  | '/' :: c :: ':' :: _ => ('a' ≤ c && c ≤ 'z') || ('A' ≤ c && c ≤ 'Z')
  | _ => false

/-- Turn the part of a `file://` URI after `://` into a file system path. -/
def parseRoot (windows : Bool) (rest : String) : Result String :=
  if rest = "" then
    .error (.invalidPath "file://"
      "a `file://` endpoint must name a directory, e.g. `file:///D:/media`")
  else if windows && looksLikeDrivePath rest then .ok (String.ofList rest.toList.tail)
  else .ok rest

/-- What the host says of a directory to open. -/
structure LocalHost where
  windows : Bool
  canonicalize : String → Except IoError String
  metadata : String → Except IoError FsMetadata

/-- `LocalDriver::connect`: the root of the backend. It asks for no credentials. -/
def Driver.connect (host : LocalHost) (endpoint : Endpoint) : Result String := do
  let requested ← parseRoot host.windows endpoint.authorityAndPath
  let canonical ←
    match host.canonicalize requested with
    | .ok canonical => .ok canonical
    | .error e => .error (if e.kind = .notFound then .notFound requested else .io e)
  let md ← (host.metadata canonical).mapError .io
  if md.isDir then .ok canonical else .error (.notADirectory canonical)

end Krystallos.Local
