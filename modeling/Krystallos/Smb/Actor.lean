import Krystallos.Smb.Copy

namespace Krystallos.Smb

open Checked Prog

/-!
# The operations of the session thread

`OpenFiles` and the functions behind each command, over the state `Actor W`: the context and
the table of open files.
-/

/-! ### The open-file table -/

/-- The open-file table. A `HashMap` promises no order; entries are kept as inserted.  Ids are
    given out once, in order, so the ids in the table differ and none is above `nextId`. -/
structure OpenFiles where
  handles : List (Nat × Fh)
  nextId : Nat
  ids : (handles.map Prod.fst).Nodup
  given : ∀ id ∈ handles.map Prod.fst, id ≤ nextId
deriving DecidableEq

attribute [ext] OpenFiles

namespace OpenFiles

/-- `OpenFiles::default()`. -/
def empty : OpenFiles := ⟨[], 0, List.nodup_nil, by simp⟩

/-- The table with a handle under the next id. -/
def add (files : OpenFiles) (handle : Fh) : OpenFiles where
  handles := files.handles ++ [(files.nextId + 1, handle)]
  nextId := files.nextId + 1
  ids := by
    rw [List.map_append, List.nodup_append]
    refine ⟨files.ids, by simp, ?_⟩
    rintro id hid _ hnew rfl
    have hle := files.given id hid
    have heq : id = files.nextId + 1 := by simpa using hnew
    omega
  given := by
    intro id hid
    rw [List.map_append, List.mem_append] at hid
    rcases hid with hold | hnew
    · exact le_trans (files.given id hold) (Nat.le_succ _)
    · have heq : id = files.nextId + 1 := by simpa using hnew
      exact le_of_eq heq

/-- Store a handle under a fresh id. -/
def insert (files : OpenFiles) (handle : Fh) : Except Panic (OpenFiles × Nat) := do
  let id ← addU 64 files.nextId 1
  return (files.add handle, id)

/-- The handle an id stands for. -/
def get (files : OpenFiles) (id : Nat) : Option Fh := files.handles.lookup id

/-- Remove an id from the table. -/
def remove (files : OpenFiles) (id : Nat) : OpenFiles where
  handles := files.handles.filter (·.1 ≠ id)
  nextId := files.nextId
  ids := files.ids.sublist (List.filter_sublist.map _)
  given := fun id' hid => files.given id' ((List.filter_sublist.map _).subset hid)

/-- Remove an id, giving the handle it stood for. -/
def take (files : OpenFiles) (id : Nat) : Option Fh × OpenFiles := (files.get id, files.remove id)

/-- `handles.drain()`: the table is empty. -/
def drain (files : OpenFiles) : OpenFiles := ⟨[], files.nextId, List.nodup_nil, by simp⟩

end OpenFiles

/-- What the session thread owns. -/
structure Actor (W : Type) where
  ctx : Ctx W
  files : OpenFiles

variable {W ε α : Type}

/-- Run a program on the context. -/
def onCtx (m : Prog ε (Ctx W) α) : Prog ε (Actor W) α :=
  zoom Actor.ctx (fun c s => { s with ctx := c }) m

/-! ### Path operations -/

/-- Convert a libsmb2 timestamp, treating "not reported" as absent. -/
def timestamp (secs nsecs : Nat) : Option SystemTime :=
  if secs = 0 ∨ secs > 32503680000 then none
  else if nsecs < 1000000000 then some ⟨secs, nsecs⟩
  else some ⟨secs, 0⟩

/-- Translate libsmb2's metadata into the portable model. -/
def metadataFromStat (st : Stat) : Metadata where
  kind :=
    if st.smb2Type = 1 then .directory
    else if st.smb2Type = 0 then .file
    else if st.smb2Type = 2 then .symlink
    else .other
  len := st.size
  modified := timestamp st.mtime st.mtimeNsec
  created := timestamp st.btime st.btimeNsec
  accessed := timestamp st.atime st.atimeNsec
  readOnly := st.attributes % 2 ≠ 0

/-- The loop of `list_dir` over the entries libsmb2 holds. -/
def listTurn (lib : Libsmb2 W) (dir : Dir) (entries : List Entry) :
    Prog Error (Ctx W) (Turn (List Entry) (List Entry)) := do
  let entry ← ffi lib (.readdir dir)
  match entry with
  | none => pure (.leave entries)
  | some (name, st) =>
    let name := name.getD ""
    if name = "." ∨ name = ".." then pure (.again entries)
    else pure (.again (entries ++ [⟨name, metadataFromStat st⟩]))

/-- `a.name.cmp(&b.name)`, as "not greater": the order of the UTF-8 bytes is that of the
    characters. -/
def entryLe (a b : Entry) : Bool := decide (a.name ≤ b.name)

/-- List a directory. -/
def listDir (lib : Libsmb2 W) (path : VfsPath) (fuel : Nat) :
    Prog Error (Ctx W) (List Entry) := do
  let smbPath ← ofExcept (cstring (toSmbPath path))
  let dir ← ffi lib (.opendir smbPath)
  match dir with
  | none => failWith lib 0 path.str
  | some dir => do
    let entries ← iterate fuel (listTurn lib dir) []
    let _ ← ffi lib (.closedir dir)
    pure (entries.mergeSort entryLe)

/-- `stat` on a path. -/
def statPath (lib : Libsmb2 W) (path : VfsPath) : Prog Error (Ctx W) Metadata := do
  let smbPath ← ofExcept (cstring (toSmbPath path))
  let (rc, st) ← ffi lib (.stat smbPath)
  if rc ≠ 0 then failWith lib rc path.str
  else pure (metadataFromStat st)

/-- A call on one path that answers with a return code only. -/
def pathCall (lib : Libsmb2 W) (call : String → Prog Error (Ctx W) Int) (path : VfsPath) :
    Prog Error (Ctx W) Unit := do
  let smbPath ← ofExcept (cstring (toSmbPath path))
  let rc ← call smbPath
  if rc ≠ 0 then failWith lib rc path.str else pure ()

/-- Create a directory. -/
def mkdir (lib : Libsmb2 W) (path : VfsPath) : Prog Error (Ctx W) Unit :=
  pathCall lib (fun p => ffi lib (.mkdir p)) path

/-- Delete a file. -/
def removeFile (lib : Libsmb2 W) (path : VfsPath) : Prog Error (Ctx W) Unit :=
  pathCall lib (fun p => ffi lib (.unlink p)) path

/-- Delete an empty directory. -/
def removeDir (lib : Libsmb2 W) (path : VfsPath) : Prog Error (Ctx W) Unit :=
  pathCall lib (fun p => ffi lib (.rmdir p)) path

/-- Rename, reporting the source where it fails. -/
def rename (lib : Libsmb2 W) (fromPath toPath : VfsPath) : Prog Error (Ctx W) Unit := do
  let smbFrom ← ofExcept (cstring (toSmbPath fromPath))
  let smbTo ← ofExcept (cstring (toSmbPath toPath))
  let rc : Int ← ffi lib (.rename smbFrom smbTo)
  if rc ≠ 0 then failWith lib rc fromPath.str else pure ()

/-! ### File operations -/

/-- Translate `OpenMode` into the flags libsmb2 expects. -/
def openFlags (mode : OpenMode) : OpenFlags where
  access :=
    match mode.read, mode.write with
    | true, true => .rdwr
    | false, true => .wronly
    | true, false => .rdonly
    | false, false => .rdonly
  creat := mode.create
  excl := mode.createNew
  trunc := mode.truncate

/-- Open a file: its id and the size seen at open. -/
def openFile (lib : Libsmb2 W) (path : VfsPath) (mode : OpenMode) :
    Prog Error (Actor W) (Nat × Nat) := do
  let smbPath ← ofExcept (cstring (toSmbPath path))
  let handle ← onCtx (ffi lib (.openFile smbPath (openFlags mode)))
  match handle with
  | none => onCtx (failWith lib 0 path.str)
  | some handle => do
    let len := reportedSize (← onCtx (ffi lib (.fstat handle)))
    let s ← current
    let (files, id) ← checked (s.files.insert handle)
    update fun s => { s with files := files }
    pure (id, len)

/-- Close a file. An id that is not in the table is closed already. -/
def closeFile (lib : Libsmb2 W) (id : Nat) : Prog Error (Actor W) Unit := do
  let s ← current
  let (handle, files) := s.files.take id
  update fun s => { s with files := files }
  match handle with
  | none => pure ()
  | some handle => do
    let rc : Int ← onCtx (ffi lib (.close handle))
    if rc ≠ 0 then onCtx (failWith lib rc ("file handle " ++ toString id)) else pure ()

/-- Look up a handle, mapping a stale id to an error. -/
def handleOf (id : Nat) (op : String) : Prog Error (Actor W) Fh := do
  let s ← current
  match s.files.get id with
  | some handle => pure handle
  | none => fail (.backend ("operation on " ++ op ++ " used a file handle that is not open"))

/-- A call made by the session thread. -/
theorem wp_onCtx_ffi {lib : Libsmb2 W} {c : Call} {p : Post ε (Actor W) c.Reply} {s : Actor W} :
    wp (onCtx (ffi lib c)) p s ↔
      p.ret (lib.call c s.ctx.world).1 { s with ctx := s.ctx.after lib c } := Iff.rfl

/-- An id stands for a handle, or the operation fails. -/
theorem wp_handleOf {id : Nat} {op : String} {p : Post Error (Actor W) Fh} {s : Actor W}
    (hopen : ∀ handle, s.files.get id = some handle → p.ret handle s)
    (hstale : s.files.get id = none →
      p.fail (.backend ("operation on " ++ op ++ " used a file handle that is not open")) s) :
    wp (handleOf id op) p s := by
  rw [handleOf, wp_bind, wp_current]
  dsimp only
  split
  · next handle h => exact hopen handle h
  · next h => exact hstale h

/-- Read at most `len` bytes. -/
def readAt (lib : Libsmb2 W) (id offset len : Nat) : Prog Error (Actor W) (List UInt8) := do
  let handle ← handleOf id "read"
  let (rc, bytes) ← onCtx (ffi lib (.pread handle len offset))
  if rc < 0 then onCtx (failWith lib rc "read")
  else pure ((fillBuf (List.replicate len 0) len bytes).take rc.toNat)

/-- Write, returning how many bytes were accepted. -/
def writeAt (lib : Libsmb2 W) (id offset : Nat) (data : List UInt8) :
    Prog Error (Actor W) Nat := do
  let handle ← handleOf id "write"
  let rc : Int ← onCtx (ffi lib (.pwrite handle (data.take (castU 32 data.length)) offset))
  if rc < 0 then onCtx (failWith lib rc "write") else pure rc.toNat

/-- Truncate or extend. -/
def setLen (lib : Libsmb2 W) (id len : Nat) : Prog Error (Actor W) Unit := do
  let handle ← handleOf id "truncate"
  let rc : Int ← onCtx (ffi lib (.ftruncate handle len))
  if rc ≠ 0 then onCtx (failWith lib rc "truncate") else pure ()

/-- Flush. -/
def flush (lib : Libsmb2 W) (id : Nat) : Prog Error (Actor W) Unit := do
  let handle ← handleOf id "flush"
  let rc : Int ← onCtx (ffi lib (.fsync handle))
  if rc ≠ 0 then onCtx (failWith lib rc "flush") else pure ()

/-! ### Commands -/

/-- What a command asks for; the reply channel is the session's business. -/
inductive Request
  | list (path : VfsPath)
  | stat (path : VfsPath)
  | mkdir (path : VfsPath)
  | removeFile (path : VfsPath)
  | removeDir (path : VfsPath)
  | rename (fromPath toPath : VfsPath)
  | copy (fromPath toPath : VfsPath)
  | openFile (path : VfsPath) (mode : OpenMode)
  | close (id : Nat)
  | readAt (id offset len : Nat)
  | writeAt (id offset : Nat) (data : List UInt8)
  | setLen (id len : Nat)
  | flush (id : Nat)
deriving DecidableEq, Repr

/-- What a command that succeeded answers. -/
inductive Answer
  | unit
  | entries (entries : List Entry)
  | metadata (md : Metadata)
  | copied (n : Nat)
  | opened (id len : Nat)
  | bytes (data : List UInt8)
  | written (n : Nat)
deriving DecidableEq

/-- The arm of `actor_thread` for a command. -/
def execute (lib : Libsmb2 W) (fuel : Nat) : Request → Prog Error (Actor W) Answer
  | .list path => do return .entries (← onCtx (listDir lib path fuel))
  | .stat path => do return .metadata (← onCtx (statPath lib path))
  | .mkdir path => do onCtx (mkdir lib path); return .unit
  | .removeFile path => do onCtx (removeFile lib path); return .unit
  | .removeDir path => do onCtx (removeDir lib path); return .unit
  | .rename fromPath toPath => do onCtx (rename lib fromPath toPath); return .unit
  | .copy fromPath toPath => do return .copied (← onCtx (copyFile lib fromPath toPath fuel))
  | .openFile path mode => do
    let (id, len) ← openFile lib path mode
    return .opened id len
  | .close id => do closeFile lib id; return .unit
  | .readAt id offset len => do return .bytes (← readAt lib id offset len)
  | .writeAt id offset data => do return .written (← writeAt lib id offset data)
  | .setLen id len => do setLen lib id len; return .unit
  | .flush id => do flush lib id; return .unit

/-- `OpenFiles::close_all`: close everything still open. -/
def closeHandles (lib : Libsmb2 W) : List (Nat × Fh) → Prog ε (Ctx W) Unit
  | [] => pure ()
  | (_, handle) :: rest => do
    let _ ← ffi lib (.close handle)
    closeHandles lib rest

/-- What the session thread does after its loop: `close_all`, then the context's `Drop`. -/
def teardown (lib : Libsmb2 W) : Prog ε (Actor W) Unit := do
  let s ← current
  update fun s => { s with files := s.files.drain }
  onCtx (closeHandles lib s.files.handles)
  let _ ← onCtx (ffi lib .disconnectShare)
  onCtx (ffi lib .destroyContext)

end Krystallos.Smb
