import Krystallos.Core.PathNormal
import Krystallos.Ffi.RemoteFile
import Krystallos.Lib.Lts

namespace Krystallos.Ffi

open Prog

/-!
# The session object of the FFI

`Session` of `krystallos-ffi` and the files opened from it, over any backend.  A caller awaits
each call before it makes the next; the release of a file by the garbage collector is no call.

A file holds its handle and no session, so `Tracks` says what a backend must promise for the
files of a session to stay what they were opened as.
-/

/-! ### The types that cross -/

/-- What kind of thing an entry is. -/
inductive Kind
  | file
  | directory
  | symlink
  | other
deriving DecidableEq, Repr

/-- `From<EntryKind>`. -/
def Kind.ofCore : EntryKind → Kind
  | .file => .file
  | .directory => .directory
  | .symlink => .symlink
  | .other => .other

/-- Portable metadata for one entry. -/
structure EntryMetadata where
  kind : Kind
  len : Nat
  modifiedMs : Option Nat
  createdMs : Option Nat
  accessedMs : Option Nat
  readOnly : Bool
deriving DecidableEq, Repr

/-- Milliseconds since the epoch, where they fit. -/
def toMillis (t : Option SystemTime) : Option Nat := do
  let d ← t
  let ms := d.secs * 1000 + d.nanos / 1000000
  if ms < 2 ^ 64 then some ms else none

/-- `EntryMetadata::from_core`. -/
def EntryMetadata.ofCore (m : Metadata) : EntryMetadata where
  kind := .ofCore m.kind
  len := m.len
  modifiedMs := toMillis m.modified
  createdMs := toMillis m.created
  accessedMs := toMillis m.accessed
  readOnly := m.readOnly

/-- A directory listing entry. -/
structure DirEntry where
  name : String
  metadata : EntryMetadata
deriving DecidableEq, Repr

/-- `From<Entry>`. -/
def DirEntry.ofCore (e : Entry) : DirEntry := ⟨e.name, .ofCore e.metadata⟩

/-- How to open a file. -/
structure OpenFlags where
  read : Bool
  write : Bool
  create : Bool
  createNew : Bool
  truncate : Bool
deriving DecidableEq, Repr

/-- `From<OpenFlags>`: built from the access mode outwards. -/
def OpenFlags.mode (f : OpenFlags) : OpenMode :=
  let mode : OpenMode :=
    match f.read, f.write with
    | true, true => .readingWriting
    | false, true => .writing
    | true, false | false, false => .reading
  let mode := if f.createNew then .creatingNew else mode
  if f.truncate then mode.withTruncate else mode

/-! ### Calls -/

/-- A method of `RemoteFile`. -/
inductive FileCall
  | readAt (offset : UInt64) (len : UInt32)
  | readExactAt (offset : UInt64) (len : UInt32)
  | writeAt (offset : UInt64) (data : List UInt8)
  | setLen (len : UInt64)
  | flush
  | release
deriving DecidableEq, Repr

/-- A method of `Session`, or of the `f`-th file opened from it. -/
inductive Call
  | list (path : String)
  | stat (path : String)
  | mkdir (path : String)
  | removeFile (path : String)
  | removeDir (path : String)
  | rename (src dst : String)
  | copy (src dst : String)
  | openFile (path : String) (flags : OpenFlags)
  | disconnect
  | file (f : Nat) (call : FileCall)
deriving DecidableEq, Repr

/-- What a call returns. -/
inductive Answer
  | unit
  | entries (entries : List DirEntry)
  | metadata (md : EntryMetadata)
  | copied (n : Nat)
  | opened (f : Nat)
  | bytes (range : ByteRange)
  | written (n : Nat)
deriving DecidableEq, Repr

/-! ### Files -/

namespace RemoteFile

variable {σ : Type}

/-- A method of the file. -/
def perform (h : FileHandle σ) : FileCall → Prog KernelError (RemoteFile σ) Answer
  | .readAt offset len => do return .bytes (← readAt h offset.toNat len.toNat)
  | .readExactAt offset len => do return .bytes (← readExactAt h offset.toNat len.toNat)
  | .writeAt offset data => do return .written (← writeAt h offset.toNat data)
  | .setLen len => do setLen h len.toNat; return .unit
  | .flush => do flush h; return .unit
  | .release => do release h; return .unit

end RemoteFile

/-- A `RemoteFile` opened from a session. -/
structure Opened (σ : Type) where
  path : String
  handle : FileHandle σ
  len : Nat
  closed : Bool

/-! ### The session -/

/-- A session, the files opened from it, and the world its backend acts on. -/
structure Session (σ : Type) where
  world : σ
  closed : Bool
  files : List (Opened σ)

namespace Session

variable {σ α : Type} (b : TreeBackend σ)

/-- A session that was just connected. -/
def connected (w : σ) : Session σ := ⟨w, false, []⟩

/-- A call on the backend. -/
def onBackend (m : Prog Error σ α) : Prog KernelError (Session σ) α :=
  mapErr .ofCore (zoom Session.world (fun w s => { s with world := w }) m)

/-- `ensure_open`. -/
def ensureOpen : Prog KernelError (Session σ) Unit := do
  let s ← current
  if s.closed then fail (alreadyClosed "session") else pure ()

/-- `Session::path`. -/
def path (p : String) : Prog KernelError (Session σ) VfsPath :=
  mapErr .ofCore (ofExcept (VfsPath.new p))

/-- A call on one path. -/
def onPath (p : String) (m : VfsPath → Prog Error σ α) : Prog KernelError (Session σ) α := do
  ensureOpen
  let vpath ← path p
  onBackend (m vpath)

/-- A call on two paths. -/
def onPaths (src dst : String) (m : VfsPath → VfsPath → Prog Error σ α) :
    Prog KernelError (Session σ) α := do
  ensureOpen
  let src ← path src
  let dst ← path dst
  onBackend (m src dst)

/-- List a directory. -/
def list (p : String) : Prog KernelError (Session σ) (List DirEntry) := do
  let entries ← onPath p b.list
  pure (entries.map .ofCore)

/-- `Session::stat`. -/
def stat (p : String) : Prog KernelError (Session σ) EntryMetadata := do
  let md ← onPath p b.stat
  pure (.ofCore md)

/-- `Session::mkdir`. -/
def mkdir (p : String) : Prog KernelError (Session σ) Unit := onPath p b.mkdir

/-- Delete a file. -/
def removeFile (p : String) : Prog KernelError (Session σ) Unit := onPath p b.removeFile

/-- Delete an empty directory. -/
def removeDir (p : String) : Prog KernelError (Session σ) Unit := onPath p b.removeDir

/-- Rename or move within the backend. -/
def rename (src dst : String) : Prog KernelError (Session σ) Unit := onPaths src dst b.rename

/-- Copy one file, returning the bytes copied. -/
def copy (src dst : String) : Prog KernelError (Session σ) Nat := onPaths src dst b.copy

/-- Open a file. It is the next one. -/
def openFile (p : String) (flags : OpenFlags) : Prog KernelError (Session σ) Nat := do
  let handle ← onPath p (b.openFile · flags.mode)
  let s ← current
  update fun s => { s with files := s.files ++ [⟨p, handle, handle.len s.world, false⟩] }
  pure s.files.length

/-- Disconnect from the endpoint. Idempotent. -/
def disconnect : Prog KernelError (Session σ) Unit := do
  let s ← current
  update fun s => { s with closed := true }
  if s.closed then pure () else onBackend b.shutdown

/-- The session after a method of its `f`-th file. -/
def putFile (f : Nat) (r : RemoteFile σ) (s : Session σ) : Session σ :=
  { s with world := r.world,
           files := s.files.modify f fun file => { file with len := r.len, closed := r.closed } }

/-- A method of the `f`-th file, where there is one. -/
def onFile (f : Nat) (m : FileHandle σ → Prog KernelError (RemoteFile σ) α) :
    Prog KernelError (Session σ) α := fun s =>
  match s.files[f]? with
  | none => .error (.fuel, s)
  | some file =>
    zoom (fun s => ⟨s.world, file.len, file.closed⟩) (putFile f) (m file.handle) s

/-- A call. -/
def perform : Call → Prog KernelError (Session σ) Answer
  | .list p => do return .entries (← list b p)
  | .stat p => do return .metadata (← stat b p)
  | .mkdir p => do mkdir b p; return .unit
  | .removeFile p => do removeFile b p; return .unit
  | .removeDir p => do removeDir b p; return .unit
  | .rename src dst => do rename b src dst; return .unit
  | .copy src dst => do return .copied (← copy b src dst)
  | .openFile p flags => do return .opened (← openFile b p flags)
  | .disconnect => do disconnect b; return .unit
  | .file f call => onFile f fun h => RemoteFile.perform h call

/-- The session after a call, however the call ended. -/
def step (s : Session σ) (call : Call) : Option (Session σ) :=
  match perform b call s with
  | .ok (_, s') => some s'
  | .error _ => none

end Session

/-! ### What the calls keep -/

variable {σ : Type} {J : σ → Prop} {E : Error → Prop} {h : FileHandle σ} {r : RemoteFile σ}

/-- The calls of a handle that leave it open keep `J`, and fail as `E` says. -/
structure Keeps (h : FileHandle σ) (J : σ → Prop) (E : Error → Prop) : Prop where
  readAt : ∀ offset len w, J w → wp (h.readAt offset len) (ending J E) w
  writeAt : ∀ offset data w, J w → wp (h.writeAt offset data) (ending J E) w
  setLen : ∀ len w, J w → wp (h.setLen len) (ending J E) w
  flush : ∀ w, J w → wp h.flush (ending J E) w

/-- How a method of a file fails: it is closed, or its handle fails, or the file ends early. -/
def FileError (E : Error → Prop) (closed : Bool) (e : KernelError) : Prop :=
  closed = true ∨ ∃ e', e = .ofCore e' ∧ (E e' ∨ ∃ done len offset, e' = .io (endedAfter done len offset))

/-- What a method of a file ends as that leaves it as it is. -/
def leaving {α : Type} (J : σ → Prop) (E : Error → Prop) (c : Bool) :
    Post KernelError (RemoteFile σ) α :=
  ending (fun r => J r.world ∧ r.closed = c) (FileError E c)

theorem wp_onHandle_leaving {α : Type} {m : Prog Error σ α} {c : Bool}
    (hm : wp m (ending J E) r.world) (hc : r.closed = c) :
    wp (RemoteFile.onHandle m) (leaving J E c) r :=
  wp_onHandle.mpr (wp_mono hm (fun _ _ hJ => ⟨hJ, hc⟩)
    (fun _ _ hJ => ⟨⟨hJ.1, hc⟩, .inr ⟨_, rfl, .inl hJ.2⟩⟩) (fun _ h => h))

/-- A method that gets at the handle first. -/
theorem wp_handle_leaving {α : Type} {k : FileHandle σ → Prog KernelError (RemoteFile σ) α}
    (hJ : J r.world) (hk : wp (k h) (leaving J E r.closed) r) :
    wp (RemoteFile.handle h >>= k) (leaving J E r.closed) r := by
  simp only [RemoteFile.handle, wp_bind, wp_current]
  exact wp_ite (fun hc => ⟨⟨hJ, rfl⟩, .inl hc⟩) fun _ => hk

/-- **A method that is not `release`** leaves the file as it is, open or closed. -/
theorem RemoteFile.perform_leaves (hh : Keeps h J E) {call : FileCall} (hcall : call ≠ .release)
    (hJ : J r.world) : wp (RemoteFile.perform h call) (leaving J E r.closed) r := by
  have hr : J r.world ∧ r.closed = r.closed := ⟨hJ, rfl⟩
  have hpure : ∀ {α : Type} (a : α) (r' : RemoteFile σ), J r'.world ∧ r'.closed = r.closed →
      wp (pure a : Prog KernelError (RemoteFile σ) α) (leaving J E r.closed) r' := fun _ _ h => h
  cases call with
  | release => exact absurd rfl hcall
  | readAt offset len =>
    refine wp_bind_ending (wp_handle_leaving hJ (wp_bind_ending ?_ fun _ => hpure _))
      fun _ => hpure _
    -- the loop stays in the world that the handle keeps
    refine wp_iterate_partial (fun _ r' => J r'.world ∧ r'.closed = r.closed) trivial ?_ _ hr
    rintro buf r' ⟨hJ', hc'⟩
    refine wp_ite (fun _ => ?_) fun _ => ⟨hJ', hc'⟩
    rw [wp_bind]
    refine wp_checked_of (fun pos _ => ?_) fun _ => trivial
    refine (wp_bind _ _).mpr (wp_mono (wp_onHandle_leaving (hh.readAt pos _ _ hJ') hc') ?_
      (fun _ _ h => h) (fun _ h => h))
    exact fun bytes r'' h'' => wp_ite (fun _ => h'') fun _ => h''
  | readExactAt offset len =>
    refine wp_bind_ending (wp_handle_leaving hJ ?_) fun _ => hpure _
    refine wp_ite (fun _ => hr) fun _ => wp_bind_ending (wp_onHandle.mpr ?_) fun _ => hpure _
    refine wp_iterate_partial (fun _ w => J w) trivial ?_ _ hJ
    intro buf w hw
    refine wp_ite (fun _ => ?_) fun _ => ⟨hw, rfl⟩
    rw [wp_bind]
    refine wp_checked_of (fun pos _ => ?_) fun _ => trivial
    refine (wp_bind _ _).mpr (wp_mono (hh.readAt pos _ w hw) ?_
      (fun e w' h' => ⟨⟨h'.1, rfl⟩, .inr ⟨e, rfl, .inl h'.2⟩⟩) (fun _ h => h))
    -- an early end is the loop's own error
    exact fun bytes w' h' => wp_ite (fun _ => ⟨⟨h', rfl⟩, .inr ⟨_, rfl, .inr ⟨_, _, _, rfl⟩⟩⟩)
      fun _ => h'
  | writeAt offset data =>
    refine wp_bind_ending (wp_handle_leaving hJ ?_) fun _ => hpure _
    refine wp_bind_ending (wp_onHandle_leaving (hh.writeAt _ _ _ hJ) rfl) fun n r' hr' => ?_
    rw [wp_bind]
    exact wp_checked_of (fun _ _ => hr') fun _ => trivial
  | setLen len =>
    refine wp_bind_ending (wp_handle_leaving hJ ?_) fun _ => hpure _
    exact wp_bind_ending (wp_onHandle_leaving (hh.setLen _ _ hJ) rfl) fun _ _ hr' => hr'
  | flush =>
    refine wp_bind_ending (wp_handle_leaving hJ ?_) fun _ => hpure _
    exact wp_onHandle_leaving (hh.flush _ hJ) rfl

/-- **`release`**: the file is closed, and its handle was closed, if it was not before. -/
theorem RemoteFile.release_keeps (J' : σ → Prop) (hclosed : r.closed = true → J' r.world)
    (hopen : r.closed = false → wp h.close (keeping J') r.world) :
    wp (RemoteFile.perform h .release) (keeping fun r' => J' r'.world ∧ r'.closed = true) r := by
  refine wp_bind_keeping ?_ fun _ _ h => h
  simp only [RemoteFile.release, wp_bind, wp_current, wp_update]
  by_cases hc : r.closed = true
  · rw [if_pos hc]
    exact ⟨hclosed hc, rfl⟩
  · rw [if_neg hc, wp_bind, wp_capture, wp_zoom]
    refine wp_mono (hopen (Bool.eq_false_iff.mpr hc)) (fun _ w hw => ⟨hw, rfl⟩) ?_ (fun _ h => h)
    intro e w hw
    cases e with
    | connectionLost => exact ⟨hw, rfl⟩
    | _ => exact ⟨hw, rfl⟩

/-- What a backend's calls do to the files opened on it: `hdl f` are the handles of the `f`-th
    file, `J c flags` is what holds once the session was closed (`c`) and the files that
    `flags` says, and each call keeps it or changes `c` and `flags` as its name says. -/
structure Tracks (b : TreeBackend σ) (J : Bool → List Bool → σ → Prop)
    (hdl : Nat → FileHandle σ → Prop) : Prop where
  list : ∀ c flags p w, J c flags w → wp (b.list p) (keeping (J c flags)) w
  stat : ∀ c flags p w, J c flags w → wp (b.stat p) (keeping (J c flags)) w
  mkdir : ∀ c flags p w, J c flags w → wp (b.mkdir p) (keeping (J c flags)) w
  removeFile : ∀ c flags p w, J c flags w → wp (b.removeFile p) (keeping (J c flags)) w
  removeDir : ∀ c flags p w, J c flags w → wp (b.removeDir p) (keeping (J c flags)) w
  rename : ∀ c flags p q w, J c flags w → wp (b.rename p q) (keeping (J c flags)) w
  copy : ∀ c flags p q w, J c flags w → wp (b.copy p q) (keeping (J c flags)) w
  openFile : ∀ c flags p mode w, J c flags w → wp (b.openFile p mode)
    ⟨fun h w' => hdl flags.length h ∧ J c (flags ++ [false]) w', fun _ w' => J c flags w',
      fun _ => True⟩ w
  shutdown : ∀ c flags w, J c flags w → wp b.shutdown (keeping (J true flags)) w
  file : ∀ c flags f h, hdl f h → Keeps h (J c flags) fun _ => True
  close : ∀ c flags f h w, hdl f h → J c flags w → wp h.close (keeping (J c (flags.set f true))) w

namespace Session

variable {b : TreeBackend σ} {J : Bool → List Bool → σ → Prop} {hdl : Nat → FileHandle σ → Prop}
  {s : Session σ} {flags : List Bool}

/-- The files of the session are those of the backend, and each that the backend has closed
    is closed. -/
structure Mirrors (J : Bool → List Bool → σ → Prop) (hdl : Nat → FileHandle σ → Prop)
    (s : Session σ) (flags : List Bool) : Prop where
  world : J s.closed flags s.world
  length : flags.length = s.files.length
  handle : ∀ (f : Nat) (file : Opened σ), s.files[f]? = some file → hdl f file.handle
  closed : ∀ (f : Nat) (file : Opened σ), s.files[f]? = some file → flags[f]? = some true → file.closed = true

/-- What every call keeps: the mirror, and the closing of the session. -/
def Held (J : Bool → List Bool → σ → Prop) (hdl : Nat → FileHandle σ → Prop) (c : Bool)
    (s : Session σ) : Prop :=
  (c = true → s.closed = true) ∧ ∃ flags, Mirrors J hdl s flags

/-- What a call on the backend does, a session may let its caller see. -/
theorem wp_onBackend {α : Type} {m : Prog Error σ α} {p : Post KernelError (Session σ) α} :
    wp (onBackend m) p s ↔ wp m ⟨fun a w => p.ret a { s with world := w },
      fun e w => p.fail (.ofCore e) { s with world := w }, p.stop⟩ s.world := by
  rw [onBackend, wp_mapErr, wp_zoom]

/-- A call that is refused, or goes to the backend. -/
theorem wp_onPath {α : Type} {p : String} {m : VfsPath → Prog Error σ α}
    {q : Post KernelError (Session σ) α} (hfail : ∀ e, q.fail e s)
    (hm : ∀ vpath, wp (onBackend (m vpath)) q s) : wp (onPath p m) q s := by
  simp only [onPath, ensureOpen, path, wp_bind, wp_current, wp_mapErr, wp_ofExcept]
  refine wp_ite (fun _ => hfail _) fun _ => ?_
  rw [wp_pure]
  split
  · exact hfail _
  · exact hm _

theorem wp_onPaths {α : Type} {src dst : String} {m : VfsPath → VfsPath → Prog Error σ α}
    {q : Post KernelError (Session σ) α} (hfail : ∀ e, q.fail e s)
    (hm : ∀ p p', wp (onBackend (m p p')) q s) : wp (onPaths src dst m) q s := by
  simp only [onPaths, ensureOpen, path, wp_bind, wp_current, wp_mapErr, wp_ofExcept]
  refine wp_ite (fun _ => hfail _) fun _ => ?_
  rw [wp_pure]
  split
  · exact hfail _
  · split
    · exact hfail _
    · exact hm _ _

/-- The world moves on under the files. -/
theorem Mirrors.onWorld {w : σ} (hm : Mirrors J hdl s flags) (hw : J s.closed flags w) :
    Mirrors J hdl { s with world := w } flags := ⟨hw, hm.length, hm.handle, hm.closed⟩

/-- A call on paths. -/
theorem Mirrors.onBackend {α : Type} {m : Prog Error σ α} (hm : Mirrors J hdl s flags)
    (h : wp m (keeping (J s.closed flags)) s.world) :
    wp (onBackend m) (keeping (Held J hdl s.closed)) s :=
  wp_onBackend.mpr (wp_mono h (fun _ _ hw => ⟨id, flags, hm.onWorld hw⟩)
    (fun _ _ hw => ⟨id, flags, hm.onWorld hw⟩) (fun _ h => h))

/-- An open that succeeded. -/
theorem Mirrors.opened {file : Opened σ} {w : σ} (hm : Mirrors J hdl s flags)
    (hw : J s.closed (flags ++ [false]) w) (hfile : hdl flags.length file.handle) :
    Mirrors J hdl { s with world := w, files := s.files ++ [file] } (flags ++ [false]) where
  world := hw
  length := by simp [hm.length]
  handle := by
    intro f file' hf
    rcases Lts.getElem?_concat_cases hf with hf | ⟨hlast, rfl⟩
    · exact hm.handle f file' hf
    · rwa [hlast, ← hm.length]
  closed := by
    intro f file' hf hflag
    rcases Lts.getElem?_concat_cases hflag with hflag | ⟨-, hlast⟩
    · rcases Lts.getElem?_concat_cases hf with hf | ⟨hlast, -⟩
      · exact hm.closed f file' hf hflag
      · have hlt := (List.getElem?_eq_some_iff.mp hflag).1
        have hlen := hm.length
        omega
    · cases hlast

/-- A method of a file that leaves it open. -/
theorem Mirrors.putFile {f : Nat} {file : Opened σ} {r : RemoteFile σ} {flags' : List Bool}
    (hm : Mirrors J hdl s flags) (hf : s.files[f]? = some file) (hw : J s.closed flags' r.world)
    (hflags : ∀ g : Nat, flags'[g]? = some true → flags[g]? = some true ∨ g = f ∧ r.closed = true)
    (hlen : flags'.length = flags.length) (hclosed : file.closed = true → r.closed = true) :
    Mirrors J hdl (s.putFile f r) flags' where
  world := hw
  length := by simp [Session.putFile, hlen, hm.length]
  handle := by
    intro g file' hg
    simp only [Session.putFile, List.getElem?_modify, Option.map_eq_map, Option.map_eq_some_iff] at hg
    obtain ⟨old, hold, rfl⟩ := hg
    have hhdl := hm.handle g old hold
    by_cases hfg : f = g
    · rwa [if_pos hfg]
    · rwa [if_neg hfg]
  closed := by
    intro g file' hg hflag
    simp only [Session.putFile, List.getElem?_modify, Option.map_eq_map, Option.map_eq_some_iff] at hg
    obtain ⟨old, hold, rfl⟩ := hg
    by_cases hfg : f = g
    · -- the file itself
      subst hfg
      rw [if_pos rfl]
      obtain rfl : file = old := by simpa [hf] using hold
      rcases hflags f hflag with hflag | ⟨-, hc⟩
      · exact hclosed (hm.closed f file hf hflag)
      · exact hc
    · rw [if_neg hfg]
      -- another file is as it was, and so is its flag
      rcases hflags g hflag with hflag | ⟨hgf, -⟩
      · exact hm.closed g old hold hflag
      · exact absurd hgf.symm hfg

/-- A method of a file that there is. -/
theorem wp_onFile {α : Type} {f : Nat} {m : FileHandle σ → Prog KernelError (RemoteFile σ) α}
    {p : Post KernelError (Session σ) α} {file : Opened σ} (hf : s.files[f]? = some file) :
    wp (onFile f m) p s ↔ wp (m file.handle)
      ⟨fun a r => p.ret a (s.putFile f r), fun e r => p.fail e (s.putFile f r), p.stop⟩
      ⟨s.world, file.len, file.closed⟩ := by
  have hrun : onFile f m s
      = zoom (fun s => ⟨s.world, file.len, file.closed⟩) (putFile f) (m file.handle) s := by
    simp only [onFile, hf]
  rw [wp, hrun]
  exact wp_zoom _ _ _

/-- **One call** keeps the mirror, however it ends. -/
theorem perform_keeps (ht : Tracks b J hdl) (hm : Mirrors J hdl s flags) (call : Call) :
    wp (perform b call) (keeping (Held J hdl s.closed)) s := by
  have hself : Held J hdl s.closed s := ⟨id, flags, hm⟩
  have hpure : ∀ {α β : Type} {m : Prog KernelError (Session σ) α} (g : α → β),
      wp m (keeping (Held J hdl s.closed)) s →
      wp (m >>= fun a => pure (g a)) (keeping (Held J hdl s.closed)) s :=
    fun _ hm => wp_bind_keeping hm fun _ _ h => h
  have honPath : ∀ {α : Type} {m : VfsPath → Prog Error σ α} (p : String),
      (∀ v, wp (m v) (keeping (J s.closed flags)) s.world) →
      wp (onPath p m) (keeping (Held J hdl s.closed)) s :=
    fun _ hm' => wp_onPath (fun _ => hself) fun v => hm.onBackend (hm' v)
  have honPaths : ∀ {α : Type} {m : VfsPath → VfsPath → Prog Error σ α} (src dst : String),
      (∀ v v', wp (m v v') (keeping (J s.closed flags)) s.world) →
      wp (onPaths src dst m) (keeping (Held J hdl s.closed)) s :=
    fun _ _ hm' => wp_onPaths (fun _ => hself) fun v v' => hm.onBackend (hm' v v')
  cases call with
  | list p => exact hpure _ (hpure _ (honPath p fun v => ht.list _ _ v _ hm.world))
  | stat p => exact hpure _ (hpure _ (honPath p fun v => ht.stat _ _ v _ hm.world))
  | mkdir p => exact hpure _ (honPath p fun v => ht.mkdir _ _ v _ hm.world)
  | removeFile p => exact hpure _ (honPath p fun v => ht.removeFile _ _ v _ hm.world)
  | removeDir p => exact hpure _ (honPath p fun v => ht.removeDir _ _ v _ hm.world)
  | rename src dst => exact hpure _ (honPaths src dst fun v v' => ht.rename _ _ v v' _ hm.world)
  | copy src dst => exact hpure _ (honPaths src dst fun v v' => ht.copy _ _ v v' _ hm.world)
  | openFile p flags' =>
    refine hpure _ ((wp_bind _ _).mpr (wp_onPath (fun _ => hself) fun v => ?_))
    refine wp_onBackend.mpr (wp_mono (ht.openFile _ _ v _ _ hm.world) ?_
      (fun _ _ hw => ⟨id, flags, hm.onWorld hw⟩) (fun _ h => h))
    rintro h w ⟨hhdl, hw⟩
    exact ⟨id, flags ++ [false], hm.opened hw hhdl⟩
  | disconnect =>
    apply hpure _
    simp only [disconnect, wp_bind, wp_current, wp_update]
    by_cases hc : s.closed = true
    · rw [if_pos hc]
      exact ⟨fun _ => rfl, flags, ⟨hc ▸ hm.world, hm.length, hm.handle, hm.closed⟩⟩
    · rw [if_neg hc, wp_onBackend]
      refine wp_keeping_mono (ht.shutdown _ flags s.world hm.world) fun w hw => ?_
      exact ⟨fun _ => rfl, flags, ⟨hw, hm.length, hm.handle, hm.closed⟩⟩
  | file f call =>
    show wp (onFile f fun h => RemoteFile.perform h call) (keeping (Held J hdl s.closed)) s
    rcases hf : s.files[f]? with _ | file
    · simp only [wp, onFile, hf]
      trivial
    rw [wp_onFile hf]
    have hhdl := hm.handle f file hf
    by_cases hcall : call = .release
    · subst hcall
      -- the backend has closed the file now, unless it was closed before
      by_cases hc : file.closed = true
      · refine wp_keeping_mono (RemoteFile.release_keeps (J s.closed flags) (fun _ => hm.world)
          fun hopen => by simp [hc] at hopen) ?_
        rintro r ⟨hw, hr⟩
        exact ⟨id, flags, hm.putFile hf hw (fun g hg => .inl hg) rfl fun _ => hr⟩
      · refine wp_keeping_mono (RemoteFile.release_keeps (J s.closed (flags.set f true))
          (fun hclosed => absurd hclosed hc) fun _ => ht.close _ flags f _ _ hhdl hm.world) ?_
        rintro r ⟨hw, hr⟩
        refine ⟨id, flags.set f true, hm.putFile hf hw (fun g hg => ?_) (by simp) fun _ => hr⟩
        rcases Lts.getElem?_set_cases hg with ⟨hfg, -⟩ | ⟨-, hg⟩
        · exact .inr ⟨hfg.symm, hr⟩
        · exact .inl hg
    · have hleaves := RemoteFile.perform_leaves (r := ⟨s.world, file.len, file.closed⟩)
        (ht.file s.closed flags f _ hhdl) hcall hm.world
      apply wp_keeping_mono (wp_keeping_of_ending hleaves)
      rintro r ⟨hw, hr⟩
      exact ⟨id, flags, hm.putFile hf hw (fun g hg => .inl hg) rfl fun hc => hr.trans hc⟩

/-- **Step lemma.** -/
theorem step_held (ht : Tracks b J hdl) {c : Bool} {s' : Session σ} {call : Call}
    (h : Held J hdl c s) (hstep : step b s call = some s') : Held J hdl c s' := by
  obtain ⟨hc, flags, hm⟩ := h
  unfold step at hstep
  split at hstep
  · next r s'' hrun =>
    obtain rfl := Option.some.inj hstep
    obtain ⟨hc', hm'⟩ := keeping_of_run (perform_keeps ht hm call) hrun
    exact ⟨fun h => hc' (hc h), hm'⟩
  · cases hstep

end Session

end Krystallos.Ffi
