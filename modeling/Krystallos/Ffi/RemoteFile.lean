import Krystallos.Smb.MemServer
import Krystallos.Smb.RemoteFile

namespace Krystallos.Ffi

open Checked Prog Slices

/-!
# The file object of the FFI

`RemoteFile` of `krystallos-ffi`, over any `FileHandle`.  Its `read_at` loops until it has
what was asked for or the handle reads nothing, so that a short result means end-of-file.
Over an SMB file that holds for every transfer size the server may negotiate but one:
`readAt_exact_iff`.
-/

/-- A failure the Android side can act on. -/
inductive KernelError
  | notFound (path : String)
  | permissionDenied (path : String)
  | alreadyExists (path : String)
  | notADirectory (path : String)
  | isADirectory (path : String)
  | directoryNotEmpty (path : String)
  | invalidPath (path reason : String)
  | unsupported (operation : String)
  | connectionLost (detail : String)
  | auth (detail : String)
  | backend (detail : String)
deriving DecidableEq, Repr

/-- `From<CoreError>`. -/
def KernelError.ofCore : Error → KernelError
  | .notFound path => .notFound path
  | .permissionDenied path => .permissionDenied path
  | .alreadyExists path => .alreadyExists path
  | .notADirectory path => .notADirectory path
  | .isADirectory path => .isADirectory path
  | .directoryNotEmpty path => .directoryNotEmpty path
  | .invalidPath path reason => .invalidPath path reason
  | .unsupported operation => .unsupported operation
  | .connectionLost message => .connectionLost message
  | .auth message => .auth message
  | .backend message => .backend message
  | .io e => .backend e.text

/-- Reject a call on a session or file that has already been closed. -/
def alreadyClosed (what : String) : KernelError :=
  .connectionLost ("this " ++ what ++ " has already been closed")

/-- Bytes read from a file. -/
structure ByteRange where
  offset : Nat
  data : List UInt8
deriving DecidableEq, Repr

/-- A file's `len` and `closed`, and the world its handle acts on. -/
structure RemoteFile (σ : Type) where
  world : σ
  len : Nat
  closed : Bool

namespace RemoteFile

variable {σ α : Type}

/-- A call on the handle. -/
def onHandle (m : Prog Error σ α) : Prog KernelError (RemoteFile σ) α :=
  mapErr .ofCore (zoom RemoteFile.world (fun w s => { s with world := w }) m)

/-- `handle`: the handle of a file that is not closed. -/
def handle (h : FileHandle σ) : Prog KernelError (RemoteFile σ) (FileHandle σ) := do
  let s ← current
  if s.closed then fail (alreadyClosed "file") else pure h

/-- One turn of the loop of `read_at`, with `buf[..filled]`. -/
def fillTurn (h : FileHandle σ) (offset len : Nat) (buf : List UInt8) :
    Prog KernelError (RemoteFile σ) (Turn (List UInt8) (List UInt8)) := do
  if buf.length < len then do
    let pos ← checked (addU 64 offset buf.length)
    let bytes ← onHandle (h.readAt pos (len - buf.length))
    if bytes = [] then pure (.leave buf) else pure (.again (buf ++ bytes))
  else pure (.leave buf)

/-- Read up to `len` bytes starting at `offset`. Every turn but the last reads a byte. -/
def readAt (h : FileHandle σ) (offset len : Nat) :
    Prog KernelError (RemoteFile σ) ByteRange := do
  let h ← handle h
  let buf ← iterate (len + 1) (fillTurn h offset len) []
  pure ⟨offset, buf⟩

/-- Read exactly `len` bytes, or fail. -/
def readExactAt (h : FileHandle σ) (offset len : Nat) :
    Prog KernelError (RemoteFile σ) ByteRange := do
  let h ← handle h
  if len = 0 then pure ⟨offset, []⟩
  else do
    let buf ← onHandle (h.readExactAt offset len)
    pure ⟨offset, buf⟩

/-- Write `data` at `offset`, returning how many bytes were accepted. -/
def writeAt (h : FileHandle σ) (offset : Nat) (data : List UInt8) :
    Prog KernelError (RemoteFile σ) Nat := do
  let h ← handle h
  let n ← onHandle (h.writeAt offset data)
  let fileEnd ← checked (addU 64 offset n)
  update fun s => { s with len := max s.len fileEnd }
  pure n

/-- Truncate or extend the file. -/
def setLen (h : FileHandle σ) (len : Nat) : Prog KernelError (RemoteFile σ) Unit := do
  let h ← handle h
  onHandle (h.setLen len)
  update fun s => { s with len := len }

/-- Push buffered writes to the backend. -/
def flush (h : FileHandle σ) : Prog KernelError (RemoteFile σ) Unit := do
  let h ← handle h
  onHandle h.flush

/-- Release the handle. A lost connection has released it already. -/
def release (h : FileHandle σ) : Prog KernelError (RemoteFile σ) Unit := do
  let s ← current
  update fun s => { s with closed := true }
  if s.closed then pure ()
  else do
    let closed ← capture (zoom RemoteFile.world (fun w s => { s with world := w }) h.close)
    match closed with
    | .ok () => pure ()
    | .error (.connectionLost _) => pure ()
    | .error e => fail (.ofCore e)

end RemoteFile

open RemoteFile

variable {σ α : Type} {I : σ → Prop} {F : List UInt8} {h : FileHandle σ} {offset len : Nat}

/-- A call on the handle, with its errors under their other name. -/
theorem wp_onHandle {m : Prog Error σ α} {p : Post KernelError (RemoteFile σ) α}
    {s : RemoteFile σ} :
    wp (onHandle m) p s ↔ wp m ⟨fun a w => p.ret a { s with world := w },
      fun e w => p.fail (.ofCore e) { s with world := w }, p.stop⟩ s.world := by
  rw [onHandle, wp_mapErr, wp_zoom]

/-- The handle of a file that is open. -/
theorem wp_handle {p : Post KernelError (RemoteFile σ) (FileHandle σ)} {s : RemoteFile σ}
    (hopen : s.closed = false) : wp (handle h) p s ↔ p.ret h s := by
  simp only [handle, wp_bind, wp_current, hopen]
  rfl

/-- What holds at the head of the loop: `buf` is what the file has at `offset`. -/
def Filled (I : σ → Prop) (F : List UInt8) (offset len : Nat) (buf : List UInt8)
    (s : RemoteFile σ) : Prop :=
  I s.world ∧ buf = slice F offset buf.length ∧ buf.length ≤ len

/-- The loop ends with everything the request covers. -/
def filledPost (F : List UInt8) (offset len : Nat) :
    Post KernelError (RemoteFile σ) (List UInt8) where
  ret := fun buf _ => buf = slice F offset len
  fail := fun _ _ => False
  stop := fun _ => False

/-- A handle whose reads succeed, with a part of `F` that is empty only at the end. -/
def ReadsAll (h : FileHandle σ) (I : σ → Prop) (F : List UInt8) : Prop :=
  ∀ offset len w, offset < 2 ^ 64 → I w →
    wp (h.readAt offset len) ⟨fun bs w' => I w' ∧ ShortRead F offset len bs,
      fun _ _ => False, fun _ => False⟩ w

/-- **One turn** of `read_at` adds what comes next, or ends the loop with all there is. -/
theorem wp_fillTurn (hF : F.length < 2 ^ 64) (hoff : offset < 2 ^ 64) (hreads : ReadsAll h I F)
    (buf : List UInt8) (s : RemoteFile σ) (hs : Filled I F offset len buf s) :
    wp (fillTurn h offset len buf)
      (turnPost (Filled I F offset len) (fun buf _ => len - buf.length) (filledPost F offset len)
        (len - buf.length)) s := by
  obtain ⟨hI, hbuf, hle⟩ := hs
  refine wp_ite (fun hlt => ?_) (fun hfull => ?_)
  · have hpos : offset + buf.length < 2 ^ 64 := add_length_lt_of_eq_slice hbuf hF hoff
    simp only [wp_bind, wp_checked_ok (addU_ok hpos), wp_onHandle]
    refine wp_mono (hreads _ (len - buf.length) s.world hpos hI) ?_ (fun _ _ => False.elim)
      (fun _ => False.elim)
    rintro bytes w ⟨hI', hshort⟩
    refine wp_ite (fun hnil => ?_) (fun hne => ?_)
    · -- the file ends here
      subst hnil
      exact (hshort.slice_eq hbuf hlt).symm
    · have hfits := length_append_le_of_rest hlt hshort.fits
      exact ⟨⟨hI', hshort.append hbuf, hfits⟩, rest_append_lt hlt hne⟩
  · show buf = slice F offset len
    rw [show len = buf.length by omega, ← hbuf]

/-- **A short result means end-of-file**, over any handle that keeps its contract. -/
theorem wp_readAt (hF : F.length < 2 ^ 64) (hoff : offset < 2 ^ 64) (hreads : ReadsAll h I F)
    {s : RemoteFile σ} (hI : I s.world) (hopen : s.closed = false) :
    wp (readAt h offset len) ⟨fun r _ => r = ⟨offset, slice F offset len⟩,
      fun _ _ => False, fun _ => False⟩ s := by
  have hloop : wp (iterate (len + 1) (fillTurn h offset len) []) (filledPost F offset len) s :=
    wp_iterate (Filled I F offset len) (fun buf _ => len - buf.length)
      (wp_fillTurn hF hoff hreads) ⟨hI, by simp, Nat.zero_le _⟩ (.inl (by simp))
  simp only [readAt, wp_bind, wp_handle hopen]
  refine wp_mono hloop ?_ (fun _ _ => False.elim) (fun _ => False.elim)
  rintro buf s' rfl
  rfl

/-! ### Over an SMB file -/

variable {W : Type} {lib : Smb.Libsmb2 W} {J : W → Prop} {fh : Smb.Fh} {file : Smb.RemoteFile}

/-- With a transfer size that is not zero, an SMB file keeps the contract. -/
theorem readsAll_remote (hpread : Smb.Preads lib J fh F) (hmax : 0 < file.limits.maxRead) :
    ReadsAll (file.asHandle lib) (Smb.OpenOn J fh file) F := by
  intro offset len s hoff hs
  refine wp_mono (Smb.wp_remoteReadAt hpread hoff len hs) ?_ (fun _ _ => False.elim)
    (fun _ => False.elim)
  rintro bs s' ⟨hs', hshort⟩
  exact ⟨hs', hshort.of_le (Nat.min_le_left _ _) (by omega)⟩

/-- With a transfer size of zero, it reads like an empty file. -/
theorem readsAll_remote_zero (hpread : Smb.Preads lib J fh F) (hmax : file.limits.maxRead = 0) :
    ReadsAll (file.asHandle lib) (Smb.OpenOn J fh file) [] := by
  intro offset len s hoff hs
  refine wp_mono (Smb.wp_remoteReadAt hpread hoff len hs) ?_ (fun _ _ => False.elim)
    (fun _ => False.elim)
  rintro bs s' ⟨hs', hshort⟩
  have hfits := hshort.fits
  rw [hmax, Nat.min_zero] at hfits
  obtain rfl : bs = [] := List.eq_nil_of_length_eq_zero (Nat.le_zero.mp hfits)
  exact ⟨hs', by simp, Nat.zero_le _, fun _ => by simp⟩

/-- **Through the whole stack a short result means end-of-file**, if and only if the
    negotiated read size is not zero, or the request covers nothing of the file. -/
theorem readAt_exact_iff (F : FileContent) (hpread : Smb.Preads lib J fh F.bytes)
    (s : RemoteFile (Smb.Client W)) (hfile : Smb.OpenOn J fh file s.world)
    (hopen : s.closed = false) (offset len : Nat) (hoff : offset < 2 ^ 64) :
    (∃ s', readAt (file.asHandle lib) offset len s
        = .ok (.ok ⟨offset, slice F.bytes offset len⟩, s')) ↔
      0 < file.limits.maxRead ∨ len = 0 ∨ F.bytes.length ≤ offset := by
  constructor
  · rintro ⟨s', hrun⟩
    -- a handle without a maximum reads nothing, where there is something
    by_contra hnot
    simp only [not_or, Nat.not_lt, Nat.le_zero, not_le] at hnot
    obtain ⟨hmax, hlen, hin⟩ := hnot
    have hnil := wp_ret (wp_readAt (by simp) hoff (readsAll_remote_zero hpread hmax) hfile hopen)
      hrun
    have hlength := congrArg (fun r => r.data.length) hnil
    simp only [length_slice, List.length_nil] at hlength
    omega
  · intro hcond
    have hread : wp (readAt (file.asHandle lib) offset len)
        ⟨fun r _ => r = ⟨offset, slice F.bytes offset len⟩, fun _ _ => False, fun _ => False⟩ s := by
      by_cases hmax : file.limits.maxRead = 0
      · -- nothing is covered, and nothing is read
        have hnil : slice F.bytes offset len = slice [] offset len := by
          rcases hcond with hpos | hlen | hend
          · omega
          · rw [hlen, slice_zero, slice_zero]
          · rw [slice_of_length_le hend, slice_of_length_le (Nat.zero_le _)]
        rw [hnil]
        exact wp_readAt (by simp) hoff (readsAll_remote_zero hpread hmax) hfile hopen
      · exact wp_readAt F.bound hoff (readsAll_remote hpread (Nat.pos_of_ne_zero hmax)) hfile hopen
    obtain ⟨r, s', hrun, rfl⟩ := exists_of_wp hread
    exact ⟨s', hrun⟩

/-- A server in memory with one file, of five bytes, which is open. -/
def oneOpen : Smb.MemServer :=
  ((Smb.MemServer.holding "a" (.file [1, 2, 3, 4, 5])).give "a").2

/-- What a task sees of that file. -/
def oneClient : RemoteFile (Smb.Client Smb.MemServer) :=
  ⟨⟨⟨⟨oneOpen, []⟩, Smb.OpenFiles.empty.add 1⟩, false, 5⟩, 5, false⟩

/-- The file, with the read size negotiated. -/
def oneFile (maxRead : Nat) (h : maxRead < 2 ^ 32) : Smb.RemoteFile :=
  ⟨1, ⟨"/a"⟩, ⟨maxRead, 0, h, by decide⟩⟩

/-- The credits cover one byte at a time. -/
def oneByte : Smb.Quirks := { Smb.Quirks.none with credits := 0 }

theorem preads_oneOpen : Smb.Preads (Smb.MemServer.lib oneByte) (· = oneOpen) 1 [1, 2, 3, 4, 5] := by
  rintro count offset m - - rfl
  refine ⟨rfl, rfl, ?_⟩
  exact (shortRead_slice _ offset (min count (0 + 1))).of_le (Nat.min_le_left _ _) (by omega)

/-- Read one byte at a time, a range is still complete. -/
theorem readAt_exact_oneByte : ∃ s',
    readAt ((oneFile 2 (by decide)).asHandle (Smb.MemServer.lib oneByte)) 1 3 oneClient
      = .ok (.ok ⟨1, slice [1, 2, 3, 4, 5] 1 3⟩, s') :=
  (readAt_exact_iff ⟨[1, 2, 3, 4, 5], by decide⟩ preads_oneOpen oneClient ⟨rfl, rfl, rfl⟩ rfl 1 3
    (by decide)).mpr (.inl (by decide))

/-- A server that negotiates a read size of zero makes every file read as empty. -/
theorem readAt_zero_reads_nothing :
    Smb.Preads (Smb.MemServer.lib oneByte) (· = oneOpen) 1 [1, 2, 3, 4, 5] ∧
    Smb.OpenOn (· = oneOpen) 1 (oneFile 0 (by decide)) oneClient.world ∧
    (∃ s', readAt ((oneFile 0 (by decide)).asHandle (Smb.MemServer.lib oneByte)) 0 3 oneClient
      = .ok (.ok ⟨0, []⟩, s')) ∧
    slice ([1, 2, 3, 4, 5] : List UInt8) 0 3 ≠ [] :=
  ⟨preads_oneOpen, ⟨rfl, rfl, rfl⟩, ⟨_, rfl⟩, by decide⟩

end Krystallos.Ffi
