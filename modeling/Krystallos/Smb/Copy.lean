import Krystallos.Smb.Libsmb2

namespace Krystallos.Smb

open Checked Prog

/-!
# `copy_file`

The copy of one file, as `actor.rs` does it: two handles, a size query, COPYCHUNK with its
limit negotiation, and the fallback that moves the bytes through this process.  Each loop is
given fuel.
-/

/-- Initial per-request copy size. -/
def copyChunkBytes : Nat := 1024 * 1024

/-- Why a server-side copy did not finish. -/
inductive CopyFailed
  | unsupported
  | error (e : Error)
deriving DecidableEq, Repr

/-- Whether a status means "this server does not do server-side copies". -/
def isCopyUnsupported (status : Nat) : Bool :=
  status ∈ [Status.notSupported, Status.invalidDeviceRequest, Status.ctlFileNotSupported]

variable {W ε α : Type}

/-- Decide whether a failed copy is worth retrying without the server's help. -/
def classifyCopyFailure (lib : Libsmb2 W) (rc : Int) : Prog CopyFailed (Ctx W) α := do
  let s ← current
  if isCopyUnsupported (lib.nterror s.world) then fail .unsupported
  else do
    let e ← ctxError lib rc "copy"
    fail (.error e)

/-- One turn of the server-side loop, with the chunk size in force and the offset reached. -/
def copyServerSideTurn (lib : Libsmb2 W) (key : List UInt8) (dst : Fh) (size : Nat) :
    Nat × Nat → Prog CopyFailed (Ctx W) (Turn (Nat × Nat) Nat) := fun (chunkBytes, offset) => do
  if offset < size then do
    let length := min chunkBytes (castU 32 (min (size - offset) (umax 32)))
    let (rc, reply) ← ffi lib (.copychunk key dst ⟨offset, offset, length⟩)
    if rc = 0 then
      if reply.totalBytesWritten = 0 then
        fail (.error (.backend "the server reported a copy of zero bytes"))
      else do
        let offset' ← checked (addU 64 offset reply.totalBytesWritten)
        pure (.again (chunkBytes, offset'))
    else if 0 < reply.chunkBytesWritten ∧ reply.chunkBytesWritten < chunkBytes then
      pure (.again (reply.chunkBytesWritten, offset))
    else classifyCopyFailure lib rc
  else pure (.leave offset)

/-- Ask the server to copy `size` bytes from `src` to `dst`. -/
def copyServerSide (lib : Libsmb2 W) (src dst : Fh) (size fuel : Nat) :
    Prog CopyFailed (Ctx W) Nat := do
  let (rc, key) ← ffi lib (.requestResumeKey src)
  if rc ≠ 0 then classifyCopyFailure lib rc
  else iterate fuel (copyServerSideTurn lib key dst size) (copyChunkBytes, 0)

/-- A buffer after the library wrote `bytes` into its first `want` bytes. -/
def fillBuf (buf : List UInt8) (want : Nat) (bytes : List UInt8) : List UInt8 :=
  bytes.take want ++ buf.drop (min want bytes.length)

/-- One turn of the loop that writes `buf[..read]` at `offset`, with `written` bytes done. -/
def writeTurn (lib : Libsmb2 W) (dst : Fh) (buf : List UInt8) (read : Int) (offset : Nat)
    (written : Int) : Prog Error (Ctx W) (Turn Int Unit) := do
  if written < read then do
    let pos ← checked (addU 64 offset written.toNat)
    let n : Int ← ffi lib (.pwrite dst ((buf.drop written.toNat).take (read - written).toNat) pos)
    if n ≤ 0 then failWith lib n "copy (write)"
    else do
      let written' ← checked (addI 32 written n)
      pure (.again written')
  else pure (.leave ())

/-- One turn of the fallback's loop, with the offset reached and the buffer. -/
def copyThroughHereTurn (lib : Libsmb2 W) (src dst : Fh) (size fuel : Nat) :
    Nat × List UInt8 → Prog Error (Ctx W) (Turn (Nat × List UInt8) Nat) := fun (offset, buf) => do
  if offset < size then do
    let want := castU 32 (min (size - offset) buf.length)
    let (read, bytes) ← ffi lib (.pread src want offset)
    let buf := fillBuf buf want bytes
    if read < 0 then failWith lib read "copy (read)"
    else if read = 0 then pure (.leave offset)
    else do
      iterate fuel (writeTurn lib dst buf read offset) 0
      let offset' ← checked (addU 64 offset read.toNat)
      pure (.again (offset', buf))
  else pure (.leave offset)

/-- The fallback: read the source and write the destination from this process. -/
def copyThroughHere (lib : Libsmb2 W) (src dst : Fh) (size fuel : Nat) :
    Prog Error (Ctx W) Nat :=
  iterate fuel (copyThroughHereTurn lib src dst size fuel)
    (0, List.replicate copyChunkBytes 0)

/-- While an `FhGuard` is alive, a panic closes its handle. -/
def guarding (lib : Libsmb2 W) (fh : Fh) (body : Prog ε (Ctx W) α) : Prog ε (Ctx W) α :=
  onPanic (fun s => s.after lib (.close fh)) body

/-- A guard says nothing of where its body ends, but for a panic. -/
@[simp] theorem wp_guarding {lib : Libsmb2 W} {fh : Fh} {body : Prog ε (Ctx W) α}
    {p : Post ε (Ctx W) α} {s : Ctx W} : wp (guarding lib fh body) p s ↔ wp body p s :=
  wp_onPanic _ body

/-- `FhGuard`: the handle is closed when the body is left, however that is. -/
def withGuard (lib : Libsmb2 W) (fh : Fh) (body : Prog ε (Ctx W) α) : Prog ε (Ctx W) α := do
  let r ← capture (guarding lib fh body)
  let _ ← ffi lib (.close fh)
  ofExcept r

/-- The handle is closed wherever the body ends. -/
theorem wp_withGuard {lib : Libsmb2 W} {fh : Fh} {body : Prog ε (Ctx W) α}
    {p : Post ε (Ctx W) α} {s : Ctx W} :
    wp (withGuard lib fh body) p s ↔
      wp body ⟨fun a s' => p.ret a (s'.after lib (.close fh)),
        fun e s' => p.fail e (s'.after lib (.close fh)), p.stop⟩ s := by
  simp only [withGuard, wp_bind, wp_capture, wp_guarding, wp_ffi, wp_ofExcept]

/-- Move the bytes: by the server, or through here where it does not do that. -/
def copyBytes (lib : Libsmb2 W) (src dst : Fh) (size fuel : Nat) : Prog Error (Ctx W) Nat := do
  let served ← capture (copyServerSide lib src dst size fuel)
  match served with
  | .ok copied => pure copied
  | .error .unsupported => copyThroughHere lib src dst size fuel
  | .error (.error e) => fail e

/-- The flags the source is opened with. -/
def sourceFlags : OpenFlags := ⟨.rdonly, false, false, false⟩

/-- The flags the destination is created with. -/
def destinationFlags : OpenFlags := ⟨.wronly, true, true, false⟩

/-- What follows once the destination was created: an empty source is done, a failed copy
    closes and removes what it created. -/
def copyInto (lib : Libsmb2 W) (src dst : Fh) (smbTo : String) (size fuel : Nat) :
    Prog Error (Ctx W) Nat := do
  if size = 0 then withGuard lib dst (pure 0)
  else do
    let outcome ← capture (guarding lib dst (copyBytes lib src dst size fuel))
    let _ ← ffi lib (.close dst)
    match outcome with
    | .ok copied => pure copied
    | .error e => do
      let _ ← ffi lib (.unlink smbTo)
      fail e

/-- The size a query of it gave: a query that failed counts as zero. -/
def reportedSize (reply : Int × Stat) : Nat := if reply.1 = 0 then reply.2.size else 0

/-- What follows once the source was opened. -/
def copyFrom (lib : Libsmb2 W) (src : Fh) (toPath : VfsPath) (smbTo : String) (fuel : Nat) :
    Prog Error (Ctx W) Nat := do
  let size := reportedSize (← ffi lib (.fstat src))
  let dst ← ffi lib (.openFile smbTo destinationFlags)
  match dst with
  | none => failWith lib 0 toPath.str
  | some dst => copyInto lib src dst smbTo size fuel

/-- Copy a single file. -/
def copyFile (lib : Libsmb2 W) (fromPath toPath : VfsPath) (fuel : Nat) : Prog Error (Ctx W) Nat := do
  let smbFrom ← ofExcept (cstring (toSmbPath fromPath))
  let smbTo ← ofExcept (cstring (toSmbPath toPath))
  let src ← ffi lib (.openFile smbFrom sourceFlags)
  match src with
  | none => failWith lib 0 fromPath.str
  | some src => withGuard lib src (copyFrom lib src toPath smbTo fuel)

end Krystallos.Smb
