import Krystallos.Core.Backend
import Krystallos.Smb.Error

namespace Krystallos.Smb

open Checked Prog

/-!
# libsmb2

The library is not part of the repository: it is a parameter, `Libsmb2 W`, that answers the
calls the session thread makes and may do so in any way.  A program over `Ctx W` makes its
calls through `ffi`, which keeps the list of calls and answers, so that what the code does
with its handles can be read off.
-/

/-- A `smb2fh *` that is not null. -/
abbrev Fh := Nat

/-- A `smb2dir *` that is not null. -/
abbrev Dir := Nat

/-- The fields of `smb2_stat_64` that the program reads. -/
structure Stat where
  smb2Type : Nat
  size : Nat
  atime : Nat
  atimeNsec : Nat
  mtime : Nat
  mtimeNsec : Nat
  btime : Nat
  btimeNsec : Nat
  attributes : Nat
deriving DecidableEq, Repr

/-- `smb2_srv_copychunk`. -/
structure CopyChunk where
  sourceOffset : Nat
  targetOffset : Nat
  length : Nat
deriving DecidableEq, Repr

/-- `smb2_srv_copychunk_reply`. -/
structure CopyReply where
  chunksWritten : Nat
  chunkBytesWritten : Nat
  totalBytesWritten : Nat
deriving DecidableEq, Repr

/-- `O_RDONLY`, `O_WRONLY` or `O_RDWR`. -/
inductive Access
  | rdonly
  | wronly
  | rdwr
deriving DecidableEq, Repr

/-- The `O_*` flags of an open. -/
structure OpenFlags where
  access : Access
  creat : Bool
  excl : Bool
  trunc : Bool
deriving DecidableEq, Repr

/-- The calls made on a connected context. -/
inductive Call
  | opendir (path : String)
  | readdir (dir : Dir)
  | closedir (dir : Dir)
  | stat (path : String)
  | mkdir (path : String)
  | unlink (path : String)
  | rmdir (path : String)
  | rename (old new : String)
  | openFile (path : String) (flags : OpenFlags)
  | close (fh : Fh)
  | fstat (fh : Fh)
  | pread (fh : Fh) (count offset : Nat)
  | pwrite (fh : Fh) (data : List UInt8) (offset : Nat)
  | ftruncate (fh : Fh) (len : Nat)
  | fsync (fh : Fh)
  | requestResumeKey (fh : Fh)
  | copychunk (key : List UInt8) (fh : Fh) (chunk : CopyChunk)
  | disconnectShare
  | destroyContext
deriving DecidableEq, Repr

/-- What a call answers: its return value, and what it wrote where a pointer was passed. -/
def Call.Reply : Call → Type
  | .opendir _ => Option Dir
  | .readdir _ => Option (Option String × Stat)
  | .closedir _ => Unit
  | .stat _ => Int × Stat
  | .openFile _ _ => Option Fh
  | .fstat _ => Int × Stat
  | .pread _ _ _ => Int × List UInt8
  | .requestResumeKey _ => Int × List UInt8
  | .copychunk _ _ _ => Int × CopyReply
  | .destroyContext => Unit
  | _ => Int

/-- A call with its answer. -/
structure Event where
  call : Call
  reply : call.Reply

/-- The library, over a world `W` that holds its own state and the server's. -/
structure Libsmb2 (W : Type) where
  call : (c : Call) → W → c.Reply × W
  /-- `smb2_get_nterror`, as `u32` -/
  nterror : W → Nat
  /-- `smb2_get_error`; a null pointer reads as the empty text -/
  message : W → String
  /-- `nterror_to_str` -/
  nterrorToStr : Nat → Option String
  /-- the platform's `errno` values -/
  errno : Errno

/-- `status_name`. -/
def Libsmb2.statusName {W : Type} (lib : Libsmb2 W) (status : Nat) : String :=
  (lib.nterrorToStr status).getD (hexStatus status)

/-- A context, with the calls made on it so far. -/
structure Ctx (W : Type) where
  world : W
  trace : List Event

variable {W ε : Type}

/-- The context after a call. -/
def Ctx.after (lib : Libsmb2 W) (s : Ctx W) (c : Call) : Ctx W where
  world := (lib.call c s.world).2
  trace := s.trace ++ [⟨c, (lib.call c s.world).1⟩]

@[simp] theorem Ctx.after_world (lib : Libsmb2 W) (s : Ctx W) (c : Call) :
    (s.after lib c).world = (lib.call c s.world).2 := rfl

/-- Make a call. -/
def ffi (lib : Libsmb2 W) (c : Call) : Prog ε (Ctx W) c.Reply := fun s =>
  .ok (.ok (lib.call c s.world).1, s.after lib c)

/-- A call answers, and is in the trace. -/
theorem wp_ffi {lib : Libsmb2 W} {c : Call} {p : Post ε (Ctx W) c.Reply} {s : Ctx W} :
    wp (ffi lib c) p s ↔ p.ret (lib.call c s.world).1 (s.after lib c) := Iff.rfl

/-- `SmbContext::error`: classify the failure of the call just made. -/
def ctxError (lib : Libsmb2 W) (rc : Int) (path : String) : Prog ε (Ctx W) Error := do
  let s ← current
  checked (fromParts lib.errno lib.statusName (lib.nterror s.world) rc (lib.message s.world)
    (some path))

/-- Fail with the error of the call just made. -/
def failWith {α : Type} (lib : Libsmb2 W) (rc : Int) (path : String) :
    Prog Error (Ctx W) α := do
  let e ← ctxError lib rc path
  fail e

/-- Classifying a failure makes no call. -/
theorem wp_ctxError {lib : Libsmb2 W} {rc : Int} {path : String} {p : Post ε (Ctx W) Error}
    {s : Ctx W} (hret : ∀ e, p.ret e s) (hstop : ∀ q, p.stop (.panic q)) :
    wp (ctxError lib rc path) p s := by
  rw [ctxError, wp_bind, wp_current]
  simp only [wp_checked]
  split
  · exact hstop _
  · exact hret _

/-- A failure with the library's report, or a panic over it. -/
theorem wp_failWith {α : Type} {lib : Libsmb2 W} {rc : Int} {path : String}
    {p : Post Error (Ctx W) α} {s : Ctx W} (hfail : ∀ e, p.fail e s)
    (hstop : ∀ q, p.stop (.panic q)) : wp (failWith lib rc path) p s := by
  rw [failWith, wp_bind]
  exact wp_ctxError (fun e => hfail e) hstop

/-! ### Paths -/

/-- Convert a `VfsPath` into the form libsmb2 expects. -/
def toSmbPath (path : VfsPath) : String := "/".intercalate path.segments

/-- A path as a NUL-terminated C string. -/
def cstring (s : String) : Result String :=
  if '\x00' ∈ s.toList then
    .error (.invalidPath
      (String.ofList (s.toList.flatMap fun c => if c = '\x00' then ['\\', '0'] else [c]))
      "contains an interior NUL byte")
  else .ok s

/-- A C string that was made is the text itself. -/
theorem wp_cstring {σ : Type} {path : String} {p : Post Error σ String} {s : σ}
    (hret : '\x00' ∉ path.toList → p.ret path s)
    (hfail : '\x00' ∈ path.toList → ∀ e, p.fail e s) : wp (ofExcept (cstring path)) p s := by
  unfold cstring
  split
  · next h => exact hfail h _
  · next h => exact hret h

end Krystallos.Smb
