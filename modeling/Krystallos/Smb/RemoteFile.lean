import Krystallos.Smb.Actor

namespace Krystallos.Smb

open Checked Prog Slices

/-!
# A file open on an SMB session

`file.rs`: a `FileHandle` whose calls are commands to the session thread.  The state is what
one task sees of it, the thread's own and the file's two atomics, on a session that stays up.
Reads are capped at the size negotiated, and a cap of zero makes them all empty.
-/

/-- What the connection settled on, as the transfer sizes. -/
structure Limits where
  maxRead : Nat
  maxWrite : Nat
  maxRead_lt : maxRead < 2 ^ 32
  maxWrite_lt : maxWrite < 2 ^ 32

/-- `RemoteFile`, without what changes. -/
structure RemoteFile where
  id : Nat
  path : VfsPath
  limits : Limits

/-- The session thread, and a file's `closed` and `len`. -/
structure Client (W : Type) where
  actor : Actor W
  closed : Bool
  len : Nat

namespace RemoteFile

variable {W α : Type}

/-- Send a command and await its reply. -/
def session (m : Prog Error (Actor W) α) : Prog Error (Client W) α :=
  zoom Client.actor (fun a s => { s with actor := a }) m

/-- `closed_error`. -/
def closedError (file : RemoteFile) : Error := .backend (file.path.str ++ " is already closed")

/-- Fail where the file is closed. -/
def ifOpen (file : RemoteFile) (m : Prog Error (Client W) α) : Prog Error (Client W) α := do
  let s ← current
  if s.closed then fail file.closedError else m

/-- `read_at`. -/
def readAt (lib : Libsmb2 W) (file : RemoteFile) (offset len : Nat) :
    Prog Error (Client W) (List UInt8) :=
  if len = 0 then pure []
  else file.ifOpen do
    let want := min len file.limits.maxRead
    let data ← session (Smb.readAt lib file.id offset (castU 32 want))
    pure (data.take (min data.length len))

/-- `write_at`. -/
def writeAt (lib : Libsmb2 W) (file : RemoteFile) (offset : Nat) (buf : List UInt8) :
    Prog Error (Client W) Nat :=
  if buf = [] then pure 0
  else file.ifOpen do
    let want := min buf.length file.limits.maxWrite
    let written ← session (Smb.writeAt lib file.id offset (buf.take want))
    let fileEnd ← checked (addU 64 offset written)
    update fun s => { s with len := max s.len fileEnd }
    pure written

/-- `set_len`. -/
def setLen (lib : Libsmb2 W) (file : RemoteFile) (len : Nat) : Prog Error (Client W) Unit :=
  file.ifOpen do
    session (Smb.setLen lib file.id len)
    update fun s => { s with len := len }

/-- `flush`. -/
def flush (lib : Libsmb2 W) (file : RemoteFile) : Prog Error (Client W) Unit :=
  file.ifOpen (session (Smb.flush lib file.id))

/-- `close`: the swap makes exactly one caller do the work. -/
def close (lib : Libsmb2 W) (file : RemoteFile) : Prog Error (Client W) Unit := do
  let s ← current
  update fun s => { s with closed := true }
  if s.closed then pure () else session (closeFile lib file.id)

/-- `RemoteFile` as the `FileHandle` it is. -/
def asHandle (lib : Libsmb2 W) (file : RemoteFile) : FileHandle (Client W) where
  readAt := readAt lib file
  writeAt := writeAt lib file
  setLen := setLen lib file
  flush := flush lib file
  close := close lib file
  len := Client.len

end RemoteFile

/-! ### The calls, as commands -/

/-- The calls on a file that leave it open. -/
inductive FileCall
  | readAt (offset len : Nat)
  | writeAt (offset : Nat) (buf : List UInt8)
  | setLen (len : Nat)
  | flush
deriving DecidableEq, Repr

namespace FileCall

/-- What a call returns that has nothing to ask for. -/
def nothing : FileCall → Option Answer
  | .readAt _ 0 => some (.bytes [])
  | .writeAt _ [] => some (.written 0)
  | _ => none

/-- The command a call sends. -/
def request (file : RemoteFile) : FileCall → Request
  | .readAt offset len => .readAt file.id offset (castU 32 (min len file.limits.maxRead))
  | .writeAt offset buf => .writeAt file.id offset (buf.take (min buf.length file.limits.maxWrite))
  | .setLen len => .setLen file.id len
  | .flush => .flush file.id

/-- What a call returns, from the answer to its command. -/
def result : FileCall → Answer → Answer
  | .readAt _ len, .bytes data => .bytes (data.take (min data.length len))
  | _, answer => answer

/-- The cached length once a call has its answer. -/
def newLen : FileCall → Answer → Nat → Except Panic Nat
  | .writeAt offset _, .written n, len => do
    let fileEnd ← addU 64 offset n
    return max len fileEnd
  | .setLen len, _, _ => .ok len
  | _, _, len => .ok len

end FileCall

variable {W : Type}

/-- While `J` holds, reads on `fh` give parts of content `F`: at least a byte where there is
    one to give. -/
def Preads (lib : Libsmb2 W) (J : W → Prop) (fh : Fh) (F : List UInt8) : Prop :=
  ∀ count offset w, count < 2 ^ 32 → offset < 2 ^ 64 → J w →
    J (lib.call (.pread fh count offset) w).2 ∧
    (lib.call (.pread fh count offset) w).1.1 = (lib.call (.pread fh count offset) w).1.2.length ∧
    ShortRead F offset count (lib.call (.pread fh count offset) w).1.2

/-- The file is open: its id stands for `fh`, and the library is in a state in `J`. -/
structure OpenOn (J : W → Prop) (fh : Fh) (file : RemoteFile) (s : Client W) : Prop where
  world : J s.actor.ctx.world
  table : s.actor.files.get file.id = some fh
  closed : s.closed = false

/-- A file that is open makes the call. -/
theorem wp_ifOpen {α : Type} {file : RemoteFile} {m : Prog Error (Client W) α}
    {p : Post Error (Client W) α} {s : Client W} (h : s.closed = false) :
    wp (file.ifOpen m) p s ↔ wp m p s := by
  have hopen : ¬ s.closed = true := by simp [h]
  rw [RemoteFile.ifOpen, wp_bind, wp_current]
  show wp (if s.closed = true then _ else m) p s ↔ _
  rw [if_neg hopen]

/-- What the library put into a fresh buffer. -/
theorem fillBuf_take {bytes : List UInt8} {want : Nat} (hfits : bytes.length ≤ want) :
    (fillBuf (List.replicate want 0) want bytes).take bytes.length = bytes := by
  rw [fillBuf, List.take_of_length_le hfits, List.take_left]

/-- The session thread answers a read with what the library gave. -/
theorem wp_readAt {lib : Libsmb2 W} {J : W → Prop} {fh : Fh} {F : List UInt8}
    (hpread : Preads lib J fh F) {id : Nat} {s : Actor W} (hJ : J s.ctx.world)
    (hid : s.files.get id = some fh) {offset len : Nat} (hoff : offset < 2 ^ 64)
    (hlen : len < 2 ^ 32) :
    wp (Smb.readAt lib id offset len)
      ⟨fun bs s' => J s'.ctx.world ∧ s'.files = s.files ∧ ShortRead F offset len bs,
        fun _ _ => False, fun _ => False⟩ s := by
  obtain ⟨hJ', hcount, hshort⟩ := hpread len offset s.ctx.world hlen hoff hJ
  simp only [Smb.readAt, handleOf, wp_bind, wp_current, hid, wp_pure, onCtx, wp_zoom, wp_ffi]
  refine wp_ite (fun hneg => ?_) (fun _ => ?_)
  · rw [hcount] at hneg
    omega
  · rw [wp_pure, hcount, Int.toNat_natCast, fillBuf_take hshort.fits]
    exact ⟨hJ', rfl, hshort⟩

/-- A read through the file is a read of the session thread, no longer than the limit. -/
theorem wp_remoteReadAt {lib : Libsmb2 W} {J : W → Prop} {fh : Fh} {F : List UInt8}
    {file : RemoteFile} (hpread : Preads lib J fh F) {offset : Nat} (hoff : offset < 2 ^ 64)
    (len : Nat) {s : Client W} (hs : OpenOn J fh file s) :
    wp (file.readAt lib offset len)
      ⟨fun bs s' => OpenOn J fh file s' ∧ ShortRead F offset (min len file.limits.maxRead) bs,
        fun _ _ => False, fun _ => False⟩ s := by
  refine wp_ite (fun hlen => ⟨hs, ?_⟩) (fun _ => ?_)
  · rw [hlen, Nat.zero_min]
    exact shortRead_nil F offset
  · have hlt : min len file.limits.maxRead < 2 ^ 32 :=
      lt_of_le_of_lt (Nat.min_le_right _ _) file.limits.maxRead_lt
    rw [wp_ifOpen hs.closed, wp_bind, RemoteFile.session, wp_zoom, castU_of_lt hlt]
    refine wp_mono (wp_readAt hpread hs.world hs.table hoff hlt) ?_ (fun _ _ => False.elim)
      (fun _ => False.elim)
    rintro bs a ⟨hJ, hfiles, hshort⟩
    have hlen : bs.length ≤ len := le_trans hshort.fits (Nat.min_le_left _ _)
    show OpenOn J fh file _ ∧ ShortRead F offset _ (bs.take (min bs.length len))
    rw [Nat.min_eq_left hlen, List.take_length]
    exact ⟨⟨hJ, by rw [hfiles, hs.table], hs.closed⟩, hshort⟩

end Krystallos.Smb
