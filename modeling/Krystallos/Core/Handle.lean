import Krystallos.Core.Error
import Krystallos.Lib.Prog
import Krystallos.Lib.Slice

namespace Krystallos

open Checked Prog Slices

/-!
# The `FileHandle` contract

Content as a file holds it, and what `FileHandle::read_at` may answer: any non-empty part of
what is there, and nothing only at or past the end.  `ShortRead` is what the layers assume
of the handle below and prove of themselves.
-/

/-- A file's content: offsets are `u64`, so a file has fewer than `2^64` bytes. -/
structure FileContent where
  bytes : List UInt8
  bound : bytes.length < 2 ^ 64
deriving DecidableEq

/-- A file with nothing in it. -/
def FileContent.empty : FileContent := ⟨[], by decide⟩

/-- An open file on a backend, whose calls are programs over the world `σ`. -/
structure FileHandle (σ : Type) where
  readAt : Nat → Nat → Prog Error σ (List UInt8)
  writeAt : Nat → List UInt8 → Prog Error σ Nat
  setLen : Nat → Prog Error σ Unit
  flush : Prog Error σ Unit
  close : Prog Error σ Unit
  len : σ → Nat

/-- The error of `read_exact_at` where the file ends early. -/
def endedAfter (done len offset : Nat) : IoError :=
  ⟨.unexpectedEof, "file ended after " ++ toString done ++ " of " ++ toString len ++
    " bytes at offset " ++ toString offset⟩

namespace FileHandle

variable {σ : Type}

/-- One turn of the loop of `read_exact_at`, with `buf[..done]`. -/
def exactTurn (h : FileHandle σ) (offset len : Nat) (buf : List UInt8) :
    Prog Error σ (Turn (List UInt8) (List UInt8)) := do
  if buf.length < len then do
    let pos ← checked (addU 64 offset buf.length)
    let bytes ← h.readAt pos (len - buf.length)
    if bytes = [] then fail (.io (endedAfter buf.length len offset)) else pure (.again (buf ++ bytes))
  else pure (.leave buf)

/-- Fill a buffer of `len` bytes, looping over short reads. Every turn but the last reads a
    byte. -/
def readExactAt (h : FileHandle σ) (offset len : Nat) : Prog Error σ (List UInt8) :=
  iterate (len + 1) (exactTurn h offset len) []

end FileHandle

/-- What a handle may do to the file when asked to write. -/
inductive WriteOp
  | writeAt (offset : Nat) (data : List UInt8)
  | setLen (len : Nat)
deriving DecidableEq, Repr

/-- The bytes a successful `read_at` of `len` bytes at `offset` may give for content `F`. -/
structure ShortRead (F : List UInt8) (offset len : Nat) (bs : List UInt8) : Prop where
  bytes : bs = slice F offset bs.length
  fits : bs.length ≤ len
  empty : 0 < len → (bs = [] ↔ F.length ≤ offset)

instance (F : List UInt8) (offset len : Nat) (bs : List UInt8) :
    Decidable (ShortRead F offset len bs) :=
  decidable_of_iff (bs = slice F offset bs.length ∧ bs.length ≤ len ∧
      (0 < len → (bs = [] ↔ F.length ≤ offset)))
    ⟨fun h => ⟨h.1, h.2.1, h.2.2⟩, fun h => ⟨h.bytes, h.fits, h.empty⟩⟩

/-- An empty buffer is answered with nothing. -/
theorem shortRead_nil (F : List UInt8) (offset : Nat) : ShortRead F offset 0 [] where
  bytes := by simp
  fits := by simp
  empty := by simp

/-- A read that is not short: everything the request covers. -/
theorem shortRead_slice (F : List UInt8) (offset len : Nat) :
    ShortRead F offset len (slice F offset len) where
  bytes := (slice_length_self F offset len).symm
  fits := by rw [length_slice]; exact Nat.min_le_left _ _
  empty := by
    intro hlen
    rw [← List.length_eq_zero_iff, length_slice]
    omega

/-- A request that was made smaller, though not empty. -/
theorem ShortRead.of_le {F : List UInt8} {offset n len : Nat} {bs : List UInt8}
    (h : ShortRead F offset n bs) (hn : n ≤ len) (hpos : 0 < len → 0 < n) :
    ShortRead F offset len bs where
  bytes := h.bytes
  fits := le_trans h.fits hn
  empty := fun hlen => h.empty (hpos hlen)

/-- A non-empty answer lies inside the file. -/
theorem ShortRead.add_length_le {F : List UInt8} {offset len : Nat} {bs : List UInt8}
    (h : ShortRead F offset len bs) (hne : bs ≠ []) : offset + bs.length ≤ F.length :=
  add_length_le_of_eq_slice h.bytes hne

/-- An answer that adds to what was read so far extends the slice. -/
theorem ShortRead.append {F buf bs : List UInt8} {start len : Nat}
    (hbuf : buf = slice F start buf.length) (h : ShortRead F (start + buf.length) len bs) :
    buf ++ bs = slice F start (buf ++ bs).length := by
  rw [List.length_append, slice_add, ← hbuf, ← h.bytes]

/-- A request that gives nothing was made at the end. -/
theorem ShortRead.ended {F : List UInt8} {offset len : Nat} (h : ShortRead F offset len [])
    (hlen : 0 < len) : F.length ≤ offset :=
  (h.empty hlen).mp rfl

/-- At the end, what was read so far is all that there is. -/
theorem ShortRead.slice_eq {F buf : List UInt8} {start len : Nat}
    (h : ShortRead F (start + buf.length) (len - buf.length) [])
    (hbuf : buf = slice F start buf.length) (hlt : buf.length < len) : slice F start len = buf := by
  have hend := h.ended (by omega)
  have hlen : len = buf.length + (len - buf.length) := by omega
  rw [hlen, slice_add, ← hbuf, slice_of_length_le hend, List.append_nil]

/-- While `I` holds, reads of the handle at offsets in `D` return, and one that succeeds is a
    read that content `F` allows. -/
structure FileHandle.Reads {σ : Type} (h : FileHandle σ) (I : σ → Prop) (F : List UInt8)
    (D : Nat → Prop) : Prop where
  readAt : ∀ offset len s, D offset → I s →
    Prog.wp (h.readAt offset len)
      ⟨fun bs s' => I s' ∧ ShortRead F offset len bs, fun _ s' => I s', fun _ => False⟩ s

/-- Reads at fewer offsets. -/
theorem FileHandle.Reads.mono {σ : Type} {h : FileHandle σ} {I : σ → Prop} {F : List UInt8}
    {D D' : Nat → Prop} (hreads : h.Reads I F D) (hD : ∀ offset, D' offset → D offset) :
    h.Reads I F D' where
  readAt := fun offset len s hoff => hreads.readAt offset len s (hD offset hoff)

end Krystallos
