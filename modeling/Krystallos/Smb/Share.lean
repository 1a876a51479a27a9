import Krystallos.Lib.Slice
import Krystallos.Smb.Copy

namespace Krystallos.Smb

open Slices

/-!
# What is on a share

The server is not part of the repository either.  `Share κ` is what the copy is about: what
the names stand for, which handles are open on what, and what the resume keys identify.
Names are compared as the server compares them, so they are first mapped to a `κ`.

`Framed` says which calls of the copy change what, and `Truthful` that successful calls
report what they did; the two are the assumptions under which the copy is verified.
-/

/-- What a name stands for. -/
inductive Node
  | file (content : List UInt8)
  | other (size : Nat)
deriving DecidableEq, Repr

/-- The size a query reports. -/
def Node.size : Node → Nat
  | .file content => content.length
  | .other size => size

/-- The share as this session sees it. -/
structure Share (κ : Type) where
  nodes : κ → Option Node
  handles : Fh → Option κ
  keys : List UInt8 → Option κ

namespace Share

variable {κ : Type} [DecidableEq κ]

/-- A name now stands for `node`. -/
def put (s : Share κ) (k : κ) (node : Option Node) : Share κ :=
  { s with nodes := Function.update s.nodes k node }

/-- A handle was opened. -/
def opened (s : Share κ) (fh : Fh) (k : κ) : Share κ :=
  { s with handles := Function.update s.handles fh (some k) }

/-- A handle was closed. -/
def closed (s : Share κ) (fh : Fh) : Share κ :=
  { s with handles := Function.update s.handles fh none }

/-- What changes with a name is that name. -/
@[simp] theorem put_nodes (s : Share κ) (k : κ) (node : Option Node) :
    (s.put k node).nodes = Function.update s.nodes k node := rfl

/-- Handles stay open on what they were opened on. -/
@[simp] theorem put_handles (s : Share κ) (k : κ) (node : Option Node) :
    (s.put k node).handles = s.handles := rfl

/-- Resume keys go on standing for what they stood for. -/
@[simp] theorem put_keys (s : Share κ) (k : κ) (node : Option Node) :
    (s.put k node).keys = s.keys := rfl

omit [DecidableEq κ] in
@[simp] theorem opened_nodes (s : Share κ) (fh : Fh) (k : κ) : (s.opened fh k).nodes = s.nodes :=
  rfl

omit [DecidableEq κ] in
/-- The new handle is open on what it was opened on. -/
@[simp] theorem opened_handles (s : Share κ) (fh : Fh) (k : κ) :
    (s.opened fh k).handles = Function.update s.handles fh (some k) := rfl

omit [DecidableEq κ] in
@[simp] theorem closed_nodes (s : Share κ) (fh : Fh) : (s.closed fh).nodes = s.nodes := rfl

omit [DecidableEq κ] in
/-- The handle is open on nothing. -/
@[simp] theorem closed_handles (s : Share κ) (fh : Fh) :
    (s.closed fh).handles = Function.update s.handles fh none := rfl

end Share

variable {W κ : Type} [DecidableEq κ]

/-- Which calls of the copy change what.  A failed open creates nothing, an exclusive one
    creates an empty file where there was none, and a write changes the content of the file
    it is made on, in any way. -/
structure Framed (lib : Libsmb2 W) (view : W → Share κ) (key : String → κ) : Prop where
  open_failed : ∀ path flags w, (lib.call (.openFile path flags) w).1 = none →
    view (lib.call (.openFile path flags) w).2 = view w
  open_source : ∀ path w fh, (lib.call (.openFile path sourceFlags) w).1 = some fh →
    (view w).handles fh = none ∧ ((view w).nodes (key path)).isSome ∧
      view (lib.call (.openFile path sourceFlags) w).2 = (view w).opened fh (key path)
  open_destination : ∀ path w fh, (lib.call (.openFile path destinationFlags) w).1 = some fh →
    (view w).handles fh = none ∧ (view w).nodes (key path) = none ∧
      (∀ fh', (view w).handles fh' ≠ some (key path)) ∧
      view (lib.call (.openFile path destinationFlags) w).2
        = ((view w).put (key path) (some (.file []))).opened fh (key path)
  fstat : ∀ fh w, view (lib.call (.fstat fh) w).2 = view w
  requestResumeKey : ∀ fh w, ∃ keys,
    view (lib.call (.requestResumeKey fh) w).2 = { view w with keys := keys }
  copychunk : ∀ rk fh chunk w k D, (view w).handles fh = some k →
    (view w).nodes k = some (.file D) →
    ∃ D', view (lib.call (.copychunk rk fh chunk) w).2 = (view w).put k (some (.file D'))
  pread : ∀ fh count offset w, view (lib.call (.pread fh count offset) w).2 = view w
  pwrite : ∀ fh data offset w k D, (view w).handles fh = some k →
    (view w).nodes k = some (.file D) →
    ∃ D', view (lib.call (.pwrite fh data offset) w).2 = (view w).put k (some (.file D'))
  close : ∀ fh w, view (lib.call (.close fh) w).2 = (view w).closed fh
  unlink_failed : ∀ path w, (lib.call (.unlink path) w).1 ≠ (0 : Int) →
    view (lib.call (.unlink path) w).2 = view w
  unlinked : ∀ path w, (lib.call (.unlink path) w).1 = (0 : Int) →
    view (lib.call (.unlink path) w).2 = (view w).put (key path) none

/-- What a `copychunk` of `length` bytes at `offset`, and its answer, do to the target's
    content `D`: it may move any part, and says how much where it succeeds.  Only files have
    bytes to move. -/
def CopyMoves (source : Node) (offset length : Nat) (reply : Int × CopyReply)
    (D D' : List UInt8) : Prop :=
  match source with
  | .file S => ∃ m ≤ length, m ≤ S.length - offset ∧ D' = overwrite D offset (slice S offset m) ∧
      (reply.1 = 0 → reply.2.totalBytesWritten = m)
  | .other _ => D' = D ∧ reply.1 ≠ 0

/-- What a read answers: a part of a file's content, and a failure on anything else. -/
def ReadAnswers (source : Node) (count offset : Nat) (reply : Int × List UInt8) : Prop :=
  match source with
  | .file S => 0 ≤ reply.1 → reply.1 = reply.2.length ∧ ShortRead S offset count reply.2
  | .other _ => reply.1 < 0

/-- Successful calls report what they did. -/
structure Truthful (lib : Libsmb2 W) (view : W → Share κ) (key : String → κ) : Prop
    extends Framed lib view key where
  size : ∀ fh w k node, (view w).handles fh = some k → (view w).nodes k = some node →
    (lib.call (.fstat fh) w).1.1 = (0 : Int) → (lib.call (.fstat fh) w).1.2.size = node.size
  resumeKey : ∀ fh w k, (view w).handles fh = some k →
    (lib.call (.requestResumeKey fh) w).1.1 = (0 : Int) →
    (view (lib.call (.requestResumeKey fh) w).2).keys (lib.call (.requestResumeKey fh) w).1.2
      = some k
  chunk : ∀ rk fh w k l source D offset length, (view w).handles fh = some k →
    (view w).nodes k = some (.file D) → (view w).keys rk = some l →
    (view w).nodes l = some source →
    ∃ D', view (lib.call (.copychunk rk fh ⟨offset, offset, length⟩) w).2
        = (view w).put k (some (.file D')) ∧
      CopyMoves source offset length (lib.call (.copychunk rk fh ⟨offset, offset, length⟩) w).1
        D D'
  read : ∀ fh w k source count offset, (view w).handles fh = some k →
    (view w).nodes k = some source →
    ReadAnswers source count offset (lib.call (.pread fh count offset) w).1
  written : ∀ fh w k D data offset, (view w).handles fh = some k →
    (view w).nodes k = some (.file D) →
    ∃ m ≤ data.length, view (lib.call (.pwrite fh data offset) w).2
        = (view w).put k (some (.file (overwrite D offset (data.take m)))) ∧
      ((0 : Int) ≤ (lib.call (.pwrite fh data offset) w).1 →
        (lib.call (.pwrite fh data offset) w).1 = (m : Int))

end Krystallos.Smb
