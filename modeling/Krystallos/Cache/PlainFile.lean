import Krystallos.Cache.Sequential
import Krystallos.Core.PlainFile
import Krystallos.Smb.PlainFile

namespace Krystallos.ReadAhead

open Checked Contract Prog Slices

/-!
# A cached file is a plain file

`ReadAhead` around a handle that is a plain file is one too, for a caller that awaits each call.
A write or a truncation that succeeds drops the window.  One that fails does not, so the window
may then be of the file as it was: a read is one of the file as it is, or as it was before a
change that failed, until the next change that succeeds (`isPlain_asHandle`).
-/

variable {σ : Type} {cfg : Config} {I : σ → Prop} {F G : List UInt8} {offset len : Nat}
  {ra ra' : ReadAhead}

/-- What a call knows while the window is of content `G`, and the file's is `F`. -/
def Before (F G : List UInt8) (offset len : Nat) : ReadPc → Prop
  | .serve => False
  | .done (.ok (.ok bs)) => ShortRead F offset len bs ∨ ShortRead G offset len bs
  | pc => ReadInv F offset len pc

/-- A call in progress: its window is still of content `G`, or is of the file's. -/
def Reading (cfg : Config) (I : σ → Prop) (F G : List UInt8) (offset len : Nat) (pc : ReadPc)
    (s : σ × ReadAhead) : Prop :=
  Wraps cfg I F s ∧ ReadInv F offset len pc ∧ Bounded cfg pc ∨
    I s.1 ∧ Window.Agrees G s.2.state ∧ s.2.state.data.length ≤ cfg.windowSize ∧
      Before F G offset len pc ∧ Bounded cfg pc

/-- Before the window is replaced, a call knows at least what one over the file's window does,
    until it ends. -/
theorem Before.inv {pc : ReadPc} (h : Before F G offset len pc) (hpc : ∀ r, pc ≠ .done r) :
    ReadInv F offset len pc := by
  match pc with
  | .serve => exact h.elim
  | .done r => exact absurd rfl (hpc r)
  | .look | .probe | .size _ | .fetch .. | .publish .. | .pass _ => exact h

/-- The wrapper's window is of something that the file holds or may still show. -/
def Caching (cfg : Config) (R : PlainFile → σ → Prop) (x : PlainFile) (s : σ × ReadAhead) : Prop :=
  ∃ G ∈ x.contents, Wraps cfg (R x) G.bytes s

/-- After one that failed it is what it was. -/
theorem Caching.failed {R : PlainFile → σ → Prop} {x x' : PlainFile} {s : σ × ReadAhead} {w : σ}
    (h : Caching cfg R x s) (hfailed : x.Failed x') (hw : R x' w) : Caching cfg R x' (w, s.2) := by
  obtain ⟨G, hG, -, hag, hdata⟩ := h
  refine ⟨G, ?_, hw, hag, hdata⟩
  rw [PlainFile.contents, hfailed]
  exact List.mem_cons_of_mem _ hG

end Krystallos.ReadAhead
