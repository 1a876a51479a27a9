import Krystallos.Lib.Checked
import Krystallos.Core.Handle

namespace Krystallos

open Checked Slices

/-!
# The read-ahead window

The buffered region of `krystallos-cache`, with every `usize` of `ptr` bits and every `u64`
operation checked.  `Window.Agrees` says when a window tells the truth about a file's
content; `serveFrom_eq` is what the two lock sections of `read_at` get out of a window that
does.
-/

/-- The buffered region, and what is known about it. -/
structure Window where
  data : List UInt8
  start : Nat
  eof : Bool
deriving DecidableEq, Repr

namespace Window

/-- `Window::default()`, also what `invalidate` leaves behind. -/
def empty : Window := ⟨[], 0, false⟩

/-- The end of the file range this window covers. -/
def end_ (w : Window) : Except Panic Nat := addU 64 w.start w.data.length

/-- Whether the window already holds everything needed for `[offset, offset + len)`. -/
def covers (w : Window) (offset len : Nat) : Except Panic Bool :=
  if len = 0 then .ok true
  else if offset < w.start then .ok false
  else do
    let wantEnd := saturatingAdd 64 offset len
    let stop ← w.end_
    return decide (wantEnd ≤ stop) || w.eof

/-- Copy out of the window into a buffer of `len` bytes: the bytes `buf[..n]` receives. -/
def copyOut (ptr : Nat) (w : Window) (offset len : Nat) : Except Panic (List UInt8) := do
  let skip ← subU offset w.start
  let first := min (castU ptr skip) w.data.length
  let available ← subU w.data.length first
  let n := min available len
  let stop ← addU ptr first n
  sliceRange w.data first stop

/-- `covers(offset, len).then(|| copy_out(offset, buf))`, under one lock. -/
def serveFrom (ptr : Nat) (w : Window) (offset len : Nat) :
    Except Panic (Option (List UInt8)) := do
  if ← w.covers offset len then
    let bs ← w.copyOut ptr offset len
    return some bs
  else return none

/-- `w.eof && offset >= w.end()`, which `worth_fetching` negates. -/
def knownPastEnd (w : Window) (offset : Nat) : Except Panic Bool :=
  if w.eof then do
    let stop ← w.end_
    return decide (stop ≤ offset)
  else .ok false

/-- The window tells the truth about `F`: its bytes are the file's at `start`, and nothing
    lies beyond them once it claims end-of-file. -/
structure Agrees (F : List UInt8) (w : Window) : Prop where
  data : w.data = slice F w.start w.data.length
  eof : w.eof = true → F.length ≤ w.start + w.data.length
  range : w.start + w.data.length < 2 ^ 64

instance (F : List UInt8) (w : Window) : Decidable (Agrees F w) :=
  decidable_of_iff (w.data = slice F w.start w.data.length ∧
      (w.eof = true → F.length ≤ w.start + w.data.length) ∧ w.start + w.data.length < 2 ^ 64)
    ⟨fun h => ⟨h.1, h.2.1, h.2.2⟩, fun h => ⟨h.data, h.eof, h.range⟩⟩

/-- An empty window says nothing, so it agrees with every file. -/
theorem agrees_empty (F : List UInt8) : Agrees F empty where
  data := by simp [empty]
  eof := by simp [empty]
  range := by simp [empty]

theorem end_eq {w : Window} (h : w.start + w.data.length < 2 ^ 64) :
    w.end_ = .ok (w.start + w.data.length) := addU_ok h

/-- What `covers` decides for a non-empty request, where the window's end is a `u64`. -/
theorem covers_eq {w : Window} {offset len : Nat} (h : w.start + w.data.length < 2 ^ 64)
    (hlen : 0 < len) :
    w.covers offset len = .ok (decide (w.start ≤ offset ∧
      (min (offset + len) (umax 64) ≤ w.start + w.data.length ∨ w.eof = true))) := by
  unfold covers
  rw [if_neg (by omega)]
  by_cases hlow : offset < w.start
  · rw [if_pos hlow, decide_eq_false (fun h => absurd h.1 (by omega))]
  · rw [if_neg hlow, end_eq h]
    have hstart : w.start ≤ offset := by omega
    show Except.ok _ = _
    simp only [saturatingAdd, hstart, true_and]
    cases w.eof <;> simp

/-- `copy_out` cannot panic on an offset the window reaches back to; it yields what the buffer
    holds from the distance on, cut to `usize`. -/
theorem copyOut_cast {ptr : Nat} {w : Window} {offset len : Nat} (hstart : w.start ≤ offset)
    (hdata : w.data.length < 2 ^ ptr) :
    w.copyOut ptr offset len = .ok (slice w.data (castU ptr (offset - w.start)) len) := by
  unfold copyOut
  rw [subU_ok hstart]
  show (subU w.data.length (min (castU ptr (offset - w.start)) w.data.length) >>= _) = _
  generalize castU ptr (offset - w.start) = skip
  have hfirst : min skip w.data.length ≤ w.data.length := Nat.min_le_right _ _
  rw [subU_ok hfirst]
  show (addU ptr _ (min (w.data.length - _) len) >>= _) = _
  rw [addU_ok (by omega)]
  show sliceRange w.data _ _ = _
  rw [sliceRange_ok (by omega) (by omega), Nat.add_sub_cancel_left]
  unfold slice
  congr 1
  rcases Nat.le_total skip w.data.length with hin | hout
  · -- the request begins inside the buffer
    rw [Nat.min_eq_left hin, List.take_eq_take_iff, List.length_drop]
    omega
  · -- it begins at or past the buffer's end, where `copy_out` is clamped
    rw [Nat.min_eq_right hout, List.drop_eq_nil_of_le hout, List.drop_eq_nil_of_le (le_refl _)]
    simp

/-- Where the distance fits in `usize`, that is the part of the request the buffer holds. -/
theorem copyOut_eq {ptr : Nat} {w : Window} {offset len : Nat} (hstart : w.start ≤ offset)
    (hskip : offset - w.start < 2 ^ ptr) (hdata : w.data.length < 2 ^ ptr) :
    w.copyOut ptr offset len = .ok (slice w.data (offset - w.start) len) := by
  rw [copyOut_cast hstart hdata, castU_of_lt hskip]

/-- The bytes of a window that agrees with the file are inside the file, or there are none. -/
theorem Agrees.length_le {F : List UInt8} {w : Window} (h : Agrees F w) :
    w.data.length ≤ F.length - w.start := length_le_of_eq_slice h.data

/-- What the buffer of an agreeing window holds of a request it covers is a read the handle
    itself could have given. -/
theorem Agrees.shortRead {F : List UInt8} {w : Window} {offset len : Nat} (h : Agrees F w)
    (hF : F.length < 2 ^ 64) (hoff : offset < 2 ^ 64) (hstart : w.start ≤ offset)
    (hcov : min (offset + len) (umax 64) ≤ w.start + w.data.length ∨ w.eof = true) :
    ShortRead F offset len (slice w.data (offset - w.start) len) := by
  have hin := h.length_le
  have hrange := h.range
  have hlen : (slice w.data (offset - w.start) len).length
      = min len (w.data.length - (offset - w.start)) := length_slice _ _ _
  refine ⟨?_, by rw [hlen]; exact Nat.min_le_left _ _, fun hpos => ?_⟩
  · -- a slice of a slice of the file
    rw [hlen, h.data, slice_slice, Nat.add_sub_cancel' hstart]
    congr 1
    simp only [length_slice]
    omega
  · -- nothing is left exactly when the request begins at or past the window's end
    rw [← List.length_eq_zero_iff, hlen]
    have humax : umax 64 = 2 ^ 64 - 1 := rfl
    constructor
    · intro hzero
      rcases hcov with hend | heof
      · omega
      · have := h.eof heof
        omega
    · intro hpast
      omega

/-- What a window covers of the file lies within `data.len()` of its start. -/
theorem Agrees.skip_le {F : List UInt8} {w : Window} {offset len : Nat} (h : Agrees F w)
    (hoff : offset < 2 ^ 64) (hin : offset ≤ F.length)
    (hcov : min (offset + len) (umax 64) ≤ w.start + w.data.length ∨ w.eof = true) :
    offset - w.start ≤ w.data.length := by
  have humax : umax 64 = 2 ^ 64 - 1 := rfl
  rcases hcov with hend | heof
  · omega
  · have := h.eof heof
    omega

/-- A request that the window covers is served from the buffer. -/
theorem serveFrom_covered {ptr : Nat} {w : Window} {offset len : Nat}
    (hrange : w.start + w.data.length < 2 ^ 64) (hdata : w.data.length < 2 ^ ptr)
    (hlen : 0 < len) (hstart : w.start ≤ offset) (hskip : offset - w.start < 2 ^ ptr)
    (hcov : min (offset + len) (umax 64) ≤ w.start + w.data.length ∨ w.eof = true) :
    w.serveFrom ptr offset len = .ok (some (slice w.data (offset - w.start) len)) := by
  unfold serveFrom
  rw [covers_eq hrange hlen, decide_eq_true ⟨hstart, hcov⟩, copyOut_eq hstart hskip hdata]
  rfl

/-- One that it does not cover is not. -/
theorem serveFrom_missed {ptr : Nat} {w : Window} {offset len : Nat}
    (hrange : w.start + w.data.length < 2 ^ 64) (hlen : 0 < len)
    (hcov : ¬ (w.start ≤ offset ∧
      (min (offset + len) (umax 64) ≤ w.start + w.data.length ∨ w.eof = true))) :
    w.serveFrom ptr offset len = .ok none := by
  unfold serveFrom
  rw [covers_eq hrange hlen, decide_eq_false hcov]
  rfl

/-- **The lock sections of `read_at`.** On an agreeing window they never panic, and what they
    serve is a read the handle itself could have given.  Past the end of the file the
    distance from the window's start has to fit in `usize`. -/
theorem serveFrom_cases {ptr : Nat} {F : List UInt8} {w : Window} {offset len : Nat}
    (h : Agrees F w) (hF : F.length < 2 ^ 64) (hoff : offset < 2 ^ 64)
    (hskip : F.length < offset → offset - w.start < 2 ^ ptr) (hdata : w.data.length < 2 ^ ptr)
    (hlen : 0 < len) :
    w.serveFrom ptr offset len = .ok none ∨
      ∃ bs, w.serveFrom ptr offset len = .ok (some bs) ∧ ShortRead F offset len bs := by
  by_cases hcov : w.start ≤ offset ∧
      (min (offset + len) (umax 64) ≤ w.start + w.data.length ∨ w.eof = true)
  · right
    have hfits : offset - w.start < 2 ^ ptr := by
      by_cases hpast : F.length < offset
      · exact hskip hpast
      · exact lt_of_le_of_lt (h.skip_le hoff (Nat.le_of_not_lt hpast) hcov.2) hdata
    exact ⟨slice w.data (offset - w.start) len,
      serveFrom_covered h.range hdata hlen hcov.1 hfits hcov.2, h.shortRead hF hoff hcov.1 hcov.2⟩
  · left
    exact serveFrom_missed h.range hlen hcov

/-- `worth_fetching`'s look at the window cannot panic either. -/
theorem knownPastEnd_eq {w : Window} (h : w.start + w.data.length < 2 ^ 64) (offset : Nat) :
    w.knownPastEnd offset = .ok (w.eof && decide (w.start + w.data.length ≤ offset)) := by
  unfold knownPastEnd
  rw [end_eq h]
  cases w.eof <;> rfl

end Window

end Krystallos
