import Krystallos.Ffi.RemoteFile
import Krystallos.Smb.PlainFile

namespace Krystallos.Ffi

open Checked Contract Prog Slices RemoteFile

/-!
# The file object of the FFI is a plain file

Over any handle that is a plain file, `RemoteFile` is one whose reads are complete: a read gives
everything the request covers, and `read_exact_at` every byte it was asked for or an error, whatever
writes and truncations came before and however short the reads of the handle are (`ffiFile_plain`).
-/

variable {σ ε : Type} {h : FileHandle σ} {R : PlainFile → σ → Prop} {x : PlainFile}
  {offset len : Nat} {s : RemoteFile σ}

/-- The calls of a file object, as the other side of the FFI makes them. -/
def RemoteFile.calls (h : FileHandle σ) : Impl (fileCalls KernelError) ε (RemoteFile σ)
  | .readAt offset len => capture do
    let range ← readAt h offset len
    pure range.data
  | .readExactAt offset len => capture do
    let range ← readExactAt h offset len
    pure range.data
  | .writeAt offset data => capture (writeAt h offset data)
  | .setLen len => capture (setLen h len)
  | .flush => capture (flush h)

/-- The object is open, and its handle is the file `x`. -/
def Holding (R : PlainFile → σ → Prop) (x : PlainFile) (s : RemoteFile σ) : Prop :=
  R x s.world ∧ s.closed = false

/-- What holds at the head of the loop of `read_at`: `buf` is what the file has at `offset`. -/
def Gathered (R : PlainFile → σ → Prop) (x : PlainFile) (offset len : Nat) (buf : List UInt8)
    (s : RemoteFile σ) : Prop :=
  Holding R x s ∧ buf = slice x.content.bytes offset buf.length ∧ buf.length ≤ len

/-- The loop ends with everything the request covers, or the handle has failed. -/
def gatheredPost (R : PlainFile → σ → Prop) (x : PlainFile) (offset len : Nat) :
    Post KernelError (RemoteFile σ) (List UInt8) where
  ret := fun buf s => Holding R x s ∧ buf = slice x.content.bytes offset len
  fail := fun _ s => Holding R x s
  stop := fun _ => False

/-- **One turn** of `read_at` adds what comes next, or ends the loop with all there is. -/
theorem wp_fillTurn_gathered (hplain : h.IsShort R) (hoff : offset < 2 ^ 64)
    (buf : List UInt8) (s : RemoteFile σ) (hs : Gathered R x offset len buf s) :
    wp (fillTurn h offset len buf)
      (turnPost (Gathered R x offset len) (fun buf _ => len - buf.length)
        (gatheredPost R x offset len) (len - buf.length)) s := by
  obtain ⟨⟨hR, hopen⟩, hbuf, hle⟩ := hs
  refine wp_ite (fun hlt => ?_) (fun hfull => ?_)
  · have hpos : offset + buf.length < 2 ^ 64 :=
      add_length_lt_of_eq_slice hbuf x.content.bound hoff
    simp only [wp_bind, wp_checked_ok (addU_ok hpos), wp_onHandle]
    refine wp_mono (hplain.readAt _ (len - buf.length) x s.world hR hpos trivial) ?_ ?_
      (fun _ h => h)
    · rintro bytes w ⟨hR', hshort⟩
      refine wp_ite (fun hnil => ?_) (fun hne => ?_)
      · -- the file ends here
        subst hnil
        exact ⟨⟨hR', hopen⟩, (hshort.slice_eq hbuf hlt).symm⟩
      · have hfits := length_append_le_of_rest hlt hshort.fits
        exact ⟨⟨⟨hR', hopen⟩, hshort.append hbuf, hfits⟩, rest_append_lt hlt hne⟩
    · intro e w hR'
      exact ⟨hR', hopen⟩
  · show Holding R x s ∧ buf = slice x.content.bytes offset len
    rw [show len = buf.length by omega]
    exact ⟨⟨hR, hopen⟩, hbuf⟩

/-- A read gives everything that its request covers, or fails. -/
theorem wp_readAt_exact (hplain : h.IsShort R) (hoff : offset < 2 ^ 64)
    (hs : Holding R x s) :
    wp (readAt h offset len)
      ⟨fun r s' => Holding R x s' ∧ r = ⟨offset, slice x.content.bytes offset len⟩,
        fun _ s' => Holding R x s', fun _ => False⟩ s := by
  have hloop : wp (iterate (len + 1) (fillTurn h offset len) []) (gatheredPost R x offset len) s :=
    wp_iterate (Gathered R x offset len) (fun buf _ => len - buf.length)
      (wp_fillTurn_gathered hplain hoff) ⟨hs, by simp, Nat.zero_le _⟩ (.inl (by simp))
  simp only [readAt, wp_bind, wp_handle hs.2]
  refine wp_mono hloop ?_ (fun _ _ h => h) (fun _ h => h)
  rintro buf s' ⟨hs', rfl⟩
  exact ⟨hs', rfl⟩

/-- An exact read gives every byte it was asked for, or fails. -/
theorem wp_readExactAt_every (hplain : h.IsShort R) (hoff : offset < 2 ^ 64)
    (hs : Holding R x s) :
    wp (readExactAt h offset len)
      ⟨fun r s' => Holding R x s' ∧ PlainFile.every x offset len r.data, fun _ s' => Holding R x s',
        fun _ => False⟩ s := by
  obtain ⟨hR, hopen⟩ := hs
  simp only [readExactAt, wp_bind, wp_handle hopen]
  refine wp_ite (fun hnil => ?_) (fun _ => ?_)
  · subst hnil
    exact ⟨⟨hR, hopen⟩, PlainFile.gathers_short.start x offset⟩
  · simp only [wp_bind, wp_onHandle, wp_pure]
    refine wp_mono (hplain.wp_readExactAt PlainFile.gathers_short hoff (fun _ _ => trivial) hR)
      ?_ ?_ (fun _ h => h)
    · rintro bytes w ⟨hR', hevery⟩
      exact ⟨⟨hR', hopen⟩, hevery⟩
    · intro e w hR'
      exact ⟨hR', hopen⟩

/-- A write has taken the bytes it says, and one that fails may have changed the file. -/
theorem wp_writeAt_plain (hplain : h.IsShort R) (hoff : offset < 2 ^ 64)
    (data : List UInt8) (hs : Holding R x s) :
    wp (writeAt h offset data)
      ⟨fun n s' => ∃ x', x.Wrote offset data n x' ∧ Holding R x' s',
        fun _ s' => ∃ x', x.Failed x' ∧ Holding R x' s', fun _ => False⟩ s := by
  obtain ⟨hR, hopen⟩ := hs
  simp only [writeAt, wp_bind, wp_handle hopen, wp_onHandle]
  refine wp_mono (hplain.writeAt offset data x s.world hR hoff) ?_ ?_ (fun _ h => h)
  · rintro n w ⟨x', hwrote, hR'⟩
    -- the end of the write is added up for the length that is kept
    refine (wp_checked_ok (addU_ok (hwrote.add_lt hoff))).mpr ?_
    exact ⟨x', hwrote, hR', hopen⟩
  · rintro e w ⟨x', hfailed, hR'⟩
    exact ⟨x', hfailed, hR', hopen⟩

/-- A truncation hands its length on. -/
theorem wp_setLen_plain (hplain : h.IsShort R) (hlen : len < 2 ^ 64)
    (hs : Holding R x s) :
    wp (setLen h len)
      ⟨fun _ s' => ∃ x', PlainFile.Changed (resize x.content.bytes len) x' ∧ Holding R x' s',
        fun _ s' => ∃ x', x.Failed x' ∧ Holding R x' s', fun _ => False⟩ s := by
  obtain ⟨hR, hopen⟩ := hs
  simp only [setLen, wp_bind, wp_handle hopen, wp_onHandle]
  refine wp_mono (hplain.setLen len x s.world hR hlen) ?_ ?_ (fun _ h => h)
  · rintro - w ⟨x', hchanged, hR'⟩
    exact ⟨x', hchanged, hR', hopen⟩
  · rintro e w ⟨x', hfailed, hR'⟩
    exact ⟨x', hfailed, hR', hopen⟩

/-- A flush hands itself on. -/
theorem wp_flush_plain (hplain : h.IsShort R) (hs : Holding R x s) :
    wp (flush h) ⟨fun _ s' => Holding R x s', fun _ s' => Holding R x s', fun _ => False⟩ s := by
  obtain ⟨hR, hopen⟩ := hs
  simp only [flush, wp_bind, wp_handle hopen, wp_onHandle]
  exact wp_mono (hplain.flush x s.world hR) (fun _ w hR' => ⟨hR', hopen⟩)
    (fun _ w hR' => ⟨hR', hopen⟩) (fun _ h => h)

/-- Every method meets what is said of a file whose reads are complete. -/
theorem meets_whole (hplain : h.IsShort R) :
    Meets (ε := ε) (RemoteFile.calls h) (Holding R) (PlainFile.wholeSpec KernelError) where
  call := by
    intro op x s hs hpre
    cases op with
    | readAt offset len =>
      refine (wp_capture _).mpr (wp_bind_pure.mpr (wp_mono (wp_readAt_exact hplain hpre.1 hs) ?_ ?_
        (fun _ h => h)))
      · rintro r s' ⟨hs', rfl⟩
        exact ⟨x, ⟨rfl, rfl⟩, hs'⟩
      · intro e s' hs'
        exact ⟨x, rfl, hs'⟩
    | readExactAt offset len =>
      refine (wp_capture _).mpr (wp_bind_pure.mpr (wp_mono (wp_readExactAt_every hplain hpre.1 hs)
        ?_ ?_ (fun _ h => h)))
      · rintro r s' ⟨hs', hevery⟩
        exact ⟨x, ⟨rfl, hevery⟩, hs'⟩
      · intro e s' hs'
        exact ⟨x, rfl, hs'⟩
    | writeAt offset data => exact (wp_capture _).mpr (wp_writeAt_plain hplain hpre data hs)
    | setLen len => exact (wp_capture _).mpr (wp_setLen_plain hplain hpre hs)
    | flush =>
      refine (wp_capture _).mpr (wp_mono (wp_flush_plain hplain hs) ?_ ?_ (fun _ h => h))
      · intro _ s' hs'
        exact ⟨x, rfl, hs'⟩
      · intro _ s' hs'
        exact ⟨x, rfl, hs'⟩

/-- **The file object is a plain file whose reads are complete**, over any handle that is one: a
    caller that awaits each call ends without a panic, and a read that succeeds gives everything
    that the request covers of what the calls before have left, an exact one every byte of the
    request. -/
theorem ffiFile_plain (hplain : h.IsShort R) {α : Type} {caller : Caller (fileCalls KernelError) α}
    (hs : Holding R x s) (hsafe : Safe (PlainFile.wholeSpec KernelError) x caller) :
    ∃ a s' x', (run (RemoteFile.calls h) caller : Prog KernelError (RemoteFile σ) α) s
        = .ok (.ok a, s') ∧
      Ends (PlainFile.wholeSpec KernelError) x caller a x' ∧ Holding R x' s' :=
  (meets_whole hplain).exists_run hs hsafe

/-- Over a session whose reads give two bytes and whose writes take three: a write past the end, a
    read of all there is, and an exact read across the gap. -/
theorem ffiFile_plain_session : ∃ a s' x',
    (run (RemoteFile.calls (Smb.fileHandle Smb.oneFileLib Smb.oneLimits 1 0))
      (.ask (.writeAt 6 [6, 7, 8, 9]) fun _ => .ask (.readAt 0 20) fun _ =>
        .ask (.readExactAt 4 5) .ret) :
        Prog KernelError (RemoteFile (Smb.Sys FileContent)) (Except KernelError (List UInt8)))
      ⟨Smb.oneSession, 5, false⟩ = .ok (.ok a, s') ∧
    Ends (PlainFile.wholeSpec KernelError) (.holding ⟨[1, 2, 3, 4, 5], by decide⟩)
      (.ask (.writeAt 6 [6, 7, 8, 9]) fun _ => .ask (.readAt 0 20) fun _ =>
        .ask (.readExactAt 4 5) .ret) a x' ∧
    Holding (Smb.Stored Smb.oneSession (fun _ => True) 1 id 0) x' s' :=
  ffiFile_plain (Smb.isShort_fileHandle (Smb.stores_oneFile 1)) ⟨Smb.stored_oneSession, rfl⟩
    ⟨(by decide : 6 < 2 ^ 64), fun _ _ _ => ⟨⟨(by decide : 0 < 2 ^ 64), trivial⟩, fun _ _ _ =>
      ⟨⟨(by decide : 4 < 2 ^ 64), fun _ _ => trivial⟩, fun _ _ _ => trivial⟩⟩⟩

end Krystallos.Ffi
