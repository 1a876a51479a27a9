import Krystallos.Smb.MemServer

namespace Krystallos.Smb

open Checked Prog Slices

/-!
# A copy that reports success

On a server whose successful calls report what they did, moving the bytes is exact: whatever
fails or is refused on the way, the destination holds a prefix of the source at least as
long as the offset reached, and the fallback starts over on top of it.

What is not exact is the size the copy starts from.  A size query that fails counts as zero,
and a size of zero ends the copy before a byte is moved: `copyFile_faithful_iff` says that
this is the only way a copy reports success without being one.
-/

variable {W κ : Type} [DecidableEq κ] {lib : Libsmb2 W} {view : W → Share κ} {key : String → κ}

/-- While the bytes are moved: `src` is open on the source, which has the name `l`, and `dst`
    on another name, `k`, which holds `D`. -/
structure Copying (view : W → Share κ) (src dst : Fh) (l k : κ) (source : Node)
    (D : List UInt8) (w : W) : Prop where
  src : (view w).handles src = some l
  dst : (view w).handles dst = some k
  source : (view w).nodes l = some source
  target : (view w).nodes k = some (.file D)
  apart : l ≠ k

/-- With `offset` reached, the destination holds at least that much of the source.  Nothing
    is ever moved out of what is not a file. -/
def Landed (source : Node) (offset : Nat) (D : List UInt8) : Prop :=
  match source with
  | .file S => ∃ m, offset ≤ m ∧ m ≤ S.length ∧ D = S.take m
  | .other _ => offset = 0

variable {src dst : Fh} {l k : κ} {source : Node} {D : List UInt8} {offset size : Nat}

/-- A new file holds as much as is needed to start. -/
theorem landed_nil (source : Node) : Landed source 0 [] := by
  cases source with
  | file S => exact ⟨0, le_rfl, Nat.zero_le _, List.take_zero.symm⟩
  | other n => rfl

/-- What has landed is still there when the copy starts over. -/
theorem Landed.restart (h : Landed source offset D) : Landed source 0 D := by
  cases source with
  | file S =>
    obtain ⟨m, -, hm, hD⟩ := h
    exact ⟨m, Nat.zero_le _, hm, hD⟩
  | other n => rfl

/-- Writing the next piece of the source at the offset reached. -/
theorem Landed.write {S : List UInt8} {n : Nat} (h : Landed (.file S) offset D)
    (hn : offset + n ≤ S.length) :
    Landed (.file S) (offset + n) (overwrite D offset (slice S offset n)) := by
  obtain ⟨m, hoff, hm, rfl⟩ := h
  exact ⟨max m (offset + n), Nat.le_max_right _ _, Nat.max_le.mpr ⟨hm, hn⟩,
    overwrite_take_slice S m offset n hoff hm hn⟩

/-- **The end of the copy.** Once the whole size has been reached, the destination is the
    source. -/
theorem Landed.complete (h : Landed source offset D) (hsize : size = source.size)
    (hpos : 0 < size) (hend : size ≤ offset) :
    ∃ S, source = .file S ∧ D = S ∧ offset = S.length := by
  subst hsize
  cases source with
  | file S =>
    obtain ⟨m, hoff, hm, rfl⟩ := h
    replace hend : S.length ≤ offset := hend
    exact ⟨S, rfl, List.take_of_length_le (by omega), by omega⟩
  | other n =>
    replace h : offset = 0 := h
    omega

/-- The target was written to. -/
theorem Copying.put {w w' : W} {D' : List UInt8} (h : Copying view src dst l k source D w)
    (hw : view w' = (view w).put k (some (.file D'))) :
    Copying view src dst l k source D' w' where
  src := by rw [hw, Share.put_handles, h.src]
  dst := by rw [hw, Share.put_handles, h.dst]
  source := by rw [hw, Share.put_nodes, Function.update_of_ne h.apart, h.source]
  target := by rw [hw, Share.put_nodes, Function.update_self]
  apart := h.apart

omit [DecidableEq κ] in
/-- Nothing changed but the resume keys. -/
theorem Copying.of_eq {w w' : W} (h : Copying view src dst l k source D w)
    (hnodes : (view w').nodes = (view w).nodes) (hhandles : (view w').handles = (view w).handles) :
    Copying view src dst l k source D w' where
  src := by rw [hhandles, h.src]
  dst := by rw [hhandles, h.dst]
  source := by rw [hnodes, h.source]
  target := by rw [hnodes, h.target]
  apart := h.apart

/-- The bytes are being moved and `offset` has been reached. -/
def Reached (view : W → Share κ) (src dst : Fh) (l k : κ) (source : Node) (offset : Nat)
    (w : W) : Prop :=
  ∃ D, Copying view src dst l k source D w ∧ Landed source offset D

/-- The loops end with the whole size reached, or fail. -/
def movedPost (view : W → Share κ) (src dst : Fh) (l k : κ) (source : Node) (size : Nat) :
    Post Error (Ctx W) Nat where
  ret := fun n s => size ≤ n ∧ Reached view src dst l k source n s.world
  fail := fun _ _ => True
  stop := fun _ => True

/-! ### The server's copy -/

/-- What one `copychunk` does: it moves what it says it moved, and where it fails what had
    landed has still landed. -/
theorem Truthful.copychunk_reached (h : Truthful lib view key) {w : W} {rk : List UInt8}
    (hkey : (view w).keys rk = some l) (hs : Reached view src dst l k source offset w)
    (hin : offset < source.size) (length : Nat) :
    let answer := lib.call (.copychunk rk dst ⟨offset, offset, length⟩) w
    (view answer.2).keys rk = some l ∧ Reached view src dst l k source offset answer.2 ∧
    (answer.1.1 = (0 : Int) →
      Reached view src dst l k source (offset + answer.1.2.totalBytesWritten) answer.2) := by
  obtain ⟨D, hcopy, hland⟩ := hs
  obtain ⟨D', hput, hmoves⟩ :=
    h.chunk rk dst w k l source D offset length hcopy.dst hcopy.target hkey hcopy.source
  have hcopy' := hcopy.put hput
  refine ⟨by rw [hput, Share.put_keys, hkey], ?_⟩
  cases source with
  | file S =>
    -- some bytes have landed, at least as many as the reply counts
    obtain ⟨m, -, hm, hD', htotal⟩ := hmoves
    replace hin : offset < S.length := hin
    have hland' := hland.write (n := m) (by omega)
    rw [← hD'] at hland'
    refine ⟨⟨D', hcopy', ?_⟩, fun hrc => ⟨D', hcopy', by rwa [htotal hrc]⟩⟩
    obtain ⟨m', hoff, hm'⟩ := hland'
    exact ⟨m', by omega, hm'⟩
  | other n =>
    exact ⟨⟨D', hcopy', hland⟩, fun hrc => absurd hrc hmoves.2⟩

/-- What the server's copy leaves behind: all of it, or a reason to start over. -/
def servedPost (view : W → Share κ) (src dst : Fh) (l k : κ) (source : Node) (size : Nat) :
    Post CopyFailed (Ctx W) Nat where
  ret := fun n s => size ≤ n ∧ Reached view src dst l k source n s.world
  fail := fun e s => e = .unsupported → Reached view src dst l k source 0 s.world
  stop := fun _ => True

omit [DecidableEq κ] in
theorem Reached.restart {w : W} (h : Reached view src dst l k source offset w) :
    Reached view src dst l k source 0 w := by
  obtain ⟨D, hcopy, hland⟩ := h
  exact ⟨D, hcopy, hland.restart⟩

omit [DecidableEq κ] in
theorem wp_classifyCopyFailure {α : Type} {rc : Int} {p : Post CopyFailed (Ctx W) α} {s : Ctx W}
    (hfail : ∀ e, p.fail e s) (hstop : ∀ q, p.stop (.panic q)) :
    wp (classifyCopyFailure lib rc : Prog CopyFailed (Ctx W) α) p s := by
  simp only [classifyCopyFailure, wp_bind, wp_current]
  refine wp_ite (fun _ => hfail _) (fun _ => ?_)
  rw [wp_bind]
  exact wp_ctxError (fun e => hfail _) hstop

/-- At the head of the server-side loop: the resume key names the source, and the offset has
    been reached. -/
def Serving (view : W → Share κ) (src dst : Fh) (l k : κ) (source : Node) (rk : List UInt8)
    (b : Nat × Nat) (s : Ctx W) : Prop :=
  (view s.world).keys rk = some l ∧ Reached view src dst l k source b.2 s.world

theorem wp_copyServerSideTurn (h : Truthful lib view key) {rk : List UInt8}
    (hsize : size = source.size) (b : Nat × Nat) (s : Ctx W)
    (hs : Serving view src dst l k source rk b s) :
    wp (copyServerSideTurn lib rk dst size b)
      (keepPost (Serving view src dst l k source rk) (servedPost view src dst l k source size))
      s := by
  obtain ⟨chunkBytes, offset⟩ := b
  obtain ⟨hkey, hs⟩ := hs
  refine wp_ite (fun hin => ?_) (fun hend => ⟨Nat.not_lt.mp hend, hs⟩)
  rw [wp_bind, wp_ffi]
  obtain ⟨hkey', hkept, hmoved⟩ := h.copychunk_reached hkey hs (hsize ▸ hin)
    (min chunkBytes (castU 32 (min (size - offset) (umax 32))))
  refine wp_ite (fun hrc => ?_) (fun _ => ?_)
  · -- the chunk was moved, as far as the reply says
    refine wp_ite (fun _ hunsupported => by cases hunsupported) (fun _ => ?_)
    rw [wp_bind]
    refine wp_checked_of (fun offset' hsum => ?_) (fun _ => trivial)
    rw [eq_add_of_addU hsum]
    exact ⟨hkey', hmoved hrc⟩
  · -- a limit was reported, or the copy ends here
    refine wp_ite (fun _ => ⟨hkey', hkept⟩) (fun _ => ?_)
    exact wp_classifyCopyFailure (fun _ _ => hkept.restart) (fun _ => trivial)

/-- **The server's copy** is complete where it succeeds, and whatever it did can be written
    over where it is not supported. -/
theorem wp_copyServerSide (h : Truthful lib view key) {s : Ctx W}
    (hs : Reached view src dst l k source 0 s.world) (hsize : size = source.size) (fuel : Nat) :
    wp (copyServerSide lib src dst size fuel) (servedPost view src dst l k source size) s := by
  obtain ⟨D, hcopy, hland⟩ := hs
  obtain ⟨keys, hview⟩ := h.requestResumeKey src s.world
  have hcopy' : Copying view src dst l k source D (s.after lib (.requestResumeKey src)).world :=
    hcopy.of_eq (by rw [Ctx.after_world, hview]) (by rw [Ctx.after_world, hview])
  rw [copyServerSide, wp_bind, wp_ffi]
  refine wp_ite (fun _ => ?_) (fun hrc => ?_)
  · exact wp_classifyCopyFailure (fun _ _ => ⟨D, hcopy', hland.restart⟩) (fun _ => trivial)
  · have hkey := h.resumeKey src s.world l hcopy.src (not_not.mp hrc)
    exact wp_iterate_partial _ trivial (wp_copyServerSideTurn h hsize) fuel
      ⟨hkey, ⟨D, hcopy', hland⟩⟩

/-! ### The fallback -/

/-- What the library wrote into the buffer, from `written` on. -/
theorem fillBuf_piece {buf bytes : List UInt8} {want : Nat} (hfits : bytes.length ≤ want)
    (written : Nat) :
    ((fillBuf buf want bytes).drop written).take (bytes.length - written)
      = bytes.drop written := by
  rw [fillBuf, List.take_of_length_le hfits]
  by_cases hw : written ≤ bytes.length
  · rw [List.drop_append_of_le_length hw, List.take_append_of_le_length (by simp),
      List.take_of_length_le (by simp)]
  · rw [Nat.sub_eq_zero_of_le (by omega), List.take_zero, List.drop_eq_nil_of_le (by omega)]

/-- The buffer keeps its size. -/
theorem length_fillBuf {buf : List UInt8} {want : Nat} (hwant : want ≤ buf.length)
    (bytes : List UInt8) : (fillBuf buf want bytes).length = buf.length := by
  rw [fillBuf, List.length_append, List.length_take, List.length_drop]
  omega

/-- What one `pwrite` of the next piece of the source does. -/
theorem Truthful.pwrite_reached (h : Truthful lib view key) {S : List UInt8} {w : W} {n : Nat}
    (hs : Reached view src dst l k (.file S) offset w) (hn : offset + n ≤ S.length) :
    let answer := lib.call (.pwrite dst (slice S offset n) offset) w
    ∀ rc : Int, answer.1 = rc → 0 < rc →
      ∃ m : Nat, rc = m ∧ m ≤ n ∧ Reached view src dst l k (.file S) (offset + m) answer.2 := by
  intro answer rc hrc hpos
  obtain ⟨D, hcopy, hland⟩ := hs
  obtain ⟨m, hm, hput, hcount⟩ :=
    h.written dst w k D (slice S offset n) offset hcopy.dst hcopy.target
  have hlen : m ≤ n := le_trans hm (by rw [length_slice]; exact Nat.min_le_left _ _)
  rw [take_slice, Nat.min_eq_left hlen] at hput
  refine ⟨m, ?_, hlen, _, hcopy.put hput, hland.write (by omega)⟩
  subst hrc
  exact hcount (le_of_lt hpos)

/-- At the head of the writing loop: `written` of the bytes read at `offset` have landed. -/
def Writing (view : W → Share κ) (src dst : Fh) (l k : κ) (S : List UInt8) (offset count : Nat)
    (written : Int) (s : Ctx W) : Prop :=
  ∃ w : Nat, written = w ∧ w ≤ count ∧ Reached view src dst l k (.file S) (offset + w) s.world

/-- The writing loop ends with everything that was read landed, or fails. -/
def writtenPost (view : W → Share κ) (src dst : Fh) (l k : κ) (S : List UInt8) (offset : Nat) :
    Post Error (Ctx W) Unit where
  ret := fun _ s => Reached view src dst l k (.file S) offset s.world
  fail := fun _ _ => True
  stop := fun _ => True

theorem wp_writeTurn (h : Truthful lib view key) {S buf bytes : List UInt8} {want : Nat}
    (hfits : bytes.length ≤ want) (hbytes : bytes = slice S offset bytes.length)
    (hin : offset + bytes.length ≤ S.length) (written : Int) (s : Ctx W)
    (hs : Writing view src dst l k S offset bytes.length written s) :
    wp (writeTurn lib dst (fillBuf buf want bytes) bytes.length offset written)
      (keepPost (Writing view src dst l k S offset bytes.length)
        (writtenPost view src dst l k S (offset + bytes.length))) s := by
  obtain ⟨w, rfl, hw, hs⟩ := hs
  refine wp_ite (fun hlt => ?_) (fun hge => ?_)
  · rw [wp_bind]
    refine wp_checked_of (fun pos hpos => ?_) (fun _ => trivial)
    -- what is left of the buffer is the next piece of the source
    have hdata : ((fillBuf buf want bytes).drop w).take ((bytes.length : Int) - w).toNat
        = slice S (offset + w) (bytes.length - w) := by
      rw [show ((bytes.length : Int) - w).toNat = bytes.length - w by omega,
        fillBuf_piece hfits, hbytes, drop_slice, ← hbytes]
    rw [eq_add_of_addU hpos, Int.toNat_natCast, hdata]
    refine (wp_bind (ffi lib (.pwrite dst _ _)) _).mpr (wp_ffi.mpr ?_)
    have hmoved := h.pwrite_reached hs (n := bytes.length - w) (by omega) _ rfl
    refine wp_ite (fun _ => wp_failWith (fun _ => trivial) (fun _ => trivial)) (fun hn => ?_)
    obtain ⟨m, hm, hmle, hreached⟩ := hmoved (Int.not_le.mp hn)
    rw [wp_bind]
    refine wp_checked_of (fun written' hsum => ?_) (fun _ => trivial)
    rw [eq_add_of_addI hsum]
    refine ⟨w + m, ?_, by omega, by rwa [← Nat.add_assoc]⟩
    rw [Nat.cast_add]
    exact congrArg _ hm
  · -- everything that was read has been written
    obtain rfl : w = bytes.length := by omega
    exact hs

/-- At the head of the fallback's loop. -/
def Passing (view : W → Share κ) (src dst : Fh) (l k : κ) (source : Node)
    (b : Nat × List UInt8) (s : Ctx W) : Prop :=
  Reached view src dst l k source b.1 s.world ∧ b.2.length = copyChunkBytes

theorem wp_copyThroughHereTurn (h : Truthful lib view key) (hsize : size = source.size)
    (fuel : Nat) (b : Nat × List UInt8) (s : Ctx W)
    (hs : Passing view src dst l k source b s) :
    wp (copyThroughHereTurn lib src dst size fuel b)
      (keepPost (Passing view src dst l k source) (movedPost view src dst l k source size)) s := by
  obtain ⟨offset, buf⟩ := b
  obtain ⟨⟨D, hcopy, hland⟩, hbuf⟩ := hs
  replace hbuf : buf.length = copyChunkBytes := hbuf
  refine wp_ite (fun hin => ?_) (fun hend => ⟨Nat.not_lt.mp hend, D, hcopy, hland⟩)
  have hwant : castU 32 (min (size - offset) buf.length) = min (size - offset) buf.length :=
    castU_of_lt (lt_of_le_of_lt (Nat.min_le_right _ _) (by rw [hbuf]; decide))
  rw [hwant, wp_bind, wp_ffi]
  have hpos : 0 < min (size - offset) buf.length := by
    rw [hbuf, copyChunkBytes]
    omega
  have hle : min (size - offset) buf.length ≤ buf.length := Nat.min_le_right _ _
  generalize min (size - offset) buf.length = want at hpos hle
  -- what the server answers, and what the call leaves of the share
  have hanswer := h.read src s.world l source want offset hcopy.src hcopy.source
  have hcopy' : Copying view src dst l k source D (s.after lib (.pread src want offset)).world :=
    hcopy.of_eq (by rw [Ctx.after_world, h.pread]) (by rw [Ctx.after_world, h.pread])
  show wp _ _ (s.after lib (.pread src want offset))
  generalize s.after lib (.pread src want offset) = s₁ at hcopy'
  generalize lib.call (.pread src want offset) s.world = answer at hanswer
  obtain ⟨⟨read, bytes⟩, w⟩ := answer
  refine wp_ite (fun _ => wp_failWith (fun _ => trivial) (fun _ => trivial)) (fun hread => ?_)
  cases source with
  | other n => exact absurd hanswer hread
  | file S =>
    obtain ⟨hcount, hshort⟩ : read = bytes.length ∧ ShortRead S offset want bytes :=
      hanswer (Int.not_lt.mp hread)
    subst hcount
    refine wp_ite (fun hzero => ?_) (fun hne => ?_)
    · -- an empty read is the end of the source
      have hnil : bytes = [] := List.eq_nil_of_length_eq_zero (by exact_mod_cast hzero)
      exact ⟨hsize ▸ (hshort.empty hpos).mp hnil, D, hcopy', hland⟩
    · have hin' := hshort.add_length_le (by rintro rfl; exact hne rfl)
      -- the bytes that were read are written in a loop of their own
      have hwrites : wp (iterate fuel
          (writeTurn lib dst (fillBuf buf want bytes) bytes.length offset) 0)
          (writtenPost view src dst l k S (offset + bytes.length)) s₁ :=
        wp_iterate_partial _ trivial (wp_writeTurn h hshort.fits hshort.bytes hin') fuel
          ⟨0, rfl, Nat.zero_le _, D, hcopy', hland⟩
      rw [wp_bind]
      refine wp_mono hwrites (fun _ s₂ hs₂ => ?_) (fun _ _ _ => trivial) (fun _ _ => trivial)
      refine (wp_bind _ _).mpr (wp_checked_of (fun offset' hsum => ?_) (fun _ => trivial))
      rw [eq_add_of_addU hsum]
      exact ⟨hs₂, (length_fillBuf hle bytes).trans hbuf⟩

/-! ### The copy -/

/-- **Moving the bytes** is complete where it succeeds, by whichever way. -/
theorem wp_copyBytes (h : Truthful lib view key) {s : Ctx W}
    (hs : Reached view src dst l k source 0 s.world) (hsize : size = source.size) (fuel : Nat) :
    wp (copyBytes lib src dst size fuel) (movedPost view src dst l k source size) s := by
  simp only [copyBytes, wp_bind, wp_capture]
  refine wp_mono (wp_copyServerSide h hs hsize fuel) (fun n s' hdone => hdone) ?_
    (fun _ _ => trivial)
  intro e s' hstarted
  cases e with
  | unsupported =>
    exact wp_iterate_partial _ trivial (wp_copyThroughHereTurn h hsize fuel) fuel
      ⟨hstarted rfl, List.length_replicate⟩
  | error e => trivial

/-- With a size that is not zero and is the source's, the copy is exact or fails. -/
theorem wp_copyInto (h : Truthful lib view key) {s : Ctx W}
    (hs : Reached view src dst l k source 0 s.world) (hsize : size = source.size)
    (hpos : 0 < size) (path : String) (fuel : Nat) :
    wp (copyInto lib src dst path size fuel)
      ⟨fun n s' => ∃ S, source = .file S ∧ n = S.length ∧
          (view s'.world).nodes k = some (.file S),
        fun _ _ => True, fun _ => True⟩ s := by
  refine wp_ite (fun hzero => absurd hzero hpos.ne') (fun _ => ?_)
  simp only [wp_bind, wp_capture, wp_guarding]
  refine wp_mono (wp_copyBytes h hs hsize fuel) ?_ (fun _ _ _ => trivial) (fun _ _ => trivial)
  rintro n s₁ ⟨hend, D, hcopy, hland⟩
  obtain ⟨S, rfl, rfl, rfl⟩ := hland.complete hsize hpos hend
  refine ⟨D, rfl, rfl, ?_⟩
  rw [Ctx.after_world, h.close, Share.closed_nodes, hcopy.target]

/-- With a size of zero, the copy is over. -/
theorem wp_copyInto_zero (h : Truthful lib view key) {s : Ctx W} (path : String) (fuel : Nat) :
    wp (copyInto lib src dst path 0 fuel)
      ⟨fun n s' => n = 0 ∧ (view s'.world).nodes = (view s.world).nodes,
        fun _ _ => False, fun _ => False⟩ s := by
  refine wp_ite (fun _ => ?_) (fun hne => absurd rfl hne)
  rw [wp_withGuard]
  exact ⟨rfl, by rw [Ctx.after_world, h.close, Share.closed_nodes]⟩

/-- What a copy that returns `n` has done: the source was a regular file of `n` bytes, and
    the destination holds them. -/
def Faithful (view : W → Share κ) (l k : κ) (n : Nat) (s s' : Ctx W) : Prop :=
  ∃ S, (view s.world).nodes l = some (.file S) ∧ n = S.length ∧
    (view s'.world).nodes k = some (.file S)

/-- The copy gets as far as creating the destination, with the two handles. -/
structure Opens (lib : Libsmb2 W) (fromPath toPath : VfsPath) (s : Ctx W) (src dst : Fh) :
    Prop where
  fromText : '\x00' ∉ (toSmbPath fromPath).toList
  toText : '\x00' ∉ (toSmbPath toPath).toList
  source : (lib.call (.openFile (toSmbPath fromPath) sourceFlags) s.world).1 = some src
  destination : (lib.call (.openFile (toSmbPath toPath) destinationFlags)
    ((s.after lib (.openFile (toSmbPath fromPath) sourceFlags)).after lib (.fstat src)).world).1
      = some dst

/-- The size query of a copy from `s` that opened the source as `src`. -/
def sizeSeen (lib : Libsmb2 W) (fromPath : VfsPath) (s : Ctx W) (src : Fh) : Nat :=
  reportedSize
    (lib.call (.fstat src) (s.after lib (.openFile (toSmbPath fromPath) sourceFlags)).world).1

/-- What the two opens and the query leave for the copy proper. -/
theorem Truthful.opened (h : Truthful lib view key) {fromPath toPath : VfsPath} {s : Ctx W}
    (hopens : Opens lib fromPath toPath s src dst) :
    let s₁ := s.after lib (.openFile (toSmbPath fromPath) sourceFlags)
    let s₃ := (s₁.after lib (.fstat src)).after lib (.openFile (toSmbPath toPath) destinationFlags)
    ∃ source, (view s.world).nodes (key (toSmbPath fromPath)) = some source ∧
      Reached view src dst (key (toSmbPath fromPath)) (key (toSmbPath toPath)) source 0 s₃.world ∧
      (view s₃.world).nodes (key (toSmbPath toPath)) = some (.file []) ∧
      (sizeSeen lib fromPath s src ≠ 0 → sizeSeen lib fromPath s src = source.size) := by
  intro s₁ s₃
  obtain ⟨-, hexists, hview⟩ := h.open_source _ s.world src hopens.source
  obtain ⟨source, hsource⟩ := Option.isSome_iff_exists.mp hexists
  obtain ⟨hfree, habs, -, hview'⟩ := h.open_destination _ _ dst hopens.destination
  rw [Ctx.after_world, h.fstat, Ctx.after_world, hview] at hfree habs hview'
  -- the handle of the destination was free, so that it is another one
  have hne : src ≠ dst := by
    rintro rfl
    simp at hfree
  -- and the destination was not there, so that it is another file
  have hapart : key (toSmbPath fromPath) ≠ key (toSmbPath toPath) := by
    intro heq
    rw [Share.opened_nodes, ← heq, hsource] at habs
    cases habs
  have hs₃ : view s₃.world
      = (((view s.world).opened src (key (toSmbPath fromPath))).put (key (toSmbPath toPath))
        (some (.file []))).opened dst (key (toSmbPath toPath)) := hview'
  have hcopy : Copying view src dst (key (toSmbPath fromPath)) (key (toSmbPath toPath)) source []
      s₃.world := by
    refine ⟨?_, ?_, ?_, ?_, hapart⟩
    · rw [hs₃, Share.opened_handles, Function.update_of_ne hne, Share.put_handles,
        Share.opened_handles, Function.update_self]
    · rw [hs₃, Share.opened_handles, Function.update_self]
    · rw [hs₃, Share.opened_nodes, Share.put_nodes, Function.update_of_ne hapart,
        Share.opened_nodes, hsource]
    · rw [hs₃, Share.opened_nodes, Share.put_nodes, Function.update_self]
  refine ⟨source, hsource, ⟨[], hcopy, landed_nil source⟩, hcopy.target, fun hne => ?_⟩
  unfold sizeSeen reportedSize at hne ⊢
  split at hne
  · next hrc =>
    rw [if_pos hrc]
    refine h.size src s₁.world (key (toSmbPath fromPath)) source ?_ ?_ hrc
    · rw [Ctx.after_world, hview, Share.opened_handles, Function.update_self]
    · rw [Ctx.after_world, hview, Share.opened_nodes, hsource]
  · exact absurd rfl hne

/-- The copy up to the two opens: either they are made, or it fails. -/
theorem wp_copyFile {fromPath toPath : VfsPath} {fuel : Nat} {s : Ctx W}
    {p : Post Error (Ctx W) Nat}
    (hinto : ∀ src dst, Opens lib fromPath toPath s src dst →
      wp (copyInto lib src dst (toSmbPath toPath) (sizeSeen lib fromPath s src) fuel)
        ⟨fun n s' => p.ret n (s'.after lib (.close src)),
          fun e s' => p.fail e (s'.after lib (.close src)), p.stop⟩
        (((s.after lib (.openFile (toSmbPath fromPath) sourceFlags)).after lib
          (.fstat src)).after lib (.openFile (toSmbPath toPath) destinationFlags)))
    (hfail : (∀ src dst, ¬ Opens lib fromPath toPath s src dst) →
      (∀ e s', p.fail e s') ∧ ∀ q, p.stop (.panic q)) :
    wp (copyFile lib fromPath toPath fuel) p s := by
  refine (wp_bind _ _).mpr (wp_cstring (fun hfrom => ?_) (fun hnul e => ?_))
  · refine (wp_bind _ _).mpr (wp_cstring (fun hto => ?_) (fun hnul e => ?_))
    · simp only [wp_bind, wp_ffi]
      -- either file may fail to open
      cases hsrc : (lib.call (.openFile (toSmbPath fromPath) sourceFlags) s.world).1 with
      | none =>
        obtain ⟨hf, hstop⟩ := hfail fun src dst hopens => by
          have := hsrc.symm.trans hopens.source
          cases this
        exact wp_failWith (fun e => hf e _) hstop
      | some src =>
        show wp (withGuard lib src _) _ _
        rw [wp_withGuard, copyFrom, wp_bind, wp_ffi]
        simp only [wp_bind, wp_ffi]
        cases hdst : (lib.call (.openFile (toSmbPath toPath) destinationFlags)
            ((s.after lib (.openFile (toSmbPath fromPath) sourceFlags)).after lib
              (.fstat src)).world).1 with
        | none =>
          obtain ⟨hf, hstop⟩ := hfail fun src' dst hopens => by
            have hsame := hsrc.symm.trans hopens.source
            cases hsame
            have := hdst.symm.trans hopens.destination
            cases this
          exact wp_failWith (fun e => hf e _) hstop
        | some dst => exact hinto src dst ⟨hfrom, hto, hsrc, hdst⟩
    · exact (hfail fun _ _ hopens => hopens.toText hnul).1 e s
  · exact (hfail fun _ _ hopens => hopens.fromText hnul).1 e s

/-- Every copy from `s` that reports success is one. -/
def CopiesFaithfully (lib : Libsmb2 W) (view : W → Share κ) (key : String → κ)
    (fromPath toPath : VfsPath) (s : Ctx W) : Prop :=
  ∀ fuel n s', copyFile lib fromPath toPath fuel s = .ok (.ok n, s') →
    Faithful view (key (toSmbPath fromPath)) (key (toSmbPath toPath)) n s s'

/-- **Faithful copies.** On a truthful server, a copy that reports success is one if and only
    if, where it got as far as creating the destination, it started from a size that is not
    zero or the source is an empty file. -/
theorem copyFile_faithful_iff (h : Truthful lib view key) (fromPath toPath : VfsPath)
    (s : Ctx W) :
    CopiesFaithfully lib view key fromPath toPath s ↔
      ∀ src dst, Opens lib fromPath toPath s src dst →
        sizeSeen lib fromPath s src ≠ 0 ∨
          (view s.world).nodes (key (toSmbPath fromPath)) = some (.file []) := by
  constructor
  · intro hfaithful src dst hopens
    by_contra hnot
    rw [not_or, not_not] at hnot
    -- a size of zero moves nothing, and is reported as success
    have hzero : wp (copyFile lib fromPath toPath 0)
        ⟨fun n _ => n = 0, fun _ _ => False, fun _ => False⟩ s := by
      refine wp_copyFile (fun src' dst' hopens' => ?_) (fun hnone => absurd hopens (hnone src dst))
      cases hopens.source.symm.trans hopens'.source
      rw [hnot.1]
      exact wp_mono (wp_copyInto_zero h _ 0) (fun _ _ hn => hn.1) (fun _ _ => False.elim)
        (fun _ => False.elim)
    obtain ⟨n, s', hrun, rfl⟩ := exists_of_wp hzero
    obtain ⟨S, hsource, hlen, -⟩ := hfaithful 0 0 s' hrun
    obtain rfl : S = [] := List.eq_nil_of_length_eq_zero hlen.symm
    exact hnot.2 hsource
  · intro hcond fuel n s' hrun
    have hcopy : wp (copyFile lib fromPath toPath fuel) ⟨fun n s' =>
        Faithful view (key (toSmbPath fromPath)) (key (toSmbPath toPath)) n s s',
        fun _ _ => True, fun _ => True⟩ s := by
      refine wp_copyFile (fun src dst hopens => ?_)
        (fun _ => ⟨fun _ _ => trivial, fun _ => trivial⟩)
      obtain ⟨source, hsource, hreached, hempty, hsize⟩ := h.opened hopens
      by_cases hzero : sizeSeen lib fromPath s src = 0
      · -- nothing is moved, and there is nothing to move
        have hnil := (hcond src dst hopens).resolve_left (not_not.mpr hzero)
        rw [hzero]
        refine wp_mono (wp_copyInto_zero h _ fuel) ?_ (fun _ _ => False.elim) (fun _ => False.elim)
        rintro n s' ⟨rfl, hnodes⟩
        exact ⟨[], hnil, rfl, by rw [Ctx.after_world, h.close, Share.closed_nodes, hnodes, hempty]⟩
      · refine wp_mono (wp_copyInto h hreached (hsize hzero) (Nat.pos_of_ne_zero hzero) _ fuel) ?_
          (fun _ _ _ => trivial) (fun _ _ => trivial)
        rintro n s' ⟨S, rfl, hn, htarget⟩
        exact ⟨S, hsource, hn, by rw [Ctx.after_world, h.close, Share.closed_nodes, htarget]⟩
    exact wp_ret hcopy hrun

/-- With the size known, a file of three bytes is copied. -/
theorem copyFile_faithful_known : CopiesFaithfully (MemServer.lib .none) MemServer.view id
    ⟨"/a"⟩ ⟨"/b"⟩ ⟨MemServer.holding "a" (.file [1, 2, 3]), []⟩ := by
  refine (copyFile_faithful_iff (MemServer.truthful .none) _ _ _).mpr fun src dst hopens => .inl ?_
  obtain rfl : 1 = src := Option.some.inj hopens.source
  exact (by decide : (3 : Nat) ≠ 0)

/-- A connection on which the size query fails. -/
def losesSize : Quirks := .failing (fun | .fstat _ => true | _ => false) 0

/-- The same file is then copied as an empty one, and reported as a success. -/
theorem copyFile_loses_source :
    Truthful (MemServer.lib losesSize) MemServer.view id ∧
    (∃ s', copyFile (MemServer.lib losesSize) ⟨"/a"⟩ ⟨"/b"⟩ 1
        ⟨MemServer.holding "a" (.file [1, 2, 3]), []⟩ = .ok (.ok 0, s') ∧
      s'.world.nodes "b" = some (.file [])) ∧
    ¬ CopiesFaithfully (MemServer.lib losesSize) MemServer.view id ⟨"/a"⟩ ⟨"/b"⟩
      ⟨MemServer.holding "a" (.file [1, 2, 3]), []⟩ := by
  refine ⟨MemServer.truthful losesSize, ⟨_, rfl, by decide⟩, fun hfaithful => ?_⟩
  obtain ⟨S, hsource, hlen, -⟩ := hfaithful 1 0 _ rfl
  cases hsource
  cases hlen

end Krystallos.Smb
