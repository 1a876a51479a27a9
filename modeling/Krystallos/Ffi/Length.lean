import Krystallos.Ffi.RemoteFile
import Krystallos.Lib.Lts
import Krystallos.Smb.Overflow

namespace Krystallos.Ffi

open Checked Prog Slices Lts RemoteFile

/-!
# The length that a file object keeps

`RemoteFile::len` is a plain getter: the length is kept beside the handle, and every write and
truncation that succeeds brings it up to date.  `len_tracks_iff` says when it is the size of the
file after every call: when no write past the end is accepted with nothing written.
-/

/-- The size of a file after `n` bytes were accepted at `offset`. -/
def grown (size offset n : Nat) : Nat := if n = 0 then size else max size (offset + n)

@[simp] theorem grown_zero (size offset : Nat) : grown size offset 0 = size := if_pos rfl

/-- A write of something may go past the end. -/
theorem grown_pos {size offset n : Nat} (h : n ≠ 0) : grown size offset n = max size (offset + n) :=
  if_neg h

/-- The offsets and lengths of a call are `u64`s. -/
def InRange : WriteOp → Prop
  | .writeAt offset _ => offset < 2 ^ 64
  | .setLen len => len < 2 ^ 64

variable {σ : Type}

/-- While `I` holds, nobody else changes the file's size: a call that succeeds makes it what the
    answer says, and a call that fails leaves it. -/
structure Sizes (h : FileHandle σ) (I : σ → Prop) (size : σ → Nat) : Prop where
  bound : ∀ w, I w → size w < 2 ^ 64
  writeAt : ∀ offset data w, offset < 2 ^ 64 → I w → wp (h.writeAt offset data)
    ⟨fun n w' => I w' ∧ size w' = grown (size w) offset n,
      fun _ w' => I w' ∧ size w' = size w, fun _ => False⟩ w
  setLen : ∀ len w, len < 2 ^ 64 → I w → wp (h.setLen len)
    ⟨fun _ w' => I w' ∧ size w' = len, fun _ w' => I w' ∧ size w' = size w, fun _ => False⟩ w

/-- The file object after a call, whether the call succeeded or failed. -/
def lengthStep (h : FileHandle σ) (s : RemoteFile σ) : WriteOp → Option (RemoteFile σ)
  | .writeAt offset data => (RemoteFile.writeAt h offset data s).toOption.map Prod.snd
  | .setLen len => (RemoteFile.setLen h len s).toOption.map Prod.snd

/-- The kept length is the size of the file. -/
def RightLen (size : σ → Nat) (s : RemoteFile σ) : Prop := s.len = size s.world

/-- The call is not a write past the end that the handle accepts nothing of. -/
def Lands (h : FileHandle σ) (size : σ → Nat) (s : RemoteFile σ) : WriteOp → Prop
  | .writeAt offset data =>
    s.closed = true ∨ offset ≤ size s.world ∨ ∀ w, h.writeAt offset data s.world ≠ .ok (.ok 0, w)
  | .setLen _ => True

variable {h : FileHandle σ} {I : σ → Prop} {size : σ → Nat} {s s' : RemoteFile σ} {op : WriteOp}
  {offset len n : Nat} {data : List UInt8} {w : σ} {e : Error}

/-! ### A call -/

/-- The handle of a file that is open. -/
theorem handle_open (hopen : s.closed = false) : handle h s = .ok (.ok h, s) := by
  simp only [handle, bind, current, hopen]
  rfl

/-- A file that was closed has none. -/
theorem handle_closed (hclosed : s.closed = true) :
    handle h s = .ok (.error (alreadyClosed "file"), s) := by
  simp only [handle, bind, current, hclosed]
  rfl

/-- A call on the handle that succeeds. -/
theorem onHandle_ok {α : Type} {m : Prog Error σ α} {a : α} (hrun : m s.world = .ok (.ok a, w)) :
    onHandle m s = .ok (.ok a, { s with world := w }) := by
  simp only [onHandle, mapErr, zoom, hrun]

/-- One that fails, with the error under its other name. -/
theorem onHandle_error {α : Type} {m : Prog Error σ α} (hrun : m s.world = .ok (.error e, w)) :
    onHandle m s = .ok (.error (.ofCore e), { s with world := w }) := by
  simp only [onHandle, mapErr, zoom, hrun]

/-- A file that is closed is left alone. -/
theorem lengthStep_closed (hclosed : s.closed = true) : lengthStep h s op = some s := by
  cases op with
  | writeAt => simp only [lengthStep, RemoteFile.writeAt, bind, handle_closed hclosed]; rfl
  | setLen => simp only [lengthStep, RemoteFile.setLen, bind, handle_closed hclosed]; rfl

/-- A write raises the length that is kept to where it ended. -/
theorem lengthStep_write (hopen : s.closed = false)
    (hrun : h.writeAt offset data s.world = .ok (.ok n, w)) (hsum : offset + n < 2 ^ 64) :
    lengthStep h s (.writeAt offset data) =
      some { s with world := w, len := max s.len (offset + n) } := by
  simp only [lengthStep, RemoteFile.writeAt, bind, handle_open hopen, onHandle_ok hrun, checked,
    addU_ok hsum]
  rfl

/-- One that fails leaves it. -/
theorem lengthStep_write_failed (hopen : s.closed = false)
    (hrun : h.writeAt offset data s.world = .ok (.error e, w)) :
    lengthStep h s (.writeAt offset data) = some { s with world := w } := by
  simp only [lengthStep, RemoteFile.writeAt, bind, handle_open hopen, onHandle_error hrun]
  rfl

/-- A truncation sets it. -/
theorem lengthStep_setLen (hopen : s.closed = false)
    (hrun : h.setLen len s.world = .ok (.ok (), w)) :
    lengthStep h s (.setLen len) = some { s with world := w, len := len } := by
  simp only [lengthStep, RemoteFile.setLen, bind, handle_open hopen, onHandle_ok hrun]
  rfl

/-- One that fails leaves it. -/
theorem lengthStep_setLen_failed (hopen : s.closed = false)
    (hrun : h.setLen len s.world = .ok (.error e, w)) :
    lengthStep h s (.setLen len) = some { s with world := w } := by
  simp only [lengthStep, RemoteFile.setLen, bind, handle_open hopen, onHandle_error hrun]
  rfl

/-- A sum that the file's size reaches is a `u64`. -/
theorem add_lt_of_grown (hoffset : offset < 2 ^ 64) {size : Nat}
    (hsize : grown size offset n < 2 ^ 64) : offset + n < 2 ^ 64 := by
  by_cases hn : n = 0
  · rwa [hn]
  · rw [grown_pos hn] at hsize
    omega

/-- What a call does: nothing to the length and the size, or what a write or a truncation that
    succeeded does. -/
theorem lengthStep_cases (hsizes : Sizes h I size) (hop : InRange op) (hI : I s.world) :
    ∃ s', lengthStep h s op = some s' ∧ I s'.world ∧
      ((s'.len = s.len ∧ size s'.world = size s.world ∧ Lands h size s op) ∨
        (∃ offset data n w, op = .writeAt offset data ∧ s.closed = false ∧
          h.writeAt offset data s.world = .ok (.ok n, w) ∧ s'.len = max s.len (offset + n) ∧
          size s'.world = grown (size s.world) offset n) ∨
        ∃ len, op = .setLen len ∧ s'.len = len ∧ size s'.world = len) := by
  cases hclosed : s.closed with
  | true =>
    refine ⟨s, lengthStep_closed hclosed, hI, .inl ⟨rfl, rfl, ?_⟩⟩
    cases op with
    | writeAt => exact .inl hclosed
    | setLen => trivial
  | false =>
    cases op with
    | writeAt offset data =>
      have hwrite := hsizes.writeAt offset data s.world hop hI
      rcases hrun : h.writeAt offset data s.world with t | ⟨e | n, w⟩
      · exact (stop_of_run hwrite hrun).elim
      · obtain ⟨hI', hsize⟩ := wp_fail_of_run hwrite hrun
        refine ⟨_, lengthStep_write_failed hclosed hrun, hI', .inl ⟨rfl, hsize, .inr (.inr ?_)⟩⟩
        -- a write that failed did not accept zero bytes
        intro w' hzero
        rw [hrun] at hzero
        cases hzero
      · obtain ⟨hI', hsize⟩ := wp_ret hwrite hrun
        -- the sum cannot overflow, since the file has grown to it
        have hsum := add_lt_of_grown hop (hsize ▸ hsizes.bound w hI')
        exact ⟨_, lengthStep_write hclosed hrun hsum, hI',
          .inr (.inl ⟨offset, data, n, w, rfl, rfl, hrun, rfl, hsize⟩)⟩
    | setLen len =>
      have hset := hsizes.setLen len s.world hop hI
      rcases hrun : h.setLen len s.world with t | ⟨e | ⟨⟩, w⟩
      · exact (stop_of_run hset hrun).elim
      · obtain ⟨hI', hsize⟩ := wp_fail_of_run hset hrun
        exact ⟨_, lengthStep_setLen_failed hclosed hrun, hI', .inl ⟨rfl, hsize, trivial⟩⟩
      · obtain ⟨hI', hsize⟩ := wp_ret hset hrun
        exact ⟨_, lengthStep_setLen hclosed hrun, hI', .inr (.inr ⟨len, rfl, rfl, hsize⟩)⟩

/-! ### Any number of calls -/

/-- A call that lands keeps the length right. -/
theorem tracks_of_lands (hsizes : Sizes h I size) (hop : InRange op) (hlands : Lands h size s op)
    (hs : I s.world ∧ RightLen size s) (hstep : lengthStep h s op = some s') :
    I s'.world ∧ RightLen size s' := by
  obtain ⟨hI, htracks⟩ := hs
  obtain ⟨u, hu, hIu, hcases⟩ := lengthStep_cases hsizes hop hI
  obtain rfl : u = s' := Option.some.inj (hu.symm.trans hstep)
  refine ⟨hIu, ?_⟩
  unfold RightLen at htracks ⊢
  rcases hcases with ⟨hlen, hsize, -⟩ | ⟨offset, data, n, w, rfl, hopen, hrun, hlen, hsize⟩ |
    ⟨len, -, hlen, hsize⟩
  · rw [hlen, hsize, htracks]
  · by_cases hn : n = 0
    · -- nothing was accepted, so the offset is within the file
      subst hn
      have hin : offset ≤ size s.world := by
        rcases hlands with hclosed | hin | hnone
        · rw [hopen] at hclosed
          cases hclosed
        · exact hin
        · exact absurd hrun (hnone w)
      rw [hlen, hsize, grown_zero, htracks, Nat.add_zero, Nat.max_eq_left hin]
    · rw [hlen, hsize, grown_pos hn, htracks]
  · rw [hlen, hsize]

/-- A write past the end that nothing is accepted of leaves a length that is too large. -/
theorem not_tracks_of_not_lands (hsizes : Sizes h I size) (hop : InRange op)
    (hnot : ¬ Lands h size s op) (hs : I s.world ∧ RightLen size s)
    (hstep : lengthStep h s op = some s') : ¬ RightLen size s' := by
  obtain ⟨hI, htracks⟩ := hs
  obtain ⟨u, hu, -, hcases⟩ := lengthStep_cases hsizes hop hI
  obtain rfl : u = s' := Option.some.inj (hu.symm.trans hstep)
  rcases hcases with ⟨-, -, hlands⟩ | ⟨offset, data, n, w, rfl, hopen, hrun, hlen, hsize⟩ |
    ⟨len, rfl, -, -⟩
  · exact absurd hlands hnot
  · -- the length goes up to the offset, and the file does not
    simp only [Lands, not_or, not_forall, not_not, not_le] at hnot
    obtain ⟨-, hpast, w', hzero⟩ := hnot
    obtain ⟨hn, -⟩ := Prod.mk.inj (Except.ok.inj (hrun.symm.trans hzero))
    obtain rfl : n = 0 := Except.ok.inj hn
    rw [RightLen, hlen, hsize, grown_zero, Nat.add_zero]
    omega
  · exact absurd trivial hnot

/-- **The length that is kept is the file's size** after every call, in any sequence of writes and
    truncations, if and only if no write past the end is accepted with nothing written. -/
theorem len_tracks_iff (hsizes : Sizes h I size) (hI : I s.world) (hlen : s.len = size s.world)
    (ops : List WriteOp) (hops : ∀ op ∈ ops, InRange op) :
    (∃ t, run (lengthStep h) s ops = some t) ∧
      (AllStates (lengthStep h) (fun s => s.len = size s.world) s ops ↔
        AllSteps (lengthStep h) (Lands h size) s ops) := by
  obtain ⟨t, hrun, -⟩ := exists_run (I := fun s : RemoteFile σ => I s.world) (fun s op hop hI => by
    obtain ⟨s', hs', hI', -⟩ := lengthStep_cases hsizes (hops op hop) hI
    exact ⟨s', hs', hI'⟩) hI
  refine ⟨⟨t, hrun⟩, allStates_iff_allSteps (I := fun s => I s.world ∧ RightLen size s)
    (fun s hs => hs.2) (fun s op hop s' => ?_) (fun s op hop s' => ?_) ⟨hI, hlen⟩ hrun⟩
  · exact tracks_of_lands hsizes (hops op hop)
  · exact not_tracks_of_not_lands hsizes (hops op hop)

/-! ### Over an SMB file -/

section

variable {W : Type} {lib : Smb.Libsmb2 W} {J : W → Prop} {fh : Smb.Fh} {file : Smb.RemoteFile}
  {fileSize : W → Nat}

/-- While `J` holds, writes and truncations on `fh` do to the file's size what they answer. -/
structure Resizes (lib : Smb.Libsmb2 W) (J : W → Prop) (fh : Smb.Fh) (fileSize : W → Nat) :
    Prop where
  bound : ∀ w, J w → fileSize w < 2 ^ 64
  pwrite : ∀ data offset w (n : Int) w', J w → lib.call (.pwrite fh data offset) w = (n, w') →
    J w' ∧ -2 ^ 31 < n ∧ fileSize w' = grown (fileSize w) offset n.toNat
  ftruncate : ∀ len w (rc : Int) w', J w → lib.call (.ftruncate fh len) w = (rc, w') →
    J w' ∧ -2 ^ 31 < rc ∧ fileSize w' = if rc = 0 then len else fileSize w

/-- A command on an open file leaves it open, and in `J`. -/
structure StaysOpen (J : W → Prop) (a a' : Smb.Actor W) : Prop where
  world : J a'.ctx.world
  files : a'.files = a.files

theorem wp_actorFail {α : Type} {a : Smb.Actor W} {rc : Int} {label : String}
    {p : Post Error (Smb.Actor W) α} (hfail : ∀ e, p.fail e a) (hrc : -2 ^ 31 < rc) :
    wp (Smb.onCtx (Smb.failWith lib rc label)) p a := by
  rw [Smb.onCtx, wp_zoom, Smb.failWith, wp_bind]
  exact Smb.wp_ctxError_of (fun e => hfail e) (fun hnot => absurd (by omega) hnot)

/-- A write on the thread grows the file by what it reports. -/
theorem wp_writeAt_resizes (hresizes : Resizes lib J fh fileSize) {id : Nat} {a : Smb.Actor W}
    (hJ : J a.ctx.world) (hid : a.files.get id = some fh) (offset : Nat) (data : List UInt8) :
    wp (Smb.writeAt lib id offset data)
      ⟨fun n a' => StaysOpen J a a' ∧
          fileSize a'.ctx.world = grown (fileSize a.ctx.world) offset n,
        fun _ a' => StaysOpen J a a' ∧ fileSize a'.ctx.world = fileSize a.ctx.world,
        fun _ => False⟩ a := by
  rw [Smb.writeAt, wp_bind]
  refine Smb.wp_handleOf (fun fh' hfh => ?_) (fun hnone => ?_)
  · obtain rfl : fh = fh' := Option.some.inj (hid.symm.trans hfh)
    refine (wp_bind (Smb.onCtx (Smb.ffi lib (.pwrite fh _ offset))) _).mpr (Smb.wp_onCtx_ffi.mpr ?_)
    rcases hanswer : lib.call (.pwrite fh (data.take (castU 32 data.length)) offset) a.ctx.world
      with ⟨n, w⟩
    obtain ⟨hJ', hrc, hsize⟩ := hresizes.pwrite _ offset _ n w hJ hanswer
    have hworld : (a.ctx.after lib (.pwrite fh (data.take (castU 32 data.length)) offset)).world =
        w := congrArg Prod.snd hanswer
    generalize a.ctx.after lib (.pwrite fh (data.take (castU 32 data.length)) offset) = ctx
      at hworld ⊢
    subst hworld
    refine wp_ite (fun hneg => wp_actorFail (fun _ => ⟨⟨hJ', rfl⟩, ?_⟩) hrc)
      (fun _ => ⟨⟨hJ', rfl⟩, hsize⟩)
    -- a negative count is no bytes, so that the file kept its size
    have hzero : Int.toNat n = 0 := Int.toNat_of_nonpos (le_of_lt hneg)
    rw [hzero, grown_zero] at hsize
    exact hsize
  · rw [hid] at hnone
    cases hnone

/-- A truncation on the thread cuts it to its length. -/
theorem wp_setLen_resizes (hresizes : Resizes lib J fh fileSize) {id : Nat} {a : Smb.Actor W}
    (hJ : J a.ctx.world) (hid : a.files.get id = some fh) (len : Nat) :
    wp (Smb.setLen lib id len)
      ⟨fun _ a' => StaysOpen J a a' ∧ fileSize a'.ctx.world = len,
        fun _ a' => StaysOpen J a a' ∧ fileSize a'.ctx.world = fileSize a.ctx.world,
        fun _ => False⟩ a := by
  rw [Smb.setLen, wp_bind]
  refine Smb.wp_handleOf (fun fh' hfh => ?_) (fun hnone => ?_)
  · obtain rfl : fh = fh' := Option.some.inj (hid.symm.trans hfh)
    refine (wp_bind (Smb.onCtx (Smb.ffi lib (.ftruncate fh len))) _).mpr (Smb.wp_onCtx_ffi.mpr ?_)
    rcases hanswer : lib.call (.ftruncate fh len) a.ctx.world with ⟨rc, w⟩
    obtain ⟨hJ', hrc, hsize⟩ := hresizes.ftruncate len _ rc w hJ hanswer
    have hworld : (a.ctx.after lib (.ftruncate fh len)).world = w := congrArg Prod.snd hanswer
    generalize a.ctx.after lib (.ftruncate fh len) = ctx at hworld ⊢
    subst hworld
    -- what the library reports tells whether the size has changed
    refine wp_ite (fun hfailed => wp_actorFail (fun _ => ⟨⟨hJ', rfl⟩, ?_⟩) hrc)
      (fun hok => ⟨⟨hJ', rfl⟩, ?_⟩)
    · rwa [if_neg hfailed] at hsize
    · rwa [if_pos (not_not.mp hok)] at hsize
  · rw [hid] at hnone
    cases hnone

/-- A file stays open over a command that leaves it open. -/
theorem openOn_of_stays {s : Smb.Client W} {a : Smb.Actor W} (hs : Smb.OpenOn J fh file s)
    (ha : StaysOpen J s.actor a) (len : Nat) :
    Smb.OpenOn J fh file { s with actor := a, len := len } :=
  ⟨ha.world, by rw [← hs.table, ← ha.files], hs.closed⟩

/-- **An SMB file** says what it does to the size, where the server does: its own checks and its own
    kept length are in nobody's way. -/
theorem sizes_remote (hresizes : Resizes lib J fh fileSize) :
    Sizes (file.asHandle lib) (Smb.OpenOn J fh file) (fun s => fileSize s.actor.ctx.world) where
  bound := fun s hs => hresizes.bound _ hs.world
  writeAt := by
    intro offset data s hoffset hs
    refine wp_ite (fun _ => ⟨hs, (grown_zero _ _).symm⟩) (fun _ => ?_)
    rw [Smb.wp_ifOpen hs.closed, wp_bind, Smb.RemoteFile.session, wp_zoom]
    refine wp_mono (wp_writeAt_resizes hresizes hs.world hs.table offset _) ?_ ?_ (fun _ h => h)
    · rintro n a ⟨hstays, hsize⟩
      -- the new size is a `u64`, so that the sum does not overflow
      have hsum : offset + n < 2 ^ 64 :=
        add_lt_of_grown hoffset (hsize ▸ hresizes.bound _ hstays.world)
      refine (wp_bind _ _).mpr ((wp_checked_ok (addU_ok hsum)).mpr ?_)
      exact ⟨openOn_of_stays hs hstays _, hsize⟩
    · rintro e a ⟨hstays, hsize⟩
      exact ⟨openOn_of_stays hs hstays _, hsize⟩
  setLen := by
    intro len s _ hs
    show wp (file.setLen lib len) _ s
    rw [Smb.RemoteFile.setLen, Smb.wp_ifOpen hs.closed, wp_bind, Smb.RemoteFile.session, wp_zoom]
    refine wp_mono (wp_setLen_resizes hresizes hs.world hs.table len) ?_ ?_ (fun _ h => h)
    · rintro _ a ⟨hstays, hsize⟩
      exact ⟨openOn_of_stays hs hstays _, hsize⟩
    · rintro e a ⟨hstays, hsize⟩
      exact ⟨openOn_of_stays hs hstays _, hsize⟩

end

/-! ### Writes past the end -/

/-- The size of a file after its content was written over. -/
theorem length_overwrite_grown (F : List UInt8) (offset : Nat) (d : List UInt8) :
    (overwrite F offset d).length = grown F.length offset d.length := by
  by_cases hd : d = []
  · rw [hd, overwrite_nil, List.length_nil, grown_zero]
  · rw [overwrite, if_neg hd, grown_pos (fun h => hd (List.length_eq_zero_iff.mp h))]
    simp only [List.length_append, List.length_take, List.length_replicate, List.length_drop]
    omega

/-- A file in memory that takes at most `cap` bytes of a write. -/
def inMemory (cap : Nat) : FileHandle FileContent where
  readAt offset len := do
    let F ← current
    pure (slice F.bytes offset len)
  writeAt offset data := fun F =>
    if h : (overwrite F.bytes offset (data.take cap)).length < 2 ^ 64 then
      .ok (.ok (data.take cap).length, ⟨_, h⟩)
    else .ok (.error (.backend "the file would be too large"), F)
  setLen len := fun F =>
    if h : (resize F.bytes len).length < 2 ^ 64 then .ok (.ok (), ⟨_, h⟩)
    else .ok (.error (.backend "the file would be too large"), F)
  flush := pure ()
  close := pure ()
  len F := F.bytes.length

theorem sizes_inMemory (cap : Nat) :
    Sizes (inMemory cap) (fun _ => True) (fun F => F.bytes.length) where
  bound := fun F _ => F.bound
  writeAt := by
    intro offset data F _ _
    unfold inMemory wp
    dsimp only
    split_ifs with h
    · exact ⟨trivial, length_overwrite_grown _ _ _⟩
    · exact ⟨trivial, rfl⟩
  setLen := by
    intro len F _ _
    unfold inMemory wp
    dsimp only
    split_ifs with h
    · exact ⟨trivial, length_resize _ _⟩
    · exact ⟨trivial, rfl⟩

/-- A short write over the end, and a truncation. -/
theorem len_tracks_short :
    (∃ t, run (lengthStep (inMemory 2)) ⟨⟨[1, 2, 3], by decide⟩, 3, false⟩
      [.writeAt 2 [7, 8, 9], .setLen 1] = some t) ∧
    AllStates (lengthStep (inMemory 2)) (fun s => s.len = s.world.bytes.length)
      ⟨⟨[1, 2, 3], by decide⟩, 3, false⟩ [.writeAt 2 [7, 8, 9], .setLen 1] := by
  have htracks := len_tracks_iff (sizes_inMemory 2) (s := ⟨⟨[1, 2, 3], by decide⟩, 3, false⟩) trivial
    rfl [.writeAt 2 [7, 8, 9], .setLen 1] (by simp [InRange])
  refine ⟨htracks.1, htracks.2.mpr
    ⟨.inr (.inl (by decide)), fun _ _ => ⟨trivial, fun _ _ => trivial⟩⟩⟩

/-- **An empty write past the end** of an SMB file of five bytes makes its length nine. -/
theorem emptyWrite_overstates :
    oneClient.len = 5 ∧
    (lengthStep ((oneFile 2 (by decide)).asHandle (Smb.MemServer.lib oneByte)) oneClient
        (.writeAt 9 [])).map
      (fun s => (s.len, s.world.actor.ctx.world.nodes "a")) = some (9, some (.file [1, 2, 3, 4, 5])) ∧
    ¬ AllStates (lengthStep ((oneFile 2 (by decide)).asHandle (Smb.MemServer.lib oneByte)))
      (fun s => s.len = ((s.world.actor.ctx.world.nodes "a").map Smb.Node.size).getD 0) oneClient
      [.writeAt 9 []] := by
  refine ⟨rfl, rfl, fun hall => ?_⟩
  have hnine : 9 = 5 := (hall.2 _ rfl)
  exact absurd hnine (by decide)

end Krystallos.Ffi
