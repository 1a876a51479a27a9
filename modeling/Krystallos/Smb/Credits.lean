import Krystallos.Lib.Credit
import Krystallos.Smb.Negotiation
import Krystallos.Smb.RemoteFile

namespace Krystallos.Smb

open Checked Prog Credit

/-!
# What the transfers are credited with

The counts that `smb2_pwrite` and `smb2_copychunk` report are added to offsets as they come,
where `read_at` holds the count it is told to the buffer.  A count above what was offered
leaves a transfer past its end, or past bytes nothing was asked for; for each of the three
transfers, `credited_iff` says which counts do that.
-/

variable {W : Type} {lib : Libsmb2 W}

/-! ### What the calls made say -/

/-- What a write was given, and what it was credited with. -/
def writeCredit : Event → Option Credit
  | ⟨.pwrite _ data offset, n⟩ => some ⟨offset, data.length, Int.toNat n⟩
  | _ => none

/-- What a chunk asked for, and what it was credited with.  A chunk that was refused is credited
    with nothing, and counts as a request only where `refused` says so. -/
def chunkCredit (refused : Bool) : Event → Option Credit
  | ⟨.copychunk _ _ chunk, (rc, reply)⟩ =>
    if rc = 0 then some ⟨chunk.targetOffset, chunk.length, reply.totalBytesWritten⟩
    else if refused then some ⟨chunk.targetOffset, chunk.length, 0⟩
    else none
  | _ => none

/-- What a read says that it read. -/
def readCount : Event → Nat
  | ⟨.pread _ _ _, (rc, _)⟩ => rc.toNat
  | _ => 0

variable {s : Ctx W}

/-! ### A write -/

/-- A write of the session thread returns what it was credited with. -/
theorem wp_writeAt_credited (id offset : Nat) (data : List UInt8) (s : Actor W) :
    wp (writeAt lib id offset data)
      ⟨fun n s' => Since s.ctx s'.ctx fun calls =>
        ∃ start offered, calls.filterMap writeCredit = [⟨start, offered, n⟩],
        fun _ _ => True, fun _ => True⟩ s := by
  rw [writeAt, wp_bind]
  refine wp_handleOf (fun fh _ => ?_) (fun _ => trivial)
  refine (wp_bind (onCtx (ffi lib (.pwrite fh _ _))) _).mpr (wp_onCtx_ffi.mpr ?_)
  refine wp_ite (fun _ => ?_) (fun _ => ?_)
  · exact (wp_zoom _ _ _).mpr (wp_failWith (fun _ => trivial) (fun _ => trivial))
  · exact .first rfl ⟨_, _, rfl⟩

/-- **A write to an open file** returns no more than it was given if and only if it is credited
    with no more than that. -/
theorem writeAt_credited_iff (file : RemoteFile) {offset n : Nat} {buf : List UInt8}
    {s s' : Client W} (hrun : file.writeAt lib offset buf s = .ok (.ok n, s')) :
    Since s.actor.ctx s'.actor.ctx fun calls =>
      n ≤ buf.length ↔ ∀ r ∈ calls.filterMap writeCredit, r.credited ≤ buf.length := by
  refine wp_ret (p := ⟨fun n s' => Since s.actor.ctx s'.actor.ctx fun calls =>
    n ≤ buf.length ↔ ∀ r ∈ calls.filterMap writeCredit, r.credited ≤ buf.length,
    fun _ _ => True, fun _ => True⟩) ?_ hrun
  refine wp_ite (fun _ => .refl ?_) (fun _ => ?_)
  · simp
  rw [RemoteFile.ifOpen, wp_bind, wp_current]
  refine wp_ite (fun _ => trivial) (fun _ => ?_)
  rw [wp_bind, RemoteFile.session, wp_zoom]
  refine wp_mono (wp_writeAt_credited file.id offset _ s.actor) ?_ (fun _ _ h => h) (fun _ h => h)
  intro n a hcredited
  apply (wp_bind _ _).mpr
  refine wp_checked_of (fun fileEnd _ => ?_) (fun _ => trivial)
  refine Since.mono hcredited fun calls hcalls => ?_
  obtain ⟨start, offered, hone⟩ := hcalls
  rw [hone]
  simp

/-! ### The server's copy -/

/-- A chunk that is requested lies in the source. -/
theorem chunkLength_inside {size chunkBytes offset : Nat} (hin : offset < size) :
    offset + chunkLength size chunkBytes offset ≤ size := by
  have hcast : castU 32 (min (size - offset) (umax 32)) ≤ min (size - offset) (umax 32) :=
    Nat.mod_le _ _
  unfold chunkLength
  omega

/-- **Step lemma.** Each turn asks for a chunk where the copy is, and moves it on by what the
    chunk is credited with. -/
theorem wp_copyServerSideTurn_fed (refused : Bool) {rk : List UInt8} {dst : Fh} {size : Nat}
    (start : Ctx W) (b : Nat × Nat) (s : Ctx W)
    (hs : Since start s fun calls => Fed size b.2 (calls.filterMap (chunkCredit refused))) :
    wp (copyServerSideTurn lib rk dst size b)
      (keepPost (fun b s =>
          Since start s fun calls => Fed size b.2 (calls.filterMap (chunkCredit refused)))
        ⟨fun n s => size ≤ n ∧
          Since start s fun calls => Fed size n (calls.filterMap (chunkCredit refused)),
          fun _ _ => True, fun _ => True⟩) s := by
  obtain ⟨chunkBytes, offset⟩ := b
  refine wp_copyServerSideTurn_of (fun hend => ⟨hend, hs⟩) (fun hin rc reply hanswer => ?_)
  have hinside : offset + chunkLength size chunkBytes offset ≤ size := chunkLength_inside hin
  refine wp_ite (fun hrc => ?_) (fun hrc => ?_)
  · -- the chunk is credited, and the offset moves by as much
    refine wp_ite (fun _ => trivial) (fun _ => ?_)
    rw [wp_bind]
    refine wp_checked_of (fun offset' hsum => ?_) (fun _ => trivial)
    rw [eq_add_of_addU hsum]
    refine hs.after hanswer fun calls hfed => ?_
    rw [List.filterMap_append]
    simpa [chunkCall, chunkCredit, hrc] using hfed.snoc _ reply.totalBytesWritten hinside
  · refine wp_ite (fun _ => hs.after hanswer fun calls hfed => ?_) (fun _ => ?_)
    · -- a refusal moves nothing, whether it counts as a request or not
      rw [List.filterMap_append]
      cases refused with
      | true => simpa [chunkCall, chunkCredit, hrc] using hfed.snoc _ 0 hinside
      | false => simpa [chunkCall, chunkCredit, hrc] using hfed
    · exact wp_classifyCopyFailure_of (fun _ => trivial) (fun _ _ => trivial)

/-- **The server's copy** comes to the size it was given, after requests that cover all of it, if
    and only if no chunk is credited past what had been asked for by then. -/
theorem copyServerSide_credited_iff (refused : Bool) {src dst : Fh} {size fuel n : Nat} {s' : Ctx W}
    (hrun : copyServerSide lib src dst size fuel s = .ok (.ok n, s')) :
    Since s s' fun calls =>
      (n = size ∧ ∀ x < size, Covers (calls.filterMap (chunkCredit refused)) x) ↔
        Within (calls.filterMap (chunkCredit refused)) := by
  have hfed : size ≤ n ∧
      Since s s' fun calls => Fed size n (calls.filterMap (chunkCredit refused)) := by
    refine wp_ret (p := ⟨fun n s' => size ≤ n ∧
      Since s s' fun calls => Fed size n (calls.filterMap (chunkCredit refused)),
      fun _ _ => True, fun _ => True⟩) ?_ hrun
    rw [copyServerSide, wp_bind, wp_ffi]
    refine wp_ite (fun _ => ?_) (fun _ => ?_)
    · exact wp_classifyCopyFailure_of (fun _ => trivial) (fun _ _ => trivial)
    · apply wp_iterate_partial _ trivial (wp_copyServerSideTurn_fed refused s) fuel
      exact .first rfl .nil
  exact hfed.2.mono fun calls hcalls => hcalls.complete_iff hfed.1

/-! ### The fallback -/

/-- What was taken of the writes comes to `taken`, and what the reads gave to `given`. -/
def Moved (taken given : Nat) (calls : List Event) : Prop :=
  ((calls.filterMap writeCredit).map Credit.taken).sum = taken ∧
    (calls.map readCount).sum = given

/-- A turn that fails, stops, leaves the loop or goes on with what it is credited with. -/
theorem wp_writeTurn_of {dst : Fh} {buf : List UInt8} {read written : Int} {offset : Nat}
    {p : Post Error (Ctx W) (Turn Int Unit)} {s : Ctx W} (hfail : ∀ e s, p.fail e s)
    (hstop : ∀ t, p.stop t) (hdone : read ≤ written → p.ret (.leave ()) s)
    (hmore : written < read → ∀ pos (n : Int),
      (lib.call (.pwrite dst ((buf.drop written.toNat).take (read - written).toNat) pos)
        s.world).1 = n → 0 < n →
      p.ret (.again (written + n))
        (s.after lib (.pwrite dst ((buf.drop written.toNat).take (read - written).toNat) pos))) :
    wp (writeTurn lib dst buf read offset written) p s := by
  refine wp_ite (fun hlt => ?_) (fun hend => hdone (Int.not_lt.mp hend))
  rw [wp_bind]
  refine wp_checked_of (fun pos _ => ?_) (fun _ => hstop _)
  refine (wp_bind (ffi lib (.pwrite dst _ _)) _).mpr (wp_ffi.mpr ?_)
  refine wp_ite (fun _ => wp_failWith (fun _ => hfail _ _) (fun _ => hstop _)) (fun hn => ?_)
  rw [wp_bind]
  refine wp_checked_of (fun written' hsum => ?_) (fun _ => hstop _)
  rw [eq_add_of_addI hsum]
  exact hmore hlt pos _ rfl (Int.not_le.mp hn)

/-- **Step lemma.** A turn takes the bytes it is credited with, as far as there are any left. -/
theorem wp_writeTurn_moved {dst : Fh} {buf : List UInt8} {read : Int} {offset : Nat}
    (hbuf : read ≤ buf.length) {start : Ctx W} {base given : Nat} (written : Int) (s : Ctx W)
    (hs : 0 ≤ written ∧ Since start s (Moved (base + (min written read).toNat) given)) :
    wp (writeTurn lib dst buf read offset written)
      (keepPost (fun written s =>
          0 ≤ written ∧ Since start s (Moved (base + (min written read).toNat) given))
        ⟨fun _ s => Since start s (Moved (base + read.toNat) given), fun _ _ => True,
          fun _ => True⟩) s := by
  obtain ⟨hnonneg, hmoved⟩ := hs
  refine wp_writeTurn_of (fun _ _ => trivial) (fun _ => trivial) (fun hdone => ?_)
    (fun hmore pos n hanswer hn => ⟨by omega, hmoved.after hanswer fun calls hcalls => ?_⟩)
  · rw [min_eq_right hdone] at hmoved
    exact hmoved
  · -- what the call offered, and what of its credit counts
    obtain ⟨htaken, hgiven⟩ := hcalls
    have hoffered : ((buf.drop written.toNat).take (read - written).toNat).length =
        (read - written).toNat := by
      rw [List.length_take, List.length_drop]
      omega
    constructor
    · rw [List.filterMap_append, List.map_append, List.sum_append, htaken]
      simp only [List.filterMap_cons, List.filterMap_nil, writeCredit, List.map_cons, List.map_nil,
        List.sum_cons, List.sum_nil, Credit.taken, hoffered]
      omega
    · rw [List.map_append, List.sum_append, hgiven]
      rfl

/-- **Step lemma.** A turn takes what it reads, whatever the writes are credited with. -/
theorem wp_copyThroughHereTurn_moved
    (hpread : ∀ fh count offset w, (lib.call (.pread fh count offset) w).1.1 ≤ (count : Int))
    {src dst : Fh} {size fuel : Nat} (start : Ctx W) (b : Nat × List UInt8) (s : Ctx W)
    (hs : Since start s (Moved b.1 b.1)) :
    wp (copyThroughHereTurn lib src dst size fuel b)
      (keepPost (fun b s => Since start s (Moved b.1 b.1))
        ⟨fun n s => Since start s (Moved n n), fun _ _ => True, fun _ => True⟩) s := by
  obtain ⟨offset, buf⟩ := b
  refine wp_ite (fun _ => ?_) (fun _ => hs)
  rw [wp_bind, wp_ffi]
  have hwant := (want_le size offset buf).1
  have hmost := hpread src (castU 32 (min (size - offset) buf.length)) offset s.world
  generalize castU 32 (min (size - offset) buf.length) = want at hwant hmost ⊢
  rcases hanswer : (lib.call (.pread src want offset) s.world).1 with ⟨read, bytes⟩
  rw [hanswer] at hmost
  dsimp only at hmost ⊢
  -- the read counts, and the writes have yet to
  have hread : Since start (s.after lib (.pread src want offset))
      (Moved offset (offset + read.toNat)) :=
    hs.after hanswer fun calls hcalls => by
      obtain ⟨htaken, hgiven⟩ := hcalls
      constructor
      · rw [List.filterMap_append, List.map_append, List.sum_append, htaken]
        rfl
      · rw [List.map_append, List.sum_append, hgiven]
        rfl
  refine wp_ite (fun _ => wp_failWith (fun _ => trivial) (fun _ => trivial)) (fun hnonneg => ?_)
  refine wp_ite (fun hzero => ?_) (fun _ => ?_)
  · rw [hzero] at hread
    exact hread
  rw [wp_bind]
  -- the buffer holds what was read, as the library keeps to the count
  have hbuf : read ≤ (fillBuf buf want bytes).length := by
    rw [length_fillBuf hwant]
    omega
  have hwrites : wp (iterate fuel (writeTurn lib dst (fillBuf buf want bytes) read offset) 0)
      ⟨fun _ s' => Since start s' (Moved (offset + read.toNat) (offset + read.toNat)),
        fun _ _ => True, fun _ => True⟩ (s.after lib (.pread src want offset)) := by
    refine wp_iterate_partial _ trivial (wp_writeTurn_moved hbuf) fuel ⟨le_rfl, ?_⟩
    rwa [min_eq_left (Int.not_lt.mp hnonneg)]
  refine wp_mono hwrites ?_ (fun _ _ h => h) (fun _ h => h)
  · intro _ s' hmoved
    refine (wp_bind _ _).mpr (wp_checked_of (fun offset' hsum => ?_) (fun _ => trivial))
    rw [eq_add_of_addU hsum]
    exact hmoved

/-- **The fallback** credits no write with more than it was given if and only if the writes are
    credited, all in all, with what the reads gave. -/
theorem copyThroughHere_credited_iff
    (hpread : ∀ fh count offset w, (lib.call (.pread fh count offset) w).1.1 ≤ (count : Int))
    {src dst : Fh} {size fuel n : Nat} {s' : Ctx W}
    (hrun : copyThroughHere lib src dst size fuel s = .ok (.ok n, s')) :
    Since s s' fun calls =>
      (∀ r ∈ calls.filterMap writeCredit, r.credited ≤ r.offered) ↔
        ((calls.filterMap writeCredit).map credited).sum = (calls.map readCount).sum := by
  have hpassed : wp (copyThroughHere lib src dst size fuel)
      ⟨fun n s' => Since s s' (Moved n n), fun _ _ => True, fun _ => True⟩ s :=
    wp_iterate_partial _ trivial (wp_copyThroughHereTurn_moved hpread s) fuel (.refl ⟨rfl, rfl⟩)
  have hmoved : Since s s' (Moved n n) := wp_ret hpassed hrun
  refine hmoved.mono fun calls hcalls => ?_
  rw [← sum_credited_eq_iff, hcalls.1, hcalls.2]

/-- **What the transfers are credited with.** A write returns no more than it was given if and only
    if it is credited with no more than that.  The server's copy returns its size, after requests
    for all of it, if and only if no chunk is credited past what had been asked for by then.  And
    the fallback returns with no write credited with more than it was given if and only if the
    writes are credited with what the reads gave. -/
theorem credited_iff (lib : Libsmb2 W)
    (hpread : ∀ fh count offset w, (lib.call (.pread fh count offset) w).1.1 ≤ (count : Int)) :
    (∀ (file : RemoteFile) offset buf s n s',
      file.writeAt lib offset buf s = .ok (.ok n, s') →
      Since s.actor.ctx s'.actor.ctx fun calls =>
        n ≤ buf.length ↔ ∀ r ∈ calls.filterMap writeCredit, r.credited ≤ buf.length) ∧
    (∀ refused src dst size fuel s n s',
      copyServerSide lib src dst size fuel s = .ok (.ok n, s') →
      Since s s' fun calls =>
        (n = size ∧ ∀ x < size, Covers (calls.filterMap (chunkCredit refused)) x) ↔
          Within (calls.filterMap (chunkCredit refused))) ∧
    ∀ src dst size fuel s n s',
      copyThroughHere lib src dst size fuel s = .ok (.ok n, s') →
      Since s s' fun calls =>
        (∀ r ∈ calls.filterMap writeCredit, r.credited ≤ r.offered) ↔
          ((calls.filterMap writeCredit).map credited).sum = (calls.map readCount).sum :=
  ⟨fun file _ _ _ _ _ hrun => writeAt_credited_iff file hrun,
    fun refused _ _ _ _ _ _ _ hrun => copyServerSide_credited_iff refused hrun,
    fun _ _ _ _ _ _ _ hrun => copyThroughHere_credited_iff hpread hrun⟩

/-- A server that credits a chunk with what it asked for. -/
theorem credited_truthful :
    ∃ s', copyServerSide (MemServer.lib .none) 1 2 3 3 ⟨MemServer.ready, []⟩ = .ok (.ok 3, s') ∧
      Since ⟨MemServer.ready, []⟩ s' fun calls =>
        (3 = 3 ∧ ∀ x < 3, Covers (calls.filterMap (chunkCredit true)) x) ↔
          Within (calls.filterMap (chunkCredit true)) :=
  ⟨_, rfl, (credited_iff (MemServer.lib .none) (MemServer.pread_le .none)).2.1 true 1 2 3 3
    ⟨MemServer.ready, []⟩ 3 _ rfl⟩

/-- A session with the handle `2` under the id `1`. -/
def readyClient : Client MemServer :=
  ⟨⟨⟨MemServer.ready, []⟩, OpenFiles.empty.add 2⟩, false, 0⟩

/-- The file it is open on. -/
def readyFile : RemoteFile := ⟨1, ⟨"/b"⟩, ⟨1024, 1024, by decide, by decide⟩⟩

/-- **Counts that are too large** are taken as they come: a write of one byte returns five, a copy of
    two chunks is done after the first, and a fallback returns with a write of three bytes that was
    credited with five. -/
theorem credited_too_much :
    (∃ s', readyFile.writeAt (MemServer.crediting 5) 0 [7] readyClient = .ok (.ok 5, s')) ∧
    (∃ s', copyServerSide (MemServer.crediting (2 ^ 21)) 1 2 (2 ^ 21) 2 ⟨MemServer.ready, []⟩ =
        .ok (.ok (2 ^ 21), s') ∧
      Since ⟨MemServer.ready, []⟩ s' fun calls =>
        ¬ Covers (calls.filterMap (chunkCredit true)) (2 ^ 20)) ∧
    ∃ s', copyThroughHere (MemServer.crediting 5) 1 2 3 2 ⟨MemServer.ready, []⟩ = .ok (.ok 3, s') ∧
      Since ⟨MemServer.ready, []⟩ s' fun calls =>
        ∃ r ∈ calls.filterMap writeCredit, r.offered < r.credited := by
  refine ⟨⟨_, rfl⟩, ⟨_, rfl, ⟨_, rfl, ?_⟩⟩, ?_⟩
  · show ¬ Covers [⟨0, 2 ^ 20, 2 ^ 21⟩] (2 ^ 20)
    rintro ⟨r, hr, -, hstop⟩
    rw [List.mem_singleton] at hr
    subst hr
    exact lt_irrefl _ hstop
  · have hread : ((MemServer.crediting 5).call (.pread 1 3 0) MemServer.ready).1 =
        (((3 : Nat) : Int), [1, 2, 3]) := rfl
    have hwritten : ∀ buf, ((MemServer.crediting 5).call (.pwrite 2
        (((fillBuf buf 3 [1, 2, 3]).drop (0 : Int).toNat).take (((3 : Nat) : Int) - 0).toNat) 0)
        MemServer.ready).1 = (5 : Int) := fun _ => rfl
    obtain ⟨data, hdata, hrun⟩ := copyThroughHere_once (s := ⟨MemServer.ready, []⟩) (by decide)
      (by decide) hread hwritten (by decide) (by decide)
    refine ⟨_, hrun, ⟨_, rfl, ⟨0, data.length, 5⟩, List.mem_singleton.mpr rfl, ?_⟩⟩
    dsimp only
    omega

end Krystallos.Smb
