import Krystallos.Cli.Commands
import Krystallos.Core.Hosted

namespace Krystallos

open Checked Prog Slices

/-!
# What was put is what is gotten

`cat`, `get` and `put` over any endpoint that hosts the file: the first two write out what the file
holds and leave it so, and the last leaves in it what was read from the source.
-/

namespace Cli

variable {σ δ δ' : Type} {up left : FileContent → σ → Prop} {closed : δ → Prop}
  {source : Nat → δ → Prop} {R : PlainFile → σ → Prop} {S buf : List UInt8} {src : Source δ}
  {sink : Sink δ} {backend : StorageBackend σ} {connect : Prog Error σ (StorageBackend σ)}
  {handle : FileHandle σ} {path : String} {chunk k : Nat} {s : Cli σ δ} {F : FileContent}

/-! ### `cat` and `get` -/

/-- What `open_for_read` returns reads the file up to its end, with read-ahead or without, and
    closing it leaves the file as it was. -/
theorem wp_openForRead_hosts {p : VfsPath} {cfg : Config} (hhosts : backend.Hosts up left p)
    (hup : up F s.world.1) :
    wp (openForRead backend p cfg) (ifDone fun rh s' => s'.out = s.out ∧
      ∃ J : σ × ReadAhead → Prop, J s'.world ∧
        (toHandle rh).Reads J F.bytes (· ≤ F.bytes.length) ∧
        ∀ w, J w → wp (toHandle rh).close (ifDone fun _ w' => up F w'.1) w) s := by
  refine (wp_bind _ _).mpr (wp_onBackend.mpr (wp_done (hhosts.stat F s.world.1 hup) ?_))
  intro md w hup'
  refine wp_ite (fun _ => trivial) (fun _ => ?_)
  refine (wp_bind _ _).mpr (wp_onBackend.mpr (wp_done (hhosts.openFile .reading F w hup') ?_))
  rintro h w' ⟨R, hR, hshort, hclose⟩
  have hreads := hshort.reads (.holding F)
  have hinner : ∀ w : σ × ReadAhead, R (.holding F) w.1 →
      wp (ReadAhead.inner h.close) (ifDone fun _ w' => up F w'.1) w :=
    fun w hw => (wp_zoom _ _ _).mpr (wp_mono (hclose _ w.1 hw) (fun _ _ h => h)
      (fun _ _ _ => trivial) (fun _ _ => trivial))
  refine wp_ite (fun _ => ?_) (fun _ => ?_)
  · -- with read-ahead, from a fresh window
    simp only [wp_bind, onHandle, wp_zoom, wp_update, wp_pure]
    have hwrapped : (ReadAhead.asHandle cfg h).Reads (ReadAhead.Wraps cfg _ F.bytes) F.bytes _ :=
      ReadAhead.asHandle_reads F.bound hreads
    exact ⟨rfl, _, ReadAhead.wraps_init hR,
      hwrapped.mono fun offset hle => ⟨lt_of_le_of_lt hle F.bound, .inl hle⟩,
      fun w hw => hinner (w.1, w.2.invalidate) hw.1⟩
  · refine ⟨rfl, _, hR, (reads_plain hreads).mono fun offset hle => ?_, hinner⟩
    exact lt_of_le_of_lt hle F.bound

/-- A turn of the copy loop leaves the file open. -/
theorem wp_copyTurn_open {h : FileHandle (σ × ReadAhead)} {J : σ × ReadAhead → Prop} {offset : Nat}
    (hreads : h.Reads J F.bytes (· ≤ F.bytes.length)) (hchunk : 0 < chunk ∨ F.bytes = [])
    (hs : Copied J F.bytes offset s) :
    wp (copyTurn sink h chunk offset) (keepPost (Copied J F.bytes)
      (ifDone fun _ s' => s'.out = F.bytes ∧ J s'.world)) s := by
  have hopen : wp (copyTurn sink h chunk offset) (ifDone fun _ s' => J s'.world) s := by
    refine (wp_bind _ _).mpr ((wp_zoom _ _ _).mpr
      (wp_done (hreads.readAt offset chunk s.world hs.2.1 hs.1) ?_))
    rintro buf w ⟨hJ, -⟩
    refine wp_ite (fun _ => hJ) (fun _ => ?_)
    refine (wp_bind _ _).mpr (wp_writeAll (fun d => ?_) (fun _ _ => trivial))
    exact (wp_bind _ _).mpr (wp_checked_of (fun _ _ => hJ) (fun _ => trivial))
  have hexact : wp (copyTurn sink h chunk offset) (turnPost (Copied J F.bytes)
      (fun offset _ => F.bytes.length - offset) (copyPost F.bytes 0) (F.bytes.length - offset)) s :=
    wp_copyTurn F.bound hreads (fun _ h => h) hchunk hs
  refine wp_mono (wp_and hexact hopen) ?_ (fun _ _ _ => trivial) (fun _ _ => trivial)
  rintro (offset' | _) s' ⟨hturn, hJ⟩
  · exact hturn.1
  · exact ⟨hturn, hJ⟩

/-- From the copy loop on: the file is written out, and as it was. -/
theorem wp_copy_hosts {rh : ReadHandle σ} {J : σ × ReadAhead → Prop}
    (hreads : (toHandle rh).Reads J F.bytes (· ≤ F.bytes.length))
    (hclose : ∀ w, J w → wp (toHandle rh).close (ifDone fun _ w' => up F w'.1) w)
    (hchunk : 0 < chunk ∨ F.bytes = []) (fuel : Nat) (hJ : J s.world) (hout : s.out = []) :
    wp (do
      iterate fuel (copyTurn sink (toHandle rh) chunk) 0
      flush sink
      onHandle (toHandle rh).close) (ifDone fun _ s' => s'.out = F.bytes ∧ up F s'.world.1) s := by
  have hloop : wp (iterate fuel (copyTurn sink (toHandle rh) chunk) 0)
      (ifDone fun _ s' => s'.out = F.bytes ∧ J s'.world) s :=
    wp_iterate_partial (Copied J F.bytes) trivial
      (fun offset s hs => wp_copyTurn_open hreads hchunk hs) fuel ⟨hJ, Nat.zero_le _, hout⟩
  refine wp_bind_done hloop ?_
  rintro _ s₁ ⟨hout₁, hJ₁⟩
  refine (wp_bind _ _).mpr ((wp_zoom _ _ _).mpr (wp_of_forall (fun _ d => ?_) (fun _ _ => trivial)
    (fun _ => trivial)))
  exact (wp_zoom _ _ _).mpr (wp_done (hclose s₁.world hJ₁) fun _ _ hup => ⟨hout₁, hup⟩)

/-- **`cat` is exact** over an endpoint that hosts the file, which stays as it is. -/
theorem wp_cat_hosts (hconnect : HostsAt connect up left path) (hleft : left F s.world.1)
    (hchunk : 0 < chunk ∨ F.bytes = []) (cfg : Config) (fuel : Nat) (hout : s.out = []) :
    wp (cat connect sink path cfg chunk fuel)
      (ifDone fun _ s' => s'.out = F.bytes ∧ left F s'.world.1) s := by
  refine wp_command_done id (hconnect F s.world.1 hleft) ?_
  rintro b w ⟨hup, hhosts⟩
  refine wp_path_done fun p hpath => ?_
  refine wp_bind_done (wp_openForRead_hosts (hhosts p hpath) hup) ?_
  rintro rh s₁ ⟨hsame, J, hJ, hreads, hclose⟩
  refine wp_done (wp_copy_hosts hreads hclose hchunk fuel hJ (hsame.trans hout)) ?_
  rintro _ s' ⟨hout', hup'⟩
  exact wp_done ((hhosts p hpath).shutdown F _ hup') fun _ _ hleft' => ⟨hout', hleft'⟩

/-- **`get` is exact** over an endpoint that hosts the file, which stays as it is. -/
theorem wp_get_hosts (hconnect : HostsAt connect up left path) (hleft : left F s.world.1)
    (hchunk : 0 < chunk ∨ F.bytes = []) (cfg : Config) (fuel : Nat) :
    wp (get connect sink path cfg chunk fuel)
      (ifDone fun _ s' => s'.out = F.bytes ∧ left F s'.world.1) s := by
  refine wp_command_done id (hconnect F s.world.1 hleft) ?_
  rintro b w ⟨hup, hhosts⟩
  refine wp_path_done fun p hpath => ?_
  refine wp_bind_done (wp_openForRead_hosts (hhosts p hpath) hup) ?_
  rintro rh s₁ ⟨-, J, hJ, hreads, hclose⟩
  -- the file that is created is empty
  refine (wp_bind _ _).mpr (wp_create (fun d => ?_) (fun _ _ => trivial))
  refine wp_done (wp_copy_hosts hreads hclose hchunk fuel hJ rfl) ?_
  rintro _ s' ⟨hout, hup'⟩
  exact wp_done ((hhosts p hpath).shutdown F _ hup') fun _ _ hleft' => ⟨hout, hleft'⟩

/-! ### `put` -/

/-- The open file holds what is in front of `offset`, and the source is open at `k`. -/
structure Sent (R : PlainFile → σ → Prop) (source : Nat → δ → Prop) (S : List UInt8)
    (k offset : Nat) (s : Cli σ δ) : Prop where
  file : ∃ x, x.content.bytes = S.take offset ∧ R x s.world.1
  source : source k s.disk

/-- At the head of the write loop: the part of the chunk that was written is in its place. -/
structure Flushing (R : PlainFile → σ → Prop) (source : Nat → δ → Prop) (S : List UInt8)
    (k len : Nat) (x : Nat × Nat) (s : Cli σ δ) : Prop where
  sent : Sent R source S (k + len) x.2 s
  offset : x.2 = k + x.1
  fits : x.1 ≤ len

theorem wp_writeTurn_plain (hS : S.length < 2 ^ 64) (hshort : handle.IsShort R)
    (hbuf : buf = slice S k buf.length) (x : Nat × Nat) (s : Cli σ δ)
    (hs : Flushing R source S k buf.length x s) :
    wp (writeTurn handle buf x) (keepPost (Flushing R source S k buf.length)
      (ifDone fun offset s => offset = k + buf.length ∧ Sent R source S offset offset s)) s := by
  obtain ⟨written, offset⟩ := x
  have hsent := hs.sent
  have hfits : written ≤ buf.length := hs.fits
  obtain rfl : offset = k + written := hs.offset
  refine wp_ite (fun hlt => ?_) (fun hfull => ?_)
  · -- something is left to write, so that the chunk lies inside the source
    have hin : k + buf.length ≤ S.length := by
      apply add_length_le_of_eq_slice hbuf
      rintro rfl
      exact absurd hlt (Nat.not_lt_zero _)
    have hpos : k + written < 2 ^ 64 := by omega
    obtain ⟨x, hx, hR⟩ := hsent.file
    simp only [wp_bind, wp_onBackend]
    refine wp_mono (hshort.writeAt _ _ x _ hR hpos) ?_ (fun _ _ _ => trivial) (fun _ => False.elim)
    rintro n w ⟨x', ⟨hn, hbytes, -⟩, hR'⟩
    rw [List.length_drop] at hn
    refine wp_ite (fun _ => trivial) (fun _ => ?_)
    -- both counters move by what the write took
    have hwritten : written + n < 2 ^ 64 := by omega
    have hoffset : k + written + n < 2 ^ 64 := by omega
    simp only [wp_bind, wp_checked_ok (addU_ok hwritten), wp_checked_ok (addU_ok hoffset)]
    refine ⟨⟨⟨x', ?_, hR'⟩, hsent.source⟩, Nat.add_assoc _ _ _, ?_⟩
    · rw [hbytes, hx, overwrite_chunk hbuf hin (by omega)]
    · show written + n ≤ buf.length
      omega
  · have hall : written = buf.length := by omega
    rw [← hall] at hsent ⊢
    exact ⟨rfl, hsent⟩

/-- **A chunk** is written out, however little a write accepts. -/
theorem wp_drain_plain (hS : S.length < 2 ^ 64) (hshort : handle.IsShort R)
    (hbuf : buf = slice S k buf.length) (hs : Sent R source S (k + buf.length) k s) :
    wp (iterate (buf.length + 1) (writeTurn handle buf) (0, k))
      (ifDone fun offset s => offset = k + buf.length ∧ Sent R source S offset offset s) s :=
  wp_iterate_partial (Flushing R source S k buf.length) trivial
    (wp_writeTurn_plain hS hshort hbuf) _ ⟨hs, rfl, Nat.zero_le _⟩

theorem wp_uploadTurn_plain (hS : S.length < 2 ^ 64) (hsrc : src.Streams closed source S)
    (hchunk : 0 < chunk) (hshort : handle.IsShort R) (offset : Nat) (s : Cli σ δ)
    (hs : Sent R source S offset offset s) :
    wp (uploadTurn src handle chunk offset) (keepPost (fun offset => Sent R source S offset offset)
      (ifDone fun offset s => S.length ≤ offset ∧ Sent R source S offset offset s)) s := by
  rw [uploadTurn, wp_bind]
  refine wp_mono (wp_fill hsrc hchunk hs.source) ?_ (fun _ _ _ => trivial) (fun _ => False.elim)
  rintro buf s' ⟨hgathered, hend⟩
  -- filling a chunk does not touch the file
  have hsent : Sent R source S (offset + buf.length) offset s' := by
    refine ⟨?_, hgathered.source⟩
    rw [hgathered.world]
    exact hs.file
  refine wp_ite (fun hnil => ?_) (fun _ => ?_)
  · subst hnil
    exact ⟨hend rfl, hsent⟩
  · rw [wp_bind]
    refine wp_mono (wp_drain_plain hS hshort hgathered.bytes hsent) ?_ (fun _ _ h => h)
      (fun _ h => h)
    rintro offset' s'' ⟨rfl, hsent'⟩
    exact hsent'

/-- **`put` is exact** over an endpoint that hosts the file. -/
theorem wp_put_hosts {S : FileContent} (hconnect : HostsAt connect up left path)
    (hleft : left F s.world.1) (hsrc : src.Streams closed source S.bytes) (hclosed : closed s.disk)
    (fuel : Nat) :
    wp (put connect src path fuel) (ifDone fun _ s' => left S s'.world.1) s := by
  refine wp_command_done id (hconnect F s.world.1 hleft) ?_
  rintro b w ⟨hup, hhosts⟩
  refine wp_path_done fun p hpath => ?_
  refine (wp_bind _ _).mpr (wp_onDisk.mpr (wp_done (hsrc.openFile s.disk hclosed) ?_))
  intro _ d hopened
  refine (wp_bind _ _).mpr (wp_onDisk.mpr (wp_done (hsrc.metadata 0 d hopened) ?_))
  intro _ d' hsource
  refine (wp_bind _ _).mpr (wp_onBackend.mpr (wp_done
    ((hhosts p hpath).openFile OpenMode.writing.withTruncate F w hup) ?_))
  rintro handle w' ⟨R, hR, hshort, hclose⟩
  -- opening truncates, so that nothing is left from before
  have hstart : Sent R source S.bytes 0 0 { s with disk := d', world := (w', s.world.2) } :=
    ⟨⟨_, rfl, hR⟩, hsource⟩
  have hloop : wp (iterate fuel (uploadTurn src handle chunkSize) 0)
      (ifDone fun offset s => S.bytes.length ≤ offset ∧ Sent R source S.bytes offset offset s)
      { s with disk := d', world := (w', s.world.2) } :=
    wp_iterate_partial (fun offset => Sent R source S.bytes offset offset) trivial
      (wp_uploadTurn_plain S.bound hsrc (by decide) hshort) fuel hstart
  refine wp_bind_done hloop ?_
  rintro offset s₁ ⟨hend, ⟨x, hx, hR₁⟩, -⟩
  obtain rfl : x.content = S := FileContent.ext (hx.trans (List.take_of_length_le hend))
  refine (wp_bind _ _).mpr (wp_onBackend.mpr (wp_done (hshort.flush x _ hR₁) ?_))
  intro _ w₂ hR₂
  refine wp_onBackend.mpr (wp_done (hclose x w₂ hR₂) ?_)
  exact fun _ w₃ hup' => (hhosts p hpath).shutdown _ w₃ hup'

end Cli

end Krystallos
