import Krystallos.Cli.Download

namespace Krystallos

open Checked Prog Slices

/-!
# `put`

The upload command of the CLI: connect, parse the path, open the local file, open the destination
with truncation, and then read a chunk and write it out until a chunk comes back empty.  Reads and
writes may both be short, so that the chunk is filled by one loop and drained by another, with one
offset for all chunks.  `put_exact` says that the command ends, and that it reports success only
where the destination holds the file.
-/

/-- The local source: any call may fail, and a read may be short. -/
structure Source (δ : Type) where
  openFile : δ → Except Error Unit × δ
  metadata : δ → Except Error Nat × δ
  read : Nat → δ → Except Error (List UInt8) × δ

/-- Transfer chunk size. -/
def chunkSize : Nat := 1024 * 1024

/-- A write that accepts nothing would be tried for ever. -/
def noProgress : Error := .backend "backend accepted 0 bytes of a write and made no progress"

namespace Cli

variable {σ δ α : Type}

/-- A call on the local side. -/
def onDisk (op : δ → Except Error α × δ) : Prog Error (Cli σ δ) α :=
  zoom Cli.disk (fun d s => { s with disk := d }) (call op)

/-- One turn of the loop that fills a chunk, with `buf[..filled]`. -/
def fillTurn (src : Source δ) (chunk : Nat) (buf : List UInt8) :
    Prog Error (Cli σ δ) (Turn (List UInt8) (List UInt8)) := do
  if buf.length < chunk then do
    let bytes ← onDisk (src.read (chunk - buf.length))
    if bytes = [] then pure (.leave buf) else pure (.again (buf ++ bytes))
  else pure (.leave buf)

/-- One turn of the loop that writes `buf[..filled]` out, with `written` and `offset`. -/
def writeTurn (handle : FileHandle σ) (buf : List UInt8) (x : Nat × Nat) :
    Prog Error (Cli σ δ) (Turn (Nat × Nat) Nat) := do
  let (written, offset) := x
  if written < buf.length then do
    let n ← onBackend (handle.writeAt offset (buf.drop written))
    if n = 0 then fail noProgress
    else do
      let written ← checked (addU 64 written n)
      let offset ← checked (addU 64 offset n)
      pure (.again (written, offset))
  else pure (.leave offset)

/-- One turn of the upload loop at `offset`. -/
def uploadTurn (src : Source δ) (handle : FileHandle σ) (chunk offset : Nat) :
    Prog Error (Cli σ δ) (Turn Nat Nat) := do
  let buf ← iterate (chunk + 1) (fillTurn src chunk) []
  if buf = [] then pure (.leave offset)
  else do
    let offset ← iterate (buf.length + 1) (writeTurn handle buf) (0, offset)
    pure (.again offset)

/-- Upload a local file. -/
def put (connect : Prog Error σ (StorageBackend σ)) (src : Source δ) (path : String)
    (fuel : Nat) : Prog Error (Cli σ δ) Unit := do
  let backend ← onBackend connect
  let outcome ← capture do
    let path ← ofExcept (VfsPath.new path)
    onDisk src.openFile
    let _ ← onDisk src.metadata
    let handle ← onBackend (backend.openFile path OpenMode.writing.withTruncate)
    let _ ← iterate fuel (uploadTurn src handle chunkSize) 0
    onBackend handle.flush
    onBackend handle.close
  finish backend outcome

end Cli

/-! ### What `put` relies on -/

/-- What is known of the destination: its content, and whether a write has accepted nothing of
    what it was given. -/
structure Destination where
  content : List UInt8
  stuck : Bool
deriving DecidableEq

/-- The world is one that the backend's calls can be made in, and no write was refused that was
    not refused before. -/
def Unrefused {σ : Type} (I : σ → Prop) (view : σ → Destination) (s s' : σ) : Prop :=
  I s' ∧ (view s').stuck = (view s).stuck

/-- While `I` holds, the handle writes to the destination: a write accepts any number of the bytes
    it is given, from the front, and any call may fail. -/
structure FileHandle.Writes {σ : Type} (h : FileHandle σ) (I : σ → Prop)
    (view : σ → Destination) : Prop where
  writeAt : ∀ offset data s, offset < 2 ^ 64 → data ≠ [] → I s →
    wp (h.writeAt offset data) ⟨fun n s' => I s' ∧ n ≤ data.length ∧
      view s' = ⟨overwrite (view s).content offset (data.take n), (view s).stuck || n = 0⟩,
      fun _ s' => Unrefused I view s s', fun _ => False⟩ s
  flush : ∀ s, I s → wp h.flush ⟨fun _ s' => I s' ∧ view s' = view s,
    fun _ s' => Unrefused I view s s', fun _ => False⟩ s
  close : ∀ s, I s → wp h.close ⟨fun _ s' => I s' ∧ view s' = view s,
    fun _ s' => Unrefused I view s s', fun _ => False⟩ s

/-- While `I` holds, the backend opens the destination, discarding what it holds where it is asked
    to truncate, and shuts down without touching it. -/
structure StorageBackend.Takes {σ : Type} (b : StorageBackend σ) (I : σ → Prop)
    (view : σ → Destination) (path : String) : Prop where
  openFile : ∀ p mode s, VfsPath.new path = .ok p → I s →
    wp (b.openFile p mode) ⟨fun h s' => I s' ∧ h.Writes I view ∧
      view s' = ⟨if mode.truncate then [] else (view s).content, (view s).stuck⟩,
      fun _ s' => Unrefused I view s s', fun _ => False⟩ s
  shutdown : ∀ s, I s → wp b.shutdown ⟨fun _ s' => I s' ∧ view s' = view s,
    fun _ s' => Unrefused I view s s', fun _ => False⟩ s

/-- While `I` holds, the endpoint connects to a backend that takes the destination, or fails. -/
def TakesAt {σ : Type} (connect : Prog Error σ (StorageBackend σ)) (I : σ → Prop)
    (view : σ → Destination) (path : String) : Prop :=
  ∀ w, I w → wp connect ⟨fun b w' => I w' ∧ view w' = view w ∧ b.Takes I view path,
    fun _ w' => Unrefused I view w w', fun _ => False⟩ w

/-- The local file holds `S` and does not change: `R k` is the file open at `k`, and a read gives
    any non-empty part of what follows. -/
structure Source.Streams {δ : Type} (src : Source δ) (closed : δ → Prop) (R : Nat → δ → Prop)
    (S : List UInt8) : Prop where
  openFile : ∀ d, closed d →
    wp (call src.openFile) ⟨fun _ d' => R 0 d', fun _ _ => True, fun _ => False⟩ d
  metadata : ∀ k d, R k d →
    wp (call src.metadata) ⟨fun _ d' => R k d', fun _ _ => True, fun _ => False⟩ d
  read : ∀ k n d, R k d → wp (call (src.read n))
    ⟨fun bytes d' => ShortRead S k n bytes ∧ R (k + bytes.length) d', fun _ _ => True,
      fun _ => False⟩ d

namespace Cli

variable {σ δ α : Type} {I : σ → Prop} {view : σ → Destination} {closed : δ → Prop}
  {R : Nat → δ → Prop} {S buf : List UInt8} {src : Source δ} {handle : FileHandle σ}
  {chunk k : Nat} {s : Cli σ δ}

theorem wp_onDisk {op : δ → Except Error α × δ} {p : Post Error (Cli σ δ) α} :
    wp (onDisk op) p s ↔ wp (call op) ⟨fun a d => p.ret a { s with disk := d },
      fun e d => p.fail e { s with disk := d }, p.stop⟩ s.disk := by
  rw [onDisk, wp_zoom]

theorem wp_onBackend {m : Prog Error σ α} {p : Post Error (Cli σ δ) α} :
    wp (onBackend m) p s ↔ wp m ⟨fun a w => p.ret a { s with world := (w, s.world.2) },
      fun e w => p.fail e { s with world := (w, s.world.2) }, p.stop⟩ s.world.1 := by
  rw [onBackend, wp_zoom]

/-! ### Filling a chunk -/

/-- At the head of the inner loop: the source has what was read so far, and the destination was
    not touched. -/
structure Gathered (R : Nat → δ → Prop) (S : List UInt8) (k chunk : Nat) (world : σ × ReadAhead)
    (buf : List UInt8) (s : Cli σ δ) : Prop where
  world : s.world = world
  bytes : buf = slice S k buf.length
  fits : buf.length ≤ chunk
  source : R (k + buf.length) s.disk

/-- A chunk is the next piece of the source, and empty only at its end. -/
def chunkPost (R : Nat → δ → Prop) (S : List UInt8) (k chunk : Nat) (world : σ × ReadAhead) :
    Post Error (Cli σ δ) (List UInt8) where
  ret := fun buf s => Gathered R S k chunk world buf s ∧ (buf = [] → S.length ≤ k)
  fail := fun _ s => s.world = world
  stop := fun _ => False

/-- **One turn** of filling a chunk adds what comes next of the source, or ends the loop. -/
theorem wp_fillTurn (hsrc : src.Streams closed R S) (hchunk : 0 < chunk) (buf : List UInt8)
    (s : Cli σ δ) (world : σ × ReadAhead) (hs : Gathered R S k chunk world buf s) :
    wp (fillTurn src chunk buf)
      (turnPost (Gathered R S k chunk world) (fun buf _ => chunk - buf.length)
        (chunkPost R S k chunk world) (chunk - buf.length)) s := by
  refine wp_ite (fun hlt => ?_) (fun hfull => ?_)
  · simp only [wp_bind, wp_onDisk]
    refine wp_mono (hsrc.read _ (chunk - buf.length) s.disk hs.source) ?_ ?_ (fun _ => False.elim)
    · rintro bytes d ⟨hread, hsource⟩
      refine wp_ite (fun hnil => ?_) (fun hne => ?_)
      · subst hnil
        -- an empty read is the end of the source
        have hend := hread.ended (by omega)
        refine ⟨⟨hs.world, hs.bytes, hs.fits, hsource⟩, ?_⟩
        rintro rfl
        exact hend
      · have hfits := length_append_le_of_rest hlt hread.fits
        refine ⟨⟨hs.world, hread.append hs.bytes, hfits, ?_⟩, rest_append_lt hlt hne⟩
        rw [List.length_append, ← Nat.add_assoc]
        exact hsource
    · intro e d _
      -- a failed read leaves the destination as it is
      exact hs.world
  · refine ⟨hs, ?_⟩
    rintro rfl
    exact absurd hchunk hfull

/-- **A chunk** is gathered, however short the reads are. -/
theorem wp_fill (hsrc : src.Streams closed R S) (hchunk : 0 < chunk) (hsource : R k s.disk) :
    wp (iterate (chunk + 1) (fillTurn src chunk) []) (chunkPost R S k chunk s.world) s :=
  wp_iterate (Gathered R S k chunk s.world) (fun buf _ => chunk - buf.length)
    (fun buf s' hs' => wp_fillTurn hsrc hchunk buf s' s.world hs')
    ⟨rfl, by simp, Nat.zero_le _, by simpa using hsource⟩ (.inl (by simp))

/-! ### Writing a chunk out -/

/-- The destination holds what is in front of `offset`, and the source is open at `k`. -/
structure Uploaded (I : σ → Prop) (view : σ → Destination) (R : Nat → δ → Prop) (S : List UInt8)
    (k offset : Nat) (s : Cli σ δ) : Prop where
  inv : I s.world.1
  view : view s.world.1 = ⟨S.take offset, false⟩
  source : R k s.disk

/-- Where a step fails, a refused write is what it failed for. -/
def uploadPost (I : σ → Prop) (view : σ → Destination) (Q : α → Cli σ δ → Prop) :
    Post Error (Cli σ δ) α where
  ret := Q
  fail := fun e s => I s.world.1 ∧ ((view s.world.1).stuck = true → e = noProgress)
  stop := fun _ => False

/-- A failure in which no write was refused. -/
theorem fail_of_unrefused {w w' : σ} {e : Error} (hclear : (view w).stuck = false)
    (h : Unrefused I view w w') : I w' ∧ ((view w').stuck = true → e = noProgress) := by
  refine ⟨h.1, fun hstuck => ?_⟩
  rw [h.2, hclear] at hstuck
  cases hstuck

/-- At the head of the write loop: the part of the chunk that was written is in its place. -/
structure Drained (I : σ → Prop) (view : σ → Destination) (R : Nat → δ → Prop) (S : List UInt8)
    (k len : Nat) (x : Nat × Nat) (s : Cli σ δ) : Prop where
  uploaded : Uploaded I view R S (k + len) x.2 s
  offset : x.2 = k + x.1
  fits : x.1 ≤ len

/-- What a write puts in its place is the next piece of the source. -/
theorem overwrite_chunk {written n : Nat} (hbuf : buf = slice S k buf.length)
    (hin : k + buf.length ≤ S.length) (hn : written + n ≤ buf.length) :
    overwrite (S.take (k + written)) (k + written) ((buf.drop written).take n) =
      S.take (k + written + n) := by
  have hpiece : (buf.drop written).take n = slice S (k + written) n := by
    have hmin : min n (buf.length - written) = n := by omega
    rw [hbuf, drop_slice, take_slice, hmin]
  rw [hpiece, overwrite_take_slice S _ _ n le_rfl (by omega) (by omega)]
  congr 1
  omega

/-- **One turn** of writing it out adds what the write accepted, or fails. -/
theorem wp_writeTurn (hS : S.length < 2 ^ 64) (hh : handle.Writes I view)
    (hbuf : buf = slice S k buf.length) (x : Nat × Nat) (s : Cli σ δ)
    (hs : Drained I view R S k buf.length x s) :
    wp (writeTurn handle buf x)
      (turnPost (Drained I view R S k buf.length) (fun x _ => buf.length - x.1)
        (uploadPost I view fun offset s => offset = k + buf.length ∧
          Uploaded I view R S offset offset s)
        (buf.length - x.1)) s := by
  obtain ⟨written, offset⟩ := x
  have hup := hs.uploaded
  have hfits : written ≤ buf.length := hs.fits
  obtain rfl : offset = k + written := hs.offset
  refine wp_ite (fun hlt => ?_) (fun hfull => ?_)
  · -- something is left to write, so that the chunk lies inside the source
    have hin : k + buf.length ≤ S.length := by
      apply add_length_le_of_eq_slice hbuf
      rintro rfl
      exact absurd hlt (Nat.not_lt_zero _)
    have hpos : k + written < 2 ^ 64 := by omega
    have hne : buf.drop written ≠ [] := by
      rw [← List.length_pos_iff, List.length_drop]
      omega
    simp only [wp_bind, wp_onBackend]
    refine wp_mono (hh.writeAt _ _ _ hpos hne hup.inv) ?_ ?_ (fun _ => False.elim)
    · rintro n w ⟨hI, hn, hview⟩
      rw [hup.view] at hview
      rw [List.length_drop] at hn
      -- a write of 0 bytes fails, and any other moves both counters by what it took
      refine wp_ite (fun hzero => ⟨hI, fun _ => rfl⟩) (fun hsome => ?_)
      have hwritten : written + n < 2 ^ 64 := by omega
      have hoffset : k + written + n < 2 ^ 64 := by omega
      simp only [wp_bind, wp_checked_ok (addU_ok hwritten), wp_checked_ok (addU_ok hoffset)]
      refine ⟨⟨⟨hI, ?_, hup.source⟩, Nat.add_assoc _ _ _, ?_⟩, ?_⟩
      · rw [hview, overwrite_chunk hbuf hin (by omega)]
        simp [hsome]
      · show written + n ≤ buf.length
        omega
      · show buf.length - (written + n) < buf.length - written
        omega
    · intro e w hfail
      exact fail_of_unrefused (by rw [hup.view]) hfail
  · have hall : written = buf.length := by omega
    rw [← hall] at hup ⊢
    exact ⟨rfl, hup⟩

/-- **A chunk** is written out, however little a write accepts, or a write was refused. -/
theorem wp_drain (hS : S.length < 2 ^ 64) (hh : handle.Writes I view)
    (hbuf : buf = slice S k buf.length) (hs : Uploaded I view R S (k + buf.length) k s) :
    wp (iterate (buf.length + 1) (writeTurn handle buf) (0, k))
      (uploadPost I view fun offset s => offset = k + buf.length ∧
        Uploaded I view R S offset offset s) s :=
  wp_iterate (Drained I view R S k buf.length) (fun x _ => buf.length - x.1)
    (wp_writeTurn hS hh hbuf) ⟨hs, rfl, Nat.zero_le _⟩ (.inl (by simp))

/-! ### The upload loop -/

/-- **One turn** of the upload moves a chunk, or ends it with all there is. -/
theorem wp_uploadTurn (hS : S.length < 2 ^ 64) (hsrc : src.Streams closed R S)
    (hchunk : 0 < chunk) (hh : handle.Writes I view) (offset : Nat) (s : Cli σ δ)
    (hs : Uploaded I view R S offset offset s) :
    wp (uploadTurn src handle chunk offset)
      (turnPost (fun offset => Uploaded I view R S offset offset)
        (fun offset _ => S.length - offset)
        (uploadPost I view fun offset s => S.length ≤ offset ∧ Uploaded I view R S offset offset s)
        (S.length - offset)) s := by
  rw [uploadTurn, wp_bind]
  refine wp_mono (wp_fill hsrc hchunk hs.source) ?_ ?_ (fun _ => False.elim)
  · rintro buf s' ⟨hgathered, hend⟩
    -- filling a chunk does not touch the destination
    have hworld := hgathered.world
    have hup : Uploaded I view R S (offset + buf.length) offset s' := by
      refine ⟨?_, ?_, hgathered.source⟩
      · rw [hworld]
        exact hs.inv
      · rw [hworld]
        exact hs.view
    refine wp_ite (fun hnil => ?_) (fun hne => ?_)
    · subst hnil
      exact ⟨hend rfl, hup⟩
    · have hpos := List.length_pos_iff.mpr hne
      have hin := add_length_le_of_eq_slice hgathered.bytes hne
      rw [wp_bind]
      refine wp_mono (wp_drain hS hh hgathered.bytes hup) ?_ (fun _ _ h => h) (fun _ h => h)
      rintro offset' s'' ⟨rfl, hup'⟩
      refine ⟨hup', ?_⟩
      show S.length - (offset + buf.length) < S.length - offset
      omega
  · intro e s' hworld
    refine ⟨?_, ?_⟩
    · rw [hworld]
      exact hs.inv
    · rw [hworld, hs.view]
      exact fun h => by cases h

/-- **The loop** ends with the whole source at the destination. -/
theorem wp_upload (hS : S.length < 2 ^ 64) (hsrc : src.Streams closed R S) (hchunk : 0 < chunk)
    (hh : handle.Writes I view) {fuel : Nat} (hfuel : S.length < fuel)
    (hs : Uploaded I view R S 0 0 s) :
    wp (iterate fuel (uploadTurn src handle chunk) 0)
      (uploadPost I view fun _ s => I s.world.1 ∧ view s.world.1 = ⟨S, false⟩) s := by
  have hloop := wp_iterate (fun offset => Uploaded I view R S offset offset)
    (fun offset (_ : Cli σ δ) => S.length - offset) (wp_uploadTurn hS hsrc hchunk hh) hs
    (.inl (by simpa using hfuel) : _ ∨ _)
  refine wp_mono hloop ?_ (fun _ _ h => h) (fun _ h => h)
  rintro offset s' ⟨hend, hup⟩
  refine ⟨hup.inv, ?_⟩
  rw [hup.view, List.take_of_length_le hend]

/-! ### The command -/

variable {backend : StorageBackend σ} {connect : Prog Error σ (StorageBackend σ)} {path : String}

/-- What the command does between connecting and shutting down. -/
theorem wp_work (hS : S.length < 2 ^ 64) (hsrc : src.Streams closed R S)
    (htakes : backend.Takes I view path) {fuel : Nat} (hfuel : S.length < fuel)
    (hI : I s.world.1) (hclear : (view s.world.1).stuck = false) (hclosed : closed s.disk) :
    wp (do
        let path ← ofExcept (VfsPath.new path)
        onDisk src.openFile
        let _ ← onDisk src.metadata
        let handle ← onBackend (backend.openFile path OpenMode.writing.withTruncate)
        let _ ← iterate fuel (uploadTurn src handle chunkSize) 0
        onBackend handle.flush
        onBackend handle.close)
      (uploadPost I view fun _ s' => I s'.world.1 ∧ view s'.world.1 = ⟨S, false⟩) s := by
  have hkept : I s.world.1 ∧ ∀ e : Error, (view s.world.1).stuck = true → e = noProgress := by
    refine ⟨hI, fun e hstuck => ?_⟩
    rw [hclear] at hstuck
    cases hstuck
  rw [wp_bind, wp_ofExcept]
  cases hpath : VfsPath.new path with
  -- the path is refused before anything is opened
  | error e => exact ⟨hkept.1, hkept.2 e⟩
  | ok p =>
    simp only [wp_bind, wp_onDisk]
    refine wp_mono (hsrc.openFile s.disk hclosed) ?_ (fun e _ _ => ⟨hkept.1, hkept.2 e⟩)
      (fun _ => False.elim)
    intro _ d hopened
    refine wp_mono (hsrc.metadata 0 d hopened) ?_ (fun e _ _ => ⟨hkept.1, hkept.2 e⟩)
      (fun _ => False.elim)
    intro _ d' hsource
    simp only [wp_onBackend]
    refine wp_mono (htakes.openFile p _ s.world.1 hpath hI) ?_ ?_ (fun _ => False.elim)
    · rintro handle w ⟨hI', hh, hview⟩
      -- opening truncates, so that nothing is left from before
      have hstart : Uploaded I view R S 0 0
          { s with disk := d', world := (w, s.world.2) } := by
        refine ⟨hI', ?_, hsource⟩
        rw [hview, hclear]
        rfl
      refine wp_mono (wp_upload hS hsrc (by decide) hh hfuel hstart) ?_ (fun _ _ h => h)
        (fun _ h => h)
      rintro _ s' ⟨hI', hview⟩
      have hclear' : (view s'.world.1).stuck = false := by rw [hview]
      refine wp_mono (hh.flush _ hI') ?_ (fun e w hfail => fail_of_unrefused hclear' hfail)
        (fun _ => False.elim)
      rintro _ w ⟨hI'', hflush⟩
      have hclear'' : (view w).stuck = false := by rw [hflush, hclear']
      refine wp_mono (hh.close _ hI'') ?_ (fun e w hfail => fail_of_unrefused hclear'' hfail)
        (fun _ => False.elim)
      rintro _ w' ⟨hended, hclose⟩
      exact ⟨hended, by rw [hclose, hflush, hview]⟩
    · intro e w hfail
      exact fail_of_unrefused hclear hfail

/-- Shutting down leaves the destination as it is, and never turns a failure into success. -/
theorem wp_finish_upload (htakes : backend.Takes I view path) {outcome : Result Unit}
    (hI : I s.world.1) (hok : outcome = .ok () → view s.world.1 = ⟨S, false⟩)
    (herr : ∀ e, outcome = .error e → (view s.world.1).stuck = true → e = noProgress) :
    wp (finish backend outcome)
      (uploadPost I view fun _ s' => I s'.world.1 ∧ view s'.world.1 = ⟨S, false⟩) s := by
  simp only [finish, wp_bind, wp_capture, wp_onBackend]
  refine wp_mono (htakes.shutdown _ hI) ?_ ?_ (fun _ => False.elim)
  · rintro _ w ⟨hI', hview⟩
    -- the outcome is the work's, unless only the shutdown failed
    cases outcome with
    | error e =>
      refine ⟨hI', fun hstuck => herr e rfl ?_⟩
      rw [← hview]
      exact hstuck
    | ok u => exact ⟨hI', hview.trans (hok rfl)⟩
  · rintro e w ⟨hI', hstuck⟩
    cases outcome with
    | error e' =>
      refine ⟨hI', fun hstuck' => herr e' rfl ?_⟩
      rw [← hstuck]
      exact hstuck'
    | ok u =>
      refine ⟨hI', fun hstuck' => ?_⟩
      have hclear := congrArg Destination.stuck (hok rfl)
      rw [← hstuck, hstuck'] at hclear
      cases hclear

/-- An upload that succeeds is exact, and one in which a write was refused fails for that. -/
theorem wp_put (hS : S.length < 2 ^ 64) (hsrc : src.Streams closed R S)
    (hconnect : TakesAt connect I view path) {fuel : Nat} (hfuel : S.length < fuel)
    (hI : I s.world.1) (hclear : (view s.world.1).stuck = false) (hclosed : closed s.disk) :
    wp (put connect src path fuel)
      (uploadPost I view fun _ s' => I s'.world.1 ∧ view s'.world.1 = ⟨S, false⟩) s := by
  rw [put, wp_bind, wp_onBackend]
  refine wp_mono (hconnect s.world.1 hI) ?_ (fun e w hfail => fail_of_unrefused hclear hfail)
    (fun _ => False.elim)
  rintro backend w ⟨hI', hview, htakes⟩
  have hclear' : (view w).stuck = false := by rw [hview, hclear]
  apply (wp_bind _ _).mpr
  rw [wp_capture]
  refine wp_mono (wp_work hS hsrc htakes hfuel hI' hclear' hclosed) ?_ ?_ (fun _ h => h)
  · rintro _ s' ⟨hI'', hdone⟩
    exact wp_finish_upload htakes hI'' (fun _ => hdone) (fun e h => by cases h)
  · rintro e s' ⟨hI'', hstuck⟩
    refine wp_finish_upload htakes hI'' (fun h => by cases h) ?_
    rintro e' he
    cases he
    exact hstuck

/-- **`put` is exact.** It ends; where it reports success the destination holds the local file and
    nothing else, and where a write was refused it fails for that. -/
theorem put_exact (S : FileContent) (hsrc : src.Streams closed R S.bytes)
    (hconnect : TakesAt connect I view path) (fuel : Nat) (hfuel : S.bytes.length < fuel)
    (hI : I s.world.1) (hclear : (view s.world.1).stuck = false) (hclosed : closed s.disk) :
    ∃ r s', put connect src path fuel s = .ok (r, s') ∧
      (r = .ok () → (view s'.world.1).content = S.bytes) ∧
      ((view s'.world.1).stuck = true → r = .error noProgress) := by
  have hput := wp_put S.bound hsrc hconnect hfuel hI hclear hclosed
  unfold wp at hput
  split at hput
  · exact hput.elim
  · next e s' hrun =>
    refine ⟨_, s', hrun, ?_, ?_⟩
    · intro h
      cases h
    · intro hstuck
      rw [hput.2 hstuck]
  · next u s' hrun =>
    obtain ⟨-, hview⟩ := hput
    refine ⟨_, s', hrun, fun _ => by rw [hview], ?_⟩
    intro hstuck
    rw [hview] at hstuck
    cases hstuck

end Cli

/-! ### A slow destination -/

/-- A destination in memory, whose writes accept at most two bytes. -/
def FileHandle.trickling : FileHandle Destination where
  readAt _ _ := fail (.unsupported "read_at")
  writeAt offset data := do
    let n := min data.length 2
    update fun d => ⟨overwrite d.content offset (data.take n), d.stuck || n = 0⟩
    pure n
  setLen _ := fail (.unsupported "set_len")
  flush := pure ()
  close := pure ()
  len d := d.content.length

/-- A backend with that destination at every path. -/
def StorageBackend.trickling : StorageBackend Destination where
  stat _ := fail (.unsupported "stat")
  openFile _ mode := do
    update fun d => { d with content := if mode.truncate then [] else d.content }
    pure FileHandle.trickling
  shutdown := pure ()

/-- A source in memory whose reads give at most three bytes, with its cursor. -/
def Source.memory (S : List UInt8) : Source Nat where
  openFile _ := (.ok (), 0)
  metadata k := (.ok S.length, k)
  read n k := (.ok (slice S k (min n 3)), k + (slice S k (min n 3)).length)

theorem FileHandle.writes_trickling : FileHandle.trickling.Writes (fun _ => True) id where
  writeAt := fun _ _ _ _ _ _ => ⟨trivial, Nat.min_le_left _ _, rfl⟩
  flush := fun _ _ => ⟨trivial, rfl⟩
  close := fun _ _ => ⟨trivial, rfl⟩

theorem StorageBackend.takesAt_trickling (path : String) :
    TakesAt (pure StorageBackend.trickling) (fun _ => True) id path :=
  fun _ _ => ⟨trivial, rfl,
    { openFile := fun _ _ _ _ _ => ⟨trivial, FileHandle.writes_trickling, rfl⟩
      shutdown := fun _ _ => ⟨trivial, rfl⟩ }⟩

theorem Source.streams_memory (S : List UInt8) :
    (Source.memory S).Streams (fun _ => True) (fun k d => d = k) S where
  openFile := fun _ _ => rfl
  metadata := fun _ _ h => h
  read := by
    rintro k n d rfl
    exact ⟨(shortRead_slice S d (min n 3)).of_le (Nat.min_le_left _ _) (by omega), rfl⟩

/-- Three bytes a read and two a write, over a longer file. -/
theorem put_exact_trickling : ∃ r s',
    Cli.put (pure StorageBackend.trickling) (Source.memory [1, 2, 3, 4, 5]) "/a" 6
      ⟨(⟨[9, 9, 9, 9, 9, 9, 9], false⟩, ReadAhead.init), 0, []⟩ = .ok (r, s') ∧
    (r = .ok () → s'.world.1.content = [1, 2, 3, 4, 5]) ∧
    (s'.world.1.stuck = true → r = .error noProgress) :=
  Cli.put_exact ⟨[1, 2, 3, 4, 5], by decide⟩ (Source.streams_memory _)
    (StorageBackend.takesAt_trickling "/a") 6 (by decide) trivial rfl trivial

example : Cli.put (pure StorageBackend.trickling) (Source.memory [1, 2, 3, 4, 5]) "/a" 6
    ⟨(⟨[9, 9, 9, 9, 9, 9, 9], false⟩, ReadAhead.init), 0, []⟩ =
      .ok (.ok (), ⟨(⟨[1, 2, 3, 4, 5], false⟩, ReadAhead.init), 5, []⟩) := rfl

end Krystallos
