import Krystallos.Cache.Sequential
import Krystallos.Core.Backend

namespace Krystallos

open Checked Prog Slices

/-!
# `cat` and `get`

The two download commands of the CLI: connect, parse the path, open with or without
read-ahead, copy until a read comes back empty, flush, close, shut down.  Progress output and
the debug statistics go to standard error and are left out.

A read of zero bytes means end-of-file to the loop, and a `--chunk` of zero makes every read
one of zero bytes: `download_exact_iff` says that this is the only way either command can
report success with something other than the file.
-/

/-- What a run of the CLI changes: the backend's world with the read-ahead layer over it, and
    the local side with the bytes written to the destination so far. -/
structure Cli (σ δ : Type) where
  world : σ × ReadAhead
  disk : δ
  out : List UInt8

/-- The local destination: any call may fail, and a failed `write_all` may have written a
    part. -/
structure Sink (δ : Type) where
  create : δ → Except Error Unit × δ
  write : List UInt8 → δ → Option (Error × Nat) × δ
  flush : δ → Except Error Unit × δ

/-- A destination on which nothing fails. -/
def Sink.memory : Sink Unit where
  create d := (.ok (), d)
  write _ d := (none, d)
  flush d := (.ok (), d)

/-- A read handle, with or without read-ahead in front of it. -/
inductive ReadHandle (σ : Type)
  | plain (h : FileHandle σ)
  | buffered (cfg : Config) (h : FileHandle σ)

namespace Cli

variable {σ δ : Type}

/-- Run a program on the backend's world. -/
def onBackend {α : Type} (m : Prog Error σ α) : Prog Error (Cli σ δ) α :=
  zoom (fun s => s.world.1) (fun w s => { s with world := (w, s.world.2) }) m

/-- Run a program on the world with the read-ahead layer. -/
def onHandle {α : Type} (m : Prog Error (σ × ReadAhead) α) : Prog Error (Cli σ δ) α :=
  zoom Cli.world (fun w s => { s with world := w }) m

/-- Every call goes to the handle inside. -/
def toHandle : ReadHandle σ → FileHandle (σ × ReadAhead)
  | .plain h =>
    { readAt := fun offset len => ReadAhead.inner (h.readAt offset len)
      writeAt := fun offset buf => ReadAhead.inner (h.writeAt offset buf)
      setLen := fun n => ReadAhead.inner (h.setLen n)
      flush := ReadAhead.inner h.flush
      close := ReadAhead.inner h.close
      len := fun s => h.len s.1 }
  | .buffered cfg h => ReadAhead.asHandle cfg h

/-- `File::create`: the destination is there, and empty. -/
def create (sink : Sink δ) : Prog Error (Cli σ δ) Unit := fun s =>
  match sink.create s.disk with
  | (.error e, d) => .ok (.error e, { s with disk := d })
  | (.ok (), d) => .ok (.ok (), { s with disk := d, out := [] })

/-- `write_all`. -/
def writeAll (sink : Sink δ) (buf : List UInt8) : Prog Error (Cli σ δ) Unit := fun s =>
  match sink.write buf s.disk with
  | (some (e, n), d) => .ok (.error e, { s with disk := d, out := s.out ++ buf.take n })
  | (none, d) => .ok (.ok (), { s with disk := d, out := s.out ++ buf })

/-- `flush`. -/
def flush (sink : Sink δ) : Prog Error (Cli σ δ) Unit :=
  zoom Cli.disk (fun d s => { s with disk := d }) (call sink.flush)

/-- Wrap a read handle in read-ahead when the caller asked for it; `cfg` carries
    `--read-ahead`. -/
def openForRead (backend : StorageBackend σ) (path : VfsPath) (cfg : Config) :
    Prog Error (Cli σ δ) (ReadHandle σ) := do
  let md ← onBackend (backend.stat path)
  if md.isDir then fail (.isADirectory path.str)
  else do
    let handle ← onBackend (backend.openFile path .reading)
    if cfg.windowSize > 0 then do
      onHandle (update fun s => (s.1, ReadAhead.init))
      pure (.buffered cfg handle)
    else pure (.plain handle)

/-- One turn of the copy loop at `offset`, with a buffer of `chunk` bytes. -/
def copyTurn (sink : Sink δ) (handle : FileHandle (σ × ReadAhead)) (chunk offset : Nat) :
    Prog Error (Cli σ δ) (Turn Nat Unit) := do
  let buf ← onHandle (handle.readAt offset chunk)
  if buf = [] then pure (.leave ())
  else do
    writeAll sink buf
    let offset' ← checked (addU 64 offset buf.length)
    pure (.again offset')

/-- Prefer the work's failure over a failed shutdown. -/
def finish (backend : StorageBackend σ) (outcome : Result Unit) : Prog Error (Cli σ δ) Unit := do
  let shut ← capture (onBackend backend.shutdown)
  match outcome, shut with
  | .error e, _ => fail e
  | .ok (), .error e => fail e
  | .ok (), .ok () => pure ()

/-- Write a file's contents to standard output. -/
def cat (connect : Prog Error σ (StorageBackend σ)) (sink : Sink δ) (path : String)
    (cfg : Config) (chunk fuel : Nat) : Prog Error (Cli σ δ) Unit := do
  let backend ← onBackend connect
  let outcome ← capture do
    let path ← ofExcept (VfsPath.new path)
    let handle ← openForRead backend path cfg
    iterate fuel (copyTurn sink (toHandle handle) chunk) 0
    flush sink
    onHandle (toHandle handle).close
  finish backend outcome

/-- Download a file to the local file system. -/
def get (connect : Prog Error σ (StorageBackend σ)) (sink : Sink δ) (path : String)
    (cfg : Config) (chunk fuel : Nat) : Prog Error (Cli σ δ) Unit := do
  let backend ← onBackend connect
  let outcome ← capture do
    let path ← ofExcept (VfsPath.new path)
    let handle ← openForRead backend path cfg
    create sink
    iterate fuel (copyTurn sink (toHandle handle) chunk) 0
    flush sink
    onHandle (toHandle handle).close
  finish backend outcome

/-! ### The copy loop -/

variable {sink : Sink δ} {s : Cli σ δ} {p : Post Error (Cli σ δ) Unit}

theorem wp_create (hret : ∀ d, p.ret () { s with disk := d, out := [] })
    (hfail : ∀ e s', p.fail e s') : wp (create sink) p s := by
  unfold wp create
  rcases sink.create s.disk with ⟨e | u, d⟩
  · exact hfail _ _
  · exact hret d

theorem wp_writeAll {buf : List UInt8}
    (hret : ∀ d, p.ret () { s with disk := d, out := s.out ++ buf })
    (hfail : ∀ e s', p.fail e s') : wp (writeAll sink buf) p s := by
  unfold wp writeAll
  rcases sink.write buf s.disk with ⟨_ | ⟨e, n⟩, d⟩
  · exact hret d
  · exact hfail _ _

variable {F : List UInt8} {handle : FileHandle (σ × ReadAhead)}
  {J : σ × ReadAhead → Prop} {D : Nat → Prop} {chunk : Nat}

/-- What holds at the head of the loop: the first `offset` bytes have been written. -/
def Copied (J : σ × ReadAhead → Prop) (F : List UInt8) (offset : Nat) (s : Cli σ δ) : Prop :=
  J s.world ∧ offset ≤ F.length ∧ s.out = F.take offset

/-- The loop ends with the whole file written, or fails, or has too little fuel. -/
def copyPost (F : List UInt8) (fuel : Nat) : Post Error (Cli σ δ) Unit where
  ret := fun _ s' => s'.out = F
  fail := fun _ _ => True
  stop := fun t => t = .fuel ∧ fuel ≤ F.length

/-- **Turn of the loop.** An empty read means the whole file has been written; any other
    extends what has been. -/
theorem wp_copyTurn (hF : F.length < 2 ^ 64) (hreads : handle.Reads J F D)
    (hD : ∀ offset ≤ F.length, D offset) (hchunk : 0 < chunk ∨ F = []) {fuel offset : Nat}
    (hs : Copied J F offset s) :
    wp (copyTurn sink handle chunk offset)
      (turnPost (Copied J F) (fun offset _ => F.length - offset) (copyPost F fuel)
        (F.length - offset)) s := by
  obtain ⟨hJ, hle, hout⟩ := hs
  rw [copyTurn, wp_bind, onHandle, wp_zoom]
  refine wp_mono (hreads.readAt offset chunk s.world (hD offset hle) hJ) ?_ (fun _ _ _ => trivial)
    (fun _ => False.elim)
  rintro buf w ⟨hJ', hread⟩
  refine wp_ite (fun hnil => ?_) (fun hne => ?_)
  · -- nothing was read: either the file ends here, or there is nothing in it
    show s.out = F
    rcases hchunk with hpos | rfl
    · have hend := (hread.empty hpos).mp hnil
      rw [hout, List.take_of_length_le hend]
    · rw [hout, List.take_nil]
  · -- the bytes go out whole or not at all, and the offset stays inside the file
    have hin := hread.add_length_le hne
    have hpos := List.length_pos_iff.mpr hne
    rw [wp_bind]
    refine wp_writeAll (fun d => ?_) (fun _ _ => trivial)
    simp only [wp_bind, wp_checked_ok (addU_ok (lt_of_le_of_lt hin hF)), wp_pure]
    refine ⟨⟨hJ', hin, ?_⟩, ?_⟩
    · show s.out ++ buf = F.take (offset + buf.length)
      rw [hout, ← take_append_slice, ← hread.bytes]
    · show F.length - (offset + buf.length) < F.length - offset
      omega

/-- **The copy loop writes the file**, in at most `F.length + 1` turns. -/
theorem wp_copy (hF : F.length < 2 ^ 64) (hreads : handle.Reads J F D)
    (hD : ∀ offset ≤ F.length, D offset) (hchunk : 0 < chunk ∨ F = []) (fuel : Nat)
    (hJ : J s.world) (hout : s.out = []) :
    wp (iterate fuel (copyTurn sink handle chunk) 0) (copyPost F fuel) s := by
  refine wp_iterate (Copied J F) (fun offset _ => F.length - offset)
    (fun offset s hs => wp_copyTurn hF hreads hD hchunk hs) ⟨hJ, Nat.zero_le _, hout⟩ ?_
  by_cases hfuel : F.length < fuel
  · exact .inl (by omega)
  · exact .inr ⟨rfl, by omega⟩

/-! ### The commands -/

/-- Either kind of read handle keeps the contract of the handle inside. -/
theorem reads_plain {h : FileHandle σ} {I : σ → Prop} (hreads : h.Reads I F D) :
    (toHandle (.plain h)).Reads (fun s => I s.1) F D where
  readAt := by
    intro offset len s hoff hI
    show wp (ReadAhead.inner (h.readAt offset len)) _ s
    rw [ReadAhead.inner, wp_zoom]
    exact hreads.readAt offset len s.1 hoff hI

/-- **Opening for reading.** What `open_for_read` returns reads the file up to its end, with
    read-ahead or without. -/
theorem wp_openForRead {backend : StorageBackend σ} {I : σ → Prop} {path : VfsPath}
    {cfg : Config} (hF : F.length < 2 ^ 64) (hserves : backend.Serves I F path)
    (hI : I s.world.1) :
    wp (openForRead backend path cfg)
      ⟨fun handle s' => s'.out = s.out ∧ ∃ J : σ × ReadAhead → Prop, J s'.world ∧
          (toHandle handle).Reads J F (· ≤ F.length),
        fun _ _ => True, fun _ => True⟩ s := by
  rw [openForRead, wp_bind, onBackend, wp_zoom]
  refine wp_mono (hserves.stat s.world.1 hI) ?_ (fun _ _ _ => trivial) (fun _ _ => trivial)
  intro md w hI'
  refine wp_ite (fun _ => trivial) (fun _ => ?_)
  rw [wp_bind, onBackend, wp_zoom]
  refine wp_mono (hserves.openFile w hI') ?_ (fun _ _ _ => trivial) (fun _ _ => trivial)
  rintro h w' ⟨hI'', hreads⟩
  refine wp_ite (fun _ => ?_) (fun _ => ?_)
  · -- with read-ahead, from a fresh window
    simp only [wp_bind, onHandle, wp_zoom, wp_update, wp_pure]
    have hwrapped : (ReadAhead.asHandle cfg h).Reads (ReadAhead.Wraps cfg I F) F _ :=
      ReadAhead.asHandle_reads hF hreads
    exact ⟨trivial, _, ReadAhead.wraps_init hI'',
      hwrapped.mono fun offset hle => ⟨lt_of_le_of_lt hle hF, .inl hle⟩⟩
  · refine ⟨rfl, _, hI'', (reads_plain hreads).mono fun offset hle => ?_⟩
    exact lt_of_le_of_lt hle hF

/-- Shutting down writes nothing, and reports success only for work that succeeded. -/
theorem wp_finish {backend : StorageBackend σ} {outcome : Result Unit}
    (hout : outcome = .ok () → s.out = F) :
    wp (finish backend outcome) ⟨fun _ s' => s'.out = F, fun _ _ => True, fun _ => True⟩ s := by
  simp only [finish, wp_bind, wp_capture, onBackend, wp_zoom]
  refine wp_of_forall (fun u w => ?_) (fun e w => ?_) (fun _ => trivial)
  · rcases outcome with e | u
    · trivial
    · exact hout rfl
  · rcases outcome with e' | u
    · trivial
    · trivial

/-- Flushing and closing write nothing. -/
theorem wp_flushClose (hout : s.out = F) :
    wp (do flush sink; onHandle handle.close)
      ⟨fun _ s' => s'.out = F, fun _ _ => True, fun _ => True⟩ s := by
  simp only [wp_bind, flush, onHandle, wp_zoom]
  refine wp_of_forall (fun _ _ => ?_) (fun _ _ => trivial) (fun _ => trivial)
  exact wp_of_forall (fun _ _ => hout) (fun _ _ => trivial) (fun _ => trivial)

/-- While `I` holds, the endpoint connects to a backend that serves `F` at the path, or
    fails. -/
def Connects (connect : Prog Error σ (StorageBackend σ)) (I : σ → Prop) (F : List UInt8)
    (path : String) : Prop :=
  ∀ w, I w → wp connect ⟨fun backend w' => I w' ∧
    ∀ p, VfsPath.new path = .ok p → backend.Serves I F p, fun _ _ => True, fun _ => True⟩ w

/-- What a command's own work must establish for the command: the file was written, where it
    succeeded. -/
theorem wp_command {connect : Prog Error σ (StorageBackend σ)} {I : σ → Prop} {path : String}
    {work : StorageBackend σ → Prog Error (Cli σ δ) Unit} (hconnect : Connects connect I F path)
    (hI : I s.world.1)
    (hwork : ∀ backend s', I s'.world.1 → s'.out = s.out →
      (∀ p, VfsPath.new path = .ok p → backend.Serves I F p) →
      wp (work backend) ⟨fun _ s'' => s''.out = F, fun _ _ => True, fun _ => True⟩ s') :
    wp (do
        let backend ← onBackend connect
        let outcome ← capture (work backend)
        finish backend outcome)
      ⟨fun _ s' => s'.out = F, fun _ _ => True, fun _ => True⟩ s := by
  rw [wp_bind, onBackend, wp_zoom]
  refine wp_mono (hconnect s.world.1 hI) ?_ (fun _ _ _ => trivial) (fun _ _ => trivial)
  rintro backend w ⟨hI', hserves⟩
  simp only [wp_bind, wp_capture]
  refine wp_mono (hwork backend _ hI' rfl hserves) ?_ ?_ (fun _ _ => trivial)
  · intro u s'' hout
    exact wp_finish fun _ => hout
  · intro e s'' _
    exact wp_finish fun h => by cases h

/-- The part of both commands from the copy loop on. -/
theorem wp_copyFlushClose {rh : ReadHandle σ} (hF : F.length < 2 ^ 64)
    (hreads : (toHandle rh).Reads J F (· ≤ F.length)) (hchunk : 0 < chunk ∨ F = [])
    (fuel : Nat) (hJ : J s.world) (hout : s.out = []) :
    wp (do
        iterate fuel (copyTurn sink (toHandle rh) chunk) 0
        flush sink
        onHandle (toHandle rh).close)
      ⟨fun _ s' => s'.out = F, fun _ _ => True, fun _ => True⟩ s := by
  rw [wp_bind]
  refine wp_mono (wp_copy hF hreads (fun _ h => h) hchunk fuel hJ hout) ?_
    (fun _ _ _ => trivial) (fun _ _ => trivial)
  intro u s' hout'
  exact wp_flushClose hout'

variable {connect : Prog Error σ (StorageBackend σ)} {I : σ → Prop} {path : String}

/-- `get` writes the file to the destination, or does not report success. -/
theorem wp_get (hF : F.length < 2 ^ 64) (hconnect : Connects connect I F path)
    (hI : I s.world.1) (hchunk : 0 < chunk ∨ F = []) (cfg : Config) (fuel : Nat) :
    wp (get connect sink path cfg chunk fuel)
      ⟨fun _ s' => s'.out = F, fun _ _ => True, fun _ => True⟩ s := by
  refine wp_command hconnect hI fun backend s₁ hI₁ _ hserves => ?_
  rw [wp_bind, wp_ofExcept]
  cases hpath : VfsPath.new path with
  | error e => trivial
  | ok p =>
    show wp _ _ s₁
    rw [wp_bind]
    refine wp_mono (wp_openForRead hF (hserves p hpath) hI₁) ?_ (fun _ _ _ => trivial)
      (fun _ _ => trivial)
    rintro rh s₂ ⟨-, J, hJ, hreads⟩
    refine (wp_bind _ _).mpr (wp_create (fun d => ?_) (fun _ _ => trivial))
    exact wp_copyFlushClose hF hreads hchunk fuel hJ rfl

/-- `cat` writes the file to standard output, or does not report success. -/
theorem wp_cat (hF : F.length < 2 ^ 64) (hconnect : Connects connect I F path)
    (hI : I s.world.1) (hout : s.out = []) (hchunk : 0 < chunk ∨ F = []) (cfg : Config)
    (fuel : Nat) :
    wp (cat connect sink path cfg chunk fuel)
      ⟨fun _ s' => s'.out = F, fun _ _ => True, fun _ => True⟩ s := by
  refine wp_command hconnect hI fun backend s₁ hI₁ hout₁ hserves => ?_
  rw [wp_bind, wp_ofExcept]
  cases hpath : VfsPath.new path with
  | error e => trivial
  | ok p =>
    show wp _ _ s₁
    rw [wp_bind]
    refine wp_mono (wp_openForRead hF (hserves p hpath) hI₁) ?_ (fun _ _ _ => trivial)
      (fun _ _ => trivial)
    rintro rh s₂ ⟨hout₂, J, hJ, hreads⟩
    exact wp_copyFlushClose hF hreads hchunk fuel hJ (by rw [hout₂, hout₁, hout])

/-! ### Exactness -/

/-- Whatever the backend does within its contract and whatever fails on either side: `get`
    and `cat` report success only where they have written exactly `F`. -/
def DownloadsExactly (F : List UInt8) (cfg : Config) (chunk : Nat) : Prop :=
  ∀ (σ δ : Type) (connect : Prog Error σ (StorageBackend σ)) (sink : Sink δ) (I : σ → Prop)
    (path : String) (fuel : Nat) (s s' : Cli σ δ),
    Connects connect I F path → I s.world.1 →
    (get connect sink path cfg chunk fuel s = .ok (.ok (), s') → s'.out = F) ∧
    (s.out = [] → cat connect sink path cfg chunk fuel s = .ok (.ok (), s') → s'.out = F)

/-- With a chunk of zero both commands succeed on any file, and write nothing. -/
theorem get_zero (F : List UInt8) (cfg : Config) :
    (get (pure (StorageBackend.ofContent F)) Sink.memory "/f" cfg 0 1
        (⟨((), ReadAhead.init), (), []⟩ : Cli Unit Unit))
      = .ok (.ok (), ⟨((), ReadAhead.init), (), []⟩) := by
  obtain ⟨ptr, window, hfits⟩ := cfg
  cases window with
  | zero => rfl
  | succ window => rfl

theorem connects_ofContent (F : List UInt8) (path : String) :
    Connects (pure (StorageBackend.ofContent F)) (fun _ => True) F path :=
  fun _ _ => ⟨trivial, fun p _ => StorageBackend.serves_ofContent F p⟩

/-- A file of three bytes is downloaded as an empty one, and reported as a success. -/
theorem get_zero_loses_file :
    Connects (pure (StorageBackend.ofContent [1, 2, 3])) (fun _ => True) [1, 2, 3] "/f" ∧
    get (pure (StorageBackend.ofContent [1, 2, 3])) Sink.memory "/f" ⟨64, 1048576, by decide⟩ 0 1
        (⟨((), ReadAhead.init), (), []⟩ : Cli Unit Unit)
      = .ok (.ok (), ⟨((), ReadAhead.init), (), []⟩) ∧
    ¬ DownloadsExactly [1, 2, 3] ⟨64, 1048576, by decide⟩ 0 := by
  refine ⟨connects_ofContent _ _, get_zero _ _, fun hexact => ?_⟩
  have hout := (hexact Unit Unit _ Sink.memory _ "/f" 1 _ _ (connects_ofContent _ _)
    trivial).1 (get_zero [1, 2, 3] _)
  cases hout

/-- **Download exactness.** For every content, chunk size and read-ahead window, `get` and
    `cat` are exact if and only if the chunk is not zero or there is nothing to download. -/
theorem download_exact_iff (F : FileContent) (cfg : Config) (chunk : Nat) :
    DownloadsExactly F.bytes cfg chunk ↔ 0 < chunk ∨ F.bytes = [] := by
  constructor
  · intro hexact
    by_contra hnot
    obtain ⟨rfl, hne⟩ : chunk = 0 ∧ F.bytes ≠ [] := by
      rw [not_or] at hnot
      exact ⟨by omega, hnot.2⟩
    have hout := (hexact Unit Unit _ Sink.memory _ "/f" 1 _ _ (connects_ofContent _ _)
      trivial).1 (get_zero F.bytes cfg)
    exact hne hout.symm
  · intro hchunk σ δ connect sink I path fuel s s' hconnect hI
    exact ⟨fun hrun => wp_ret (wp_get F.bound hconnect hI hchunk cfg fuel) hrun,
      fun hout hrun => wp_ret (wp_cat F.bound hconnect hI hout hchunk cfg fuel) hrun⟩

end Cli

end Krystallos
