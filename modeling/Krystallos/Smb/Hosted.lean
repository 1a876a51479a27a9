import Krystallos.Core.Hosted
import Krystallos.Smb.Connect
import Krystallos.Smb.PlainFile

namespace Krystallos.Smb

open Checked Prog Slices

/-!
# A session hosts a file

`Keeps` is what the library's calls do to the one file at a path, from a connection to the next.
A session that is up, with nothing open, then hosts the file (`hosts_backend`): what is opened is
a plain file, and what it holds when it is closed is what the server has.
-/

variable {W : Type}

/-- Nobody else changes the file at `path`, whose content `content` reads off the world: `idle` holds
    while it is not open, and `busy fh` while it is open as `fh` and as nothing else. -/
structure Keeps (lib : Libsmb2 W) (idle : W → Prop) (busy : Fh → W → Prop)
    (content : W → FileContent) (path : VfsPath) : Prop where
  stat : ∀ w r w', idle w → lib.call (.stat (toSmbPath path)) w = (r, w') →
    idle w' ∧ content w' = content w
  openFile : ∀ (mode : OpenMode) w fh w', idle w →
    lib.call (.openFile (toSmbPath path) (openFlags mode)) w = (some fh, w') →
    busy fh w' ∧ content w' = mode.start (content w)
  fstat : ∀ fh w r w', busy fh w → lib.call (.fstat fh) w = (r, w') →
    busy fh w' ∧ content w' = content w
  stores : ∀ fh, Stores lib (busy fh) fh content
  close : ∀ fh w r w', busy fh w → lib.call (.close fh) w = (r, w') →
    idle w' ∧ content w' = content w
  disconnect : ∀ w r w', idle w → lib.call .disconnectShare w = (r, w') →
    idle w' ∧ content w' = content w
  destroy : ∀ w r w', idle w → lib.call .destroyContext w = (r, w') →
    idle w' ∧ content w' = content w

/-- The file holds `F`, and is not open. -/
def Left (idle : W → Prop) (content : W → FileContent) (F : FileContent) (s : Sys W) : Prop :=
  idle s.actor.ctx.world ∧ content s.actor.ctx.world = F

/-- Besides, the session is up with nothing left to execute and nothing open. -/
structure Up (idle : W → Prop) (content : W → FileContent) (F : FileContent) (s : Sys W) :
    Prop where
  serving : s.phase = .serving
  queue : s.queue = []
  held : s.held = true
  join : s.join = true
  table : s.actor.files.handles = []
  left : Left idle content F s

variable {lib : Libsmb2 W} {limits : Limits} {fuel : Nat} {idle : W → Prop}
  {busy : Fh → W → Prop} {content : W → FileContent} {path : VfsPath} {F : FileContent} {s : Sys W}

/-- The thread's `stat` finds the file as it was. -/
theorem wp_statPath_keeps (hkeeps : Keeps lib idle busy content path) {c : Ctx W}
    (hidle : idle c.world) :
    wp (statPath lib path) (ifDone fun _ c' => idle c'.world ∧ content c'.world = content c.world)
      c := by
  refine (wp_bind _ _).mpr (wp_cstring (fun _ => ?_) (fun _ _ => trivial))
  refine (wp_bind _ _).mpr (wp_ffi.mpr ?_)
  refine wp_ite (fun _ => ?_) (fun _ => hkeeps.stat _ _ _ hidle rfl)
  exact wp_failWith (fun _ => trivial) (fun _ => trivial)

theorem wp_stat_up (hkeeps : Keeps lib idle busy content path) (hs : Up idle content F s) :
    wp ((backend lib limits fuel).stat path) (ifDone fun _ s' => Up idle content F s') s := by
  have hstart : Sys.step lib limits s (.call (.stat path))
      = some (s.spawn (.session (.stat path)) .ready) := if_pos ⟨hs.held, rfl⟩
  have hexec : wp (execute lib fuel (.stat path)) (ifDone fun answer a' =>
      (∃ md, answer = .metadata md) ∧ a'.files = s.actor.files ∧ idle a'.ctx.world ∧
        content a'.ctx.world = F) s.actor := by
    rw [execute, wp_bind, onCtx, wp_zoom]
    refine wp_done (wp_statPath_keeps hkeeps hs.left.1) ?_
    rintro md c ⟨hidle, hsame⟩
    exact ⟨⟨md, rfl⟩, rfl, hidle, hsame.trans hs.left.2⟩
  have hkind : CallKind.session (.stat path) ≠ .shutdown := by simp
  refine wp_expect ?_
  refine wp_done (Sys.wp_served hs.serving hs.queue hkind rfl hstart rfl hexec fun r => ?_) ?_
  · cases r <;> rfl
  · rintro _ s' ⟨⟨⟨md, rfl⟩, htable, hidle, hsame⟩, -, hserving, hqueue, hheld, hjoin⟩
    refine ⟨md, rfl, hserving, hqueue, hheld.trans hs.held, hjoin.trans hs.join, ?_, hidle, hsame⟩
    rw [htable]
    exact hs.table

/-! ### The file while it is open -/

/-- The thread's close gives up the handle. -/
theorem wp_closeFile_keeps (hkeeps : Keeps lib idle busy content path) {a : Actor W} {id : Nat}
    {fh : Fh} (hid : a.files.get id = some fh) (hbusy : busy fh a.ctx.world) :
    wp (closeFile lib id) (ifDone fun _ a' => a'.files = a.files.remove id ∧
      idle a'.ctx.world ∧ content a'.ctx.world = content a.ctx.world) a := by
  simp only [closeFile, wp_bind, wp_current, wp_update, OpenFiles.take, hid]
  refine wp_onCtx_ffi.mpr (wp_ite (fun _ => ?_) (fun _ => ⟨rfl, hkeeps.close fh _ _ _ hbusy rfl⟩))
  rw [onCtx, wp_zoom]
  exact wp_failWith (fun _ => trivial) (fun _ => trivial)

/-- **The close of a file** that was the only one open leaves the session up, with what the file
    held. -/
theorem wp_close_up (hkeeps : Keeps lib idle busy content path) {base : Sys W} {f : Nat} {fh : Fh}
    {x : PlainFile} (hs : Stored base (busy fh) fh content f x s) (hheld : base.held = true)
    (hjoin : base.join = true)
    (halone : ∀ id, base.actor.files.get id = some fh → (base.actor.files.remove id).handles = []) :
    wp (fileHandle lib limits fuel f).close (ifDone fun _ s' => Up idle content x.content s') s := by
  obtain ⟨hopen, hbusy, hx⟩ := hs
  obtain ⟨o, hf, howned, hclosed, -, hid⟩ := hopen.file
  let u : Sys W := { s with files := s.files.set f { o with closed := true } }
  have hstart : Sys.step lib limits s (.close f) = some (u.spawn (.close f) .ready) := by
    simp only [Sys.step, hf]
    rw [if_pos howned, hclosed]
    rfl
  have hcmd : u.command u.tasks.length (.close f)
      = some (.run (.close o.file.id) (some u.tasks.length)) := by
    have hlt := (List.getElem?_eq_some_iff.mp hf).1
    simp only [Sys.command, u, List.getElem?_set_self hlt]
    rfl
  have hkind : CallKind.close f ≠ .shutdown := by simp
  have hexec : wp (execute lib fuel (.close o.file.id)) (ifDone fun _ a' =>
      a'.files = s.actor.files.remove o.file.id ∧ idle a'.ctx.world ∧
        content a'.ctx.world = content s.actor.ctx.world) u.actor :=
    wp_bind_done (wp_closeFile_keeps hkeeps hid hbusy) fun _ _ h => h
  refine wp_bind_done (Sys.wp_served (u := u) hopen.serving hopen.queue hkind rfl hstart hcmd
    hexec fun r => ?_) ?_
  · cases r <;> rfl
  · rintro _ s' ⟨⟨htable, hidle, hsame⟩, -, hserving, hqueue, hheld', hjoin'⟩
    refine ⟨hserving, hqueue, hheld'.trans (hopen.held.trans hheld),
      hjoin'.trans (hopen.join.trans hjoin), ?_, hidle, hsame.trans hx.symm⟩
    rw [htable, hopen.table]
    rw [hopen.table] at hid
    exact halone _ hid

/-- What is opened on a session that is up is a plain file, and closing it leaves the session up. -/
theorem wp_openFile_up (hkeeps : Keeps lib idle busy content path) (hmax : 0 < limits.maxRead)
    (mode : OpenMode) (hs : Up idle content F s) :
    wp ((backend lib limits fuel).openFile path mode) (ifDone fun h s' =>
      ∃ R : PlainFile → Sys W → Prop, R (.holding (mode.start F)) s' ∧ h.IsShort R ∧
        ∀ x t, R x t → wp h.close (ifDone fun _ t' => Up idle content x.content t') t) s := by
  refine wp_openRemote hs.serving hs.queue hs.held ?_ (fun _ _ => trivial) trivial
  intro fh len s' hsome hserving hqueue hheld hjoin hfiles htable hworld
  obtain ⟨hbusy, hcontent⟩ := hkeeps.openFile mode _ fh _ hs.left.1 (Prod.ext hsome rfl)
  obtain ⟨hbusy', hsame⟩ := hkeeps.fstat fh _ _ _ hbusy rfl
  rw [← hworld] at hbusy' hsame
  -- the handle is the only one in the table
  have hhandles : s'.actor.files.handles = [(s.actor.files.nextId + 1, fh)] := by
    rw [htable]
    show s.actor.files.handles ++ [_] = _
    rw [hs.table, List.nil_append]
  have hget : s'.actor.files.get (s.actor.files.nextId + 1) = some fh := by
    simp [OpenFiles.get, hhandles]
  have hfile : s'.files[s.files.length]?
      = some ⟨⟨s.actor.files.nextId + 1, path, limits⟩, len, false, .owned, 0⟩ := by
    rw [hfiles, Sys.opened]
    exact List.getElem?_concat_length
  refine ⟨Stored s' (busy fh) fh content s.files.length, ⟨?_, hbusy', ?_⟩,
    isShort_fileHandle (hkeeps.stores fh), fun x t ht => ?_⟩
  · exact ⟨hserving, hqueue, rfl, rfl, rfl, _, hfile, rfl, rfl, hmax, hget⟩
  · rw [hsame, hcontent, hs.left.2]
    rfl
  · refine wp_close_up hkeeps ht hheld (hjoin.trans hs.join) fun id hid => ?_
    have hmem : (id, fh) ∈ s'.actor.files.handles := Assoc.mem_of_lookup hid
    rw [hhandles, List.mem_singleton] at hmem
    obtain rfl := congrArg Prod.fst hmem
    simp [OpenFiles.remove, hhandles]

/-! ### The shutdown -/

/-- Past its loop, with nothing open, the thread disconnects and is done with the context. -/
theorem wp_teardown_keeps (hkeeps : Keeps lib idle busy content path) {a : Actor W}
    (htable : a.files.handles = []) (hidle : idle a.ctx.world) :
    wp (teardown lib : Prog Error (Actor W) Unit) (ifDone fun _ a' => idle a'.ctx.world ∧
      content a'.ctx.world = content a.ctx.world) a := by
  simp only [teardown, wp_bind, wp_current, wp_update, onCtx, wp_zoom, htable, closeHandles, wp_pure]
  refine wp_ffi.mpr (wp_ffi.mpr ?_)
  obtain ⟨hidle', hsame⟩ := hkeeps.disconnect _ _ _ hidle rfl
  obtain ⟨hidle'', hsame'⟩ := hkeeps.destroy _ _ _ hidle' rfl
  exact ⟨hidle'', hsame'.trans hsame⟩

theorem wp_shutdown_up (hkeeps : Keeps lib idle busy content path) (hs : Up idle content F s) :
    wp (backend lib limits fuel).shutdown (ifDone fun _ s' => Left idle content F s') s := by
  obtain ⟨s', hperform, -, -, -, -, hteardown⟩ :=
    @Sys.run_shutdown _ lib limits fuel s hs.serving hs.queue hs.held hs.join
  obtain ⟨hidle, hsame⟩ := wp_ret (wp_teardown_keeps hkeeps hs.table hs.left.1) hteardown
  refine wp_bind_done (p := ifDone fun _ t => t = s') ?_ ?_
  · rw [wp, hperform]
    rfl
  · rintro _ t rfl
    exact ⟨hidle, hsame.trans hs.left.2⟩

/-- **A session hosts the file** that the server keeps. -/
theorem hosts_backend (hkeeps : Keeps lib idle busy content path) (hmax : 0 < limits.maxRead) :
    (backend lib limits fuel).toStorageBackend.Hosts (Up idle content) (Left idle content) path where
  stat := fun _ _ hs => wp_stat_up hkeeps hs
  openFile := fun mode _ _ hs => wp_openFile_up hkeeps hmax mode hs
  shutdown := fun _ _ hs => wp_shutdown_up hkeeps hs

/-! ### The driver -/

/-- `SmbDriver::connect`, as a program: a session of its own, in the world that connecting has left,
    with the sizes that were negotiated. -/
def connectTo (lib : Libsmb2 W) (host : W → ConnectHost W) (limits : Limits) (fuel : Nat)
    (endpoint : Endpoint) (credentials : Credentials) (options : ConnectionOptions) :
    Prog Error (Sys W) (TreeBackend (Sys W)) := do
  let s ← current
  let r ← checked (SmbDriver.connect (host s.actor.ctx.world) endpoint credentials options)
  let ctx ← ofExcept r
  update fun _ => Sys.init ctx.world
  pure (backend lib limits fuel)

/-- A context that is connected has what connecting has left. -/
theorem world_of_connect {host : ConnectHost W} {endpoint : Endpoint} {credentials : Credentials}
    {options : ConnectionOptions} {ctx : SmbContext W}
    (h : SmbDriver.connect host endpoint credentials options = .ok (.ok ctx)) :
    ctx.world = host.connectShare.2 := by
  have hshare : ∀ config : ConnectConfig, SmbContext.connect host config = .ok (.ok ctx) →
      ctx.world = host.connectShare.2 := by
    intro config hconnect
    unfold SmbContext.connect at hconnect
    split at hconnect
    · cases hconnect
    · split_ifs at hconnect
      · split at hconnect
        · cases hconnect
        · unfold SmbContext.serve at hconnect
          split at hconnect
          next rc w hreturned =>
          split_ifs at hconnect
          · split at hconnect <;> cases hconnect
          · cases hconnect
            rw [hreturned]
      · cases hconnect
  rw [SmbDriver.connect] at h
  cases hparse : ParsedEndpoint.parse endpoint.authorityAndPath with
  | error e => simp [hparse] at h
  | ok parsed =>
    simp only [hparse] at h
    by_cases hnul : '\x00' ∈ (parsed.config credentials options).threadName.toList
    · rw [Session.connect_of_nul host _ hnul] at h
      cases h
    · rw [Session.connect_of_nulFree host _ hnul] at h
      replace h := Except.ok.inj h
      rcases hspawn : host.spawn with e | u
      · simp [hspawn, Except.mapError, Except.bind] at h
      · cases hconnect : SmbContext.connect host (parsed.config credentials options) with
        | error p => simp [hspawn, hconnect, reported, Except.mapError, Except.bind] at h
        | ok r =>
          obtain rfl : r = .ok ctx := by
            simpa [hspawn, hconnect, reported, Except.mapError, Except.bind] using h
          exact hshare _ hconnect

/-! ### A server with one file -/

theorem keeps_oneFile (path : VfsPath) :
    Keeps oneFileLib (fun _ => True) (fun _ _ => True) id path where
  stat := by
    rintro F r F' - h
    cases h
    exact ⟨trivial, rfl⟩
  openFile := by
    rintro mode F fh F' - h
    cases h
    exact ⟨trivial, rfl⟩
  fstat := by
    rintro fh F r F' - h
    cases h
    exact ⟨trivial, rfl⟩
  stores := stores_oneFile
  close := by
    rintro fh F r F' - h
    cases h
    exact ⟨trivial, rfl⟩
  disconnect := by
    rintro F r F' - h
    cases h
    exact ⟨trivial, rfl⟩
  destroy := by
    rintro F r F' - h
    cases h
    exact ⟨trivial, rfl⟩

/-- A network on which every connection succeeds. -/
def ConnectHost.ready (lib : Libsmb2 W) (w : W) : ConnectHost W where
  lib := lib
  spawn := .ok ()
  network := .ok ()
  context := true
  connectShare := (0, w)

end Krystallos.Smb
