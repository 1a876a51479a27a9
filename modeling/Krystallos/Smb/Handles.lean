import Krystallos.Lib.Resource
import Krystallos.Smb.Commands
import Krystallos.Smb.Table

namespace Krystallos.Smb

open Checked Prog Resource

/-!
# What the session thread does with its handles

The trace of calls, read as acquisitions, uses and releases of `smb2fh` pointers.  `Tidy`
holds between commands: the handles held are those in the table, each under one id.  Every
command keeps it, however it ends, and the teardown leaves nothing held.
-/

/-- What a call does with handles. -/
def Event.use : Event → Use Fh
  | ⟨.openFile _ _, none⟩ => .idle
  | ⟨.openFile _ _, some fh⟩ => .acquire fh
  | ⟨.close fh, _⟩ => .release fh
  | ⟨.fstat fh, _⟩ => .use fh
  | ⟨.pread fh _ _, _⟩ => .use fh
  | ⟨.pwrite fh _ _, _⟩ => .use fh
  | ⟨.ftruncate fh _, _⟩ => .use fh
  | ⟨.fsync fh, _⟩ => .use fh
  | ⟨.requestResumeKey fh, _⟩ => .use fh
  | ⟨.copychunk _ fh _, _⟩ => .use fh
  | ⟨.destroyContext, _⟩ => .shutdown
  | _ => .idle

/-- Whether a call opens or closes a handle. -/
def Call.opensOrCloses : Call → Bool
  | .openFile _ _ | .close _ => true
  | _ => false

variable {W ε α : Type}

/-- What is assumed of the library: a handle it gives out is not one that is open, and what
    is open changes by opens and closes only. -/
structure Tracks (lib : Libsmb2 W) (opened : W → Finset Fh) : Prop where
  open_failed : ∀ path flags w, (lib.call (.openFile path flags) w).1 = none →
    opened (lib.call (.openFile path flags) w).2 = opened w
  open_new : ∀ path flags w fh, (lib.call (.openFile path flags) w).1 = some fh →
    fh ∉ opened w ∧ opened (lib.call (.openFile path flags) w).2 = insert fh (opened w)
  close : ∀ fh w, opened (lib.call (.close fh) w).2 = (opened w).erase fh
  other : ∀ c w, c.opensOrCloses = false → opened (lib.call c w).2 = opened w

/-- The calls so far are in order, and `live` is what is held and open. -/
structure Holding (opened : W → Finset Fh) (live : Finset Fh) (c : Ctx W) : Prop where
  replay : replay (c.trace.map Event.use) = some ⟨live, true⟩
  world : opened c.world = live

variable {lib : Libsmb2 W} {opened : W → Finset Fh} {live : Finset Fh} {c : Ctx W} {fh : Fh}

/-- A call that is in order. -/
theorem Holding.after {live' : Finset Fh} (h : Holding opened live c) (call : Call)
    (hstep : Held.step ⟨live, true⟩ (Event.use ⟨call, (lib.call call c.world).1⟩)
      = some ⟨live', true⟩)
    (hworld : opened (lib.call call c.world).2 = live') :
    Holding opened live' (c.after lib call) where
  replay := by
    rw [Ctx.after, List.map_append]
    exact replay_concat h.replay hstep
  world := hworld

/-- An open that failed. -/
theorem Tracks.open_none (ht : Tracks lib opened) (h : Holding opened live c) {path : String}
    {flags : OpenFlags} (hnone : (lib.call (.openFile path flags) c.world).1 = none) :
    Holding opened live (c.after lib (.openFile path flags)) :=
  h.after _ (by rw [hnone]; rfl) (by rw [ht.open_failed _ _ _ hnone, h.world])

/-- An open. -/
theorem Tracks.open_some (ht : Tracks lib opened) (h : Holding opened live c) {path : String}
    {flags : OpenFlags} (hsome : (lib.call (.openFile path flags) c.world).1 = some fh) :
    fh ∉ live ∧ Holding opened (insert fh live) (c.after lib (.openFile path flags)) := by
  obtain ⟨hnew, hworld⟩ := ht.open_new _ _ _ _ hsome
  rw [h.world] at hnew hworld
  exact ⟨hnew, h.after _ (by rw [hsome]; exact step_acquire hnew) hworld⟩

/-- A close. -/
theorem Tracks.closed (ht : Tracks lib opened) (h : Holding opened live c) (hheld : fh ∈ live) :
    Holding opened (live.erase fh) (c.after lib (.close fh)) :=
  h.after _ (step_release hheld) (by rw [ht.close, h.world])

/-- The calls that are in order at any time, given the handles held. -/
def Call.Handled (live : Finset Fh) : Call → Prop
  | .openFile _ _ | .close _ | .destroyContext => False
  | .fstat fh | .pread fh _ _ | .pwrite fh _ _ | .ftruncate fh _ | .fsync fh => fh ∈ live
  | .requestResumeKey fh | .copychunk _ fh _ => fh ∈ live
  | _ => True

/-- Any other call. -/
theorem Tracks.handled (ht : Tracks lib opened) (call : Call) (c : Ctx W)
    (hcall : call.Handled live) (h : Holding opened live c) :
    Holding opened live (c.after lib call) := by
  have hworld : call.opensOrCloses = false → opened (lib.call call c.world).2 = live :=
    fun hother => by rw [ht.other _ _ hother, h.world]
  cases call with
  | openFile | close | destroyContext => exact hcall.elim
  | fstat | pread | pwrite | ftruncate | fsync | requestResumeKey | copychunk =>
    exact h.after _ (step_use hcall) (hworld rfl)
  | _ => exact h.after _ step_idle (hworld rfl)

/-- However it ends, the program leaves `live` held. -/
def holds (opened : W → Finset Fh) (live : Finset Fh) : Post ε (Ctx W) α where
  ret := fun _ c => Holding opened live c
  fail := fun _ c => Holding opened live c
  stop := fun _ => True

/-- A program that neither opens nor closes. -/
theorem Makes.wp_holds {m : Prog ε (Ctx W) α} (hm : Makes lib (Call.Handled live) m)
    (ht : Tracks lib opened) (h : Holding opened live c) : wp m (holds opened live) c :=
  hm.wp_invariant (fun call c hcall => ht.handled call c hcall) h

/-- A guard releases its handle. -/
theorem wp_withGuard_holds {body : Prog ε (Ctx W) α} (ht : Tracks lib opened)
    (hnew : fh ∉ live) (hbody : wp body (holds opened (insert fh live)) c) :
    wp (withGuard lib fh body) (holds opened live) c := by
  have hclose : ∀ c', Holding opened (insert fh live) c' →
      Holding opened live (c'.after lib (.close fh)) := by
    intro c' h'
    have h'' := ht.closed h' (Finset.mem_insert_self fh live)
    rwa [Finset.erase_insert hnew] at h''
  rw [wp_withGuard]
  exact wp_mono hbody (fun _ c' h' => hclose c' h') (fun _ c' h' => hclose c' h') (fun _ h => h)

/-! ### The copy -/

/-- Bytes are moved between handles that are open. -/
theorem MovesBytes.handled {src dst : Fh} {call : Call} (h : MovesBytes src dst call)
    (hsrc : src ∈ live) (hdst : dst ∈ live) : call.Handled live := by
  cases h with
  | requestResumeKey => exact hsrc
  | copychunk => exact hdst
  | pread => exact hsrc
  | pwrite => exact hdst

/-- The copy releases the destination on every way out. -/
theorem wp_copyInto_holds (ht : Tracks lib opened) {src dst : Fh} (hsrc : src ∈ live)
    (hnew : dst ∉ live) (h : Holding opened (insert dst live) c) (path : String)
    (size fuel : Nat) : wp (copyInto lib src dst path size fuel) (holds opened live) c := by
  refine wp_ite (fun _ => wp_withGuard_holds ht hnew h) (fun _ => ?_)
  have hmoves : Makes lib (Call.Handled (insert dst live)) (copyBytes lib src dst size fuel) :=
    (makes_copyBytes size fuel).mono fun call hcall =>
      hcall.handled (Finset.mem_insert_of_mem hsrc) (Finset.mem_insert_self dst live)
  have hclose : ∀ c', Holding opened (insert dst live) c' →
      Holding opened live (c'.after lib (.close dst)) := by
    intro c' h'
    have h'' := ht.closed h' (Finset.mem_insert_self dst live)
    rwa [Finset.erase_insert hnew] at h''
  simp only [wp_bind, wp_capture, wp_guarding]
  refine wp_mono (hmoves.wp_holds ht h) (fun _ c' h' => hclose c' h') ?_ (fun _ h => h)
  intro e c' h'
  exact ht.handled (.unlink path) _ trivial (hclose c' h')

/-- **The copy** releases both its handles on every way out. -/
theorem wp_copyFile_holds (ht : Tracks lib opened) (h : Holding opened live c)
    (fromPath toPath : VfsPath) (fuel : Nat) :
    wp (copyFile lib fromPath toPath fuel) (holds opened live) c := by
  refine (wp_bind _ _).mpr (wp_cstring (fun _ => ?_) (fun _ _ => h))
  refine (wp_bind _ _).mpr (wp_cstring (fun _ => ?_) (fun _ _ => h))
  simp only [wp_bind, wp_ffi]
  cases hsrc : (lib.call (.openFile (toSmbPath fromPath) sourceFlags) c.world).1 with
  | none => exact wp_failWith (fun _ => ht.open_none h hsrc) (fun _ => trivial)
  | some src =>
    obtain ⟨hnew, h₁⟩ := ht.open_some h hsrc
    apply wp_withGuard_holds ht hnew
    have hheld := Finset.mem_insert_self src live
    have h₂ := ht.handled (.fstat src) _ hheld h₁
    rw [copyFrom, wp_bind, wp_ffi]
    generalize (c.after lib (.openFile (toSmbPath fromPath) sourceFlags)).after lib (.fstat src)
      = c₂ at h₂
    simp only [wp_bind, wp_ffi]
    cases hdst : (lib.call (.openFile (toSmbPath toPath) destinationFlags) c₂.world).1 with
    | none => exact wp_failWith (fun _ => ht.open_none h₂ hdst) (fun _ => trivial)
    | some dst =>
      obtain ⟨hnew', h₃⟩ := ht.open_some h₂ hdst
      exact wp_copyInto_holds ht hheld hnew' h₃ _ _ fuel

/-! ### The commands -/

/-- Between commands: the calls so far are in order, what is held is what is in the table, and
    no handle is in it twice. -/
structure Tidy (opened : W → Finset Fh) (a : Actor W) : Prop where
  holding : Holding opened a.files.live a.ctx
  distinct : (a.files.handles.map Prod.snd).Nodup

variable {a : Actor W} {id : Nat}

/-- However it ends, the program leaves the thread tidy and the table as it was. -/
def keeps (opened : W → Finset Fh) (a : Actor W) : Post ε (Actor W) α where
  ret := fun _ a' => Tidy opened a' ∧ a'.files = a.files
  fail := fun _ a' => Tidy opened a' ∧ a'.files = a.files
  stop := fun _ => True

/-- What runs on the context keeps the handles of the table. -/
theorem wp_onCtx_keeps {m : Prog ε (Ctx W) α} (hdistinct : (a.files.handles.map Prod.snd).Nodup)
    (hm : wp m (holds opened a.files.live) a.ctx) : wp (onCtx m) (keeps opened a) a := by
  rw [onCtx, wp_zoom]
  exact wp_mono hm (fun _ _ h => ⟨⟨h, hdistinct⟩, rfl⟩) (fun _ _ h => ⟨⟨h, hdistinct⟩, rfl⟩)
    (fun _ h => h)

/-- A command that neither opens nor closes. -/
theorem Makes.wp_keeps {m : Prog ε (Ctx W) α} (hm : Makes lib (Call.Handled a.files.live) m)
    (ht : Tracks lib opened) (h : Tidy opened a) : wp (onCtx m) (keeps opened a) a :=
  wp_onCtx_keeps h.distinct (hm.wp_holds ht h.holding)

/-- A command on a file: the handle its id stands for is in the table. -/
theorem wp_handleOf_keeps (h : Tidy opened a) (op : String) {f : Fh → Prog Error (Actor W) α}
    (hf : ∀ fh, fh ∈ a.files.live → wp (f fh) (keeps opened a) a) :
    wp (handleOf id op >>= f) (keeps opened a) a := by
  simp only [handleOf, wp_bind, wp_current]
  cases hget : a.files.get id with
  | none => exact ⟨h, rfl⟩
  | some fh => exact hf fh (OpenFiles.mem_live_of_get hget)

/-- A call on a handle, and what is made of its answer. -/
theorem wp_callThen_keeps (ht : Tracks lib opened) (h : Tidy opened a) (call : Call)
    (hcall : call.Handled a.files.live) {f : call.Reply → Prog ε (Actor W) α}
    (hf : ∀ r a', Tidy opened a' → a'.files = a.files → wp (f r) (keeps opened a') a') :
    wp (onCtx (ffi lib call) >>= f) (keeps opened a) a := by
  rw [wp_bind]
  refine wp_mono (Makes.wp_keeps (makes_ffi hcall) ht h) ?_ (fun _ _ h => h) (fun _ h => h)
  rintro r a' ⟨h', hfiles⟩
  refine wp_mono (hf r a' h' hfiles) ?_ ?_ (fun _ h => h)
  · rintro _ _ ⟨h'', hfiles'⟩
    exact ⟨h'', hfiles'.trans hfiles⟩
  · rintro _ _ ⟨h'', hfiles'⟩
    exact ⟨h'', hfiles'.trans hfiles⟩

/-- So does a failure. -/
theorem wp_failWith_keeps (h : Tidy opened a) (rc : Int) (path : String) :
    wp (onCtx (failWith lib rc path) : Prog Error (Actor W) α) (keeps opened a) a :=
  wp_onCtx_keeps h.distinct (wp_failWith (fun _ => h.holding) (fun _ => trivial))

/-- A read uses a handle that is open. -/
theorem wp_readAt_keeps (ht : Tracks lib opened) (h : Tidy opened a) (id offset len : Nat) :
    wp (readAt lib id offset len) (keeps opened a) a := by
  refine wp_handleOf_keeps h _ fun fh hfh =>
    wp_callThen_keeps ht h (.pread fh len offset) hfh fun (rc, bytes) a' h' _ => ?_
  exact wp_ite (fun _ => wp_failWith_keeps h' _ _) (fun _ => ⟨h', rfl⟩)

/-- So does a write. -/
theorem wp_writeAt_keeps (ht : Tracks lib opened) (h : Tidy opened a) (id offset : Nat)
    (data : List UInt8) : wp (writeAt lib id offset data) (keeps opened a) a := by
  refine wp_handleOf_keeps h _ fun fh hfh =>
    wp_callThen_keeps ht h (.pwrite fh _ offset) hfh fun rc a' h' _ => ?_
  exact wp_ite (fun _ => wp_failWith_keeps h' _ _) (fun _ => ⟨h', rfl⟩)

/-- So does a truncation. -/
theorem wp_setLen_keeps (ht : Tracks lib opened) (h : Tidy opened a) (id len : Nat) :
    wp (setLen lib id len) (keeps opened a) a := by
  refine wp_handleOf_keeps h _ fun fh hfh =>
    wp_callThen_keeps ht h (.ftruncate fh len) hfh fun rc a' h' _ => ?_
  exact wp_ite (fun _ => wp_failWith_keeps h' _ _) (fun _ => ⟨h', rfl⟩)

/-- So does a flush. -/
theorem wp_flush_keeps (ht : Tracks lib opened) (h : Tidy opened a) (id : Nat) :
    wp (flush lib id) (keeps opened a) a := by
  refine wp_handleOf_keeps h _ fun fh hfh =>
    wp_callThen_keeps ht h (.fsync fh) hfh fun rc a' h' _ => ?_
  exact wp_ite (fun _ => wp_failWith_keeps h' _ _) (fun _ => ⟨h', rfl⟩)

/-- However it ends, the program leaves the thread tidy. -/
def tidies (opened : W → Finset Fh) : Post ε (Actor W) α where
  ret := fun _ a' => Tidy opened a'
  fail := fun _ a' => Tidy opened a'
  stop := fun _ => True

/-- What keeps the handles leaves the thread tidy. -/
theorem wp_tidies_of_keeps {m : Prog ε (Actor W) α} (hm : wp m (keeps opened a) a) :
    wp m (tidies opened) a :=
  wp_mono hm (fun _ _ h => h.1) (fun _ _ h => h.1) (fun _ h => h)

/-- An open puts its handle into the table. -/
theorem wp_openFile_tidies (ht : Tracks lib opened) (h : Tidy opened a) (path : VfsPath)
    (mode : OpenMode) : wp (openFile lib path mode) (tidies opened) a := by
  refine wp_openFile (fun _ => h) (fun hnone _ => ⟨ht.open_none h.holding hnone, h.distinct⟩)
    (fun _ fh hsome => ?_) (fun _ => trivial)
  obtain ⟨hnew, h₁⟩ := ht.open_some h.holding hsome
  have h₂ := ht.handled (.fstat fh) _ (Finset.mem_insert_self fh a.files.live) h₁
  refine ⟨?_, ?_⟩
  · show Holding opened (a.files.add fh).live _
    rw [OpenFiles.live_add]
    exact h₂
  · show ((a.files.handles ++ [_]).map Prod.snd).Nodup
    rw [List.map_append, List.nodup_append]
    refine ⟨h.distinct, by simp, ?_⟩
    rintro x hx _ hy rfl
    have heq : x = fh := by simpa using hy
    exact hnew (List.mem_toFinset.mpr (heq ▸ hx))

/-- A close takes its handle out of the table, and closes it if there was one. -/
theorem wp_closeFile_tidies (ht : Tracks lib opened) (h : Tidy opened a) (id : Nat) :
    wp (closeFile lib id) (tidies opened) a := by
  simp only [closeFile, wp_bind, wp_current, OpenFiles.take, wp_update]
  have hdistinct : ((a.files.remove id).handles.map Prod.snd).Nodup :=
    h.distinct.sublist (List.filter_sublist.map _)
  cases hget : a.files.get id with
  | none =>
    refine ⟨?_, hdistinct⟩
    show Holding opened (a.files.remove id).live a.ctx
    rw [OpenFiles.remove_of_get_none hget]
    exact h.holding
  | some fh =>
    have h' : Holding opened (a.files.remove id).live (a.ctx.after lib (.close fh)) := by
      rw [OpenFiles.live_remove h.distinct hget]
      exact ht.closed h.holding (OpenFiles.mem_live_of_get hget)
    simp only [wp_bind, onCtx]
    refine wp_ite (fun _ => ?_) (fun _ => ⟨h', hdistinct⟩)
    rw [wp_zoom]
    exact wp_failWith (fun _ => ⟨h', hdistinct⟩) (fun _ => trivial)

-- `wp` is not to be unfolded while a rule is matched: it would run the command
attribute [local irreducible] wp in
/-- **Every command** leaves the thread tidy, however it ends. -/
theorem wp_execute (ht : Tracks lib opened) (h : Tidy opened a) (fuel : Nat) (req : Request) :
    wp (execute lib fuel req) (tidies opened) a := by
  -- a command that keeps the table as it is
  have hkeeps : ∀ {β : Type} {m : Prog Error (Actor W) β} {g : β → Answer},
      wp m (keeps opened a) a → wp (m >>= fun b => pure (g b)) (tidies opened) a :=
    fun hm => wp_tidies_of_keeps (wp_bind_pure.mpr hm)
  cases req with
  | list path =>
    have hlist : Makes lib (Call.Handled a.files.live) (listDir lib path fuel) :=
      makes_listDir fuel (fun _ => trivial) (fun _ => ⟨trivial, trivial⟩)
    exact hkeeps (hlist.wp_keeps ht h)
  | stat path => exact hkeeps ((makes_statPath fun _ => trivial).wp_keeps ht h)
  | mkdir path =>
    exact hkeeps ((makes_pathCall fun _ => makes_ffi (c := .mkdir _) trivial).wp_keeps ht h)
  | removeFile path =>
    exact hkeeps ((makes_pathCall fun _ => makes_ffi (c := .unlink _) trivial).wp_keeps ht h)
  | removeDir path =>
    exact hkeeps ((makes_pathCall fun _ => makes_ffi (c := .rmdir _) trivial).wp_keeps ht h)
  | rename fromPath toPath => exact hkeeps ((makes_rename fun _ _ => trivial).wp_keeps ht h)
  | copy fromPath toPath =>
    exact hkeeps (wp_onCtx_keeps h.distinct (wp_copyFile_holds ht h.holding _ _ fuel))
  | openFile path mode => exact wp_bind_pure.mpr (wp_openFile_tidies ht h path mode)
  | close id => exact wp_bind_pure.mpr (wp_closeFile_tidies ht h id)
  | readAt id offset len => exact hkeeps (wp_readAt_keeps ht h id offset len)
  | writeAt id offset data => exact hkeeps (wp_writeAt_keeps ht h id offset data)
  | setLen id len => exact hkeeps (wp_setLen_keeps ht h id len)
  | flush id => exact hkeeps (wp_flush_keeps ht h id)

/-! ### The teardown -/

/-- Closing everything that is in the table. -/
theorem wp_closeHandles (ht : Tracks lib opened) (handles : List (Nat × Fh))
    (hdistinct : (handles.map Prod.snd).Nodup)
    (h : Holding opened (handles.map Prod.snd).toFinset c) :
    wp (closeHandles lib handles : Prog ε (Ctx W) Unit)
      ⟨fun _ c' => Holding opened ∅ c', fun _ _ => False, fun _ => False⟩ c := by
  induction handles generalizing c with
  | nil => exact h
  | cons entry rest ih =>
    obtain ⟨id, fh⟩ := entry
    obtain ⟨hnew, hrest⟩ := List.nodup_cons.mp hdistinct
    rw [closeHandles, wp_bind, wp_ffi]
    apply ih hrest
    rw [List.map_cons, List.toFinset_cons] at h
    have hclosed := ht.closed h (Finset.mem_insert_self _ _)
    rwa [Finset.erase_insert (by simpa using hnew)] at hclosed

/-- **The teardown** closes what is in the table, then destroys the context: every handle was
    released, and nothing comes after. -/
theorem wp_teardown (ht : Tracks lib opened) (h : Tidy opened a) :
    wp (teardown lib : Prog ε (Actor W) Unit)
      ⟨fun _ a' => replay (a'.ctx.trace.map Event.use) = some .ended,
        fun _ _ => False, fun _ => False⟩ a := by
  simp only [teardown, wp_bind, wp_current, wp_update, onCtx, wp_zoom]
  refine wp_mono (wp_closeHandles ht a.files.handles h.distinct h.holding) ?_
    (fun _ _ => False.elim) (fun _ => False.elim)
  intro _ c hc
  have hd := ht.handled .disconnectShare c trivial hc
  show replay ((Ctx.after lib _ .destroyContext).trace.map Event.use) = _
  rw [Ctx.after, List.map_append]
  exact replay_concat hd.replay step_shutdown

end Krystallos.Smb
