import Krystallos.Ffi.Session
import Krystallos.Local.Files
import Krystallos.Smb.Backend

namespace Krystallos.Ffi

open Checked Prog

/-!
# After a disconnect

On both backends of a build every later call on the session fails with `ConnectionLost`: the
session itself refuses it.  A file does not know of its session.  Over SMB its calls fail
because the session thread is over; over a local directory they go on as before, unless the
file was released: `disconnected_dead_iff`.
-/

variable {σ W : Type}

/-! ### Handles that are dead, and files over them -/

/-- It fails because the connection is lost, with `I` of the state it ends in. -/
def lostPost {α : Type} (I : σ → Prop) : Post Error σ α :=
  ⟨fun _ _ => False, fun e w => (∃ message, e = .connectionLost message) ∧ I w, fun _ => False⟩

/-- Whatever is asked of the handle, the connection is lost. -/
structure Dead (h : FileHandle σ) (I : σ → Prop) (w : σ) : Prop where
  readAt : ∀ offset len, 0 < len → wp (h.readAt offset len) (lostPost I) w
  writeAt : ∀ offset data, data ≠ [] → wp (h.writeAt offset data) (lostPost I) w
  setLen : ∀ len, wp (h.setLen len) (lostPost I) w
  flush : wp h.flush (lostPost I) w

/-- A method of a file that asks something of its handle. -/
def FileCall.Asks : FileCall → Prop
  | .readAt _ len | .readExactAt _ len => 0 < len.toNat
  | .writeAt _ data => data ≠ []
  | .setLen _ | .flush => True
  | .release => False

/-- It fails with `ConnectionLost`, with `I` of the world it leaves. -/
def Refused {τ α : Type} (I : τ → Prop) (m : Prog KernelError τ α) (s : τ) : Prop :=
  ∃ detail s', m s = .ok (.error (.connectionLost detail), s') ∧ I s'

theorem refused_iff {τ α : Type} {I : τ → Prop} {m : Prog KernelError τ α} {s : τ} :
    Refused I m s ↔ wp m ⟨fun _ _ => False,
      fun e s' => (∃ detail, e = .connectionLost detail) ∧ I s', fun _ => False⟩ s := by
  unfold Refused wp
  rcases m s with t | ⟨e | a, s'⟩
  · simp
  · simp only [Except.ok.injEq, Prod.mk.injEq, Except.error.injEq]
    constructor
    · rintro ⟨detail, s'', ⟨rfl, rfl⟩, hI⟩
      exact ⟨⟨detail, rfl⟩, hI⟩
    · rintro ⟨⟨detail, rfl⟩, hI⟩
      exact ⟨detail, s', ⟨rfl, rfl⟩, hI⟩
  · simp

/-- A file that was released refuses everything. -/
theorem refused_of_closed {h : FileHandle σ} {r : RemoteFile σ} {call : FileCall}
    (hcall : call.Asks) (hclosed : r.closed = true) {I : σ → Prop} (hI : I r.world) :
    Refused (fun r' => I r'.world) (RemoteFile.perform h call) r := by
  have hfail : ∀ {α : Type} {k : FileHandle σ → Prog KernelError (RemoteFile σ) α}
      {p : Post KernelError (RemoteFile σ) α}, p.fail (alreadyClosed "file") r →
      wp (RemoteFile.handle h >>= k) p r := by
    intro α k p hp
    simp only [RemoteFile.handle, wp_bind, wp_current, hclosed, if_true, wp_fail]
    exact hp
  rw [refused_iff]
  cases call with
  | release => exact hcall.elim
  | _ => exact (wp_bind _ _).mpr (hfail ⟨⟨_, rfl⟩, hI⟩)

/-- A file that was not, on a handle that is dead. -/
theorem refused_of_dead {h : FileHandle σ} {r : RemoteFile σ} {call : FileCall}
    (hcall : call.Asks) (hopen : r.closed = false) {I : σ → Prop} (hdead : Dead h I r.world) :
    Refused (fun r' => I r'.world) (RemoteFile.perform h call) r := by
  have hlost : ∀ {α β : Type} {m : Prog Error σ α} {k : α → Prog KernelError (RemoteFile σ) β}
      {ret : β → RemoteFile σ → Prop}, wp m (lostPost I) r.world →
      wp (RemoteFile.onHandle m >>= k) ⟨ret, fun e r' => (∃ detail, e = .connectionLost detail) ∧
        I r'.world, fun _ => False⟩ r := by
    intro α β m k ret hm
    rw [wp_bind, wp_onHandle]
    refine wp_mono hm (fun _ _ => False.elim) ?_ (fun _ => False.elim)
    rintro e w ⟨⟨message, rfl⟩, hI⟩
    exact ⟨⟨message, rfl⟩, hI⟩
  rw [refused_iff]
  cases call with
  | release => exact hcall.elim
  | readAt offset len =>
    have hpos : addU 64 offset.toNat ([] : List UInt8).length = .ok offset.toNat :=
      addU_ok (by simpa using offset.toNat_lt)
    simp only [RemoteFile.perform, RemoteFile.readAt, wp_bind, wp_handle hopen]
    -- the first turn asks the handle, and no other is made
    rw [iterate, wp_bind, RemoteFile.fillTurn, if_pos (by exact hcall), wp_bind, wp_checked_ok hpos]
    exact hlost (hdead.readAt _ _ hcall)
  | readExactAt offset len =>
    have hpos : addU 64 offset.toNat ([] : List UInt8).length = .ok offset.toNat :=
      addU_ok (by simpa using offset.toNat_lt)
    have hne : ¬ len.toNat = 0 := Nat.pos_iff_ne_zero.mp hcall
    simp only [RemoteFile.perform, RemoteFile.readExactAt, wp_bind, wp_handle hopen, if_neg hne,
      wp_onHandle]
    rw [FileHandle.readExactAt, iterate, wp_bind, FileHandle.exactTurn, if_pos (by exact hcall),
      wp_bind, wp_checked_ok hpos]
    refine (wp_bind _ _).mpr (wp_mono (hdead.readAt _ _ hcall) (fun _ _ => False.elim) ?_
      (fun _ => False.elim))
    rintro e w ⟨⟨message, rfl⟩, hI⟩
    exact ⟨⟨message, rfl⟩, hI⟩
  | writeAt offset data =>
    simp only [RemoteFile.perform, RemoteFile.writeAt, wp_bind, wp_handle hopen]
    exact (wp_bind _ _).mp (hlost (hdead.writeAt _ _ hcall))
  | setLen len =>
    simp only [RemoteFile.perform, RemoteFile.setLen, wp_bind, wp_handle hopen]
    exact (wp_bind _ _).mp (hlost (hdead.setLen _))
  | flush =>
    simp only [RemoteFile.perform, RemoteFile.flush, wp_bind, wp_handle hopen]
    exact (wp_bind _ _).mp (hlost hdead.flush)

/-- The methods of the session that reach the backend. -/
def Call.OnSession : Call → Prop
  | .disconnect | .file _ _ => False
  | _ => True

namespace Session

variable {b : TreeBackend σ} {s : Session σ}

/-- A session that was closed refuses everything. -/
theorem refused_of_closed {call : Call} (hcall : call.OnSession) (hclosed : s.closed = true)
    {I : Session σ → Prop} (hI : I s) : Refused I (perform b call) s := by
  have hfail : ∀ {α : Type} {k : Unit → Prog KernelError (Session σ) α}
      {p : Post KernelError (Session σ) α}, p.fail (alreadyClosed "session") s →
      wp (ensureOpen >>= k) p s := by
    intro α k p hp
    simp only [ensureOpen, wp_bind, wp_current, hclosed, if_true, wp_fail]
    exact hp
  rw [refused_iff]
  cases call with
  | disconnect | file => exact hcall.elim
  | list | stat | openFile =>
    exact (wp_bind _ _).mpr ((wp_bind _ _).mpr (hfail ⟨⟨_, rfl⟩, hI⟩))
  | _ => exact (wp_bind _ _).mpr (hfail ⟨⟨_, rfl⟩, hI⟩)

/-- Whether a method of a file is refused is between the file and its handle. -/
theorem refused_file {f : Nat} {file : Opened σ} (hf : s.files[f]? = some file)
    {call : FileCall} (I : σ → Prop) :
    Refused (fun s' => I s'.world) (perform b (.file f call)) s ↔
      Refused (fun r => I r.world) (RemoteFile.perform file.handle call)
        ⟨s.world, file.len, file.closed⟩ := by
  rw [refused_iff, refused_iff]
  show wp (onFile f fun h => RemoteFile.perform h call) _ s ↔ _
  rw [wp_onFile hf]
  rfl

/-- A disconnect that ended has closed the session. -/
theorem closed_of_disconnect {r : Except KernelError Answer} {s' : Session σ}
    (hrun : perform b .disconnect s = .ok (r, s')) : s'.closed = true := by
  have hwp : wp (perform b .disconnect) (keeping fun s' : Session σ => s'.closed = true) s := by
    refine wp_bind_keeping (I := fun s' : Session σ => s'.closed = true) ?_ fun _ _ h => h
    simp only [disconnect, wp_bind, wp_current, wp_update]
    refine wp_ite (fun _ => rfl) fun _ => wp_onBackend.mpr ?_
    exact wp_of_forall (fun _ _ => rfl) (fun _ _ => rfl) fun _ => trivial
  exact keeping_of_run (I := fun s' : Session σ => s'.closed = true) hwp hrun

/-- **Run lemma.** A session that was disconnected stays closed, and mirrors its backend. -/
theorem held_of_runs {J : Bool → List Bool → σ → Prop} {hdl : Nat → FileHandle σ → Prop}
    (ht : Tracks b J hdl) {w : σ} (hw : J false [] w) {before after : List Call}
    {s₁ s₂ : Session σ} {r : Except KernelError Answer}
    (hbefore : Lts.run (step b) (connected w) before = some s₁)
    (hdisc : perform b .disconnect s₁ = .ok (r, s₂)) (hafter : Lts.run (step b) s₂ after = some s) :
    Held J hdl true s := by
  have hstart : Held J hdl false (connected w) := ⟨nofun, [], hw, rfl, nofun, nofun⟩
  obtain ⟨-, flags, hm⟩ : Held J hdl false s₁ :=
    Lts.run_invariant (fun _ _ _ h => step_held ht h) hstart hbefore
  have hheld : Held J hdl true s₂ :=
    ⟨fun _ => closed_of_disconnect hdisc, (keeping_of_run (perform_keeps ht hm _) hdisc).2⟩
  exact Lts.run_invariant (fun _ _ _ h => step_held ht h) hheld hafter

end Session

/-! ### Over SMB -/

section Smb

open Smb Smb.Sys

variable {lib : Libsmb2 W} {limits : Limits} {fuel : Nat} {w : W} {c : Bool} {flags : List Bool}
  {u : Smb.Sys W}

/-- The session has run from its start, is over if it was shut down, and has its files as
    `flags` says. -/
def OnSmb (lib : Libsmb2 W) (limits : Limits) (w : W) (c : Bool) (flags : List Bool)
    (u : Smb.Sys W) : Prop :=
  ((∃ acts, Lts.run (step lib limits) (init w) acts = some u) ∧ (c = true → u.phase = .exited)) ∧
    Plain flags u.files u.tasks

theorem stable (u : Smb.Sys W) (a : Smb.Action) (u' : Smb.Sys W)
    (h : (∃ acts, Lts.run (step lib limits) (init w) acts = some u) ∧
      (c = true → u.phase = .exited)) (hstep : step lib limits u a = some u') :
    (∃ acts, Lts.run (step lib limits) (init w) acts = some u') ∧
      (c = true → u'.phase = .exited) := by
  obtain ⟨⟨acts, hacts⟩, hexited⟩ := h
  refine ⟨⟨acts ++ [a], ?_⟩, fun hc => exited_step (hexited hc) hstep⟩
  exact Lts.run_append_iff.mpr ⟨u, hacts, Lts.run_cons_iff.mpr ⟨u', hstep, rfl⟩⟩

/-- A call that opens no file keeps what holds. -/
theorem wp_ending_of_done {m : Prog Error (Smb.Sys W) Smb.Answer} {i : Nat} {kind : CallKind}
    (hg : ∀ answer, gained kind (.done (.ok answer)) = [])
    (hm : wp m (donePost (fun u => (∃ acts, Lts.run (step lib limits) (init w) acts = some u) ∧
      (c = true → u.phase = .exited)) flags i kind) u) :
    wp m (ending (OnSmb lib limits w c flags) fun _ => True) u := by
  refine wp_mono hm ?_ (fun e u' h => ⟨⟨h.1, h.2.2⟩, trivial⟩) (fun _ h => h)
  rintro answer u' ⟨hP, -, hp⟩
  rw [hg, List.append_nil] at hp
  exact ⟨hP, hp⟩

theorem wp_expect {α : Type} {f : Smb.Answer → Option α} {m : Prog Error (Smb.Sys W) Smb.Answer}
    {I : Smb.Sys W → Prop} {E : Error → Prop} (hm : wp m (ending I E) u) :
    wp (expect f m) (ending I E) u := by
  refine wp_bind_ending hm fun answer u' hu' => ?_
  split
  · exact hu'
  · trivial

/-- **The session keeps the files of its caller.** -/
theorem tracks_smb : Tracks (Smb.backend lib limits fuel) (OnSmb lib limits w)
    fun f h => h = Smb.fileHandle lib limits fuel f := by
  have hreq : ∀ (c : Bool) (flags : List Bool) (u : Smb.Sys W) (req : Request),
      OnSmb lib limits w c flags u → (∀ answer, gained (.session req) (.done (.ok answer)) = []) →
      wp (request lib limits fuel req) (ending (OnSmb lib limits w c flags) fun _ => True) u :=
    fun c flags u req h hg => wp_ending_of_done hg (wp_request stable h.1 h.2 req)
  have hunit : ∀ {m : Prog Error (Smb.Sys W) Smb.Answer} {I : Smb.Sys W → Prop} {u : Smb.Sys W},
      wp m (ending I fun _ => True) u →
      wp (do let _ ← m : Prog Error (Smb.Sys W) Unit) (ending I fun _ => True) u :=
    fun hm => wp_bind_ending hm fun _ _ h => h
  exact {
    list := fun c flags p u h => wp_keeping_of_ending (wp_expect (hreq c flags u _ h fun _ => rfl))
    stat := fun c flags p u h => wp_keeping_of_ending (wp_expect (hreq c flags u _ h fun _ => rfl))
    mkdir := fun c flags p u h => wp_keeping_of_ending (hunit (hreq c flags u _ h fun _ => rfl))
    removeFile := fun c flags p u h =>
      wp_keeping_of_ending (hunit (hreq c flags u _ h fun _ => rfl))
    removeDir := fun c flags p u h =>
      wp_keeping_of_ending (hunit (hreq c flags u _ h fun _ => rfl))
    rename := fun c flags p q u h =>
      wp_keeping_of_ending (hunit (hreq c flags u _ h fun _ => rfl))
    copy := fun c flags p q u h =>
      wp_keeping_of_ending (wp_expect (hreq c flags u _ h fun _ => rfl))
    openFile := by
      intro c flags p mode u h
      show wp (openRemote lib limits fuel p mode) _ u
      simp only [openRemote, expect, wp_bind, wp_current]
      refine wp_mono (wp_request stable h.1 h.2 _) ?_ (fun e u' h => ⟨h.1, h.2.2⟩) (fun _ h => h)
      rintro answer u' ⟨hP, -, hp⟩
      cases answer with
      | opened id len => exact ⟨by rw [h.2.length], hP, hp⟩
      | _ => trivial
    shutdown := by
      intro c flags u h
      refine wp_bind_keeping (I := OnSmb lib limits w true flags) ?_ fun _ _ h => h
      -- whichever way the call ended, its task is done
      refine wp_mono (wp_shutdown stable h.1 h.2) ?_ ?_ (fun _ h => h)
      · rintro answer u' ⟨⟨⟨acts, hacts⟩, -⟩, hi, hp⟩
        exact ⟨⟨⟨acts, hacts⟩, fun _ => exited_of_done hacts hi⟩, by simpa [gained] using hp⟩
      · rintro e u' ⟨⟨⟨acts, hacts⟩, -⟩, hi, hp⟩
        exact ⟨⟨⟨acts, hacts⟩, fun _ => exited_of_done hacts hi⟩, hp⟩
    file := by
      rintro c flags f h rfl
      have hcall : ∀ (call : Smb.FileCall) (u : Smb.Sys W), OnSmb lib limits w c flags u →
          wp (perform lib limits fuel (.fileCall f call))
            (ending (OnSmb lib limits w c flags) fun _ => True) u :=
        fun call u h => wp_ending_of_done (fun _ => rfl) (wp_fileCall stable h.1 h.2 f call)
      exact {
        readAt := fun offset len u h => wp_expect (hcall _ u h)
        writeAt := fun offset data u h => wp_expect (hcall _ u h)
        setLen := fun len u h => hunit (hcall _ u h)
        flush := fun u h => hunit (hcall _ u h) }
    close := by
      rintro c flags f h u rfl hu
      exact wp_keeping_of_ending
        (hunit (wp_ending_of_done (fun _ => rfl) (wp_close stable hu.1 hu.2 f))) }

/-- A file that is open on a session that was shut down. -/
theorem dead_smb {f : Nat} (h : OnSmb lib limits w true flags u) (hf : flags[f]? = some false) :
    Dead (Smb.fileHandle lib limits fuel f) (fun u' => u'.actor = u.actor) u := by
  obtain ⟨o, ho, htraits⟩ := Option.map_eq_some_iff.mp ((h.2.getElem? f).trans (by rw [hf]; rfl))
  obtain ⟨hopen, howned⟩ := Prod.mk.inj htraits
  -- a call that asks for something is refused, since the thread has exited
  have hlost : ∀ (call : Smb.FileCall), call.nothing = none →
      wp (perform lib limits fuel (.fileCall f call)) (lostPost fun u' => u'.actor = u.actor) u := by
    intro call hasks
    obtain ⟨u', hrun, hactor⟩ := run_fileCall_exited (h.1.2 rfl) ho howned hopen hasks
    rw [wp, hrun]
    exact ⟨⟨_, rfl⟩, hactor⟩
  have hthen : ∀ {α : Type} {m : Prog Error (Smb.Sys W) Smb.Answer}
      {k : Smb.Answer → Prog Error (Smb.Sys W) α}, wp m (lostPost fun u' => u'.actor = u.actor) u →
      wp (m >>= k) (lostPost fun u' => u'.actor = u.actor) u :=
    fun hm => (wp_bind _ _).mpr (wp_mono hm (fun _ _ => False.elim) (fun _ _ h => h) (fun _ h => h))
  exact {
    readAt := by
      intro offset len hlen
      obtain ⟨n, rfl⟩ := Nat.exists_eq_succ_of_ne_zero (Nat.pos_iff_ne_zero.mp hlen)
      exact hthen (hlost _ rfl)
    writeAt := by
      intro offset data hdata
      obtain ⟨x, xs, rfl⟩ := List.exists_cons_of_ne_nil hdata
      exact hthen (hlost _ rfl)
    setLen := fun len => hthen (hlost _ rfl)
    flush := hthen (hlost _ rfl) }

end Smb

/-! ### Over a local directory -/

section Local

variable {fs : Local.LocalFs W} {root : String} {fuel : Nat}

/-- A call on an open file fails with what the file system said. -/
theorem wp_local_onFile {α : Type} (op : W → Except IoError α × W) (w : W) :
    wp (Local.onFile op) (ending (fun _ => True) fun e => ∃ io, e = .io io) w := by
  rw [Local.onFile, wp_mapErr, wp_call]
  rcases op w with ⟨e | a, w'⟩
  · exact ⟨trivial, e, rfl⟩
  · trivial

theorem keeps_local (fd : Local.Fd) (len : Nat) :
    Keeps (Local.fileHandle fs fd len) (fun _ => True) fun e => ∃ io, e = .io io where
  readAt := fun _ _ w _ => wp_local_onFile _ w
  writeAt := fun _ _ w _ => wp_local_onFile _ w
  setLen := fun _ w _ => wp_local_onFile _ w
  flush := fun w _ => wp_local_onFile _ w

/-- **A local directory** promises nothing of its world, and its files are descriptors. -/
theorem tracks_local : Tracks (Local.backend fs root fuel) (fun _ _ _ => True)
    fun _ h => ∃ fd len, h = Local.fileHandle fs fd len := by
  have hany : ∀ {α : Type} (m : Prog Error W α) (w : W), wp m (keeping fun _ => True) w :=
    fun _ _ => wp_of_forall (fun _ _ => trivial) (fun _ _ => trivial) (fun _ => trivial)
  have hends : ∀ {α : Type} (m : Prog Error W α) (w : W),
      wp m (ending (fun _ => True) fun _ => True) w :=
    fun _ _ => wp_of_forall (fun _ _ => trivial) (fun _ _ => ⟨trivial, trivial⟩) (fun _ => trivial)
  -- no state of the host says that a session was shut down
  exact {
    list := fun _ _ _ w _ => hany _ w
    stat := fun _ _ _ w _ => hany _ w
    mkdir := fun _ _ _ w _ => hany _ w
    removeFile := fun _ _ _ w _ => hany _ w
    removeDir := fun _ _ _ w _ => hany _ w
    rename := fun _ _ _ _ w _ => hany _ w
    copy := fun _ _ _ _ w _ => hany _ w
    openFile := by
      intro c flags p mode w _
      show wp (Local.openFile fs root p mode) _ w
      rw [Local.openFile, wp_bind]
      refine wp_mono (hany _ w) (fun fd w' _ => ?_) (fun _ _ h => h) (fun _ h => h)
      refine (wp_bind _ _).mpr (wp_mono (hany _ w') (fun md w'' _ => ?_) (fun _ _ h => h)
        (fun _ h => h))
      exact ⟨⟨fd, md.len, rfl⟩, trivial⟩
    shutdown := fun _ _ w _ => hany _ w
    file := by
      rintro c flags f h -
      exact ⟨fun _ _ w _ => hends _ w, fun _ _ w _ => hends _ w, fun _ w _ => hends _ w,
        fun w _ => hends _ w⟩
    close := fun _ _ _ h w _ _ => hany _ w }

/-- A file that is open on a local directory refuses nothing. -/
theorem not_refused_local {fd : Local.Fd} {len : Nat} {call : FileCall} (hcall : call ≠ .release)
    {r : RemoteFile W} (hopen : r.closed = false) {I : RemoteFile W → Prop} :
    ¬ Refused I (RemoteFile.perform (Local.fileHandle fs fd len) call) r := by
  rintro ⟨detail, r', hrun, -⟩
  have hkeeps : Keeps (Local.fileHandle fs fd len) (fun _ => True) fun e => ∃ io, e = .io io :=
    keeps_local fd len
  have hleaves := RemoteFile.perform_leaves (r := r) hkeeps hcall trivial
  rcases (wp_fail_of_run hleaves hrun).2 with hclosed | ⟨e, he, ⟨io, rfl⟩ | ⟨_, _, _, rfl⟩⟩
  · exact absurd (hopen.symm.trans hclosed) nofun
  · cases he
  · cases he

end Local

/-! ### Every backend -/

/-- A backend of this build, connected: what it rests on, and the fuel of its loops. -/
inductive Connected (W : Type)
  | localDir (fs : Local.LocalFs W) (root : String) (fuel : Nat)
  | smb (lib : Smb.Libsmb2 W) (limits : Smb.Limits) (fuel : Nat)

namespace Connected

/-- What its calls act on. -/
def World : Connected W → Type
  | .localDir _ _ _ => W
  | .smb _ _ _ => Smb.Sys W

/-- Its calls. -/
def backend : (k : Connected W) → TreeBackend k.World
  | .localDir fs root fuel => Local.backend fs root fuel
  | .smb lib limits fuel => Smb.backend lib limits fuel

/-- Where it starts. -/
def start (w : W) : (k : Connected W) → k.World
  | .localDir _ _ _ => w
  | .smb _ _ _ => Smb.Sys.init w

/-- The files it reaches, with everything else that is not this program's. -/
def disk : (k : Connected W) → k.World → W
  | .localDir _ _ _ => id
  | .smb _ _ _ => fun s => s.actor.ctx.world

/-- It is an SMB share. -/
def IsSmb : Connected W → Prop
  | .localDir _ _ _ => False
  | .smb _ _ _ => True

end Connected

open Connected in
/-- **Which calls a disconnect stops.**  After any calls, a disconnect that returned, and any
    calls more, a method of the session fails with `ConnectionLost` and changes nothing; and a
    method of a file does so if and only if the backend is SMB or the file was released. -/
theorem disconnected_dead_iff (k : Connected W) (w : W) {before after : List Call}
    {s₁ s₂ s : Session k.World}
    (hbefore : Lts.run (Session.step k.backend) (Session.connected (k.start w)) before = some s₁)
    (hdisc : Session.perform k.backend .disconnect s₁ = .ok (.ok .unit, s₂))
    (hafter : Lts.run (Session.step k.backend) s₂ after = some s) :
    (∀ call : Call, call.OnSession →
      Refused (fun s' => k.disk s'.world = k.disk s.world) (Session.perform k.backend call) s) ∧
    ∀ (f : Nat) (file : Opened k.World) (call : FileCall), s.files[f]? = some file → call.Asks →
      (Refused (fun s' => k.disk s'.world = k.disk s.world)
          (Session.perform k.backend (.file f call)) s ↔
        k.IsSmb ∨ file.closed = true) := by
  have hsession : s.closed = true → ∀ call : Call, call.OnSession →
      Refused (fun s' => k.disk s'.world = k.disk s.world) (Session.perform k.backend call) s :=
    fun hclosed call hcall => Session.refused_of_closed hcall hclosed rfl
  -- a file that was released refuses what it is asked, whatever its handle is
  have hreleased : ∀ (f : Nat) (file : Opened k.World) (call : FileCall),
      s.files[f]? = some file → call.Asks → file.closed = true →
      Refused (fun s' => k.disk s'.world = k.disk s.world)
        (Session.perform k.backend (.file f call)) s :=
    fun f file call hf hcall hclosed =>
      (Session.refused_file hf fun u => k.disk u = k.disk s.world).mpr
        (refused_of_closed hcall hclosed (I := fun u => k.disk u = k.disk s.world) rfl)
  cases k with
  | localDir fs root fuel =>
    have htracks : Tracks (Local.backend fs root fuel) (fun _ _ _ => True)
        fun _ h => ∃ fd len, h = Local.fileHandle fs fd len := tracks_local
    obtain ⟨hclosed, flags, hm⟩ := Session.held_of_runs htracks trivial hbefore hdisc hafter
    refine ⟨hsession (hclosed rfl), fun f file call hf hcall => ⟨fun hrefused => .inr ?_, ?_⟩⟩
    · obtain ⟨fd, len, hhandle⟩ := hm.handle f file hf
      by_contra hopen
      have hr := (Session.refused_file hf fun u =>
        Connected.disk _ u = Connected.disk _ s.world).mp hrefused
      rw [hhandle] at hr
      refine not_refused_local ?_ (Bool.eq_false_iff.mpr hopen) hr
      rintro rfl
      exact hcall
    · rintro (hsmb | hrel)
      · exact hsmb.elim
      · exact hreleased f file call hf hcall hrel
  | smb lib limits fuel =>
    have hinit : OnSmb lib limits w false [] (Smb.Sys.init w) :=
      ⟨⟨⟨[], rfl⟩, nofun⟩, rfl, fun j f h => nomatch h⟩
    obtain ⟨hclosed, flags, hm⟩ := Session.held_of_runs tracks_smb hinit hbefore hdisc hafter
    refine ⟨hsession (hclosed rfl), fun f file call hf hcall =>
      ⟨fun _ => .inl trivial, fun _ => ?_⟩⟩
    by_cases hrel : file.closed = true
    · exact hreleased f file call hf hcall hrel
    · -- the backend has not closed it either, and the session thread is over
      have hlt : f < flags.length := hm.length ▸ (List.getElem?_eq_some_iff.mp hf).1
      have hflag : flags[f]? = some false := by
        rw [List.getElem?_eq_getElem hlt]
        refine congrArg some (Bool.eq_false_iff.mpr fun htrue => hrel (hm.closed f file hf ?_))
        rw [List.getElem?_eq_getElem hlt, htrue]
      have hworld : OnSmb lib limits w true flags s.world := hclosed rfl ▸ hm.world
      have hdead : Dead (Smb.fileHandle lib limits fuel f) (fun u => u.actor = s.world.actor)
          s.world := dead_smb hworld hflag
      rw [← hm.handle f file hf] at hdead
      have hrefused := refused_of_dead (r := ⟨s.world, file.len, file.closed⟩) hcall
        (Bool.eq_false_iff.mpr hrel) hdead
      refine (Session.refused_file hf fun u => Connected.disk _ u = Connected.disk _ s.world).mpr ?_
      obtain ⟨detail, r', hrun, hactor⟩ := hrefused
      exact ⟨detail, r', hrun, congrArg (fun a => a.ctx.world) hactor⟩

/-! ### One file, on each backend -/

/-- A directory that nothing can be added to, with the file `/srv/a`. -/
def oneFs : Local.LocalFs (List UInt8) where
  openRead path w := (found path, w)
  createNew _ w := (.error denied, w)
  read _ n w := (.ok (w.take n), w)
  write _ data w := (.ok data.length, Slices.overwrite w 0 data)
  readDir _ w := (.error denied, w)
  next _ w := (.ok none, w)
  symlinkMetadata path w := ((found path).map fun _ => regular w, w)
  metadata path w := ((found path).map fun _ => regular w, w)
  openWith path _ w := (found path, w)
  fileMetadata _ w := (.ok (regular w), w)
  removeFile _ w := (.error denied, w)
  removeDir _ w := (.error denied, w)
  rename _ _ w := (.error denied, w)
  createDir _ w := (.error denied, w)
  pread _ offset n w := (.ok (Slices.slice w offset n), w)
  pwrite _ offset data w := (.ok data.length, Slices.overwrite w offset data)
  setLen _ n w := (.ok (), Slices.resize w n)
  syncAll _ w := (.ok (), w)
where
  denied : IoError := ⟨.permissionDenied, "Permission denied (os error 13)"⟩
  found (path : String) : Except IoError Local.Fd :=
    if path = "/srv/a" then .ok 3 else .error ⟨.notFound, "No such file or directory (os error 2)"⟩
  regular (w : List UInt8) : Local.FsMetadata :=
    ⟨false, false, true, w.length, .ok ⟨0, 0⟩, .ok ⟨0, 0⟩, .ok ⟨0, 0⟩, false⟩

/-- The directory `/srv`. -/
def oneLocal : Connected (List UInt8) := .localDir oneFs "/srv" 0

/-- A share with one file. -/
def oneShare : Connected Smb.MemServer :=
  .smb (Smb.MemServer.lib .none) ⟨4, 4, by decide, by decide⟩ 0

/-- Open the file, to read and perhaps write. -/
def openA (write : Bool) : Call := .openFile "/a" ⟨true, write, false, false, false⟩

/-- The session after a disconnect that succeeds. -/
def afterDisconnect (b : TreeBackend σ) (s : Session σ) : Option (Session σ) :=
  match Session.perform b .disconnect s with
  | .ok (.ok .unit, s') => some s'
  | _ => none

theorem perform_of_afterDisconnect {b : TreeBackend σ} {s s' : Session σ}
    (h : afterDisconnect b s = some s') : Session.perform b .disconnect s = .ok (.ok .unit, s') := by
  unfold afterDisconnect at h
  split at h
  · next hdisc => rw [hdisc, Option.some.inj h]
  · cases h

/-- Over SMB a read after the disconnect is refused. -/
theorem disconnected_share_refuses : ∃ s₁ s₂ file,
    Lts.run (Session.step oneShare.backend)
      (Session.connected (oneShare.start (Smb.MemServer.holding "a" (.file [1, 2, 3])))) [openA false]
      = some s₁ ∧
    Session.perform oneShare.backend .disconnect s₁ = .ok (.ok .unit, s₂) ∧
    s₂.files[0]? = some file ∧ file.closed = false ∧
    Refused (fun s' => oneShare.disk s'.world = oneShare.disk s₂.world)
      (Session.perform oneShare.backend (.file 0 (.readAt 0 3))) s₂ := by
  have hcheck : ((Lts.run (Session.step oneShare.backend)
      (Session.connected (oneShare.start (Smb.MemServer.holding "a" (.file [1, 2, 3]))))
      [openA false]).bind fun s₁ => (afterDisconnect oneShare.backend s₁).bind fun s₂ =>
        (s₂.files[0]?).map Opened.closed) = some false := by
    decide +kernel
  obtain ⟨s₁, hrun, hdown⟩ := Option.bind_eq_some_iff.mp hcheck
  obtain ⟨s₂, hafter, hopened⟩ := Option.bind_eq_some_iff.mp hdown
  obtain ⟨file, hfile, hclosed⟩ := Option.map_eq_some_iff.mp hopened
  have hdisc := perform_of_afterDisconnect hafter
  have hasks : (FileCall.readAt 0 3).Asks := show 0 < (3 : UInt32).toNat by decide
  exact ⟨s₁, s₂, file, hrun, hdisc, hfile, hclosed,
    ((disconnected_dead_iff oneShare _ hrun hdisc (Lts.run_nil _)).2 0 file _ hfile hasks).mpr
      (.inl trivial)⟩

/-- In a local directory the file is read and written after the disconnect. -/
theorem disconnected_local_goes_on : ∃ s₁ s₂ s₃ s₄,
    Lts.run (Session.step oneLocal.backend) (Session.connected (oneLocal.start [1, 2, 3]))
      [openA true] = some s₁ ∧
    Session.perform oneLocal.backend .disconnect s₁ = .ok (.ok .unit, s₂) ∧
    Session.perform oneLocal.backend (.file 0 (.readAt 0 3)) s₂
      = .ok (.ok (.bytes ⟨0, [1, 2, 3]⟩), s₃) ∧
    Session.perform oneLocal.backend (.file 0 (.writeAt 1 [9])) s₃ = .ok (.ok (.written 1), s₄) ∧
    oneLocal.disk s₄.world = [1, 9, 3] :=
  ⟨_, _, _, _, rfl, rfl, rfl, rfl, rfl⟩

end Krystallos.Ffi
