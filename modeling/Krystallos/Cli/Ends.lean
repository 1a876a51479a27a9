import Krystallos.Cli.Main
import Krystallos.Core.Stays
import Krystallos.Smb.Stays

namespace Krystallos

open Checked Prog Resource

/-!
# However a command ends

Every command shuts its backend down, whether its work succeeded or not.  So when the program has
run a command on an SMB share, whichever command it was and wherever it failed, the session thread
is over, every handle was closed as often as it was opened, and the context is gone; and a run that
connected to no share has touched none (`main_ends`).
-/

/-! ### Read-ahead -/

namespace ReadAhead

variable {σ : Type} {P : σ → Prop} {h : FileHandle σ} {s : σ × ReadAhead}

/-- What the wrapped handle keeps. -/
theorem wp_inner_keeping {α : Type} {m : Prog Error σ α} (hm : wp m (keeping P) s.1) :
    wp (inner m) (keeping fun s => P s.1) s :=
  (wp_zoom _ _ _).mpr hm

/-- A read through the window reads the handle at most. -/
theorem wp_supply_keeping (hh : h.Stays P) (offset len : Nat) (pc : ReadPc) (hs : P s.1) :
    wp (supply h offset len pc) (keeping fun s => P s.1) s := by
  unfold supply
  split
  · next pos n _ =>
    refine wp_bind_keeping ?_ fun _ _ h => h
    rw [wp_capture]
    exact wp_inner_keeping (hh.readAt pos n _ hs)
  · split
    · exact hs
    · exact hs

/-- What the wrapped handle keeps, the wrapper keeps. -/
theorem stays_asHandle (cfg : Config) (hh : h.Stays P) :
    (asHandle cfg h).Stays fun s => P s.1 where
  readAt := by
    intro offset len s hs
    refine wp_iterate_partial (fun _ s => P s.1) trivial ?_ _ hs
    intro pc t ht
    have hgo : wp (goOn cfg h offset len pc)
        (keepPost (fun _ s => P s.1) (keeping fun s => P s.1)) t := by
      refine (wp_bind _ _).mpr (wp_mono (wp_supply_keeping hh offset len pc ht) ?_ (fun _ _ h => h)
        (fun _ h => h))
      intro inp u hu
      simp only [wp_bind, wp_current]
      split
      · exact hu
      · exact hu
    unfold turn
    split
    · trivial
    · next r =>
      rw [wp_bind, wp_ofExcept]
      cases r <;> exact ht
    · exact hgo
  writeAt := by
    intro offset buf s hs
    refine wp_bind_keeping (wp_inner_keeping (hh.writeAt offset buf _ hs)) fun n s' hs' => ?_
    exact hs'
  setLen := fun len s hs =>
    wp_bind_keeping (wp_inner_keeping (hh.setLen len _ hs)) fun _ _ hs' => hs'
  flush := fun s hs => wp_inner_keeping (hh.flush _ hs)
  close := fun s hs => wp_inner_keeping (s := (s.1, s.2.invalidate)) (hh.close _ hs)

end ReadAhead

/-! ### The commands -/

namespace Cli

variable {σ δ : Type} {P Q : σ → Prop} {s : Cli σ δ} {backend : StorageBackend σ}
  {tree : TreeBackend σ}

/-- `P` holds of the backend's world. -/
def Outdoors (P : σ → Prop) (s : Cli σ δ) : Prop := P s.world.1

/-- What a backend keeps. -/
theorem wp_onBackend_keeping {α : Type} {m : Prog Error σ α} (hm : wp m (keeping P) s.world.1) :
    wp (onBackend m) (keeping (Outdoors P)) s :=
  (wp_zoom _ _ _).mpr hm

/-- What a handle keeps. -/
theorem wp_onHandle_keeping {α : Type} {m : Prog Error (σ × ReadAhead) α}
    (hm : wp m (keeping fun w => P w.1) s.world) : wp (onHandle m) (keeping (Outdoors P)) s :=
  (wp_zoom _ _ _).mpr hm

/-- What is outside the backend concerns none of it. -/
theorem wp_onDisk_keeping {α : Type} {op : δ → Except Error α × δ} (hs : Outdoors P s) :
    wp (onDisk op) (keeping (Outdoors P)) s :=
  wp_onDisk.mpr (wp_of_forall (fun _ _ => hs) (fun _ _ => hs) (fun _ => trivial))

/-- A write to the local side leaves the world as it is. -/
theorem wp_writeAll_keeping (sink : Sink δ) (buf : List UInt8) (hs : Outdoors P s) :
    wp (writeAll sink buf) (keeping (Outdoors P)) s := by
  unfold wp writeAll
  rcases sink.write buf s.disk with ⟨_ | ⟨e, n⟩, d⟩ <;> exact hs

theorem wp_create_keeping (sink : Sink δ) (hs : Outdoors P s) :
    wp (create sink) (keeping (Outdoors P)) s := by
  unfold wp create
  rcases sink.create s.disk with ⟨_ | _, d⟩ <;> exact hs

theorem wp_flush_keeping (sink : Sink δ) (hs : Outdoors P s) :
    wp (flush sink) (keeping (Outdoors P)) s :=
  (wp_zoom _ _ _).mpr (wp_of_forall (fun _ _ => hs) (fun _ _ => hs) (fun _ => trivial))

theorem wp_writeLines_keeping (sink : Sink δ) (rfc3339 : SystemTime → String)
    (entries : List Entry) (hs : Outdoors P s) :
    wp (writeLines sink rfc3339 entries) (keeping (Outdoors P)) s := by
  induction entries generalizing s with
  | nil => exact hs
  | cons entry entries ih => exact wp_bind_keeping (wp_writeAll_keeping sink _ hs) fun _ _ h => ih h

/-- The handle inside. -/
def inside : ReadHandle σ → FileHandle σ
  | .plain h | .buffered _ h => h

/-- The handle that the read commands use keeps what the one inside does. -/
theorem stays_toHandle {rh : ReadHandle σ} (hh : (inside rh).Stays P) :
    (toHandle rh).Stays fun w => P w.1 := by
  cases rh with
  | plain h =>
    exact ⟨fun _ _ _ hs => ReadAhead.wp_inner_keeping (hh.readAt _ _ _ hs),
      fun _ _ _ hs => ReadAhead.wp_inner_keeping (hh.writeAt _ _ _ hs),
      fun _ _ hs => ReadAhead.wp_inner_keeping (hh.setLen _ _ hs),
      fun _ hs => ReadAhead.wp_inner_keeping (hh.flush _ hs),
      fun _ hs => ReadAhead.wp_inner_keeping (hh.close _ hs)⟩
  | buffered cfg h => exact ReadAhead.stays_asHandle cfg hh

/-- A file that was opened for reading keeps what its backend keeps, cached or not. -/
theorem wp_openForRead_keeping (hb : backend.Stays P Q) (path : VfsPath) (cfg : Config)
    (hs : Outdoors P s) :
    wp (openForRead backend path cfg) ⟨fun rh s' => Outdoors P s' ∧ (inside rh).Stays P,
      fun _ s' => Outdoors P s', fun _ => True⟩ s := by
  refine (wp_bind _ _).mpr (wp_mono (wp_onBackend_keeping (hb.stat path _ hs)) ?_ (fun _ _ h => h)
    (fun _ h => h))
  intro md s₁ hs₁
  refine wp_ite (fun _ => hs₁) (fun _ => ?_)
  refine (wp_bind _ _).mpr (wp_onBackend.mpr (wp_mono (hb.openFile path .reading _ hs₁) ?_
    (fun _ _ h => h) (fun _ h => h)))
  rintro h w ⟨hP, hh⟩
  exact wp_ite (fun _ => ⟨hP, hh⟩) (fun _ => ⟨hP, hh⟩)

/-- A loop all of whose turns keep `P`. -/
theorem wp_loop_keeping {β γ : Type} {body : β → Prog Error (Cli σ δ) (Turn β γ)}
    (hbody : ∀ b s, Outdoors P s → wp (body b) (keeping (Outdoors P)) s) (fuel : Nat) (b : β)
    (hs : Outdoors P s) : wp (iterate fuel body b) (keeping (Outdoors P)) s := by
  refine wp_iterate_partial (fun _ s => Outdoors P s) trivial (fun b s hs => ?_) fuel hs
  refine wp_mono (hbody b s hs) (fun turn s' hs' => ?_) (fun _ _ h => h) (fun _ h => h)
  cases turn <;> exact hs'

/-- A turn of a download reads, and writes outside. -/
theorem wp_copyTurn_keeping {sink : Sink δ} {rh : ReadHandle σ} (hh : (inside rh).Stays P)
    (chunk offset : Nat) (hs : Outdoors P s) :
    wp (copyTurn sink (toHandle rh) chunk offset) (keeping (Outdoors P)) s := by
  refine wp_bind_keeping (wp_onHandle_keeping ((stays_toHandle hh).readAt _ _ _ hs)) ?_
  intro buf s₁ hs₁
  refine wp_ite (fun _ => hs₁) (fun _ => ?_)
  refine wp_bind_keeping (wp_writeAll_keeping sink buf hs₁) fun _ s₂ hs₂ => ?_
  rw [wp_bind]
  exact wp_checked_of (fun _ _ => hs₂) (fun _ => trivial)

/-- Filling a chunk reads outside. -/
theorem wp_fillTurn_keeping (src : Source δ) (chunk : Nat) (buf : List UInt8) (hs : Outdoors P s) :
    wp (fillTurn src chunk buf) (keeping (Outdoors P)) s := by
  refine wp_ite (fun _ => ?_) (fun _ => hs)
  refine wp_bind_keeping (wp_onDisk_keeping hs) fun bytes s₁ hs₁ => ?_
  exact wp_ite (fun _ => hs₁) (fun _ => hs₁)

/-- Writing one out writes to the handle. -/
theorem wp_writeTurn_keeping {handle : FileHandle σ} (hh : handle.Stays P) (buf : List UInt8)
    (x : Nat × Nat) (hs : Outdoors P s) :
    wp (writeTurn handle buf x) (keeping (Outdoors P)) s := by
  refine wp_ite (fun _ => ?_) (fun _ => hs)
  refine wp_bind_keeping (wp_onBackend_keeping (hh.writeAt _ _ _ hs)) fun n s₁ hs₁ => ?_
  refine wp_ite (fun _ => hs₁) (fun _ => ?_)
  refine (wp_bind _ _).mpr (wp_checked_of (fun _ _ => ?_) (fun _ => trivial))
  exact (wp_bind _ _).mpr (wp_checked_of (fun _ _ => hs₁) (fun _ => trivial))

/-- A turn of an upload does the one and then the other. -/
theorem wp_uploadTurn_keeping {handle : FileHandle σ} (src : Source δ) (hh : handle.Stays P)
    (chunk offset : Nat) (hs : Outdoors P s) :
    wp (uploadTurn src handle chunk offset) (keeping (Outdoors P)) s := by
  refine wp_bind_keeping (wp_loop_keeping (fun buf _ hs => wp_fillTurn_keeping src chunk buf hs) _ _
    hs) fun buf s₁ hs₁ => ?_
  refine wp_ite (fun _ => hs₁) (fun _ => ?_)
  exact wp_bind_keeping (wp_loop_keeping (fun x _ hs => wp_writeTurn_keeping hh buf x hs) _ _ hs₁)
    fun _ _ h => h

/-! ### From connecting to shutting down -/

/-- The shutdown is the last thing that is done. -/
theorem wp_finish_keeping (hb : backend.Stays P Q) (outcome : Result Unit) (hs : Outdoors P s) :
    wp (finish backend outcome) (keeping (Outdoors Q)) s := by
  have hshut : wp (capture (onBackend backend.shutdown) : Prog Error (Cli σ δ) (Result Unit))
      (keeping (Outdoors Q)) s :=
    (wp_capture _).mpr (wp_onBackend_keeping (hb.shutdown _ hs))
  refine wp_bind_keeping hshut fun shut s' hs' => ?_
  split <;> exact hs'

/-- What a command connects to: a backend that keeps something until it leaves `Q`. -/
def connects (Q : σ → Prop) : Post Error σ (TreeBackend σ) :=
  ⟨fun b w => ∃ P, P w ∧ b.Stays P Q, fun _ w => Q w, fun _ => True⟩

/-- However the work goes, the command leaves `Q`. -/
theorem wp_withBackend_keeping {connect : Prog Error σ (TreeBackend σ)}
    {work : TreeBackend σ → Prog Error (Cli σ δ) Unit}
    (hconnect : wp connect (connects Q) s.world.1)
    (hwork : ∀ (b : TreeBackend σ) (P : σ → Prop) (s' : Cli σ δ), b.Stays P Q → Outdoors P s' →
      wp (work b) (keeping (Outdoors P)) s') :
    wp (withBackend connect work) (keeping (Outdoors Q)) s := by
  refine (wp_bind _ _).mpr (wp_onBackend.mpr (wp_mono hconnect ?_ (fun _ _ h => h) (fun _ h => h)))
  rintro b w ⟨P, hP, hb⟩
  refine (wp_bind _ _).mpr ((wp_capture _).mpr (wp_mono (hwork b P _ hb hP) ?_ ?_ (fun _ h => h)))
  · exact fun _ s' hs' => wp_finish_keeping hb.storage _ hs'
  · exact fun _ s' hs' => wp_finish_keeping hb.storage _ hs'

/-- The commands on a file only use a part of the backend. -/
theorem storage_eq_withBackend (connect : Prog Error σ (TreeBackend σ))
    (work : StorageBackend σ → Prog Error (Cli σ δ) Unit) :
    (do
      let backend ← onBackend do
        let backend ← connect
        pure backend.toStorageBackend
      let outcome ← capture (work backend)
      finish backend outcome) = withBackend connect fun backend => work backend.toStorageBackend := by
  funext s
  show _ = withBackend _ _ s
  simp only [withBackend, onBackend, zoom, bind, pure]
  rcases connect s.world.1 with t | ⟨e | b, w⟩ <;> rfl

/-! ### Each command -/

/-- What stands before the work: the path. -/
theorem wp_path_keeping {α : Type} {path : String} {f : VfsPath → Prog Error (Cli σ δ) α}
    (hs : Outdoors P s) (hf : ∀ p, wp (f p) (keeping (Outdoors P)) s) :
    wp (ofExcept (VfsPath.new path) >>= f) (keeping (Outdoors P)) s := by
  rw [wp_bind, wp_ofExcept]
  cases VfsPath.new path with
  | error e => exact hs
  | ok p => exact hf p

/-- A file is read from its start to its end. -/
theorem wp_copy_keeping {sink : Sink δ} {rh : ReadHandle σ} (hh : (inside rh).Stays P)
    (chunk fuel : Nat) (hs : Outdoors P s) :
    wp (do
      iterate fuel (copyTurn sink (toHandle rh) chunk) 0
      flush sink
      onHandle (toHandle rh).close) (keeping (Outdoors P)) s := by
  refine wp_bind_keeping (wp_loop_keeping (fun offset _ => wp_copyTurn_keeping hh chunk offset) fuel
    0 hs) fun _ s₁ hs₁ => ?_
  refine wp_bind_keeping (wp_flush_keeping sink hs₁) fun _ s₂ hs₂ => ?_
  exact wp_onHandle_keeping ((stays_toHandle hh).close _ hs₂)

/-- An upload keeps what its backend keeps, wherever it ends. -/
theorem wp_upload_keeping {src : Source δ} {p : VfsPath} (hb : backend.Stays P Q) (fuel : Nat)
    (hs : Outdoors P s) :
    wp (do
      onDisk src.openFile
      let _ ← onDisk src.metadata
      let handle ← onBackend (backend.openFile p OpenMode.writing.withTruncate)
      let _ ← iterate fuel (uploadTurn src handle chunkSize) 0
      onBackend handle.flush
      onBackend handle.close) (keeping (Outdoors P)) s := by
  refine wp_bind_keeping (wp_onDisk_keeping hs) fun _ s₁ hs₁ => ?_
  refine wp_bind_keeping (wp_onDisk_keeping hs₁) fun _ s₂ hs₂ => ?_
  refine (wp_bind _ _).mpr (wp_onBackend.mpr (wp_mono (hb.openFile p _ _ hs₂) ?_ (fun _ _ h => h)
    (fun _ h => h)))
  rintro handle w ⟨hP, hh⟩
  refine wp_bind_keeping (wp_loop_keeping (fun offset _ => wp_uploadTurn_keeping src hh chunkSize
    offset) fuel 0 hP) fun _ s₃ hs₃ => ?_
  refine wp_bind_keeping (wp_onBackend_keeping (hh.flush _ hs₃)) fun _ s₄ hs₄ => ?_
  exact wp_onBackend_keeping (hh.close _ hs₄)

end Cli

/-- **Whichever command it is**, it leaves what the backend leaves that it connects to. -/
theorem Args.wp_run_keeping {σ δ : Type} {reg : BackendRegistry σ} {Q : σ → Prop} {args : Args}
    {s : Cli σ δ} (outside : Outside δ) (fuel : Nat)
    (hconnect : wp (reg.connectWith args.command.uri args.credentials args.options)
      (Cli.connects Q) s.world.1) :
    wp (args.run reg outside fuel) (keeping (Cli.Outdoors Q)) s := by
  obtain ⟨user, password, domain, smbSeal, readAhead, chunk, command⟩ := args
  cases command with
  | ls uri path =>
    refine Cli.wp_withBackend_keeping hconnect fun b P s' hb hs' => ?_
    refine Cli.wp_path_keeping hs' fun p => ?_
    refine wp_bind_keeping (Cli.wp_onBackend_keeping (hb.list p _ hs')) fun entries s₁ hs₁ => ?_
    exact wp_bind_keeping (Cli.wp_writeLines_keeping _ _ _ hs₁) fun _ _ hs₂ =>
      Cli.wp_flush_keeping _ hs₂
  | stat uri path =>
    refine Cli.wp_withBackend_keeping hconnect fun b P s' hb hs' => ?_
    refine Cli.wp_path_keeping hs' fun p => ?_
    refine wp_bind_keeping (Cli.wp_onBackend_keeping (hb.storage.stat p _ hs')) fun md s₁ hs₁ => ?_
    exact wp_bind_keeping (Cli.wp_writeAll_keeping _ _ hs₁) fun _ _ hs₂ =>
      Cli.wp_flush_keeping _ hs₂
  | cat uri path =>
    show wp (Cli.cat _ _ _ _ _ _) _ _
    rw [Cli.cat, Cli.storage_eq_withBackend]
    refine Cli.wp_withBackend_keeping hconnect fun b P s' hb hs' => ?_
    refine Cli.wp_path_keeping hs' fun p => ?_
    refine (wp_bind _ _).mpr (wp_mono (Cli.wp_openForRead_keeping hb.storage p _ hs') ?_
      (fun _ _ h => h) (fun _ h => h))
    rintro rh s₁ ⟨hs₁, hh⟩
    exact Cli.wp_copy_keeping hh _ _ hs₁
  | get uri path dest =>
    show wp (Cli.get _ _ _ _ _ _) _ _
    rw [Cli.get, Cli.storage_eq_withBackend]
    refine Cli.wp_withBackend_keeping hconnect fun b P s' hb hs' => ?_
    refine Cli.wp_path_keeping hs' fun p => ?_
    refine (wp_bind _ _).mpr (wp_mono (Cli.wp_openForRead_keeping hb.storage p _ hs') ?_
      (fun _ _ h => h) (fun _ h => h))
    rintro rh s₁ ⟨hs₁, hh⟩
    exact wp_bind_keeping (Cli.wp_create_keeping _ hs₁) fun _ _ hs₂ =>
      Cli.wp_copy_keeping hh _ _ hs₂
  | put uri path src =>
    show wp (Cli.put _ _ _ _) _ _
    rw [Cli.put, Cli.storage_eq_withBackend]
    refine Cli.wp_withBackend_keeping hconnect fun b P s' hb hs' => ?_
    exact Cli.wp_path_keeping hs' fun p => Cli.wp_upload_keeping hb.storage fuel hs'
  | mkdir uri path =>
    refine Cli.wp_withBackend_keeping hconnect fun b P s' hb hs' => ?_
    exact Cli.wp_path_keeping hs' fun p => Cli.wp_onBackend_keeping (hb.mkdir p _ hs')
  | rm uri path =>
    refine Cli.wp_withBackend_keeping hconnect fun b P s' hb hs' => ?_
    exact Cli.wp_path_keeping hs' fun p => Cli.wp_onBackend_keeping (hb.removeFile p _ hs')
  | rmdir uri path =>
    refine Cli.wp_withBackend_keeping hconnect fun b P s' hb hs' => ?_
    exact Cli.wp_path_keeping hs' fun p => Cli.wp_onBackend_keeping (hb.removeDir p _ hs')
  | mv uri fromPath toPath =>
    refine Cli.wp_withBackend_keeping hconnect fun b P s' hb hs' => ?_
    refine Cli.wp_path_keeping hs' fun p => Cli.wp_path_keeping hs' fun q => ?_
    exact Cli.wp_onBackend_keeping (hb.rename p q _ hs')

/-! ### The program -/

namespace Machine

open Smb (SmbContext)

variable {W V δ : Type} {m : Machine W V} {args : Args} {t : W × Smb.Sys V}

/-- The session that a command line connects to, with the server in the world `v`. -/
def session (m : Machine W V) (args : Args) (v : V) : Option (SmbContext V) :=
  match Endpoint.parse args.command.uri with
  | .error _ => none
  | .ok endpoint =>
    if endpoint.scheme = "smb" then
      match Smb.SmbDriver.connect (m.smbHost v) endpoint args.credentials args.options with
      | .ok (.ok ctx) => some ctx
      | _ => none
    else none

/-- How a run leaves the session's part of the world `t`. -/
def Leaves (m : Machine W V) (args : Args) (t t' : W × Smb.Sys V) : Prop :=
  match m.session args t.2.actor.ctx.world with
  | none => t'.2 = t.2
  | some ctx => Smb.Sys.Over m.lib m.limits ctx.world t'.2

/-- Without a session, none is touched. -/
theorem leaves_of_none (h : m.session args t.2.actor.ctx.world = none) :
    m.Leaves args t = fun t' => t'.2 = t.2 := by
  funext t'
  simp only [Leaves, h]

/-- With one, it is over. -/
theorem leaves_of_some {ctx : SmbContext V} (h : m.session args t.2.actor.ctx.world = some ctx) :
    m.Leaves args t = fun t' => Smb.Sys.Over m.lib m.limits ctx.world t'.2 := by
  funext t'
  simp only [Leaves, h]

/-- What the program connects to keeps what it must until it has left what it must. -/
theorem wp_connectWith (m : Machine W V) (args : Args) (t : W × Smb.Sys V) :
    wp (m.registry.connectWith args.command.uri args.credentials args.options)
      (Cli.connects (m.Leaves args t)) t := by
  rw [BackendRegistry.connectWith, wp_bind, wp_ofExcept]
  cases hparse : Endpoint.parse args.command.uri with
  | error e =>
    have hnone : m.session args t.2.actor.ctx.world = none := by simp only [session, hparse]
    simp only [Cli.connects, leaves_of_none hnone]
  | ok endpoint =>
    simp only [lookup_registry]
    by_cases hsmb : endpoint.scheme = "smb"
    · rw [if_pos hsmb]
      simp only [smbDriver, BackendDriver.onPart, wp_zoom, Smb.connectTo, wp_bind,
        wp_current, wp_checked, wp_ofExcept, wp_update, wp_pure]
      rcases hconnect : Smb.SmbDriver.connect (m.smbHost t.2.actor.ctx.world) endpoint
          args.credentials args.options with p | e | ctx
      · trivial
      · have hsession : m.session args t.2.actor.ctx.world = none := by
          simp only [session, hparse, if_pos hsmb, hconnect]
        simp only [Cli.connects, leaves_of_none hsession]
      · have hsession : m.session args t.2.actor.ctx.world = some ctx := by
          simp only [session, hparse, if_pos hsmb, hconnect]
        rw [leaves_of_some hsession]
        exact ⟨_, ⟨[], rfl⟩, Smb.stays_backend.onPart fun _ _ => rfl⟩
    · have hnone : m.session args t.2.actor.ctx.world = none := by
        simp only [session, hparse, if_neg hsmb]
      rw [if_neg hsmb, leaves_of_none hnone]
      by_cases hfile : endpoint.scheme = "file"
      · rw [if_pos hfile]
        have hroot : wp (zoom Prod.fst (fun w t => (w, t.2)) (Local.connectTo m.fs m.localHost
            m.fuel endpoint args.credentials args.options)) (keeping fun t' => t'.2 = t.2) t :=
          wp_elsewhere (fun _ _ h => h) rfl
        refine wp_bind_pure.mpr (wp_mono hroot (fun b t' ht' => ?_) (fun _ _ h => h) (fun _ h => h))
        exact ⟨_, ht', b.stays_elsewhere fun _ _ h => h⟩
      · rw [if_neg hfile]
        rfl

/-- **However a command ends**, short of a panic.  Where the program connected to an SMB share, the
    session's thread is over when it is done: the calls on the share were in order and nothing is held any more, and
    every handle was closed as often as it was opened.  Where it did not, no session was touched. -/
theorem main_ends {opened : V → Finset Smb.Fh} (ht : Smb.Tracks m.lib opened)
    (hnew : ∀ v, opened (m.smbHost v).connectShare.2 = ∅) (outside : Outside δ) (fuel : Nat)
    (args : Args) {s s' : Cli (W × Smb.Sys V) δ} {r : Result Unit}
    (hrun : m.main outside fuel args s = .ok (r, s')) :
    match m.session args s.world.1.2.actor.ctx.world with
    | none => s'.world.1.2 = s.world.1.2
    | some _ => s'.world.1.2.phase = .exited ∧ replay s'.world.1.2.uses = some .ended ∧
      ∀ fh, s'.world.1.2.uses.count (.release fh) = s'.world.1.2.uses.count (.acquire fh) := by
  have hkeeping : wp (m.main outside fuel args)
      (keeping (Cli.Outdoors (m.Leaves args s.world.1))) s :=
    Args.wp_run_keeping outside fuel (m.wp_connectWith args s.world.1)
  have hleaves : Cli.Outdoors (m.Leaves args s.world.1) s' := keeping_of_run hkeeping hrun
  rw [Cli.Outdoors] at hleaves
  cases hsession : m.session args s.world.1.2.actor.ctx.world with
  | none =>
    rw [leaves_of_none hsession] at hleaves
    exact hleaves
  | some ctx =>
    rw [leaves_of_some hsession] at hleaves
    have hopened : opened ctx.world = ∅ := by
      unfold session at hsession
      split at hsession
      · cases hsession
      · next endpoint _ =>
        split_ifs at hsession
        split at hsession
        · next ctx' hconnect =>
          obtain rfl : ctx' = ctx := Option.some.inj hsession
          rw [Smb.world_of_connect hconnect]
          exact hnew _
        · cases hsession
    exact hleaves.given_back ht hopened

/-- A share in memory, on which a new connection has nothing open, and a directory with one file. -/
def memory : Machine FileContent Smb.MemServer where
  fs := Local.oneFileFs
  localHost _ := Local.oneFileHost
  lib := Smb.MemServer.lib .none
  smbHost v := Smb.ConnectHost.ready (Smb.MemServer.lib .none) { v with files := [] }
  limits := Smb.oneLimits
  fuel := 4

/-- `cat` with read-ahead, of a file on the share. -/
def catShare : Args :=
  ⟨none, none, none, false, ⟨64, 8, by decide⟩, 4, .cat "smb://host/share" "/a"⟩

/-- Nothing outside fails, and there is nothing to upload. -/
def quiet : Outside Unit where
  stdout := Sink.memory
  dest _ := Sink.memory
  src _ := ⟨fun d => (.ok (), d), fun d => (.ok 0, d), fun _ d => (.ok [], d)⟩
  rfc3339 _ := ""

/-- The share holds a file of three bytes. -/
def threeBytes : Cli (FileContent × Smb.Sys Smb.MemServer) Unit :=
  ⟨((.empty, Smb.Sys.init (.holding "a" (.file [1, 2, 3]))), ReadAhead.init), (), []⟩

/-- The session that the file was read in has ended. -/
theorem main_ends_cat : ∃ s', memory.main quiet 9 catShare threeBytes = .ok (.ok (), s') ∧
    s'.world.1.2.phase = .exited ∧ replay s'.world.1.2.uses = some .ended ∧
    ∀ fh, s'.world.1.2.uses.count (.release fh) = s'.world.1.2.uses.count (.acquire fh) := by
  have hreturned : (returned (memory.main quiet 9 catShare threeBytes)).isSome = true := by
    decide +kernel
  have hsession : (memory.session catShare threeBytes.world.1.2.actor.ctx.world).isSome = true := by
    decide +kernel
  obtain ⟨⟨⟩, s', -, hrun⟩ := exists_of_returned hreturned
  have hends := main_ends (Smb.MemServer.tracks .none) (fun _ => rfl) quiet 9 catShare hrun
  obtain ⟨ctx, hctx⟩ := Option.isSome_iff_exists.mp hsession
  rw [hctx] at hends
  exact ⟨s', hrun, hends⟩

end Machine

end Krystallos
