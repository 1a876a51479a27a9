import Krystallos.Cli.Format
import Krystallos.Cli.Upload
import Krystallos.Core.Drivers
import Krystallos.Smb.Connect

namespace Krystallos

open Prog

/-!
# The commands of the CLI

Every command connects, does its work, and shuts the backend down however the work went.  `run`
goes from the command line to one of them, through the registry.
-/

namespace Cli

variable {σ δ : Type}

/-- Connect, do the work, and shut down. -/
def withBackend (connect : Prog Error σ (TreeBackend σ))
    (work : TreeBackend σ → Prog Error (Cli σ δ) Unit) : Prog Error (Cli σ δ) Unit := do
  let backend ← onBackend connect
  let outcome ← capture (work backend)
  finish backend.toStorageBackend outcome

/-- One `writeln!` an entry. -/
def writeLines (sink : Sink δ) (rfc3339 : SystemTime → String) :
    List Entry → Prog Error (Cli σ δ) Unit
  | [] => pure ()
  | entry :: entries => do
    writeAll sink (utf8 (entryLine rfc3339 entry ++ "\n"))
    writeLines sink rfc3339 entries

/-- List a directory. -/
def ls (connect : Prog Error σ (TreeBackend σ)) (sink : Sink δ) (rfc3339 : SystemTime → String)
    (path : String) : Prog Error (Cli σ δ) Unit :=
  withBackend connect fun backend => do
    let path ← ofExcept (VfsPath.new path)
    let entries ← onBackend (backend.list path)
    writeLines sink rfc3339 entries
    flush sink

/-- Show metadata for a single entry. -/
def stat (connect : Prog Error σ (TreeBackend σ)) (sink : Sink δ) (rfc3339 : SystemTime → String)
    (path : String) : Prog Error (Cli σ δ) Unit :=
  withBackend connect fun backend => do
    let path ← ofExcept (VfsPath.new path)
    let md ← onBackend (backend.stat path)
    writeAll sink (utf8 (metadataBlock rfc3339 path.str md))
    flush sink

/-- Create a directory. -/
def mkdir (connect : Prog Error σ (TreeBackend σ)) (path : String) :
    Prog Error (Cli σ δ) Unit :=
  withBackend connect fun backend => do
    let path ← ofExcept (VfsPath.new path)
    onBackend (backend.mkdir path)

/-- Delete a file. -/
def rm (connect : Prog Error σ (TreeBackend σ)) (path : String) : Prog Error (Cli σ δ) Unit :=
  withBackend connect fun backend => do
    let path ← ofExcept (VfsPath.new path)
    onBackend (backend.removeFile path)

/-- Delete an empty directory. -/
def rmdir (connect : Prog Error σ (TreeBackend σ)) (path : String) : Prog Error (Cli σ δ) Unit :=
  withBackend connect fun backend => do
    let path ← ofExcept (VfsPath.new path)
    onBackend (backend.removeDir path)

/-- Rename or move an entry within the backend. -/
def mv (connect : Prog Error σ (TreeBackend σ)) (fromPath toPath : String) :
    Prog Error (Cli σ δ) Unit :=
  withBackend connect fun backend => do
    let fromPath ← ofExcept (VfsPath.new fromPath)
    let toPath ← ofExcept (VfsPath.new toPath)
    onBackend (backend.rename fromPath toPath)

/-! ### Connecting and shutting down -/

variable {s : Cli σ δ} {path : String}

/-- A command that succeeds has shut down after its work. -/
theorem wp_command_done {B : Type} (storage : B → StorageBackend σ) {connect : Prog Error σ B}
    {Q : Cli σ δ → Prop} {p : Post Error σ B} {work : B → Prog Error (Cli σ δ) Unit}
    (hconnect : wp connect p s.world.1)
    (hwork : ∀ b w, p.ret b w → wp (work b) (ifDone fun _ s' => wp (storage b).shutdown
      (ifDone fun _ w' => Q { s' with world := (w', s'.world.2) }) s'.world.1)
      { s with world := (w, s.world.2) }) :
    wp (do
      let backend ← onBackend connect
      let outcome ← capture (work backend)
      finish (storage backend) outcome) (ifDone fun _ => Q) s := by
  refine (wp_bind _ _).mpr (wp_onBackend.mpr (wp_done hconnect fun b w hb => ?_))
  refine (wp_bind _ _).mpr ((wp_capture _).mpr (wp_mono (hwork b w hb) ?_ ?_ (fun _ _ => trivial)))
  · intro _ s' hshut
    exact (wp_bind _ _).mpr ((wp_capture _).mpr (wp_onBackend.mpr
      (wp_mono hshut (fun _ _ h => h) (fun _ _ _ => trivial) (fun _ _ => trivial))))
  · -- the work has failed, and so does the command
    intro e s' _
    exact (wp_bind _ _).mpr ((wp_capture _).mpr (wp_onBackend.mpr
      (wp_of_forall (fun _ _ => trivial) (fun _ _ => trivial) (fun _ => trivial))))

/-- The path of a command that succeeds is one. -/
theorem wp_path_done {α : Type} {f : VfsPath → Prog Error (Cli σ δ) α} {Q : α → Cli σ δ → Prop}
    (hf : ∀ p, VfsPath.new path = .ok p → wp (f p) (ifDone Q) s) :
    wp (ofExcept (VfsPath.new path) >>= f) (ifDone Q) s := by
  rw [wp_bind, wp_ofExcept]
  cases hpath : VfsPath.new path with
  | error e => trivial
  | ok p => exact hf p hpath

/-- Shutting down writes nothing. -/
theorem wp_shutdown_out {backend : StorageBackend σ} {Q : List UInt8 → Prop} (hout : Q s.out) :
    wp backend.shutdown (ifDone fun _ w => Q ({ s with world := (w, s.world.2) } : Cli σ δ).out)
      s.world.1 :=
  wp_of_forall (fun _ _ => hout) (fun _ _ => trivial) (fun _ => trivial)

end Cli

/-! ### The command line -/

/-- What is asked for, at which endpoint. -/
inductive Command
  | ls (uri path : String)
  | stat (uri path : String)
  | cat (uri path : String)
  | get (uri path dest : String)
  | put (uri path src : String)
  | mkdir (uri path : String)
  | rm (uri path : String)
  | rmdir (uri path : String)
  | mv (uri fromPath toPath : String)

/-- The endpoint of a command. -/
def Command.uri : Command → String
  | .ls uri _ | .stat uri _ | .cat uri _ | .get uri _ _ | .put uri _ _ | .mkdir uri _ | .rm uri _
  | .rmdir uri _ | .mv uri _ _ => uri

/-- The command line, with `--read-ahead` in a `Config`. -/
structure Args where
  user : Option String
  password : Option String
  domain : Option String
  smbSeal : Bool
  readAhead : Config
  chunk : Nat
  command : Command

/-- The credentials that `main` passes on. -/
def Args.credentials (args : Args) : Credentials := ⟨args.user, args.password, args.domain⟩

/-- The options that `main` passes on. -/
def Args.options (args : Args) : ConnectionOptions :=
  if args.smbSeal then ConnectionOptions.new.set Smb.optSeal "true" else .new

/-- What the commands read and write besides: standard output, the file to download to, and the
    one to upload, by name. -/
structure Outside (δ : Type) where
  stdout : Sink δ
  dest : String → Sink δ
  src : String → Source δ
  rfc3339 : SystemTime → String

/-- `run`, but for `schemes`, which connects to nothing. The loops have `fuel` turns. -/
def Args.run {σ δ : Type} (reg : BackendRegistry σ) (outside : Outside δ) (fuel : Nat)
    (args : Args) : Prog Error (Cli σ δ) Unit :=
  let connect := reg.connectWith args.command.uri args.credentials args.options
  let storage : Prog Error σ (StorageBackend σ) := do
    let backend ← connect
    pure backend.toStorageBackend
  match args.command with
  | .ls _ path => Cli.ls connect outside.stdout outside.rfc3339 path
  | .stat _ path => Cli.stat connect outside.stdout outside.rfc3339 path
  | .cat _ path => Cli.cat storage outside.stdout path args.readAhead args.chunk fuel
  | .get _ path dest => Cli.get storage (outside.dest dest) path args.readAhead args.chunk fuel
  | .put _ path src => Cli.put storage (outside.src src) path fuel
  | .mkdir _ path => Cli.mkdir connect path
  | .rm _ path => Cli.rm connect path
  | .rmdir _ path => Cli.rmdir connect path
  | .mv _ fromPath toPath => Cli.mv connect fromPath toPath

end Krystallos
