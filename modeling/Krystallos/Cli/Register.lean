import Krystallos.Cli.Main
import Krystallos.Cli.RoundTrip

namespace Krystallos

open Prog

/-!
# A file on either backend is a register

However many commands are run one after the other on a file, each with a connection of its own:
what `cat` and `get` write out is what the last `put` has read, or what the file held before.  It
does not matter which backend the endpoint leads to, `smb` or `file`, nor which credentials,
options, chunk and window the commands are run with.
-/

/-! ### The register -/

/-- What a command is to the file. -/
inductive FileCommand
  | cat
  | get
  | put (S : FileContent)

/-- What the file holds after it, and what it writes out. -/
def FileCommand.apply (F : FileContent) : FileCommand → FileContent × Option (List UInt8)
  | .cat | .get => (F, some F.bytes)
  | .put S => (S, none)

/-- The same of a list of them. -/
def FileCommand.applyAll (F : FileContent) :
    List FileCommand → FileContent × List (Option (List UInt8))
  | [] => (F, [])
  | c :: cs => ((applyAll (c.apply F).1 cs).1, (c.apply F).2 :: (applyAll (c.apply F).1 cs).2)

namespace Machine

variable {W V δ : Type} {m : Machine W V} {uri path : String}
  {stored : FileContent → W × Smb.Sys V → Prop} {F : FileContent} {t t' : W × Smb.Sys V}

/-! ### Endpoints that keep a file -/

/-- The endpoint `uri` keeps a file at `path`, and `stored F` says that it holds `F`: a share whose
    server keeps it, also while a connection is made, or a directory whose file system does. -/
inductive KeepsAt (m : Machine W V) (uri path : String) :
    (FileContent → W × Smb.Sys V → Prop) → Prop
  | smb {endpoint : Endpoint} {idle : V → Prop} {busy : Smb.Fh → V → Prop}
      {content : V → FileContent} (hparse : Endpoint.parse uri = .ok endpoint)
      (hscheme : endpoint.scheme = "smb") (hmax : 0 < m.limits.maxRead)
      (hconnect : ∀ v, idle v → idle (m.smbHost v).connectShare.2 ∧
        content (m.smbHost v).connectShare.2 = content v)
      (hkeeps : ∀ p, VfsPath.new path = .ok p → Smb.Keeps m.lib idle busy content p) :
      KeepsAt m uri path fun F t => Smb.Left idle content F t.2
  | file {endpoint : Endpoint} {idle : W → Prop} {busy : Local.Fd → W → Prop}
      {content : W → FileContent} (hparse : Endpoint.parse uri = .ok endpoint)
      (hscheme : endpoint.scheme = "file")
      (hkeeps : ∀ w root p, idle w → Local.Driver.connect (m.localHost w) endpoint = .ok root →
        VfsPath.new path = .ok p →
        Local.KeepsPath m.fs idle busy content (Local.resolve root p)) :
      KeepsAt m uri path fun F t => Local.Left idle content F t.1

/-- A driver that is found is connected through. -/
theorem connectWith_eq {endpoint : Endpoint} {driver : BackendDriver (W × Smb.Sys V)}
    (hparse : Endpoint.parse uri = .ok endpoint)
    (hlookup : m.registry.drivers.lookup endpoint.scheme = some driver) (credentials : Credentials)
    (options : ConnectionOptions) : m.registry.connectWith uri credentials options
      = driver.connect endpoint credentials options := by
  funext t
  simp only [BackendRegistry.connectWith, hparse, bind, Prog.ofExcept, hlookup]

/-- What a connection to such an endpoint gives hosts the file. -/
theorem KeepsAt.hostsAt (h : m.KeepsAt uri path stored) (credentials : Credentials)
    (options : ConnectionOptions) :
    ∃ up, HostsAt (do
      let backend ← m.registry.connectWith uri credentials options
      pure backend.toStorageBackend) up stored path := by
  cases h with
  | @smb endpoint idle busy content hparse hscheme hmax hconnect hkeeps =>
    refine ⟨fun F t => Smb.Up idle content F t.2, fun F t hleft => wp_bind_pure.mpr ?_⟩
    have hlookup : m.registry.drivers.lookup endpoint.scheme = some m.smbDriver := by
      rw [lookup_registry, if_pos hscheme]
    rw [connectWith_eq hparse hlookup]
    simp only [smbDriver, BackendDriver.onPart, wp_zoom, Smb.connectTo, wp_bind, wp_current,
      wp_checked, wp_ofExcept, wp_update, wp_pure]
    rcases hctx : Smb.SmbDriver.connect (m.smbHost t.2.actor.ctx.world) endpoint credentials
        options with p | e | ctx
    · trivial
    · trivial
    · obtain ⟨hidle, hF⟩ := hleft
      obtain ⟨hidle', hsame⟩ := hconnect _ hidle
      rw [← Smb.world_of_connect hctx] at hidle' hsame
      refine ⟨⟨rfl, rfl, rfl, rfl, rfl, hidle', hsame.trans hF⟩, fun p hp => ?_⟩
      exact (Smb.hosts_backend (hkeeps p hp) hmax).onPart fun _ _ => rfl
  | @file endpoint idle busy content hparse hscheme hkeeps =>
    refine ⟨fun F t => Local.Left idle content F t.1, fun F t hleft => wp_bind_pure.mpr ?_⟩
    have hlookup : m.registry.drivers.lookup endpoint.scheme = some m.localDriver := by
      rw [lookup_registry, if_neg (by rw [hscheme]; decide), if_pos hscheme]
    rw [connectWith_eq hparse hlookup]
    simp only [localDriver, BackendDriver.onPart, wp_zoom, Local.connectTo, wp_bind, wp_current,
      wp_ofExcept, wp_pure]
    cases hroot : Local.Driver.connect (m.localHost t.1) endpoint with
    | error e => trivial
    | ok root =>
      refine ⟨hleft, fun p hp => ?_⟩
      exact (Local.hosts_backend (hkeeps t.1 root p hleft.1 hroot hp)).onPart fun _ _ => rfl

/-! ### Commands one after the other -/

/-- A command on the file that has succeeded, from one world to another, with what it has written
    out. -/
inductive Succeeds (m : Machine W V) (outside : Outside δ) (uri path : String) :
    FileCommand → Option (List UInt8) → W × Smb.Sys V → W × Smb.Sys V → Prop
  | cat {args : Args} {fuel : Nat} {s s' : Cli (W × Smb.Sys V) δ}
      (hcommand : args.command = .cat uri path) (hchunk : 0 < args.chunk) (hout : s.out = [])
      (hrun : m.main outside fuel args s = .ok (.ok (), s')) :
      Succeeds m outside uri path .cat (some s'.out) s.world.1 s'.world.1
  | get {args : Args} {dest : String} {fuel : Nat} {s s' : Cli (W × Smb.Sys V) δ}
      (hcommand : args.command = .get uri path dest) (hchunk : 0 < args.chunk)
      (hrun : m.main outside fuel args s = .ok (.ok (), s')) :
      Succeeds m outside uri path .get (some s'.out) s.world.1 s'.world.1
  | put {args : Args} {src : String} {fuel : Nat} {s s' : Cli (W × Smb.Sys V) δ} {S : FileContent}
      {closed : δ → Prop} {source : Nat → δ → Prop}
      (hcommand : args.command = .put uri path src)
      (hsrc : (outside.src src).Streams closed source S.bytes) (hclosed : closed s.disk)
      (hrun : m.main outside fuel args s = .ok (.ok (), s')) :
      Succeeds m outside uri path (.put S) none s.world.1 s'.world.1

/-- Commands that have succeeded one after the other, each a process of its own. -/
inductive History (m : Machine W V) (outside : Outside δ) (uri path : String) :
    List (FileCommand × Option (List UInt8)) → W × Smb.Sys V → W × Smb.Sys V → Prop
  | nil (t : W × Smb.Sys V) : History m outside uri path [] t t
  | cons {c : FileCommand} {out : Option (List UInt8)} {t t' t'' : W × Smb.Sys V}
      {cs : List (FileCommand × Option (List UInt8))}
      (head : m.Succeeds outside uri path c out t t')
      (tail : History m outside uri path cs t' t'') :
      History m outside uri path ((c, out) :: cs) t t''

variable {outside : Outside δ}

/-- **One command** does what it does to a register. -/
theorem Succeeds.apply {c : FileCommand} {out : Option (List UInt8)}
    (hkeeps : m.KeepsAt uri path stored) (hF : stored F t)
    (h : m.Succeeds outside uri path c out t t') :
    stored (c.apply F).1 t' ∧ out = (c.apply F).2 := by
  cases h with
  | @cat args fuel s s' hcommand hchunk hout hrun =>
    obtain ⟨up, hhosts⟩ := hkeeps.hostsAt args.credentials args.options
    rw [Machine.main, Args.run, hcommand] at hrun
    obtain ⟨hout', hleft⟩ := wp_ret (Cli.wp_cat_hosts hhosts hF (.inl hchunk) args.readAhead fuel
      hout) hrun
    exact ⟨hleft, congrArg some hout'⟩
  | @get args dest fuel s s' hcommand hchunk hrun =>
    obtain ⟨up, hhosts⟩ := hkeeps.hostsAt args.credentials args.options
    rw [Machine.main, Args.run, hcommand] at hrun
    obtain ⟨hout, hleft⟩ := wp_ret (Cli.wp_get_hosts hhosts hF (.inl hchunk) args.readAhead fuel)
      hrun
    exact ⟨hleft, congrArg some hout⟩
  | @put args src fuel s s' S closed source hcommand hsrc hclosed hrun =>
    obtain ⟨up, hhosts⟩ := hkeeps.hostsAt args.credentials args.options
    rw [Machine.main, Args.run, hcommand] at hrun
    exact ⟨wp_ret (Cli.wp_put_hosts hhosts hF hsrc hclosed fuel) hrun, rfl⟩

/-- **A file is a register**, on either backend: after any commands it holds what the last `put` has
    read, and each `cat` and `get` has written out what it held then. -/
theorem main_register {cs : List (FileCommand × Option (List UInt8))}
    (hkeeps : m.KeepsAt uri path stored) (hF : stored F t)
    (hrun : m.History outside uri path cs t t') :
    stored (FileCommand.applyAll F (cs.map Prod.fst)).1 t' ∧
      cs.map Prod.snd = (FileCommand.applyAll F (cs.map Prod.fst)).2 := by
  induction hrun generalizing F with
  | nil t => exact ⟨hF, rfl⟩
  | cons head tail ih =>
    obtain ⟨hstored, rfl⟩ := head.apply hkeeps hF
    obtain ⟨hend, houts⟩ := ih hstored
    exact ⟨hend, congrArg (_ :: ·) houts⟩

/-! ### A share and a directory -/

/-- A share and a directory with one file each. -/
def oneFile : Machine FileContent FileContent where
  fs := Local.oneFileFs
  localHost _ := Local.oneFileHost
  lib := Smb.oneFileLib
  smbHost := Smb.ConnectHost.ready Smb.oneFileLib
  limits := Smb.oneLimits
  fuel := 4

theorem keepsAt_share : oneFile.KeepsAt "smb://host/share" "/a"
    fun F t => Smb.Left (fun _ => True) id F t.2 := by
  have hparse : Endpoint.parse "smb://host/share"
      = .ok ⟨"smb", "host/share", "smb://host/share"⟩ := by decide
  exact .smb hparse rfl (by decide) (fun _ _ => ⟨trivial, rfl⟩) fun p _ => Smb.keeps_oneFile p

theorem keepsAt_directory : oneFile.KeepsAt "file:///srv" "/a"
    fun F t => Local.Left (fun _ => True) id F t.1 := by
  have hparse : Endpoint.parse "file:///srv" = .ok ⟨"file", "/srv", "file:///srv"⟩ := by decide
  exact .file hparse rfl fun _ root p _ _ _ => Local.keepsPath_oneFile (Local.resolve root p)

/-- Five bytes to upload, and nothing that fails. -/
def fiveBytes : Outside Nat where
  stdout := ⟨fun d => (.ok (), d), fun _ d => (none, d), fun d => (.ok (), d)⟩
  dest _ := ⟨fun d => (.ok (), d), fun _ d => (none, d), fun d => (.ok (), d)⟩
  src _ := Source.memory [1, 2, 3, 4, 5]
  rfc3339 _ := ""

/-- A command line, with read-ahead. -/
def commandLine (command : Command) : Args :=
  ⟨none, none, none, false, ⟨64, 4, by decide⟩, 3, command⟩

/-- A process of its own, in a world that another one may have left. -/
def started (t : FileContent × Smb.Sys FileContent) : Cli (FileContent × Smb.Sys FileContent) Nat :=
  ⟨(t, ReadAhead.init), 0, []⟩

/-- What a process of its own returns and leaves. -/
def process (command : Command) (t : FileContent × Smb.Sys FileContent) :
    Option (Unit × Cli (FileContent × Smb.Sys FileContent) Nat) :=
  returned (oneFile.main fiveBytes 9 (commandLine command) (started t))

/-- An upload, and a download behind it. -/
theorem history_oneFile {uri : String} {t : FileContent × Smb.Sys FileContent}
    (hboth : ((process (.put uri "/a" "b") t).bind fun x =>
      process (.get uri "/a" "c") x.2.world.1).isSome = true) :
    ∃ out t', oneFile.History fiveBytes uri "/a"
      [(.put ⟨[1, 2, 3, 4, 5], by decide⟩, none), (.get, some out)] t t' := by
  obtain ⟨y, hy⟩ := Option.isSome_iff_exists.mp hboth
  obtain ⟨x, hx, hget⟩ := Option.bind_eq_some_iff.mp hy
  obtain ⟨⟨⟩, s₁, hs₁, hput⟩ := exists_of_returned (Option.isSome_iff_exists.mpr ⟨x, hx⟩)
  obtain rfl : x = ((), s₁) := Option.some.inj (hx.symm.trans hs₁)
  obtain ⟨⟨⟩, s₂, -, hget⟩ := exists_of_returned (Option.isSome_iff_exists.mpr ⟨y, hget⟩)
  have hfirst : oneFile.Succeeds fiveBytes uri "/a" (.put ⟨[1, 2, 3, 4, 5], by decide⟩) none
      (started t).world.1 s₁.world.1 :=
    .put (show (commandLine (.put uri "/a" "b")).command = _ from rfl) (Source.streams_memory _)
      trivial hput
  have hsecond : oneFile.Succeeds fiveBytes uri "/a" .get (some s₂.out)
      (started s₁.world.1).world.1 s₂.world.1 :=
    .get (show (commandLine (.get uri "/a" "c")).command = _ from rfl) (Nat.succ_pos 2) hget
  exact ⟨s₂.out, s₂.world.1, .cons hfirst (.cons hsecond (.nil _))⟩

/-- What was put is gotten, from the share and from the directory. -/
theorem main_register_oneFile :
    (∃ out t', oneFile.History fiveBytes "smb://host/share" "/a"
      [(.put ⟨[1, 2, 3, 4, 5], by decide⟩, none), (.get, some out)]
      (⟨[8], by decide⟩, Smb.Sys.init ⟨[9], by decide⟩) t' ∧ out = [1, 2, 3, 4, 5]) ∧
    ∃ out t', oneFile.History fiveBytes "file:///srv" "/a"
      [(.put ⟨[1, 2, 3, 4, 5], by decide⟩, none), (.get, some out)]
      (⟨[8], by decide⟩, Smb.Sys.init ⟨[9], by decide⟩) t' ∧ out = [1, 2, 3, 4, 5] := by
  let t : FileContent × Smb.Sys FileContent := (⟨[8], by decide⟩, Smb.Sys.init ⟨[9], by decide⟩)
  have hshare : ((process (.put "smb://host/share" "/a" "b") t).bind fun x =>
      process (.get "smb://host/share" "/a" "c") x.2.world.1).isSome = true := by
    decide +kernel
  have hdirectory : ((process (.put "file:///srv" "/a" "b") t).bind fun x =>
      process (.get "file:///srv" "/a" "c") x.2.world.1).isSome = true := by
    decide +kernel
  constructor
  · obtain ⟨out, t', hhistory⟩ := history_oneFile hshare
    obtain ⟨-, houts⟩ := main_register keepsAt_share ⟨trivial, rfl⟩ hhistory
    exact ⟨out, t', hhistory, by simpa [FileCommand.applyAll, FileCommand.apply] using houts⟩
  · obtain ⟨out, t', hhistory⟩ := history_oneFile hdirectory
    obtain ⟨-, houts⟩ := main_register keepsAt_directory ⟨trivial, rfl⟩ hhistory
    exact ⟨out, t', hhistory, by simpa [FileCommand.applyAll, FileCommand.apply] using houts⟩

end Machine

end Krystallos
