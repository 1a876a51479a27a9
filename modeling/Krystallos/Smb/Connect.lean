import Krystallos.Core.Registry
import Krystallos.Smb.Classify

namespace Krystallos.Smb

open Checked

/-!
# Connecting to a share

`SmbDriver::connect` down to `SmbContext::connect`: the endpoint is taken apart, a thread is
started that has the share in its name, the texts become C strings, and libsmb2 is asked to
connect.  What the host and the server do is given, `ConnectHost`.  A name with a NUL is a panic;
after that the first text that is no C string is the error (`firstNul`), and no other error of an
attempt shows a text of it but the endpoint's (`serve_ne`).
-/

/-- Connection option: request SMB3 transport encryption. -/
def optSeal : String := "smb.seal"

/-- `DEFAULT_TIMEOUT_SECS`. -/
def defaultTimeoutSecs : Nat := 20

/-- `ConnectionOptions::get_bool`: a value that is no boolean reads as absent. -/
def getBool (o : ConnectionOptions) (key : String) : Option Bool := do
  let value ← o.get key
  let word := String.ofList ((trim value).toList.map Char.toLower)
  if word ∈ ["1", "true", "yes", "on"] then some true
  else if word ∈ ["0", "false", "no", "off"] then some false
  else none

/-- An SMB endpoint split into its parts. -/
structure ParsedEndpoint where
  server : String
  share : String
  user : Option String
  domain : Option String
deriving DecidableEq, Repr

namespace ParsedEndpoint

/-- `ParsedEndpoint::parse`: `[domain;][user@]server/share`. -/
def parse (authorityAndPath : String) : Result ParsedEndpoint :=
  match splitOnce ['/'] authorityAndPath.toList with
  | none => .error (.invalidPath authorityAndPath
      "an SMB endpoint must name a share, e.g. `smb://host/share`")
  | some (authority, rest) =>
    let share := rest.takeWhile (· ≠ '/')
    if share = [] then .error (.invalidPath authorityAndPath "the share name is empty")
    else
      let (domain, rest) :=
        match splitOnce [';'] authority with
        | some (d, rest) => (some d, rest)
        | none => (none, authority)
      let (user, server) :=
        match splitOnce ['@'] rest with
        | some (u, s) => (some u, s)
        | none => (none, rest)
      if server = [] then .error (.invalidPath authorityAndPath "the server name is empty")
      else .ok
        { server := String.ofList server
          share := String.ofList share
          user := (user.filter (· ≠ [])).map String.ofList
          domain := (domain.filter (· ≠ [])).map String.ofList }

/-- Canonical endpoint string. -/
def label (p : ParsedEndpoint) : String := "smb://" ++ p.server ++ "/" ++ p.share

end ParsedEndpoint

/-- Everything needed to open a session. -/
structure ConnectConfig where
  server : String
  share : String
  user : Option String
  password : Option String
  domain : Option String
  sealed : Bool
  timeoutSecs : Nat
  label : String
deriving DecidableEq, Repr

/-- The config a driver makes: credentials passed explicitly win over the URI's. -/
def ParsedEndpoint.config (p : ParsedEndpoint) (credentials : Credentials)
    (options : ConnectionOptions) : ConnectConfig where
  server := p.server
  share := p.share
  user := credentials.username.or p.user
  password := credentials.password
  domain := credentials.domain.or p.domain
  sealed := (getBool options optSeal).getD false
  timeoutSecs := defaultTimeoutSecs
  label := p.label

/-- What the host and the server do: whether the thread starts, the network is ready and a
    context is allocated, and what `smb2_connect_share` returns and leaves behind. -/
structure ConnectHost (W : Type) where
  lib : Libsmb2 W
  spawn : Except IoError Unit
  network : Except String Unit
  context : Bool
  connectShare : Int × W

/-- A context that is connected, with the settings it was given. -/
structure SmbContext (W : Type) where
  world : W
  config : ConnectConfig

variable {W : Type}

/-- The C strings of a config, in the order they are made. -/
def ConnectConfig.cstrings (config : ConnectConfig) : Result Unit := do
  let _ ← config.user.mapM cstring
  let _ ← config.password.mapM cstring
  let _ ← config.domain.mapM cstring
  let _ ← cstring config.server
  let _ ← cstring config.share

/-- `smb2_connect_share`, with the settings in place. -/
def SmbContext.serve (host : ConnectHost W) (config : ConnectConfig) : Outcome (SmbContext W) :=
  let (rc, w) := host.connectShare
  if rc ≠ 0 then
    match fromParts host.lib.errno host.lib.statusName (host.lib.nterror w) rc
        (host.lib.message w) (some config.label) with
    | .ok e => .ok (.error e)
    | .error p => .error p
  else .ok (.ok ⟨w, config⟩)

/-- `SmbContext::connect`. -/
def SmbContext.connect (host : ConnectHost W) (config : ConnectConfig) :
    Outcome (SmbContext W) :=
  match host.network with
  | .error message => .ok (.error (.backend message))
  | .ok () =>
    if host.context then
      match config.cstrings with
      | .error e => .ok (.error e)
      | .ok () => SmbContext.serve host config
    else .ok (.error (.backend "libsmb2 could not allocate a session context"))

/-- What the thread reports: one that dies reports nothing. -/
def reported {α : Type} : Outcome α → Result α
  | .ok r => r
  | .error _ => .error (.connectionLost "the SMB session thread exited before reporting a result")

/-- The name of the session thread. -/
def ConnectConfig.threadName (config : ConnectConfig) : String := "krystallos-smb " ++ config.label

/-- `thread::Builder::spawn`, which panics over a name with a NUL in it. -/
def spawnNamed (host : ConnectHost W) (name : String) : Outcome Unit :=
  if '\x00' ∈ name.toList then
    .error (.expect "thread name may not contain interior null bytes")
  else .ok (host.spawn.mapError .io)

/-- `Session::connect`. -/
def Session.connect (host : ConnectHost W) (config : ConnectConfig) : Outcome (SmbContext W) :=
  (spawnNamed host config.threadName).map fun spawned => do
    let () ← spawned
    reported (SmbContext.connect host config)

/-- `SmbDriver::connect`. -/
def SmbDriver.connect (host : ConnectHost W) (endpoint : Endpoint) (credentials : Credentials)
    (options : ConnectionOptions) : Outcome (SmbContext W) :=
  match ParsedEndpoint.parse endpoint.authorityAndPath with
  | .error e => .ok (.error e)
  | .ok parsed => Session.connect host (parsed.config credentials options)

/-! ### The first text with a NUL -/

/-- A text with a NUL in it, as an error shows it. -/
def nulText (s : String) : Option String :=
  if '\x00' ∈ s.toList then
    some (String.ofList (s.toList.flatMap fun c => if c = '\x00' then ['\\', '0'] else [c]))
  else none

/-- The first of some texts that has a NUL in it, as an error shows it. -/
def firstNul (texts : List String) : Option String := texts.findSome? nulText

/-- The texts that become C strings. -/
def ConnectConfig.texts (config : ConnectConfig) : List String :=
  config.user.toList ++ config.password.toList ++ config.domain.toList ++
    [config.server, config.share]

/-- The error `cstring` has for a text with a NUL. -/
def nulError (shown : String) : Error := .invalidPath shown "contains an interior NUL byte"

/-- A text becomes a C string unless it has a NUL in it, which the error shows. -/
theorem cstring_eq (s : String) :
    cstring s = ((nulText s).map nulError).elim (.ok s) .error := by
  unfold cstring nulText
  split <;> rfl

/-- So does a text that may be left out. -/
theorem mapM_cstring (s : Option String) :
    s.mapM cstring = ((firstNul s.toList).map nulError).elim (.ok s) .error := by
  rcases s with _ | s
  · rfl
  · show (do let t ← cstring s; pure (some t)) = _
    rw [cstring_eq, Option.toList_some, firstNul, List.findSome?_singleton]
    rcases nulText s with _ | shown <;> rfl

/-- **The first NUL** decides whether the C strings of a config can be made. -/
theorem cstrings_eq (config : ConnectConfig) :
    config.cstrings = ((firstNul config.texts).map nulError).elim (.ok ()) .error := by
  simp only [ConnectConfig.cstrings, ConnectConfig.texts, mapM_cstring, cstring_eq, firstNul,
    List.findSome?_append, List.findSome?_cons, List.findSome?_nil]
  rcases List.findSome? nulText config.user.toList with _ | shown
  · rcases List.findSome? nulText config.password.toList with _ | shown
    · rcases List.findSome? nulText config.domain.toList with _ | shown
      · rcases nulText config.server with _ | shown
        · rcases nulText config.share with _ | shown <;> rfl
        · rfl
      · rfl
    · rfl
  · rfl

/-! ### How an attempt ends -/

/-- How a call ended: with an error, or not. -/
def ended {ε α : Type} (r : Except ε α) : Except ε Unit := r.map fun _ => ()

/-- No report of the library is taken for a NUL. -/
theorem fromParts_ne {plat : Errno} {statusName : Nat → String} {nterror : Nat} {rc : Int}
    {message shown : String} {path : Option String} {e : Error}
    (h : fromParts plat statusName nterror rc message path = .ok e) : e ≠ nulError shown := by
  rintro rfl
  have hne := variantOf_fromParts_ne plat statusName nterror rc message path
  rw [h] at hne
  exact hne rfl

/-- What the library answers is never the error of a NUL. -/
theorem serve_ne (host : ConnectHost W) (config : ConnectConfig) (shown : String) :
    (SmbContext.serve host config).map ended ≠ .ok (.error (nulError shown)) := by
  unfold SmbContext.serve
  rcases host.connectShare with ⟨rc, w⟩
  simp only
  split_ifs with hrc
  · split
    · next e he =>
      intro h
      exact fromParts_ne he (Except.error.inj (Except.ok.inj h))
    · exact nofun
  · exact nofun

/-- How the library answers does not depend on the password. -/
theorem ended_serve (host : ConnectHost W) (config : ConnectConfig) (p q : Option String) :
    (SmbContext.serve host { config with password := p }).map ended =
      (SmbContext.serve host { config with password := q }).map ended := by
  unfold SmbContext.serve
  rcases host.connectShare with ⟨rc, w⟩
  simp only
  split_ifs with hrc
  · rcases fromParts host.lib.errno host.lib.statusName (host.lib.nterror w) rc
      (host.lib.message w) (some config.label) with _ | e <;> rfl
  · rfl

/-- An attempt that gets as far as the texts ends on the first NUL, else as the library
    answers. -/
theorem ended_connect {host : ConnectHost W} (hnetwork : host.network = .ok ())
    (hcontext : host.context = true) (config : ConnectConfig) :
    (SmbContext.connect host config).map ended =
      (firstNul config.texts).elim ((SmbContext.serve host config).map ended)
        (fun shown => .ok (.error (nulError shown))) := by
  simp only [SmbContext.connect, hnetwork, hcontext, if_true, cstrings_eq]
  rcases firstNul config.texts with _ | shown <;> rfl

/-- The ending is reported as it is. -/
theorem ended_reported {α : Type} (r : Outcome α) :
    ended (reported r) = reported (r.map ended) := by
  rcases r with p | r <;> rfl

theorem elim_inj {α β : Type} {none' : β} {some' : α → β} (hinj : Function.Injective some')
    (hne : ∀ a, none' ≠ some' a) {x y : Option α} :
    x.elim none' some' = y.elim none' some' ↔ x = y := by
  refine ⟨fun h => ?_, fun h => h ▸ rfl⟩
  rcases x with _ | a <;> rcases y with _ | b
  · rfl
  · exact absurd h (hne b)
  · exact absurd h.symm (hne a)
  · exact congrArg some (hinj h)

/-- The error shows the text. -/
theorem nulError_injective : Function.Injective nulError := by
  intro a b h
  exact (Error.invalidPath.inj h).1

/-- **Two passwords, one ending**: an attempt at a share ends alike with either, unless it gets
    as far as the texts and the first NUL is not in the same text. -/
theorem SmbContext.connect_ended_iff (host : ConnectHost W) (config : ConnectConfig)
    (p q : Option String) :
    (SmbContext.connect host { config with password := p }).map ended =
        (SmbContext.connect host { config with password := q }).map ended ↔
      (host.network = .ok () → host.context = true →
        firstNul { config with password := p }.texts =
          firstNul { config with password := q }.texts) := by
  rcases hnetwork : host.network with message | u
  · simp [SmbContext.connect, hnetwork]
  · by_cases hcontext : host.context = true
    · rw [ended_connect hnetwork hcontext, ended_connect hnetwork hcontext,
        ended_serve host config p q]
      rw [elim_inj]
      · exact ⟨fun h _ _ => h, fun h => h rfl hcontext⟩
      · intro a b h
        exact nulError_injective (Except.error.inj (Except.ok.inj h))
      · exact fun shown => serve_ne host _ shown
    · simp [SmbContext.connect, hnetwork, hcontext]

/-- The thread has a name it can have, and starts, on a network that is ready, with a context. -/
def ConnectHost.Ready (host : ConnectHost W) (config : ConnectConfig) : Prop :=
  '\x00' ∉ config.threadName.toList ∧ host.spawn = .ok () ∧ host.network = .ok () ∧
    host.context = true

/-- A name with a NUL is a panic, whatever the host does. -/
theorem Session.connect_of_nul (host : ConnectHost W) (config : ConnectConfig)
    (hnul : '\x00' ∈ config.threadName.toList) : Session.connect host config =
      .error (.expect "thread name may not contain interior null bytes") := by
  rw [Session.connect, spawnNamed, if_pos hnul]
  rfl

/-- With any other, the session reports what the thread does, if it starts. -/
theorem Session.connect_of_nulFree (host : ConnectHost W) (config : ConnectConfig)
    (hnul : '\x00' ∉ config.threadName.toList) : Session.connect host config =
      .ok ((host.spawn.mapError .io).bind fun _ => reported (SmbContext.connect host config)) := by
  rw [Session.connect, spawnNamed, if_neg hnul]
  rcases host.spawn with e | u <;> rfl

/-- The same of the session, which reports what the thread does, under any reading of errors
    that confuses a NUL with nothing else. -/
theorem Session.connect_ended_iff {ε : Type} {f : Error → ε}
    (hf : ∀ e shown, f e = f (nulError shown) → e = nulError shown) (host : ConnectHost W)
    (config : ConnectConfig) (p q : Option String) :
    (Session.connect host { config with password := p }).map (fun r => (ended r).mapError f) =
        (Session.connect host { config with password := q }).map (fun r => (ended r).mapError f) ↔
      (host.Ready config → firstNul { config with password := p }.texts =
        firstNul { config with password := q }.texts) := by
  have hpush : ∀ (x : Option String) (r : Outcome Unit),
      (reported (x.elim r fun shown => .ok (.error (nulError shown)))).mapError f =
        x.elim ((reported r).mapError f) (fun shown => .error (f (nulError shown))) := by
    intro x r
    rcases x with _ | shown <;> rfl
  by_cases hnul : '\x00' ∈ config.threadName.toList
  · -- the password is in neither name
    rw [Session.connect_of_nul host { config with password := p } hnul,
      Session.connect_of_nul host { config with password := q } hnul]
    exact ⟨fun _ hready => absurd hnul hready.1, fun _ => rfl⟩
  rw [Session.connect_of_nulFree host { config with password := p } hnul,
    Session.connect_of_nulFree host { config with password := q } hnul]
  unfold ConnectHost.Ready
  rcases host.spawn with e | u
  · simp [Except.map, Except.bind, Except.mapError]
  · simp only [Except.map, Except.bind, Except.mapError, Except.ok.injEq]
    show (ended (reported _)).mapError f = (ended (reported _)).mapError f ↔ _
    simp only [ended_reported]
    -- the texts are looked at once the network is ready and there is a context
    by_cases hready : host.network = .ok () ∧ host.context = true
    · obtain ⟨hnetwork, hcontext⟩ := hready
      rw [ended_connect hnetwork hcontext, ended_connect hnetwork hcontext,
        ended_serve host config p q, hpush, hpush, elim_inj]
      · exact ⟨fun h _ => h, fun h => h ⟨hnul, trivial, hnetwork, hcontext⟩⟩
      · exact fun a b h => nulError_injective (hf _ b (Except.error.inj h))
      · -- the library's answer is not the error of a NUL, however it is read
        intro shown h
        have hne := serve_ne host { config with password := q } shown
        rcases hserve : (SmbContext.serve host { config with password := q }).map ended with p | r
        · rw [hserve] at h
          exact absurd (hf _ shown (Except.error.inj h)) nofun
        · rw [hserve] at h hne
          rcases r with e | u
          · exact hne (congrArg (Except.ok ∘ Except.error) (hf e shown (Except.error.inj h)))
          · exact absurd h nofun
    · -- it ends before the texts
      refine ⟨fun _ h => absurd ⟨h.2.2.1, h.2.2.2⟩ hready, fun _ => ?_⟩
      rw [(SmbContext.connect_ended_iff host config p q).mpr
        (fun hnetwork hcontext => absurd ⟨hnetwork, hcontext⟩ hready)]

end Krystallos.Smb
