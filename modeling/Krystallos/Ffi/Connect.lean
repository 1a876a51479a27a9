import Krystallos.Ffi.Session
import Krystallos.Local.Files
import Krystallos.Smb.Connect

namespace Krystallos.Ffi

open Checked (Panic)
open Smb (ConnectConfig ConnectHost ParsedEndpoint SmbContext ended firstNul nulError)

/-!
# `Kernel::connect`, and where its password is shown

A request is taken apart and given to the driver of its scheme.  Of two requests that differ
in the password only, the credentials are shown alike, the requests are not (`debug_iff`), and
the attempts end alike unless the password is the text with a NUL that the attempt fails on:
`Kernel.connect_ended_iff`.
-/

/-! ### Requests -/

/-- Everything needed to open a session. -/
structure ConnectRequest where
  uri : String
  username : Option String
  password : Option String
  domain : Option String
  smbSeal : Bool
deriving DecidableEq, Repr

namespace ConnectRequest

/-- The `Debug` that is derived. -/
def debug (t : CharTables) (r : ConnectRequest) : String :=
  debugStruct "ConnectRequest"
    [("uri", debugStr t r.uri),
     ("username", debugOption (debugStr t) r.username),
     ("password", debugOption (debugStr t) r.password),
     ("domain", debugOption (debugStr t) r.domain),
     ("smb_seal", debugBool r.smbSeal)]

/-- `into_parts`. -/
def intoParts (r : ConnectRequest) : String × Credentials × ConnectionOptions :=
  let options := ConnectionOptions.new
  (r.uri, ⟨r.username, r.password, r.domain⟩,
    if r.smbSeal then options.set Smb.optSeal "true" else options)

end ConnectRequest

/-! ### The kernel -/

/-- The drivers a build has. -/
inductive Driver
  | file
  | smb
deriving DecidableEq, Repr

/-- `Kernel::new`: the drivers, by their schemes. -/
def drivers : List (String × Driver) := [("file", .file), ("smb", .smb)]

/-- What there is to connect to. -/
structure Hosts (W : Type) where
  files : Local.LocalHost
  share : ConnectHost W

/-- A backend that was connected. -/
inductive Backend (W : Type)
  | file (root : String)
  | smb (context : SmbContext W)

/-- The session that `connect` returns. -/
structure NewSession (W : Type) where
  backend : Backend W
  endpoint : String
  closed : Bool

variable {W : Type}

/-- `BackendDriver::connect`, by each of the drivers. -/
def Driver.connect (hosts : Hosts W) (endpoint : Endpoint) (credentials : Credentials)
    (options : ConnectionOptions) : Driver → Outcome (Backend W)
  | .file => .ok ((Local.Driver.connect hosts.files endpoint).map .file)
  | .smb =>
    (Smb.SmbDriver.connect hosts.share endpoint credentials options).map fun r => r.map .smb

/-- `BackendRegistry::connect_with`. -/
def connectWith (hosts : Hosts W) (uri : String) (credentials : Credentials)
    (options : ConnectionOptions) : Outcome (Backend W) :=
  match Endpoint.parse uri with
  | .error e => .ok (.error e)
  | .ok endpoint =>
    match drivers.lookup endpoint.scheme with
    | none => .ok (.error (.unsupported "connect: no driver registered for this scheme"))
    | some driver => driver.connect hosts endpoint credentials options

/-- `Kernel::connect`. -/
def Kernel.connect (hosts : Hosts W) (request : ConnectRequest) :
    Except Panic (Except KernelError (NewSession W)) :=
  let (uri, credentials, options) := request.intoParts
  (connectWith hosts uri credentials options).map fun r => do
    let backend ← r.mapError .ofCore
    .ok ⟨backend, uri, false⟩

/-! ### Where the password is shown -/

/-- The share a request names, if it names one. -/
def ConnectRequest.target (request : ConnectRequest) : Option ParsedEndpoint :=
  match Endpoint.parse request.uri with
  | .ok endpoint =>
    if drivers.lookup endpoint.scheme = some .smb then
      (ParsedEndpoint.parse endpoint.authorityAndPath).toOption
    else none
  | .error _ => none

/-- The config a driver makes for it. -/
def ConnectRequest.config (request : ConnectRequest) (parsed : ParsedEndpoint) : ConnectConfig :=
  parsed.config request.intoParts.2.1 request.intoParts.2.2

/-- The backend a request is given, with a password in place. -/
def ConnectRequest.open (hosts : Hosts W) (request : ConnectRequest) (p : Option String) :
    Outcome (Backend W) :=
  connectWith hosts request.uri ⟨request.username, p, request.domain⟩ request.intoParts.2.2

theorem ended_connect (hosts : Hosts W) (request : ConnectRequest) (p : Option String) :
    (Kernel.connect hosts { request with password := p }).map ended =
      (request.open hosts p).map fun r => (ended r).mapError .ofCore := by
  show ((request.open hosts p).map _).map ended = _
  rcases request.open hosts p with q | e | backend <;> rfl

/-- A request for a share is an attempt at that share. -/
theorem open_share {request : ConnectRequest} {parsed : ParsedEndpoint}
    (htarget : request.target = some parsed) (hosts : Hosts W) (p : Option String) :
    request.open hosts p =
      (Smb.Session.connect hosts.share { request.config parsed with password := p }).map
        fun r => r.map .smb := by
  unfold ConnectRequest.target at htarget
  rcases hendpoint : Endpoint.parse request.uri with e | endpoint <;>
    simp only [hendpoint] at htarget
  · exact absurd htarget nofun
  · split_ifs at htarget with hscheme
    simp only [ConnectRequest.open, connectWith, hendpoint, hscheme, Driver.connect,
      Smb.SmbDriver.connect]
    rcases hparse : ParsedEndpoint.parse endpoint.authorityAndPath with e | parsed' <;>
      rw [hparse] at htarget
    · exact absurd htarget nofun
    · obtain rfl := Option.some.inj htarget
      rfl

/-- A request for anything else never looks at the password. -/
theorem open_of_no_target {request : ConnectRequest} (htarget : request.target = none)
    (hosts : Hosts W) (p q : Option String) : request.open hosts p = request.open hosts q := by
  unfold ConnectRequest.target at htarget
  rcases hendpoint : Endpoint.parse request.uri with e | endpoint <;>
    simp only [hendpoint] at htarget <;>
    simp only [ConnectRequest.open, connectWith, hendpoint]
  rcases hdriver : drivers.lookup endpoint.scheme with _ | _ | _
  · rfl
  · rfl
  · -- the endpoint names no share
    rw [if_pos hdriver] at htarget
    simp only [Driver.connect, Smb.SmbDriver.connect]
    rcases hparse : ParsedEndpoint.parse endpoint.authorityAndPath with e | parsed
    · rfl
    · rw [hparse] at htarget
      exact absurd htarget nofun

/-- A `KernelError` tells a NUL from everything else. -/
theorem ofCore_nul {e : Error} {shown : String}
    (h : KernelError.ofCore e = .ofCore (nulError shown)) : e = nulError shown := by
  rcases e with _ | _ | _ | _ | _ | _ | ⟨path, reason⟩ | _ | _ | _ | _ | _
  case invalidPath =>
    obtain ⟨rfl, rfl⟩ := KernelError.invalidPath.inj h
    rfl
  all_goals cases h

/-- **Two passwords, one error**: attempts that differ in the password end alike, unless they
    get as far as the texts of a share and the first NUL is not in the same text. -/
theorem Kernel.connect_ended_iff (hosts : Hosts W) (request : ConnectRequest)
    (p q : Option String) :
    (Kernel.connect hosts { request with password := p }).map ended =
        (Kernel.connect hosts { request with password := q }).map ended ↔
      ∀ parsed, request.target = some parsed → hosts.share.Ready (request.config parsed) →
        firstNul { request.config parsed with password := p }.texts =
          firstNul { request.config parsed with password := q }.texts := by
  rw [ended_connect, ended_connect]
  rcases htarget : request.target with _ | parsed
  · rw [open_of_no_target htarget hosts p q]
    exact ⟨fun _ => nofun, fun _ => rfl⟩
  · -- the password is first looked at by the share's connection
    have hmap : ∀ p, ((request.open hosts p).map fun r => (ended r).mapError KernelError.ofCore) =
        (Smb.Session.connect hosts.share { request.config parsed with password := p }).map
          fun r => (ended r).mapError KernelError.ofCore := by
      intro p
      rw [open_share htarget]
      rcases Smb.Session.connect hosts.share { request.config parsed with password := p } with
        q | e | context <;> rfl
    rw [hmap, hmap, Smb.Session.connect_ended_iff (fun e shown => ofCore_nul)]
    constructor
    · intro h parsed' hparsed
      obtain rfl := Option.some.inj hparsed
      exact h
    · exact fun h => h parsed rfl

/-- A request is shown with its password. -/
theorem ConnectRequest.debug_iff (t : CharTables) (request : ConnectRequest) (p q : String) :
    { request with password := some p }.debug t = { request with password := some q }.debug t ↔
      p = q := by
  have hfive : ∀ a b c d e : String,
      ", ".intercalate [a, b, c, d, e] = a ++ ", " ++ b ++ ", " ++ c ++ ", " ++ d ++ ", " ++ e :=
    fun _ _ _ _ _ => rfl
  simp only [ConnectRequest.debug, debugStruct, List.map_cons, List.map_nil, hfive,
    String.append_right_inj, String.append_left_inj, debugOption, (debugStr_injective t).eq_iff]

/-- Nothing that is shown of an attempt tells two passwords apart. -/
structure ShownAlike (t : CharTables) (hosts : Hosts W) (config : ConnectConfig)
    (request : ConnectRequest) (p q : String) : Prop where
  requests : { request with password := some p }.debug t =
    { request with password := some q }.debug t
  credentials : { request with password := some p }.intoParts.2.1.debug t =
    { request with password := some q }.intoParts.2.1.debug t
  contexts : (SmbContext.connect hosts.share { config with password := some p }).map ended =
    (SmbContext.connect hosts.share { config with password := some q }).map ended
  kernels : (Kernel.connect hosts { request with password := some p }).map ended =
    (Kernel.connect hosts { request with password := some q }).map ended

/-- **What shows a password**: the `Debug` of the request always, that of the credentials never,
    and an error where it is of the first text with a NUL and the passwords make that another. -/
theorem shownAlike_iff (t : CharTables) (hosts : Hosts W) (config : ConnectConfig)
    (request : ConnectRequest) (p q : String) :
    (ShownAlike t hosts config request p q ↔ p = q) ∧
    { request with password := some p }.intoParts.2.1.debug t =
      { request with password := some q }.intoParts.2.1.debug t ∧
    ((SmbContext.connect hosts.share { config with password := some p }).map ended =
        (SmbContext.connect hosts.share { config with password := some q }).map ended ↔
      (hosts.share.network = .ok () → hosts.share.context = true →
        firstNul { config with password := some p }.texts =
          firstNul { config with password := some q }.texts)) ∧
    ((Kernel.connect hosts { request with password := some p }).map ended =
        (Kernel.connect hosts { request with password := some q }).map ended ↔
      ∀ parsed, request.target = some parsed → hosts.share.Ready (request.config parsed) →
        firstNul { request.config parsed with password := some p }.texts =
          firstNul { request.config parsed with password := some q }.texts) := by
  refine ⟨⟨?_, ?_⟩, rfl, SmbContext.connect_ended_iff hosts.share config (some p) (some q),
    Kernel.connect_ended_iff hosts request (some p) (some q)⟩
  · exact fun h => (request.debug_iff t p q).mp h.requests
  · rintro rfl
    exact ⟨rfl, rfl, rfl, rfl⟩

/-- A build with a share to connect to. -/
def demoHosts : Hosts Smb.MemServer where
  files := ⟨false, fun _ => .error ⟨.notFound, ""⟩, fun _ => .error ⟨.notFound, ""⟩⟩
  share := ⟨Smb.MemServer.lib .none, .ok (), .ok (), true, (0, .holding "a" (.file []))⟩

/-- Tables that call every character printable. -/
def demoTables : CharTables := ⟨fun _ => false, fun _ => true⟩

/-- A password with a NUL comes back in the error, and any password in the request's `Debug`. -/
theorem connect_shows_password :
    (Kernel.connect demoHosts
      ⟨"smb://host/share", some "alice", some "red\x00", none, false⟩).map ended =
        .ok (.error (.invalidPath "red\\0" "contains an interior NUL byte")) ∧
    (Kernel.connect demoHosts
      ⟨"smb://host/share", some "alice", some "blue\x00", none, false⟩).map ended =
        .ok (.error (.invalidPath "blue\\0" "contains an interior NUL byte")) ∧
    (ConnectRequest.debug demoTables
      ⟨"smb://host/share", some "alice", some "hunter2", none, false⟩) =
        "ConnectRequest \x7b uri: \x22smb://host/share\x22, username: Some(\x22alice\x22), " ++
          "password: Some(\x22hunter2\x22), domain: None, smb_seal: false \x7d" := by
  refine ⟨rfl, rfl, ?_⟩
  decide +kernel

end Krystallos.Ffi
