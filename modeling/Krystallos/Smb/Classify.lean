import Krystallos.Smb.Actor
import Krystallos.Smb.MemServer

namespace Krystallos.Smb

open Checked Prog

/-!
# Which channel classifies a failure

`from_parts` asks the NT status, then the name in the message, then the return value, and the
first that knows decides the variant (`variantOf_fromParts`).  The status may be left over from
an earlier call, so a call that does not set it is classified by its own report only under a
condition on what is left over: `staleStatus_iff`.
-/

/-- The variants of `Error`. -/
inductive Variant
  | notFound
  | permissionDenied
  | alreadyExists
  | notADirectory
  | isADirectory
  | directoryNotEmpty
  | invalidPath
  | unsupported
  | connectionLost
  | auth
  | backend
  | io
deriving DecidableEq, Repr

/-- The variant of an error. -/
def variant : Error → Variant
  | .notFound _ => .notFound
  | .permissionDenied _ => .permissionDenied
  | .alreadyExists _ => .alreadyExists
  | .notADirectory _ => .notADirectory
  | .isADirectory _ => .isADirectory
  | .directoryNotEmpty _ => .directoryNotEmpty
  | .invalidPath _ _ => .invalidPath
  | .unsupported _ => .unsupported
  | .connectionLost _ => .connectionLost
  | .auth _ => .auth
  | .backend _ => .backend
  | .io _ => .io

/-- The variant of the error that was made, if none of its arithmetic overflowed. -/
def variantOf (r : Except Panic Error) : Option Variant := r.toOption.map variant

/-! ### The channels -/

/-- The variant a status stands for. -/
def statusVariant (status : Nat) : Option Variant := (fromStatus status "" none).map variant

/-- The variant the status named in a message stands for. -/
def namedVariant (message : String) : Option Variant :=
  ((statusToken message).bind statusFromName).bind statusVariant

/-- The variant an `errno` stands for. -/
def errnoVariant (plat : Errno) (errno : Int) : Option Variant :=
  (fromErrno plat errno "" none).map variant

/-- The variant a return value stands for. Negating the least one overflows. -/
def returnVariant (plat : Errno) (rc : Int) : Option Variant :=
  if rc = -1 then some .connectionLost
  else if rc = 0 then some .backend
  else if -rc < 2 ^ 31 then some ((errnoVariant plat (-rc)).getD .backend)
  else none

/-- The variant that the message calls for, else the return value. -/
def ownVariant (plat : Errno) (rc : Int) (message : String) : Option Variant :=
  (namedVariant message).or (returnVariant plat rc)

/-- What a list of cases gives, the first that applies: one case, or one of the others. -/
theorem of_ite_some {c : Prop} [Decidable c] {a : Error} {o : Option Error} {P : Error → Prop}
    (ha : c → P a) (ho : ∀ e, o = some e → P e) :
    ∀ e, (if c then some a else o) = some e → P e := by
  intro e h
  split at h
  · next hc =>
    obtain rfl := Option.some.inj h
    exact ha hc
  · exact ho e h

/-- The variant that a status leads to does not depend on the texts. -/
theorem map_fromStatus (status : Nat) (message : String) (path : Option String) :
    (fromStatus status message path).map variant = statusVariant status := by
  simp only [statusVariant, fromStatus, apply_ite (Option.map variant), Option.map_some,
    Option.map_none, variant]

/-- Nor does that of an errno. -/
theorem map_fromErrno (plat : Errno) (errno : Int) (message : String) (path : Option String) :
    (fromErrno plat errno message path).map variant = errnoVariant plat errno := by
  simp only [errnoVariant, fromErrno, apply_ite (Option.map variant), Option.map_some,
    Option.map_none, variant]

/-- Zero is no status that is classified. -/
theorem statusVariant_zero : statusVariant 0 = none := rfl

@[simp] theorem tapPath_backend (text path : String) :
    tapPath (.backend text) path = .backend text := by
  unfold tapPath
  split <;> rfl

/-- What no channel classifies is a backend error, unless the negation overflows. -/
theorem variantOf_unclassified {statusName : Nat → String} {nterror : Nat} {rc : Int}
    {message path : String} (hrc : -rc < 2 ^ 31) :
    variantOf (do let e ← unclassified statusName nterror rc message; return tapPath e path) =
      some .backend := by
  have hbackend : ∃ text, unclassified statusName nterror rc message = .ok (.backend text) := by
    unfold unclassified negI
    rw [if_pos hrc]
    by_cases hmessage : message = ""
    · rw [if_pos hmessage]
      by_cases hzero : nterror ≠ 0
      · exact ⟨_, if_pos hzero⟩
      · exact ⟨_, if_neg hzero⟩
    · exact ⟨message, if_neg hmessage⟩
  obtain ⟨text, htext⟩ := hbackend
  rw [htext]
  show variantOf (.ok (tapPath (.backend text) path)) = _
  rw [tapPath_backend]
  rfl

/-- **The channels, in order**: the status, what the message names, the return value. -/
theorem variantOf_fromParts (plat : Errno) (statusName : Nat → String) (nterror : Nat) (rc : Int)
    (message : String) (path : Option String) :
    variantOf (fromParts plat statusName nterror rc message path) =
      (statusVariant nterror).or (ownVariant plat rc message) := by
  have hstatus : (if nterror ≠ 0 then fromStatus nterror message path else none).map variant =
      statusVariant nterror := by
    by_cases hzero : nterror = 0
    · rw [hzero]
      rfl
    · rw [if_pos hzero, map_fromStatus]
  have hname : (((statusToken message).bind statusFromName).bind fun code =>
      fromStatus code message path).map variant = namedVariant message := by
    simp only [Option.map_bind, Function.comp_def, map_fromStatus, namedVariant]
  unfold fromParts ownVariant
  rw [← hstatus, ← hname]
  -- a status that is classified decides, and then a name in the message
  rcases (if nterror ≠ 0 then fromStatus nterror message path else none) with _ | e
  · rcases ((statusToken message).bind statusFromName).bind fun code =>
      fromStatus code message path with _ | e
    · -- only the return value is left
      unfold returnVariant
      by_cases hlost : rc = -1
      · simp only [if_pos hlost]
        rfl
      · by_cases hrc : rc = 0
        · subst hrc
          exact variantOf_unclassified (by decide)
        · by_cases hneg : -rc < 2 ^ 31
          · have hnegI : negI 32 rc = .ok (-rc) := negI_ok hneg
            simp only [if_neg hlost, if_pos hneg, ne_eq, hrc, not_false_iff, if_true, if_false,
              hnegI, ← map_fromErrno plat (-rc) message path, bind, Except.bind, pure, Except.pure]
            rcases fromErrno plat (-rc) message path with _ | e
            · exact variantOf_unclassified hneg
            · rfl
          · have hnegI : negI 32 rc = .error .subOverflow := negI_overflow hneg
            simp only [if_neg hlost, if_neg hneg, ne_eq, hrc, not_false_iff, if_true, if_false,
              hnegI]
            rfl
    · rfl
  · rfl

/-! ### No channel says that a path is invalid -/

/-- No status is reported as an invalid path. -/
theorem statusVariant_ne (status : Nat) : statusVariant status ≠ some .invalidPath := by
  have hall : ∀ e, fromStatus status "" none = some e → variant e ≠ .invalidPath := by
    dsimp only [fromStatus]
    repeat refine of_ite_some (fun _ => by simp [variant]) ?_
    simp
  intro h
  obtain ⟨e, he, hvariant⟩ := Option.map_eq_some_iff.mp h
  exact hall e he hvariant

/-- No return value is. -/
theorem returnVariant_ne (plat : Errno) (rc : Int) :
    returnVariant plat rc ≠ some .invalidPath := by
  have hall : ∀ e, fromErrno plat (-rc) "" none = some e → variant e ≠ .invalidPath := by
    dsimp only [fromErrno]
    repeat refine of_ite_some (fun _ => by simp [variant]) ?_
    simp
  have herrno : (errnoVariant plat (-rc)).getD .backend ≠ .invalidPath := by
    rw [errnoVariant]
    cases he : fromErrno plat (-rc) "" none with
    | none => simp
    | some e => exact hall e he
  unfold returnVariant
  split_ifs
  · simp
  · simp
  · simpa using herrno
  · simp

/-- Nothing that the library reports is. -/
theorem variantOf_fromParts_ne (plat : Errno) (statusName : Nat → String) (nterror : Nat)
    (rc : Int) (message : String) (path : Option String) :
    variantOf (fromParts plat statusName nterror rc message path) ≠ some .invalidPath := by
  rw [variantOf_fromParts, ownVariant]
  intro h
  rcases Option.or_eq_some_iff.mp h with h | ⟨-, h⟩
  · exact statusVariant_ne _ h
  · rcases Option.or_eq_some_iff.mp h with h | ⟨-, h⟩
    · obtain ⟨code, -, hcode⟩ := Option.bind_eq_some_iff.mp h
      exact statusVariant_ne _ hcode
    · exact returnVariant_ne _ _ h

/-! ### A status that is left over -/

variable {W α : Type} {lib : Libsmb2 W}

/-- `from_context`. -/
def fromContext (lib : Libsmb2 W) (rc : Int) (path : Option String) (w : W) :
    Except Panic Error :=
  fromParts lib.errno lib.statusName (lib.nterror w) rc (lib.message w) path

/-- `SmbContext::error` is `from_context`. -/
theorem ctxError_eq {ε : Type} (lib : Libsmb2 W) (rc : Int) (path : String) (s : Ctx W) :
    (ctxError lib rc path : Prog ε (Ctx W) Error) s =
      (checked (fromContext lib rc (some path) s.world) : Prog ε (Ctx W) Error) s := rfl

/-- What the library documents of its status: a call sets it to the status it reports, and a
    call that reports none leaves it as it was. -/
def Documented (lib : Libsmb2 W) (reports : Call → W → Option Nat) : Prop :=
  ∀ c w, lib.nterror (lib.call c w).2 = (reports c w).getD (lib.nterror w)

/-- The context after some calls. -/
def Ctx.afterAll (lib : Libsmb2 W) (s : Ctx W) (history : List Call) : Ctx W :=
  history.foldl (Ctx.after lib) s

/-- The statuses that some calls report. -/
def statuses (lib : Libsmb2 W) (reports : Call → W → Option Nat) : Ctx W → List Call → List Nat
  | _, [] => []
  | s, c :: history => (reports c s.world).toList ++ statuses lib reports (s.after lib c) history

/-- The status a context is left with is the last one reported. -/
theorem nterror_afterAll {reports : Call → W → Option Nat} (hdoc : Documented lib reports)
    (s : Ctx W) (history : List Call) :
    lib.nterror (s.afterAll lib history).world =
      (statuses lib reports s history).getLastD (lib.nterror s.world) := by
  induction history generalizing s with
  | nil => rfl
  | cons c history ih =>
    have hstep : (s.afterAll lib (c :: history)) = (s.after lib c).afterAll lib history := rfl
    rw [hstep, ih, Ctx.after_world, hdoc c s.world, statuses]
    rcases reports c s.world with _ | status
    · rfl
    · exact List.getLastD_cons.symm

/-- The same call, failing with the same report, in a context whose status was zero. -/
structure Cleared (lib : Libsmb2 W) (reports : Call → W → Option Nat) (c : Call) (s s₀ : Ctx W) :
    Prop where
  zero : lib.nterror s₀.world = 0
  silent : reports c s₀.world = none
  reply : (lib.call c s.world).1 = (lib.call c s₀.world).1
  message : lib.message (lib.call c s.world).2 = lib.message (lib.call c s₀.world).2

/-- A copy that is worth retrying without the server. -/
def Declined (m : Prog CopyFailed (Ctx W) α) (s : Ctx W) : Prop :=
  ∃ s', m s = .ok (.error .unsupported, s')

/-- A failed copy is taken for a server that cannot copy by the status alone. -/
theorem declined_classifyCopyFailure (rc : Int) (s : Ctx W) :
    Declined (classifyCopyFailure lib rc : Prog CopyFailed (Ctx W) α) s ↔
      isCopyUnsupported (lib.nterror s.world) = true := by
  have hrun : (classifyCopyFailure lib rc : Prog CopyFailed (Ctx W) α) s =
      (if isCopyUnsupported (lib.nterror s.world) then fail .unsupported
        else do
          let e ← ctxError lib rc "copy"
          fail (.error e)) s := rfl
  rw [Declined, hrun]
  by_cases hunsupported : isCopyUnsupported (lib.nterror s.world) = true
  · rw [if_pos hunsupported]
    exact ⟨fun _ => hunsupported, fun _ => ⟨s, rfl⟩⟩
  · rw [if_neg hunsupported]
    refine ⟨fun ⟨s', h⟩ => ?_, fun h => absurd h hunsupported⟩
    -- what is left fails with an error, or panics
    change (ctxError lib rc "copy" >>= fun e => fail (.error e) : Prog CopyFailed (Ctx W) α) s =
      _ at h
    simp only [bind, ctxError_eq] at h
    rcases hfrom : fromContext lib rc (some "copy") s.world with p | e <;> rw [hfrom] at h
    · cases h
    · cases h

/-- A channel that is asked first changes nothing where it says nothing, or the same. -/
theorem or_eq_right_iff {β : Type} {a b : Option β} :
    a.or b = b ↔ ∀ v, a = some v → b = some v := by
  rcases a with _ | v
  · exact ⟨fun _ => nofun, fun _ => rfl⟩
  · exact ⟨fun h v' hv => hv ▸ h.symm, fun h => (h v rfl).symm⟩

/-- **A failure is classified by the call's own report** where the status left over by the calls
    before it stands for no variant or for the one the report calls for, and a failed copy where
    that status is none of the three by which a server declines. -/
theorem staleStatus_iff {reports : Call → W → Option Nat} (hdoc : Documented lib reports)
    {s s₀ : Ctx W} {history : List Call} {c : Call}
    (hsilent : reports c (s.afterAll lib history).world = none)
    (hcleared : Cleared lib reports c (s.afterAll lib history) s₀) (rc : Int)
    (path : Option String) :
    let failed := (s.afterAll lib history).after lib c
    let failed₀ := s₀.after lib c
    let last := (statuses lib reports s history).getLastD (lib.nterror s.world)
    (variantOf (fromContext lib rc path failed.world) =
        variantOf (fromContext lib rc path failed₀.world) ↔
      ∀ v, statusVariant last = some v →
        ownVariant lib.errno rc (lib.message failed.world) = some v) ∧
    ((Declined (classifyCopyFailure lib rc : Prog CopyFailed (Ctx W) α) failed ↔
        Declined (classifyCopyFailure lib rc : Prog CopyFailed (Ctx W) α) failed₀) ↔
      isCopyUnsupported last = false) := by
  intro failed failed₀ last
  -- the call reports nothing, so the status is the one that was left over
  have hlast : lib.nterror failed.world = last := by
    rw [Ctx.after_world, hdoc, hsilent, Option.getD_none, nterror_afterAll hdoc]
  have hzero : lib.nterror failed₀.world = 0 := by
    rw [Ctx.after_world, hdoc, hcleared.silent, Option.getD_none, hcleared.zero]
  have hmessage : lib.message failed₀.world = lib.message failed.world := hcleared.message.symm
  constructor
  · -- the status that is left over comes first, and the call's own variant after it
    rw [fromContext, fromContext, variantOf_fromParts, variantOf_fromParts, hlast, hzero, hmessage,
      statusVariant_zero, Option.none_or, or_eq_right_iff]
  · -- only the status tells whether a copy was declined
    have hnot : ¬ isCopyUnsupported 0 = true := by decide
    rw [declined_classifyCopyFailure, declined_classifyCopyFailure, hlast, hzero, iff_false_right hnot,
      Bool.not_eq_true]

/-! ### A status that misleads -/

/-- A server that reports what is not there by a status, and what is there already by a message
    only. The status and the message are kept beside it. -/
def creatingLib : Libsmb2 (MemServer × Nat × String) where
  call
    | .stat _, (m, _, _) => ((-2, MemServer.statOf 0), (m, Status.objectNameNotFound, ""))
    | .mkdir _, (m, status, _) =>
      ((-17 : Int), (m, status, "Create failed with status STATUS_OBJECT_NAME_COLLISION."))
    | c, (m, status, message) =>
      let (reply, m') := MemServer.answer .none c m
      (reply, (m', status, message))
  nterror := fun (_, status, _) => status
  message := fun (_, _, message) => message
  nterrorToStr := fun _ => none
  errno := .linux

/-- What `creatingLib` reports. -/
def creatingReports : Call → MemServer × Nat × String → Option Nat
  | .stat _, _ => some Status.objectNameNotFound
  | _, _ => none

/-- A context on it, before any call. -/
def creatingCtx : Ctx (MemServer × Nat × String) :=
  ⟨(MemServer.holding "b" (.other 0), 0, ""), []⟩

theorem creating_documented : Documented creatingLib creatingReports := by
  intro c w
  cases c <;> rfl

/-- An `unlink` of what is not there is classified alike before and after a `stat` of it. -/
theorem staleStatus_agreeing :
    variantOf (fromContext creatingLib (-2) (some "/a")
        ((creatingCtx.afterAll creatingLib [.stat "a"]).after creatingLib (.unlink "a")).world) =
      variantOf (fromContext creatingLib (-2) (some "/a")
        (creatingCtx.after creatingLib (.unlink "a")).world) := by
  have hcleared : Cleared creatingLib creatingReports (.unlink "a")
      (creatingCtx.afterAll creatingLib [.stat "a"]) creatingCtx := ⟨rfl, rfl, rfl, rfl⟩
  apply (staleStatus_iff (α := Unit) creating_documented rfl hcleared (-2) (some "/a")).1.mpr
  intro v hv
  exact hv

/-- A directory that exists is reported as not found, after a `stat` of another path. -/
theorem mkdir_reports_last_stat :
    ((do
        let _ ← capture (statPath creatingLib ⟨"/a"⟩)
        mkdir creatingLib ⟨"/b"⟩ : Prog Error _ Unit) creatingCtx).map (·.1) =
      .ok (.error (.notFound "/b")) ∧
    (mkdir creatingLib ⟨"/b"⟩ creatingCtx).map (·.1) = .ok (.error (.alreadyExists "/b")) := by
  constructor <;> rfl

end Krystallos.Smb
