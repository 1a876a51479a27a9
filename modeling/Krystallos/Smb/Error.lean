import Krystallos.Core.Error

namespace Krystallos.Smb

open Checked

/-!
# Errors from libsmb2

`error.rs`, function by function: an error is classified from the NT status, else from the
status the message names, else from the return value, which is `-errno`.  The `errno` values
are the target platform's.
-/

/-! ### NT status codes -/

namespace Status

def objectNameNotFound : Nat := 0xC0000034
def objectPathNotFound : Nat := 0xC000003A
def noSuchFile : Nat := 0xC000000F
def badNetworkName : Nat := 0xC00000CC
def accessDenied : Nat := 0xC0000022
def networkAccessDenied : Nat := 0xC00000CA
def objectNameCollision : Nat := 0xC0000035
def notADirectory : Nat := 0xC0000103
def fileIsADirectory : Nat := 0xC00000BA
def directoryNotEmpty : Nat := 0xC0000101
def cannotDelete : Nat := 0xC0000121
def logonFailure : Nat := 0xC000006D
def accountRestriction : Nat := 0xC000006E
def accountDisabled : Nat := 0xC0000072
def passwordExpired : Nat := 0xC0000071
def networkNameDeleted : Nat := 0xC00000C9
def userSessionDeleted : Nat := 0xC0000203
def connectionDisconnected : Nat := 0xC000020C
def connectionReset : Nat := 0xC000020D
def networkSessionExpired : Nat := 0xC000035C
def notSupported : Nat := 0xC00000BB
def invalidDeviceRequest : Nat := 0xC0000010
def ctlFileNotSupported : Nat := 0xC0000057

/-- The names `status_from_name` knows, with their codes. -/
def names : List (String × Nat) :=
  [("STATUS_OBJECT_NAME_NOT_FOUND", objectNameNotFound),
   ("STATUS_OBJECT_PATH_NOT_FOUND", objectPathNotFound),
   ("STATUS_NO_SUCH_FILE", noSuchFile),
   ("STATUS_BAD_NETWORK_NAME", badNetworkName),
   ("STATUS_ACCESS_DENIED", accessDenied),
   ("STATUS_NETWORK_ACCESS_DENIED", networkAccessDenied),
   ("STATUS_OBJECT_NAME_COLLISION", objectNameCollision),
   ("STATUS_NOT_A_DIRECTORY", notADirectory),
   ("STATUS_FILE_IS_A_DIRECTORY", fileIsADirectory),
   ("STATUS_DIRECTORY_NOT_EMPTY", directoryNotEmpty),
   ("STATUS_CANNOT_DELETE", cannotDelete),
   ("STATUS_LOGON_FAILURE", logonFailure),
   ("STATUS_ACCOUNT_RESTRICTION", accountRestriction),
   ("STATUS_ACCOUNT_DISABLED", accountDisabled),
   ("STATUS_PASSWORD_EXPIRED", passwordExpired),
   ("STATUS_NETWORK_NAME_DELETED", networkNameDeleted),
   ("STATUS_USER_SESSION_DELETED", userSessionDeleted),
   ("STATUS_CONNECTION_DISCONNECTED", connectionDisconnected),
   ("STATUS_CONNECTION_RESET", connectionReset),
   ("STATUS_NETWORK_SESSION_EXPIRED", networkSessionExpired),
   ("STATUS_NOT_SUPPORTED", notSupported)]

end Status

/-- The `errno` values of the target platform. -/
structure Errno where
  enoent : Nat
  eacces : Nat
  einval : Nat
  enotdir : Nat
  eisdir : Nat
  enotempty : Nat
  econnrefused : Nat
deriving DecidableEq, Repr

/-- Linux and Android. -/
def Errno.linux : Errno := ⟨2, 13, 22, 20, 21, 39, 111⟩

/-- MSVC. -/
def Errno.windows : Errno := ⟨2, 13, 22, 20, 21, 41, 107⟩

/-! ### Text -/

/-- `char::is_whitespace`. -/
def isWhitespace (c : Char) : Bool :=
  (9 ≤ c.toNat && c.toNat ≤ 13) || c.toNat ∈ [0x20, 0x85, 0xA0, 0x1680, 0x2028, 0x2029, 0x202F,
    0x205F, 0x3000] || (0x2000 ≤ c.toNat && c.toNat ≤ 0x200A)

/-- `s.trim()`. -/
def trim (s : String) : String :=
  String.ofList ((s.toList.dropWhile isWhitespace).reverse.dropWhile isWhitespace).reverse

/-- A character of a status identifier. -/
def isTokenChar (c : Char) : Bool :=
  ('A' ≤ c && c ≤ 'Z') || ('0' ≤ c && c ≤ '9') || c == '_'

/-- The part of `cs` from the first occurrence of `pat` on. -/
def findFrom (pat : List Char) : List Char → Option (List Char)
  | [] => if pat = [] then some [] else none
  | c :: cs => if pat.isPrefixOf (c :: cs) then some (c :: cs) else findFrom pat cs

/-- Pull a `STATUS_SOMETHING` identifier out of an error message. -/
def statusToken (message : String) : Option String :=
  (findFrom "STATUS_".toList message.toList).map fun rest =>
    String.ofList (rest.takeWhile isTokenChar)

/-- Names libsmb2 puts into messages, mapped back to codes. -/
def statusFromName (name : String) : Option Nat := Status.names.lookup name

/-- `format!("{status:#010X}")`. -/
def hexStatus (status : Nat) : String :=
  let digits := (Nat.toDigits 16 status).map Char.toUpper
  String.ofList ('0' :: 'x' :: List.replicate (8 - digits.length) '0' ++ digits)

/-! ### Classification -/

/-- Frame libsmb2's text for an authentication failure. -/
def authMessage (libsmb2Text : String) : String :=
  let detail := trim libsmb2Text
  if detail = "" then "the server rejected the credentials"
  else "the server rejected the credentials (libsmb2 reported: " ++ detail ++ ")"

/-- `Error::tap_path`: attach the path to variants that carry one. -/
def tapPath (e : Error) (path : String) : Error :=
  if path = "" then e
  else
    match e with
    | .notFound _ => .notFound path
    | .permissionDenied _ => .permissionDenied path
    | .alreadyExists _ => .alreadyExists path
    | .notADirectory _ => .notADirectory path
    | .isADirectory _ => .isADirectory path
    | .directoryNotEmpty _ => .directoryNotEmpty path
    | other => other

open Status in
/-- Classify an NT status. -/
def fromStatus (status : Nat) (message : String) (path : Option String) : Option Error :=
  let here := path.getD ""
  if status ∈ [objectNameNotFound, objectPathNotFound, noSuchFile, badNetworkName] then
    some (.notFound here)
  else if status ∈ [accessDenied, networkAccessDenied] then some (.permissionDenied here)
  else if status = objectNameCollision then some (.alreadyExists here)
  else if status = notADirectory then some (.notADirectory here)
  else if status ∈ [fileIsADirectory, cannotDelete] then some (.isADirectory here)
  else if status = directoryNotEmpty then some (.directoryNotEmpty here)
  else if status ∈ [logonFailure, accountRestriction, accountDisabled, passwordExpired] then
    some (.auth (authMessage message))
  else if status ∈ [networkNameDeleted, userSessionDeleted, connectionDisconnected,
      connectionReset, networkSessionExpired] then
    some (.connectionLost message)
  else if status ∈ [notSupported, invalidDeviceRequest] then
    some (.unsupported "this operation on this server")
  else none

/-- Classify an `errno`. -/
def fromErrno (plat : Errno) (errno : Int) (message : String) (path : Option String) :
    Option Error :=
  let here := path.getD ""
  if errno = plat.enoent then some (.notFound here)
  else if errno = plat.eacces then some (.permissionDenied here)
  else if errno = plat.enotdir then some (.notADirectory here)
  else if errno = plat.eisdir then some (.isADirectory here)
  else if errno = plat.enotempty then some (.directoryNotEmpty here)
  else if errno = plat.econnrefused then some (.auth (authMessage message))
  else if errno = plat.einval then some (.unsupported "this operation on this server")
  else none

/-- What is reported when no channel classifies the failure. -/
def unclassified (statusName : Nat → String) (nterror : Nat) (rc : Int) (message : String) :
    Except Panic Error :=
  if message = "" then do
    let errno ← negI 32 rc
    if nterror ≠ 0 then
      return .backend ("SMB operation failed with no description (" ++ statusName nterror
        ++ ", errno " ++ toString errno ++ ")")
    else
      return .backend ("SMB operation failed with no description (errno " ++ toString errno ++ ")")
  else return .backend message

/-- Build an error from the three channels: NT status, message, return value. -/
def fromParts (plat : Errno) (statusName : Nat → String) (nterror : Nat) (rc : Int)
    (message : String) (path : Option String) : Except Panic Error :=
  let byStatus := if nterror ≠ 0 then fromStatus nterror message path else none
  let byName := ((statusToken message).bind statusFromName).bind fun code =>
    fromStatus code message path
  match byStatus, byName with
  | some e, _ => .ok e
  | none, some e => .ok e
  | none, none =>
    if rc = -1 then
      .ok (.connectionLost (if message = "" then "the SMB connection was lost" else message))
    else do
      let byErrno ←
        if rc ≠ 0 then do
          let errno ← negI 32 rc
          pure (fromErrno plat errno message path)
        else pure none
      match byErrno with
      | some e => return e
      | none => do
        let e ← unclassified statusName nterror rc message
        return tapPath e (path.getD "")

end Krystallos.Smb
