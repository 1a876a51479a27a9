import Krystallos.Lib.Split
import Krystallos.Core.Error

namespace Krystallos

open Separated

/-!
# `VfsPath`

The path type of `krystallos-core`, function by function.  A path holds the string itself;
`new` normalizes, `join` concatenates and normalizes again, `parent` and `file_name` slice
the string.  Positions are counted in characters: the source slices only at a `/`, where
byte and character positions name the same place.
-/

/-- A normalized, absolute path inside a single backend. -/
structure VfsPath where
  str : String
deriving DecidableEq, Repr

namespace VfsPath

/-- The characters accepted as separators on input. -/
def isSep (c : Char) : Bool := c == '/' || c == '\\'

/-- The character a normalized path is written with. -/
def isSlash (c : Char) : Bool := c == '/'

/-- `s.split(sep)`. -/
def splitAt (sep : Char → Bool) (s : String) : List String :=
  (s.toList.splitOnP sep).map String.ofList

/-- The root of the backend's namespace. -/
def root : VfsPath := ⟨"/"⟩

/-- One turn of the loop in `new`; `none` where a `..` finds the stack empty. -/
def pushSegment (segments : List String) (segment : String) : Option (List String) :=
  if segment = "" ∨ segment = "." then some segments
  else if segment = ".." then
    match segments with
    | [] => none
    | _ => some segments.dropLast
  else some (segments ++ [segment])

/-- The text `new` builds from its segments. -/
def joinSegments (segments : List String) : String :=
  segments.foldl (fun out s => out.push '/' ++ s) ""

/-- Normalize `raw` into a `VfsPath`. -/
def new (raw : String) : Result VfsPath :=
  match (splitAt isSep raw).foldlM pushSegment [] with
  | none => .error (.invalidPath raw "path escapes the backend root")
  | some [] => .ok root
  | some segments => .ok ⟨joinSegments segments⟩

/-- `self.0.len() == 1`, a length in bytes. -/
def isRoot (p : VfsPath) : Bool := p.str.utf8ByteSize == 1

/-- The path's segments, excluding the leading empty root segment. -/
def segments (p : VfsPath) : List String := (splitAt isSlash p.str).filter (· ≠ "")

/-- The final segment, or `none` for the root. -/
def fileName (p : VfsPath) : Option String :=
  if p.isRoot then none else (splitAt isSlash p.str).getLast?

/-- The containing path. The root's parent is the root. -/
def parent (p : VfsPath) : VfsPath :=
  if p.isRoot then root
  else
    match lastIdx? isSlash p.str.toList with
    | none => root
    | some 0 => root
    | some i => ⟨String.ofList (p.str.toList.take i)⟩

/-- Append a name, or a relative subpath, to this path. -/
def join (p : VfsPath) (name : String) : Result VfsPath :=
  if ".." ∈ splitAt isSep name then
    .error (.invalidPath name ("`..` is not allowed in a joined name; build the full path with "
      ++ "VfsPath::new if you mean to traverse upward"))
  else
    let out := if p.str.toList.getLast? = some '/' then p.str else p.str.push '/'
    match new (out ++ name) with
    | .error e => .error e
    | .ok joined =>
      if joined = p then
        .error (.invalidPath name "joining this name does not change the path")
      else .ok joined

/-- Attach the backend this path belongs to, producing a URI. -/
def toUri (p : VfsPath) (endpoint : String) : String :=
  String.ofList (endpoint.toList.reverse.dropWhile isSlash).reverse ++ p.str

end VfsPath

end Krystallos
