import Krystallos.Lib.Checked

namespace Krystallos

/-!
# Errors of the storage kernel

`Error` follows `krystallos_core::Error` variant by variant.  `Io` carries what the kernel
looks at in a `std::io::Error`: its kind and its text.
-/

/-- The kinds of `std::io::Error` that the kernel tells apart. -/
inductive ErrorKind
  | notFound
  | permissionDenied
  | alreadyExists
  | notADirectory
  | isADirectory
  | directoryNotEmpty
  | unexpectedEof
  | interrupted
  | other
deriving DecidableEq, Repr

/-- A `std::io::Error`. -/
structure IoError where
  kind : ErrorKind
  text : String
deriving DecidableEq, Repr

/-- Errors surfaced by a storage backend. -/
inductive Error
  | notFound (path : String)
  | permissionDenied (path : String)
  | alreadyExists (path : String)
  | notADirectory (path : String)
  | isADirectory (path : String)
  | directoryNotEmpty (path : String)
  | invalidPath (path reason : String)
  | unsupported (operation : String)
  | connectionLost (message : String)
  | auth (message : String)
  | backend (message : String)
  | io (e : IoError)
deriving DecidableEq, Repr

/-- `krystallos_core::Result`. -/
abbrev Result (α : Type) := Except Error α

/-- How a call ended: it panicked, or it returned. -/
abbrev Outcome (α : Type) := Except Checked.Panic (Result α)

end Krystallos
