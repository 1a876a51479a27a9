import Krystallos.Core.Backend

namespace Krystallos

/-!
# What `ls` and `stat` print

One line an entry, in fixed columns, and a block of labelled lines.  How a time is written is
`humantime`'s, and a parameter here.
-/

/-- `kind_char`. -/
def kindChar : EntryKind → Char
  | .directory => 'd'
  | .file => 'f'
  | .symlink => 'l'
  | .other => '?'

/-- The `Debug` of `EntryKind`. -/
def EntryKind.debug : EntryKind → String
  | .file => "File"
  | .directory => "Directory"
  | .symlink => "Symlink"
  | .other => "Other"

/-- A missing timestamp is a dash, and not the epoch. -/
def timeCell (rfc3339 : SystemTime → String) (t : Option SystemTime) : String :=
  t.elim "-" rfc3339

/-- `{:>12}`. -/
def padLeft (s : String) : String := String.ofList (List.replicate (12 - s.length) ' ') ++ s

/-- `entry_line`. -/
def entryLine (rfc3339 : SystemTime → String) (entry : Entry) : String :=
  String.singleton (kindChar entry.metadata.kind) ++ " " ++ padLeft (toString entry.metadata.len) ++
    " " ++ timeCell rfc3339 entry.metadata.modified ++ "  " ++ entry.name

/-- `metadata_block`. -/
def metadataBlock (rfc3339 : SystemTime → String) (path : String) (md : Metadata) : String :=
  "path:     " ++ path ++ "\n" ++
  "kind:     " ++ md.kind.debug ++ "\n" ++
  "size:     " ++ toString md.len ++ "\n" ++
  "modified: " ++ timeCell rfc3339 md.modified ++ "\n" ++
  "created:  " ++ timeCell rfc3339 md.created ++ "\n" ++
  "accessed: " ++ timeCell rfc3339 md.accessed ++ "\n" ++
  "readonly: " ++ (if md.readOnly then "true" else "false") ++ "\n"

/-- The bytes that are written for a text. -/
def utf8 (s : String) : List UInt8 := s.toUTF8.data.toList

end Krystallos
