/-
# Backup.Create -- the archive of an instance

`create_archive` lists the configuration, a copy of the database, the host key where there is
one, and everything below the repository directory, in the order of the paths.  A manifest with
the size and digest of each file is the first entry of the archive.

A source is what `symlink_metadata` and `read_dir` find at a path: a file, a directory with its
entries in the order of their names, or anything else.
-/
import Tit.Backup.Archive
import Mathlib.Data.List.Sort

namespace Tit.Backup

open Tit.Theory

set_option autoImplicit false

/-! ## Sources -/

mutual

inductive Source where
  | file (content : Bytes)
  | directory (entries : Entries)
  | other

inductive Entries where
  | nil
  | cons (name : Bytes) (source : Source) (rest : Entries)

end

/-- A name in a directory. -/
structure ValidName (name : Bytes) : Prop where
  nonempty : name ≠ []
  noSlash : slash ∉ name
  noNull : (0 : UInt8) ∉ name
  notDot : name ≠ dot
  notDotDot : name ≠ dotDot

def Entries.names : Entries → List Bytes
  | .nil => []
  | .cons name _ rest => name :: rest.names

mutual

def Source.Valid : Source → Prop
  | .directory entries => entries.Valid
  | _ => True

/-- The names are those of a directory, in their order. -/
def Entries.Valid : Entries → Prop
  | .nil => True
  | .cons name source rest =>
      ValidName name ∧ source.Valid ∧ (∀ later ∈ rest.names, name < later) ∧ rest.Valid

end

mutual

/-- What is at a place below the source. -/
def Source.node : Source → List Bytes → Option (Node Bytes)
  | .file content, [] => some (.file content)
  | .directory _, [] => some .directory
  | .directory entries, name :: rest => entries.node name rest
  | _, _ => none

def Entries.node : Entries → Bytes → List Bytes → Option (Node Bytes)
  | .nil, _, _ => none
  | .cons here source later, name, rest =>
      if name = here then source.node rest else later.node name rest

end

/-- What a backup is taken of.  `database` is the copy that `Store::backup` makes, and `hostKey`
is there when its path exists. -/
structure Instance where
  config : Source
  database : Bytes
  hostKey : Option Source
  repositories : Source
  valid : config.Valid ∧ (∀ key ∈ hostKey, key.Valid) ∧ repositories.Valid

/-! ## Files of the archive -/

inductive ArchiveKind where
  | file
  | directory
  deriving DecidableEq, Repr

def ArchiveKind.asStr : ArchiveKind → String
  | .file => "file"
  | .directory => "directory"

/-- `content` is what is read from the source when the file is appended. -/
structure ArchivedFile where
  archivePath : Bytes
  bytes : Nat
  sha256 : Bytes
  kind : ArchiveKind
  content : Bytes
  deriving DecidableEq, Repr

def hostKeyFile : Bytes := text "ssh_host_ed25519_key"
def repositoryDirectory : Bytes := text "repositories"

/-- `Path::join` with a name. -/
def joinPath (path name : Bytes) : Bytes := path ++ slash :: name

section Create

variable (sha256 : Bytes → Bytes)

def addFile (source : Source) (archivePath : Bytes) : Except BackupError ArchivedFile := do
  ensure (validateArchivePath archivePath = true) (.unsafeArchivePath archivePath)
  match source with
  | .file content =>
      pure
        { archivePath
          bytes := content.length
          sha256 := encodeLowerHex (sha256 content)
          kind := .file
          content }
  | _ => throw .unsafeSource

def archivedDirectory (archivePath : Bytes) : ArchivedFile where
  archivePath
  bytes := 0
  sha256 := encodeLowerHex (sha256 [])
  kind := .directory
  content := []

mutual

def collectRepositoryFiles : Source → Bytes → Except BackupError (List ArchivedFile)
  | .directory entries, archivePath => do
      let below ← collectEntries entries archivePath
      pure (archivedDirectory sha256 archivePath :: below)
  | _, _ => throw .unsafeSource

/-- The loop over the entries of a directory. -/
def collectEntries : Entries → Bytes → Except BackupError (List ArchivedFile)
  | .nil, _ => pure []
  | .cons name source rest, archivePath => do
      let childArchive := joinPath archivePath name
      let here ←
        (match source with
        | .directory _ => collectRepositoryFiles source childArchive
        | .file _ => (addFile sha256 source childArchive).map fun file => [file]
        | .other => .error .unsafeSource)
      let later ← collectEntries rest archivePath
      pure (here ++ later)

end

def collectHostKey : Option Source → Except BackupError (List ArchivedFile)
  | none => pure []
  | some source => (addFile sha256 source hostKeyFile).map fun file => [file]

/-- The files of the archive, in the order of the paths. -/
def archivedFiles (i : Instance) : Except BackupError (List ArchivedFile) := do
  let config ← addFile sha256 i.config configArchivePath
  let database ← addFile sha256 (.file i.database) databaseArchivePath
  let hostKey ← collectHostKey sha256 i.hostKey
  let repositories ← collectRepositoryFiles sha256 i.repositories repositoryDirectory
  pure ((config :: database :: (hostKey ++ repositories)).insertionSort
    fun left right => left.archivePath ≤ right.archivePath)

end Create

/-! ## The manifest -/

def ArchivedFile.manifestFile (file : ArchivedFile) : ManifestFile where
  pathHex := encodeLowerHex file.archivePath
  bytes := file.bytes
  sha256 := file.sha256
  kind := file.kind.asStr

def manifestOf (files : List ArchivedFile) : BackupManifest where
  version := formatVersion
  warning := warning
  files := files.map ArchivedFile.manifestFile

namespace Pretty

def spaces (indent : Nat) : Bytes := List.replicate indent 32

/-- Items on lines of their own, between brackets. -/
def block (opening closing : UInt8) (indent : Nat) : List Bytes → Bytes
  | [] => [opening, closing]
  | item :: items =>
      opening :: 10 :: spaces (indent + 2) ++ item ++
        (items.flatMap fun item => 44 :: 10 :: spaces (indent + 2) ++ item) ++
          10 :: spaces indent ++ [closing]

def object (indent : Nat) (members : List Bytes) : Bytes := block 123 125 indent members

def array (indent : Nat) (items : List Bytes) : Bytes := block 91 93 indent items

/-- A text in which nothing is escaped. -/
def string (value : Bytes) : Bytes := 34 :: value ++ [34]

def number (n : Nat) : Bytes := text (toString n)

def member (key : String) (value : Bytes) : Bytes := string (text key) ++ 58 :: 32 :: value

end Pretty

open Pretty in
def ManifestFile.toVecPretty (file : ManifestFile) : Bytes :=
  object 4
    [member "path_hex" (string file.pathHex), member "bytes" (number file.bytes),
      member "sha256" (string file.sha256), member "kind" (string (text file.kind))]

open Pretty in
/-- `serde_json::to_vec_pretty`.  The texts of a manifest that is written have no character that
JSON escapes. -/
def BackupManifest.toVecPretty (manifest : BackupManifest) : Bytes :=
  object 0
    [member "version" (number manifest.version), member "warning" (string (text manifest.warning)),
      member "files" (array 2 (manifest.files.map ManifestFile.toVecPretty))]

/-! ## The archive -/

def ArchiveKind.entryType : ArchiveKind → EntryType
  | .file => .regular
  | .directory => .directory

/-- `append_reader` and `append_directory`. -/
def ArchivedFile.entry (file : ArchivedFile) : Entry where
  path := file.archivePath
  entryType := file.kind.entryType
  size := file.bytes
  content := file.content

/-- `append_bytes` for the manifest. -/
def manifestEntry (manifestBytes : Bytes) : Entry where
  path := manifestPath
  entryType := .regular
  size := manifestBytes.length
  content := manifestBytes

def archiveOf (files : List ArchivedFile) : List Entry :=
  manifestEntry (manifestOf files).toVecPretty :: files.map ArchivedFile.entry

/-- `create_archive`, where no system call fails and no source changes meanwhile. -/
def createArchive (sha256 : Bytes → Bytes) (i : Instance) : Except BackupError (List Entry) := do
  let files ← archivedFiles sha256 i
  pure (archiveOf files)

end Tit.Backup
