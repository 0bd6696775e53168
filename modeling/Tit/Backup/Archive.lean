/-
# Backup.Archive -- the manifest and the entries of a backup

A backup is a tar archive whose first entry is a manifest.  `read_manifest`, `expected_files`
and `verify_archive` check it, and `extract_archive` writes it below an empty directory.  The
tar reader gives the entries, `parse` is the reader of JSON, and `sha256` the digest.

Paths are raw bytes in the manifest and in the archive.  As a `Path` they are a list of
components: `a//b`, `a/./b` and `a/b/` are one path.
-/
import Tit.Theory.FileTree
import Tit.Theory.Outcome

namespace Tit.Backup

open Tit.Theory

set_option autoImplicit false

abbrev Bytes := List UInt8

/-! ## Paths -/

/-- `Component` of a path on Unix. -/
inductive Component where
  | rootDir
  | curDir
  | parentDir
  | normal (name : Bytes)
  deriving DecidableEq, Repr

def slash : UInt8 := 47

def dot : Bytes := [46]

def dotDot : Bytes := [46, 46]

def isAbsolute (path : Bytes) : Bool := decide (path.head? = some slash)

/-- `Path::components`: empty components are skipped, and `.` where it is not the first. -/
def components (path : Bytes) : List Component :=
  let pieces := path.splitOn slash
  (if isAbsolute path then [.rootDir] else if pieces.head? = some dot then [.curDir] else []) ++
    (pieces.filter fun piece => decide (piece ≠ [] ∧ piece ≠ dot)).map fun piece =>
      if piece = dotDot then .parentDir else .normal piece

def Component.name : Component → Option Bytes
  | .normal name => some name
  | _ => none

/-- The names of a path; a path that is accepted has no other components. -/
def names (path : Bytes) : List Bytes := (components path).filterMap Component.name

def validateArchivePath (path : Bytes) : Bool :=
  decide (path ≠ []) && !isAbsolute path &&
    (components path).all fun c => c.name.any fun name => decide (name ≠ [])

/-- The last piece of the raw path that is not empty is `.`. -/
def endsInDot (path : Bytes) : Bool :=
  decide (((path.splitOn slash).filter fun piece => decide (piece ≠ [])).getLast? = some dot)

/-- The raw path ends in a name, with nothing behind it. -/
def endsInName (path : Bytes) : Bool :=
  decide ((path.splitOn slash).getLast? ≠ some [] ∧ (path.splitOn slash).getLast? ≠ some dot)

/-! ## Hexadecimal digits -/

def hexDigit (n : UInt8) : UInt8 := if n < 10 then 48 + n else 87 + n

def encodeLowerHex (bytes : Bytes) : Bytes :=
  bytes.flatMap fun b : UInt8 => [hexDigit (b >>> 4), hexDigit (b &&& 15)]

def decodeNibble (b : UInt8) : Option UInt8 :=
  if 48 ≤ b ∧ b ≤ 57 then some (b - 48)
  else if 97 ≤ b ∧ b ≤ 102 then some (b - 97 + 10)
  else none

def decodeLowerHex : Bytes → Option Bytes
  | [] => some []
  | [_] => none
  | high :: low :: rest => do
      let high ← decodeNibble high
      let low ← decodeNibble low
      let rest ← decodeLowerHex rest
      pure ((high <<< 4 ||| low) :: rest)

/-! ## Manifests and archives -/

inductive BackupError where
  | unsafeSource
  | unsafeArchivePath (path : Bytes)
  | unexpectedArchiveEntry (path : Bytes)
  | missingManifest
  | invalidManifest
  | missingArchiveEntry
  | checksum (path : Bytes)
  | manifest
  | io
  deriving DecidableEq, Repr

/-- A text of hexadecimal digits is kept as its bytes. -/
structure ManifestFile where
  pathHex : Bytes
  bytes : Nat
  sha256 : Bytes
  kind : String
  deriving DecidableEq, Repr

structure BackupManifest where
  version : Nat
  warning : String
  files : List ManifestFile
  deriving DecidableEq, Repr

inductive EntryType where
  | regular
  | directory
  | other
  deriving DecidableEq, Repr

/-- An entry of the archive: its header, and the bytes that its reader yields. -/
structure Entry where
  path : Bytes
  entryType : EntryType
  size : Nat
  content : Bytes
  deriving DecidableEq, Repr

def text (s : String) : Bytes := s.toList.map fun c => UInt8.ofNat c.toNat

def formatVersion : Nat := 1
def configArchivePath : Bytes := text "config.toml"
def databaseArchivePath : Bytes := text "tit.sqlite3"
def manifestPath : Bytes := text "manifest.json"
def warning : String := "This backup contains credentials."
def maxManifestBytes : Nat := 16 * 1024 * 1024

def readManifest (parse : Bytes → Option BackupManifest) (archive : List Entry) :
    Except BackupError BackupManifest := do
  let entry ← required archive.head? .missingManifest
  ensure (entry.path = manifestPath ∧ entry.entryType = .regular ∧
    entry.size ≤ maxManifestBytes) .missingManifest
  let manifest ← required (parse entry.content) .manifest
  ensure (manifest.version = formatVersion ∧ manifest.warning = warning) .invalidManifest
  pure manifest

/-- The `BTreeMap` from raw paths to the files of the manifest. -/
abbrev Expected := List (Bytes × ManifestFile)

variable (sha256 : Bytes → Bytes)

/-- What the loop of `expected_files` asks of a file, besides a new path. -/
def acceptable (file : ManifestFile) : Prop :=
  (file.kind = "file" ∨ file.kind = "directory") ∧
    ¬(file.kind = "directory" ∧ (file.bytes ≠ 0 ∨ file.sha256 ≠ encodeLowerHex (sha256 [])))

instance (file : ManifestFile) : Decidable (acceptable sha256 file) :=
  inferInstanceAs (Decidable (_ ∧ _))

def expectedLoop : List ManifestFile → Expected → Except BackupError Expected
  | [], expected => pure expected
  | file :: rest, expected => do
      let path ← required (decodeLowerHex file.pathHex) .invalidManifest
      ensure (validateArchivePath path = true) (.unsafeArchivePath path)
      let digest ← required (decodeLowerHex file.sha256) .invalidManifest
      ensure (digest.length = 32 ∧ acceptable sha256 file ∧ expected.lookup path = none)
        .invalidManifest
      expectedLoop rest (expected ++ [(path, file)])

def expectedFiles (manifest : BackupManifest) : Except BackupError Expected := do
  let expected ← expectedLoop sha256 manifest.files []
  ensure ((expected.lookup configArchivePath).isSome = true) .invalidManifest
  ensure ((expected.lookup databaseArchivePath).isSome = true) .invalidManifest
  pure expected

/-- The entries without a manifest in the first place. -/
def withoutManifest : List Entry → List Entry
  | [] => []
  | first :: rest => if first.path = manifestPath then rest else first :: rest

def EntryType.kind : EntryType → Option String
  | .regular => some "file"
  | .directory => some "directory"
  | .other => none

def verifyEntries (expected : Expected) : List Bytes → List Entry →
    Except BackupError (List Bytes)
  | seen, [] => pure seen
  | seen, entry :: rest => do
      let kind ← required entry.entryType.kind (.unsafeArchivePath entry.path)
      let file ← required (expected.lookup entry.path) (.unexpectedArchiveEntry entry.path)
      ensure (entry.path ∉ seen ∧ entry.size = file.bytes ∧ kind = file.kind)
        (.checksum entry.path)
      ensure (entry.content.length = file.bytes ∧
        encodeLowerHex (sha256 entry.content) = file.sha256) (.checksum entry.path)
      verifyEntries expected (entry.path :: seen) rest

def verifyArchive (archive : List Entry) (expected : Expected) : Except BackupError Unit := do
  let seen ← verifyEntries sha256 expected [] (withoutManifest archive)
  ensure (seen.length = expected.length) .missingArchiveEntry

def checkArchive (parse : Bytes → Option BackupManifest) (archive : List Entry) :
    Except BackupError Unit := do
  let manifest ← readManifest parse archive
  let expected ← expectedFiles sha256 manifest
  verifyArchive sha256 archive expected

/-! ## Extraction -/

abbrev Target := FileTree Bytes Bytes

/-- A system call takes no path with a null byte in it. -/
def hasNull (path : Bytes) : Bool := decide ((0 : UInt8) ∈ path)

/-- `fs::create_dir` and `fs::set_permissions` for a directory of the manifest.  A path that
ends in `.` names a directory that exists, or nothing. -/
def createDirectory (t : Target) (path : Bytes) : Target × Option BackupError :=
  let parent := (names path).dropLast
  let name := (names path).getLast?.getD []
  if endsInDot path then
    if t.node (names path) = some .directory then (t, none) else (t, some .io)
  else
    match t.create parent name .directory with
    | .ok t => (t, none)
    | .error .alreadyExists =>
        if t.node (names path) = some .directory ∨ endsInName path = true then (t, none)
        else (t, some .io)
    | .error .other => (t, some .io)

/-- `OpenOptions::create_new`, and the content that is copied. -/
def createFile (t : Target) (path content : Bytes) : Target × Option BackupError :=
  if endsInName path then
    match t.create (names path).dropLast ((names path).getLast?.getD []) (.file content) with
    | .ok t => (t, none)
    | .error _ => (t, some .io)
  else (t, some .io)

/-- What is checked of an entry before anything is written. -/
def admitEntry (expected : Expected) (seen : List (List Component)) (entry : Entry) :
    Except BackupError ManifestFile := do
  let file ← required (expected.lookup entry.path) .invalidManifest
  let expectedType : EntryType := if file.kind = "directory" then .directory else .regular
  ensure (components entry.path ∉ seen ∧ entry.entryType = expectedType ∧
    entry.size = file.bytes) (.checksum entry.path)
  pure file

/-- One turn of the loop of `extract_archive`. -/
def writeEntry (t : Target) (file : ManifestFile) (entry : Entry) :
    Target × Option BackupError :=
  if hasNull entry.path then (t, some .io)
  else
    match t.createParents [] (names entry.path).dropLast with
    | (t, some _) => (t, some .io)
    | (t, none) =>
        if file.kind = "directory" then createDirectory t entry.path
        else
          match createFile t entry.path entry.content with
          | (t, some error) => (t, some error)
          | (t, none) =>
              if entry.content.length = file.bytes ∧
                  encodeLowerHex (sha256 entry.content) = file.sha256 then (t, none)
              else (t, some (.checksum entry.path))

/-- The loop of `extract_archive`; `refused` says that the operating system refuses a step of
an entry. -/
def extractEntries (refused : Entry → Bool) (expected : Expected) :
    Target → List (List Component) → List Entry →
      Target × Except BackupError (List (List Component))
  | t, seen, [] => (t, .ok seen)
  | t, seen, entry :: rest =>
      match admitEntry expected seen entry with
      | .error error => (t, .error error)
      | .ok file =>
          match writeEntry sha256 t file entry with
          | (t, some error) => (t, .error error)
          | (t, none) =>
              if refused entry then (t, .error .io)
              else extractEntries refused expected t (components entry.path :: seen) rest

def extractArchive (refused : Entry → Bool) (archive : List Entry) (target : Target)
    (expected : Expected) : Target × Option BackupError :=
  match extractEntries sha256 refused expected target [] (withoutManifest archive) with
  | (t, .error error) => (t.removeContents, some error)
  | (t, .ok seen) =>
      if seen.length = expected.length then (t, none)
      else (t.removeContents, some .missingArchiveEntry)

end Tit.Backup
