/-
# Migration.Schema -- from one schema version to the next

`migrate` brings a database from the version it was left at to the version of the program.  It does
so in up to three transactions: the scripts below version 25 with the default branches read from
the file system, the script of version 25 alone, since it runs with foreign keys disabled, and the
scripts behind it.

The scripts themselves are a part of the `Setting`, as are the files `HEAD` of the repositories and
the grammar of reference names of the Git library.  A `Disk` is what is committed; its history says
which scripts made it.
-/
import Tit.Store.Directory

namespace Tit.Migration

open Tit.Theory Tit.Store

set_option autoImplicit false

def schemaVersion : Nat := 26

def repositoryNamespaceVersion : Nat := 25

inductive MigrationError where
  | newerSchema (version : Nat)
  | sqlite (constraint : Constraint)
  | integrity (message : String)
  | filesystem (repository : Identifier)
  /-- Any other failure of a statement. -/
  | failed
  deriving DecidableEq, Repr

/-- The file `HEAD` of a repository. -/
inductive Head where
  | missing
  | unreadable
  | contents (bytes : List UInt8)
  deriving DecidableEq, Repr

/-- The rows that the default branches are written to, and all other rows. -/
structure Contents (Rest : Type) where
  repositories : List Identifier
  defaultBranches : Table RepositoryDefaultBranch
  rest : Rest

/-- What a migration is given: the scripts, the check of foreign keys and the file system. -/
structure Setting (Rest : Type) where
  script : Nat → Contents Rest → Except MigrationError (Contents Rest)
  verifyForeignKeys : Contents Rest → Except MigrationError Unit
  head : Identifier → Head
  fullName : List UInt8 → Bool

inductive Applied where
  | script (version : Nat)
  | backfill
  deriving DecidableEq, Repr

/-- A database, with what has been applied to it since it was first opened. -/
structure Disk (Rest : Type) where
  version : Nat
  contents : Contents Rest
  history : List Applied

section Parts

variable {Rest : Type} (setting : Setting Rest)

/-! ## The default branches -/

def integrityOf (id : Identifier) (message : String) : MigrationError :=
  .integrity ("repository " ++ identifierText id ++ message)

/-- The branch that the file names. -/
def headBranch (id : Identifier) (contents : List UInt8) : Except MigrationError String := do
  let line := ([10].isSuffixOf? contents).getD contents
  let name ← required ((asciiBytes "ref: ").isPrefixOf? line)
    (integrityOf id " has a non-symbolic HEAD during migration")
  ensure ((asciiBytes "refs/heads/").isPrefixOf name = true ∧ setting.fullName name = true)
    (integrityOf id " has an invalid HEAD during migration")
  required (String.fromUTF8? ⟨name.toArray⟩)
    (integrityOf id " has a non-UTF-8 HEAD during migration")

def backfillDefaultBranch (contents : Contents Rest) (id : Identifier) :
    Except MigrationError (Contents Rest) :=
  match setting.head id with
  | .missing => .ok contents
  | .unreadable => .error (.filesystem id)
  | .contents bytes => do
      let name ← headBranch setting id bytes
      let written : RepositoryDefaultBranch → Bool := fun r => decide (r.repositoryId = id)
      match contents.defaultBranches.update written fun r => { r with refName := name } with
      | .error constraint => .error (.sqlite constraint)
      | .ok defaultBranches =>
          ensure (contents.defaultBranches.count written = 1)
            (integrityOf id " has no default-branch row during migration")
          pure { contents with defaultBranches }

def backfillDefaultBranches (contents : Contents Rest) : Except MigrationError (Contents Rest) :=
  contents.repositories.foldlM (backfillDefaultBranch setting) contents

/-! ## The transactions -/

/-- Run the script of a version and store the version. -/
def applyScript (disk : Disk Rest) (version : Nat) : Except MigrationError (Disk Rest) := do
  let contents ← setting.script version disk.contents
  pure { version, contents, history := disk.history ++ [.script version] }

/-- The scripts behind one version, up to another. -/
def scripts (current last : Nat) (disk : Disk Rest) : Except MigrationError (Disk Rest) :=
  (List.range' (current + 1) (last - current)).foldlM (applyScript setting) disk

def backfill (disk : Disk Rest) : Except MigrationError (Disk Rest) := do
  let contents ← backfillDefaultBranches setting disk.contents
  pure { disk with contents, history := disk.history ++ [.backfill] }

/-- The scripts below the repository namespaces; a database without default branches gets them from
the file system. -/
def first (disk : Disk Rest) : Except MigrationError (Disk Rest) := do
  let applied ← scripts setting disk.version (repositoryNamespaceVersion - 1) disk
  if disk.version < 23 then backfill setting applied else pure applied

/-- The script of the repository namespaces, in the transaction without foreign keys. -/
def namespaceScript (disk : Disk Rest) : Except MigrationError (Disk Rest) := do
  let contents ← setting.script repositoryNamespaceVersion disk.contents
  pure { disk with contents, history := disk.history ++ [.script repositoryNamespaceVersion] }

def second (disk : Disk Rest) : Except MigrationError (Disk Rest) := do
  let applied ← namespaceScript setting disk
  let _ ← setting.verifyForeignKeys applied.contents
  pure { applied with version := repositoryNamespaceVersion }

/-- `migrate`, when nothing interrupts it. -/
def migrate (disk : Disk Rest) : Except MigrationError (Disk Rest) :=
  let current := disk.version
  if current > schemaVersion then .error (.newerSchema current)
  else if current = schemaVersion then .ok disk
  else do
    let disk ← if current < repositoryNamespaceVersion - 1 then first setting disk else pure disk
    let disk ← if current < repositoryNamespaceVersion then second setting disk else pure disk
    scripts setting disk.version schemaVersion disk

end Parts

/-! ## The machine -/

/-- Where the process is; a transaction under way holds what it would commit. -/
inductive Point (Rest : Type) where
  /-- No connection: the process has stopped. -/
  | closed
  | opened
  | reading
  | first (current next : Nat) (work : Disk Rest)
  | backfilling (work : Disk Rest)
  | committingFirst (work : Disk Rest)
  | keysOff
  | second (work : Disk Rest)
  | verifying (work : Disk Rest)
  | committingSecond (work : Disk Rest)
  | keysOn (failure : Option MigrationError)
  | rereading
  | third (next : Nat) (work : Disk Rest)
  | committingThird (work : Disk Rest)
  | returned (failure : Option MigrationError)

/-- The committed database, the setting of the connection and the point of the process. -/
structure Machine (Rest : Type) where
  disk : Disk Rest
  foreignKeys : Bool
  point : Point Rest

inductive Action where
  /-- The process ends, with its connection and its transaction. -/
  | stop
  /-- `open_unmigrated`: a new connection, configured. -/
  | «open»
  | migrate
  | proceed
  /-- The statement that is next fails. -/
  | fail (error : MigrationError)

section Machine

variable {Rest : Type} (setting : Setting Rest)

/-- A failure of the second transaction passes the statement that enables foreign keys; any other
is returned at once. -/
def failAt (error : MigrationError) (m : Machine Rest) : Option (Machine Rest) :=
  match m.point with
  | .closed | .opened | .returned _ | .keysOn _ => none
  | .second _ | .verifying _ | .committingSecond _ => some { m with point := .keysOn (some error) }
  | _ => some { m with point := .returned (some error) }

/-- Go on with a result, or fail with its error. -/
def goOn {α : Type} (m : Machine Rest) (result : Except MigrationError α) (next : α → Point Rest) :
    Option (Machine Rest) :=
  match result with
  | .ok value => some { m with point := next value }
  | .error error => failAt error m

def proceed (m : Machine Rest) : Option (Machine Rest) :=
  match m.point with
  | .closed | .opened | .returned _ => none
  | .reading =>
      let current := m.disk.version
      if current > schemaVersion then failAt (.newerSchema current) m
      else if current = schemaVersion then some { m with point := .returned none }
      else if current < repositoryNamespaceVersion - 1 then
        some { m with point := .first current (current + 1) m.disk }
      else if current < repositoryNamespaceVersion then some { m with point := .keysOff }
      else some { m with point := .rereading }
  | .first current next work =>
      if next < repositoryNamespaceVersion then
        goOn m (applyScript setting work next) (.first current (next + 1))
      else if current < 23 then some { m with point := .backfilling work }
      else some { m with point := .committingFirst work }
  | .backfilling work => goOn m (backfill setting work) .committingFirst
  | .committingFirst work => some { m with disk := work, point := .keysOff }
  | .keysOff => some { m with foreignKeys := false, point := .second m.disk }
  | .second work => goOn m (namespaceScript setting work) .verifying
  | .verifying work =>
      goOn m (setting.verifyForeignKeys work.contents) fun _ =>
        .committingSecond { work with version := repositoryNamespaceVersion }
  | .committingSecond work => some { m with disk := work, point := .keysOn none }
  | .keysOn none => some { m with foreignKeys := true, point := .rereading }
  | .keysOn (some error) =>
      some { m with foreignKeys := true, point := .returned (some error) }
  | .rereading =>
      if m.disk.version < schemaVersion then
        some { m with point := .third (m.disk.version + 1) m.disk }
      else some { m with point := .returned none }
  | .third next work =>
      if next ≤ schemaVersion then goOn m (applyScript setting work next) (.third (next + 1))
      else some { m with point := .committingThird work }
  | .committingThird work => some { m with disk := work, point := .returned none }

def step (m : Machine Rest) : Action → Option (Machine Rest)
  | .stop => some { m with point := .closed }
  | .open =>
      match m.point with
      | .closed => some { m with foreignKeys := true, point := .opened }
      | _ => none
  | .migrate =>
      match m.point with
      | .opened | .returned _ => some { m with point := .reading }
      | _ => none
  | .proceed => proceed setting m
  | .fail error => failAt error m

/-- A database as a program finds it. -/
def Machine.found (version : Nat) (contents : Contents Rest) : Machine Rest :=
  ⟨⟨version, contents, []⟩, false, .closed⟩

end Machine

end Tit.Migration
