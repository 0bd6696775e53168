/-
# Store.Visibility -- three more queries that decide what an actor sees

`repository_authorization`, the metadata search and the watched activity each have a
query of their own, with the joins of `repository_issue_access` written anew.  A
`LEFT JOIN` that finds no row leaves `NULL` columns, and a comparison with `NULL` does
not hold.
-/
import Tit.Store.Access
import Mathlib.Data.List.Sort

namespace Tit.Store

open Tit.Theory

set_option autoImplicit false

/-- `a = b` in SQL, where `NULL` equals nothing. -/
def sqlEqual {α : Type} [DecidableEq α] : Option α → Option α → Bool
  | some a, some b => decide (a = b)
  | _, _ => false

@[simp] theorem sqlEqual_none {α : Type} [DecidableEq α] (a : Option α) :
    sqlEqual a none = false := by
  cases a <;> rfl

@[simp] theorem sqlEqual_some {α : Type} [DecidableEq α] {a : Option α} {b : α} :
    sqlEqual a (some b) = true ↔ a = some b := by
  cases a with
  | none => simp [sqlEqual]
  | some a => simp [sqlEqual]

/-- `repository_from_row`. -/
def repositoryRecord (owner : Namespace) (row : Repository) : RepositoryRecord where
  id := row.id
  owner := owner.slug
  slug := row.slug
  visibility := row.visibility
  state := row.state
  objectFormat := row.objectFormat
  createdAt := row.createdAt
  archivedAt := row.archivedAt

structure RepositoryAuthorizationRecord where
  repository : RepositoryRecord
  role : Option Role
  deriving DecidableEq, Repr

/-- A found repository: its kind, its names and the text that the search looks at. -/
structure MetadataSearchCandidate where
  recordId : Identifier
  owner : String
  repository : String
  title : String
  deriving DecidableEq, Repr

/-- A row of the event log, with the repository it belongs to. -/
structure ActivityEventRecord where
  repository : RepositoryRecord
  event : RepositoryEvent
  deriving DecidableEq, Repr

/-- The event to go on from; the row identifier stands for the random `event_id`. -/
structure ActivityCursor where
  createdAt : Int
  eventId : Nat
  deriving DecidableEq, Repr

namespace Database

/-! ## The authorization query -/

/-- The `CASE` of `repository_authorization` over the joined rows. -/
def authorizationRole (owner : Namespace) (actor : Option Account)
    (collaborator : Option RepositoryCollaborator) (member : Option OrganizationMember) :
    Option Role :=
  if actor.any (fun a => decide (a.state ≠ .active)) then none
  else if sqlEqual owner.accountId (actor.map (·.id)) then some .owner
  else if member.any (fun m => decide (m.role = .owner)) then some .owner
  else if member.any (fun m => decide (m.role = .maintainer)) ||
      collaborator.any (fun c => decide (c.role = .maintainer)) then some .maintainer
  else if member.any (fun m => decide (m.role = .writer)) ||
      collaborator.any (fun c => decide (c.role = .writer)) then some .writer
  else if member.any (fun m => decide (m.role = .reader)) ||
      collaborator.any (fun c => decide (c.role = .reader)) then some .reader
  else none

def repositoryAuthorization (db : Database) (owner slug : String) (username : Option String) :
    Except StoreError RepositoryAuthorizationRecord := do
  let (namespaceRow, row) ← required (db.repositoryNamed owner slug)
    (.repositoryNotFound owner slug)
  let actor := username.bind fun name => db.accounts.find fun a => decide (a.username = name)
  let collaborator := actor.bind fun a => db.repositoryCollaborators.get (row.id, a.id)
  let member := actor.bind fun a => db.organizationMembers.get (namespaceRow.id, a.id)
  pure
    { repository := repositoryRecord namespaceRow row
      role := authorizationRole namespaceRow actor collaborator member }

/-! ## The metadata search -/

/-- The `WHERE` of `visible_repository` for an account, or for nobody. -/
def visibleRepository (db : Database) (actor : Option Nat) (owner : Namespace)
    (row : Repository) : Bool :=
  decide (row.state = .active) &&
    (decide (row.visibility = .pub) || sqlEqual owner.accountId actor ||
      db.organizationMembers.any (fun m =>
        decide (m.organizationId = owner.id) && sqlEqual (some m.accountId) actor) ||
      db.repositoryCollaborators.any (fun c =>
        decide (c.repositoryId = row.id) && sqlEqual (some c.accountId) actor))

/-- A repository joined with its namespace, when it is visible. -/
def visibleRow (db : Database) (actor : Option Nat) (row : Repository) :
    Option (Namespace × Repository) :=
  ((db.namespaces.get row.ownerNamespaceId).filter fun owner =>
    db.visibleRepository actor owner row).map fun owner => (owner, row)

def searchCandidate (found : Namespace × Repository) : MetadataSearchCandidate where
  recordId := found.2.id
  owner := found.1.slug
  repository := found.2.slug
  title := found.1.slug ++ "/" ++ found.2.slug

/-- `ORDER BY owner, slug`. -/
def searchCandidates (db : Database) (actor : Option String) : List MetadataSearchCandidate :=
  let account := actor.bind fun name =>
    db.accounts.find fun a => decide (a.username = name ∧ a.state = .active)
  ((db.repositories.rows.filterMap (db.visibleRow (account.map (·.id)))).map
    searchCandidate).insertionSort fun c d =>
      c.owner < d.owner ∨ (c.owner = d.owner ∧ c.repository ≤ d.repository)

/-- The loop over the rows; the flag says that the visit ended early. -/
def visitCandidates {σ : Type} (visit : σ → MetadataSearchCandidate → σ × Bool) (limit : Nat) :
    σ → Nat → List MetadataSearchCandidate → σ × Bool
  | s, _, [] => (s, false)
  | s, visited, candidate :: rest =>
      if visited = limit then (s, true)
      else
        match visit s candidate with
        | (s', true) => visitCandidates visit limit s' (visited + 1) rest
        | (s', false) => (s', true)

/-- `i64::MAX`. -/
def maxInteger : Nat := 2 ^ 63 - 1

def visitMetadataSearchCandidates {σ : Type} (db : Database) (actor : Option String) (limit : Nat)
    (visit : σ → MetadataSearchCandidate → σ × Bool) (start : σ) :
    Except StoreError (σ × Bool) := do
  ensure (limit + 1 ≤ maxInteger) .eventLimit
  pure (visitCandidates visit limit start 0 ((db.searchCandidates actor).take (limit + 1)))

/-! ## Watched activity -/

/-- The `WHERE` of `watched_activity_events`. -/
def watchedRepository (db : Database) (accountId : Nat) (owner : Namespace) (row : Repository) :
    Bool :=
  decide (row.state = .active) &&
    (decide (row.visibility = .pub) || sqlEqual owner.accountId (some accountId) ||
      db.organizationMembers.any (fun m =>
        decide (m.organizationId = owner.id ∧ m.accountId = accountId)) ||
      db.repositoryCollaborators.any (fun c =>
        decide (c.repositoryId = row.id ∧ c.accountId = accountId)))

/-- The join of an event with its repository, its namespace and the watch. -/
def watchedEvent (db : Database) (accountId : Nat) (event : RepositoryEvent) :
    Option ActivityEventRecord := do
  let row ← db.repositories.get event.repositoryId
  let owner ← db.namespaces.get row.ownerNamespaceId
  let _ ← db.watches.get (row.id, accountId)
  if db.watchedRepository accountId owner row then
    some { repository := repositoryRecord owner row, event }
  else none

/-- The event is older than the cursor, if there is one. -/
def olderThan (before : Option ActivityCursor) (event : RepositoryEvent) : Bool :=
  before.all fun cursor =>
    decide (event.createdAt < cursor.createdAt ∨
      (event.createdAt = cursor.createdAt ∧ event.id < cursor.eventId))

def watchedActivityEvents (db : Database) (accountId : Nat) (before : Option ActivityCursor)
    (limit : Nat) : List ActivityEventRecord :=
  ((db.repositoryEvents.rows.filterMap (db.watchedEvent accountId)).filter
    fun record => olderThan before record.event).insertionSort (fun a b =>
      b.event.createdAt < a.event.createdAt ∨
        (a.event.createdAt = b.event.createdAt ∧ b.event.id ≤ a.event.id)) |>.take limit

end Database

end Tit.Store
