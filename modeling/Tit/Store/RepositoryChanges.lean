/-
# Store.RepositoryChanges -- the state, the visibility and the collaborators of a repository

The transactions of the local administrator on a repository, which ask for an active one and report
by `repository_state_error` why there is none, and those of its maintainers that archive it or
change a collaborator.
-/
import Tit.Store.Access
import Mathlib.Data.List.Sort

namespace Tit.Store

open Tit.Theory

set_option autoImplicit false

/-- The values that `set_repository_visibility` accepts. -/
def Visibility.parse (visibility : String) : Option Visibility :=
  if visibility = "public" then some .pub
  else if visibility = "private" then some .priv
  else none

/-- The roles that `set_repository_collaborator` accepts. -/
def Role.parseCollaborator (role : String) : Option Role :=
  if role = "maintainer" then some .maintainer
  else if role = "writer" then some .writer
  else if role = "reader" then some .reader
  else none

namespace Database

/-- The `WHERE` of the changes: the repository of this name, in this state. -/
def repositoryInState (ownerId : Nat) (slug : String) (state : ArchiveState) (r : Repository) :
    Bool :=
  decide (r.ownerNamespaceId = ownerId ∧ r.slug = slug ∧ r.state = state)

/-- `rename_repository`, with the `match` over the number of changed rows. -/
def renameRepository (db : Database) (owner oldSlug newSlug : String) (changedAt : Int)
    (actor correlationId : String) : Except StoreError Database := do
  let ownerId ← db.activeNamespaceId owner
  let renamed := repositoryInState ownerId oldSlug .active
  let repositories ← uniqueAs (.repositoryExists owner newSlug)
    (db.repositories.update renamed fun r => { r with slug := newSlug })
  match db.repositories.count renamed with
  | 1 =>
      Database.insertAuditEvent { db with repositories }
        { action := "repository.rename", actor,
          target := owner ++ "/" ++ oldSlug ++ "->" ++ newSlug, outcome := .success,
          correlationId, createdAt := changedAt }
  | 0 => .error (db.repositoryStateError ownerId owner oldSlug)
  | _ => .error .unreachable

def archiveRepository (db : Database) (owner slug : String) (archivedAt : Int)
    (actor correlationId : String) : Except StoreError Database := do
  let ownerId ← db.activeNamespaceId owner
  let archived := repositoryInState ownerId slug .active
  let repositories ← sqlite (db.repositories.update archived
    fun r => { r with state := .archived, archivedAt := some archivedAt })
  ensure (db.repositories.count archived ≠ 0) (db.repositoryStateError ownerId owner slug)
  { db with repositories }.insertAuditEvent
    { action := "repository.archive", actor, target := owner ++ "/" ++ slug, outcome := .success,
      correlationId, createdAt := archivedAt }

def archiveRepositoryForActor (db : Database) (owner slug actor : String) (changedAt : Int)
    (correlationId : String) : Except StoreError Database := do
  let access ← db.repositoryIssueAccess owner slug (some actor)
  ensure (access.canMaintain = true) .pullRequestDenied
  let repositories ← sqlite (db.repositories.update (fun r => decide (r.id = access.repository.id))
    fun r => { r with state := .archived, archivedAt := some changedAt })
  { db with repositories }.insertAuditEvent
    { action := "repository.archive", actor, target := owner ++ "/" ++ slug, outcome := .success,
      correlationId, createdAt := changedAt }

def setRepositoryVisibility (db : Database) (owner slug visibility : String) (changedAt : Int)
    (actor correlationId : String) : Except StoreError Database := do
  let parsed ← required (Visibility.parse visibility) .invalidRepositoryVisibility
  let ownerId ← db.activeNamespaceId owner
  let chosen := repositoryInState ownerId slug .active
  let repositories ← sqlite (db.repositories.update chosen fun r => { r with visibility := parsed })
  ensure (db.repositories.count chosen ≠ 0) (db.repositoryStateError ownerId owner slug)
  { db with repositories }.insertAuditEvent
    { action := "repository.visibility", actor, target := owner ++ "/" ++ slug ++ ":" ++ visibility,
      outcome := .success, correlationId, createdAt := changedAt }

/-- `namespace_account_id`. -/
def namespaceAccountId (db : Database) (namespaceId : Nat) : Except StoreError (Option Nat) := do
  let found ← required (db.namespaces.get namespaceId) .noRows
  pure found.accountId

/-- `INSERT … ON CONFLICT (repository_id, account_id) DO UPDATE SET role`. -/
def upsertCollaborator (db : Database) (collaborator : RepositoryCollaborator) :
    Except Constraint (Table RepositoryCollaborator) :=
  match db.repositoryCollaborators.get (collaborator.repositoryId, collaborator.accountId) with
  | none => db.repositoryCollaborators.insert collaborator
  | some _ =>
      db.repositoryCollaborators.update
        (fun c => decide (c.repositoryId = collaborator.repositoryId ∧
          c.accountId = collaborator.accountId))
        fun c => { c with role := collaborator.role }

def setRepositoryCollaborator (db : Database) (owner slug username role : String)
    (changedAt : Int) (actor correlationId : String) : Except StoreError Database := do
  let granted ← required (Role.parseCollaborator role) .invalidCollaboratorRole
  let ownerId ← db.activeNamespaceId owner
  let repository ← required (db.repositories.find (repositoryInState ownerId slug .active))
    (db.repositoryStateError ownerId owner slug)
  let account ← required
    (db.accounts.find fun a => decide (a.username = username ∧ a.state = .active))
    (.collaboratorNotFound username)
  let ownAccount ← db.namespaceAccountId ownerId
  ensure (ownAccount ≠ some account.id) .ownerCollaborator
  let repositoryCollaborators ← sqlite (db.upsertCollaborator
    { repositoryId := repository.id, accountId := account.id, role := granted,
      createdAt := changedAt })
  { db with repositoryCollaborators }.insertAuditEvent
    { action := "collaborator.set", actor,
      target := owner ++ "/" ++ slug ++ ":" ++ username ++ ":" ++ role, outcome := .success,
      correlationId, createdAt := changedAt }

def removeRepositoryCollaborator (db : Database) (owner slug username : String) (changedAt : Int)
    (actor correlationId : String) : Except StoreError Database := do
  let ownerId ← db.activeNamespaceId owner
  let repository ← required (db.repositories.find (repositoryInState ownerId slug .active))
    (db.repositoryStateError ownerId owner slug)
  let account ← required (db.accounts.find fun a => decide (a.username = username))
    (.collaboratorNotFound username)
  let ownAccount ← db.namespaceAccountId ownerId
  ensure (ownAccount ≠ some account.id) .ownerCollaborator
  let removed : RepositoryCollaborator → Bool := fun c =>
    decide (c.repositoryId = repository.id ∧ c.accountId = account.id)
  ensure (db.repositoryCollaborators.count removed ≠ 0) (.collaboratorNotFound username)
  { db with repositoryCollaborators := db.repositoryCollaborators.delete removed }.insertAuditEvent
    { action := "collaborator.remove", actor, target := owner ++ "/" ++ slug ++ ":" ++ username,
      outcome := .success, correlationId, createdAt := changedAt }

/-- The rows that `repository_settings` lists, in the order of the names. -/
def collaboratorRecords (db : Database) (repositoryId : Identifier) : List (String × Role) :=
  ((db.repositoryCollaborators.rows.filter fun c => decide (c.repositoryId = repositoryId)).filterMap
    fun c => (db.accounts.get c.accountId).map fun account => (account.username, c.role)).insertionSort
      fun c d => c.1 ≤ d.1

/-- The account of a maintainer's change, which has to be active. -/
def activeCollaboratorId (db : Database) (username : String) : Except StoreError Nat :=
  match db.activeAccountId username with
  | .ok id => .ok id
  | .error (.accountNotFound _) => .error (.collaboratorNotFound username)
  | .error error => .error error

/-- `update_repository_collaborator`; without a role the collaborator is removed. -/
def updateRepositoryCollaborator (db : Database) (owner slug actor username : String)
    (role : Option String) (changedAt : Int) (correlationId : String) :
    Except StoreError Database := do
  ensure (role.all fun role => (Role.parseCollaborator role).isSome) .invalidCollaboratorRole
  let access ← db.repositoryIssueAccess owner slug (some actor)
  ensure (access.canMaintain = true) .pullRequestDenied
  let accountId ← db.activeCollaboratorId username
  ensure (username ≠ owner) .ownerCollaborator
  let repositoryCollaborators ←
    match role.bind Role.parseCollaborator with
    | some granted => sqlite (db.upsertCollaborator
        { repositoryId := access.repository.id, accountId, role := granted,
          createdAt := changedAt })
    | none => do
        let removed : RepositoryCollaborator → Bool := fun c =>
          decide (c.repositoryId = access.repository.id ∧ c.accountId = accountId)
        ensure (db.repositoryCollaborators.count removed ≠ 0) (.collaboratorNotFound username)
        pure (db.repositoryCollaborators.delete removed)
  { db with repositoryCollaborators }.insertAuditEvent
    { action := if role.isSome then "collaborator.set" else "collaborator.remove", actor,
      target := owner ++ "/" ++ slug ++ ":" ++ username, outcome := .success, correlationId,
      createdAt := changedAt }

end Database

end Tit.Store
