/-
# Store.Directory -- organizations, their members and repositories

The transactions on organizations and repositories, with the two authorization
queries in front of them.
-/
import Tit.Store.Account

namespace Tit.Store

open Tit.Theory

set_option autoImplicit false

/-- `validate_username`, on the characters of a name. -/
def validateUsername (username : String) : Bool :=
  let validCharacter : Char → Bool := fun c => c.isLower || c.isDigit
  lengthBetween 1 40 username && username.toList.head?.any validCharacter &&
    username.toList.getLast?.any validCharacter &&
    username.toList.all (fun c => validCharacter c || c == '-') &&
    decide (username ∉ reservedSlugs)

/-- `validate_slug`, on the characters of a name. -/
def validateSlug (slug : String) : Bool :=
  let alphanumeric : Char → Bool := fun c => c.isLower || c.isDigit
  lengthBetween 1 100 slug && decide (slug.toList.drop (slug.length - 4) ≠ ".git".toList) &&
    decide (slug ∉ reservedSlugs) &&
    slug.toList.all (fun c => alphanumeric c || c == '.' || c == '_' || c == '-') &&
    slug.toList.head?.any alphanumeric && slug.toList.getLast?.any alphanumeric

inductive RepositoryOrigin where
  | created
  | imported
  deriving DecidableEq, Repr

def RepositoryOrigin.eventKind : RepositoryOrigin → EventKind
  | .created => .repositoryCreated
  | .imported => .repositoryImported

def RepositoryOrigin.auditAction : RepositoryOrigin → String
  | .created => "repository.create"
  | .imported => "repository.import"

structure NewRepositoryReference where
  name : RefName
  target : ObjectId

structure NewRepository where
  id : Identifier
  owner : String
  slug : String
  objectFormat : ObjectFormat
  defaultBranch : String
  createdAt : Int
  origin : RepositoryOrigin
  initialReferences : List NewRepositoryReference
  actor : String
  correlationId : String

/-- The bytes of an ASCII text. -/
def asciiBytes (text : String) : List UInt8 := text.toList.map fun c => UInt8.ofNat c.toNat

/-- The reference is a tag, a branch, or neither. -/
def isTag (name : RefName) : Option Bool :=
  if (asciiBytes "refs/tags/").isPrefixOf name then some true
  else if (asciiBytes "refs/heads/").isPrefixOf name then some false
  else none

namespace Database

/-! ## Names -/

/-- The active namespace of this name: an active account's, or an active
organization's. -/
def activeNamespace (db : Database) (n : Namespace) : Bool :=
  match n.kind with
  | .account =>
      db.accounts.any fun a => decide (n.accountId = some a.id ∧ a.state = .active)
  | .organization =>
      db.organizations.any fun o => decide (o.namespaceId = n.id ∧ o.state = .active)

def activeNamespaceId (db : Database) (slug : String) : Except StoreError Nat := do
  let found ← required
    (db.namespaces.find fun n => decide (n.slug = slug) && db.activeNamespace n)
    (.namespaceNotFound slug)
  pure found.id

def activeOrganizationId (db : Database) (slug : String) : Except StoreError Nat := do
  let found ← required
    (db.namespaces.find fun n => decide (n.slug = slug) &&
      db.organizations.any fun o => decide (o.namespaceId = n.id ∧ o.state = .active))
    (.namespaceNotFound slug)
  pure found.id

/-! ## Authorization -/

/-- The local administrator, whose requests carry this name instead of an account's. -/
def adminCli : String := "admin-cli"

/-- The account has one of these roles in the organization. -/
def hasRole (db : Database) (organizationId accountId : Nat) (roles : List Role) : Bool :=
  db.organizationMembers.any fun m =>
    decide (m.organizationId = organizationId ∧ m.accountId = accountId ∧ m.role ∈ roles)

def authorizeNamespaceMaintainer (db : Database) (namespaceId : Nat) (actor : String) :
    Except StoreError Unit :=
  if actor = adminCli then .ok ()
  else do
    let actorId ← db.activeAccountId actor
    let authorized := db.namespaces.any fun n =>
      decide (n.id = namespaceId) &&
        (decide (n.accountId = some actorId) || db.hasRole n.id actorId [.owner, .maintainer])
    ensure (authorized = true) .organizationDenied

def authorizeOrganizationOwner (db : Database) (organizationId : Nat) (actor : String) :
    Except StoreError Unit :=
  if actor = adminCli then .ok ()
  else do
    let actorId ← db.activeAccountId actor
    ensure (db.hasRole organizationId actorId [.owner] = true) .organizationDenied

/-- An organization keeps an owner beside this account. -/
def requireOtherOrganizationOwner (db : Database) (organizationId accountId : Nat) :
    Except StoreError Unit :=
  if db.hasRole organizationId accountId [.owner] then
    ensure (db.organizationMembers.any (fun m =>
      decide (m.organizationId = organizationId ∧ m.accountId ≠ accountId ∧ m.role = .owner))
      = true) .lastOrganizationOwner
  else .ok ()

/-! ## Organizations -/

def createOrganization (db : Database) (slug displayName description owner : String)
    (createdAt : Int) (correlationId : String) : Except StoreError Database := do
  let ownerId ← db.activeAccountId owner
  let organizationId := db.namespaces.nextRowid
  let namespaces ← uniqueAs (.namespaceUnavailable slug) (db.namespaces.insert
    { id := organizationId, slug, kind := .organization, accountId := none, createdAt })
  let organizations ← sqlite (db.organizations.insert
    { namespaceId := organizationId, displayName, description, state := .active, createdAt })
  let organizationMembers ← sqlite (db.organizationMembers.insert
    { organizationId, accountId := ownerId, role := .owner, createdAt })
  { db with namespaces, organizations, organizationMembers }.insertAuditEvent
    { action := "organization.create", actor := owner, target := slug, outcome := .success,
      correlationId, createdAt }

/-- `INSERT … ON CONFLICT (organization_id, account_id) DO UPDATE SET role`. -/
def upsertMember (db : Database) (member : OrganizationMember) :
    Except Constraint (Table OrganizationMember) :=
  match db.organizationMembers.get (member.organizationId, member.accountId) with
  | none => db.organizationMembers.insert member
  | some _ =>
      db.organizationMembers.update
        (fun m => decide (m.organizationId = member.organizationId ∧
          m.accountId = member.accountId))
        fun m => { m with role := member.role }

def setOrganizationMember (db : Database) (organization actor username role : String)
    (changedAt : Int) (correlationId : String) : Except StoreError Database := do
  let granted ← required (Role.parse role) .invalidOrganizationRole
  let organizationId ← db.activeOrganizationId organization
  let _ ← db.authorizeOrganizationOwner organizationId actor
  let account ← required
    (db.accounts.find fun a => decide (a.username = username ∧ a.state = .active))
    (.organizationMemberNotFound username)
  let _ ←
    if granted = .owner then .ok ()
    else db.requireOtherOrganizationOwner organizationId account.id
  let organizationMembers ← sqlite (db.upsertMember
    { organizationId, accountId := account.id, role := granted, createdAt := changedAt })
  { db with organizationMembers }.insertAuditEvent
    { action := "organization.member.set", actor,
      target := organization ++ ":" ++ username ++ ":" ++ role, outcome := .success,
      correlationId, createdAt := changedAt }

def updateOrganizationProfile (db : Database)
    (organization actor displayName description : String) (changedAt : Int)
    (correlationId : String) : Except StoreError Database := do
  let organizationId ← db.activeOrganizationId organization
  let _ ← db.authorizeNamespaceMaintainer organizationId actor
  let chosen : Organization → Bool := fun o =>
    decide (o.namespaceId = organizationId ∧ o.state = .active)
  let organizations ← sqlite (db.organizations.update chosen
    fun o => { o with displayName, description })
  ensure (db.organizations.count chosen = 1) (.namespaceNotFound organization)
  { db with organizations }.insertAuditEvent
    { action := "organization.profile", actor, target := organization, outcome := .success,
      correlationId, createdAt := changedAt }

def removeOrganizationMember (db : Database) (organization actor username : String)
    (changedAt : Int) (correlationId : String) : Except StoreError Database := do
  let organizationId ← db.activeOrganizationId organization
  let _ ← db.authorizeOrganizationOwner organizationId actor
  let account ← required (db.accounts.find fun a => decide (a.username = username))
    (.organizationMemberNotFound username)
  let _ ← db.requireOtherOrganizationOwner organizationId account.id
  let removed : OrganizationMember → Bool := fun m =>
    decide (m.organizationId = organizationId ∧ m.accountId = account.id)
  ensure (db.organizationMembers.count removed = 1) (.organizationMemberNotFound username)
  { db with organizationMembers := db.organizationMembers.delete removed }.insertAuditEvent
    { action := "organization.member.remove", actor, target := organization ++ ":" ++ username,
      outcome := .success, correlationId, createdAt := changedAt }

/-! ## Repositories -/

/-- Why no repository of this name was in the state a change asks for. -/
def repositoryStateError (db : Database) (ownerId : Nat) (owner slug : String) : StoreError :=
  match db.repositories.find fun r => decide (r.ownerNamespaceId = ownerId ∧ r.slug = slug) with
  | none => .repositoryNotFound owner slug
  | some r => if r.state = .archived then .repositoryArchived owner slug else .unreachable

/-- The event of one reference that a new repository starts with. -/
def insertInitialReference (repository : NewRepository) (db : Database)
    (reference : NewRepositoryReference) : Except StoreError Database := do
  let tag ← required (isTag reference.name) .eventPayload
  db.insertDomainEvent
    { repositoryId := repository.id, sourceIntentId := none, sourceOrdinal := none,
      pullRequestId := none, kind := if tag then .tagCreated else .refCreated,
      actor := repository.actor, refName := some reference.name, oldTarget := none,
      newTarget := some reference.target, createdAt := repository.createdAt }

def createRepository (db : Database) (repository : NewRepository) :
    Except StoreError Database := do
  let ownerId ← db.activeNamespaceId repository.owner
  let _ ← db.authorizeNamespaceMaintainer ownerId repository.actor
  let taken := db.repositories.any fun r => decide (r.id = repository.id)
  let repositories ← uniqueAs
    (if taken then .repositoryIdentifierCollision
      else .repositoryExists repository.owner repository.slug)
    (db.repositories.insert
      { id := repository.id, ownerNamespaceId := ownerId, slug := repository.slug,
        visibility := .pub, state := .active, objectFormat := repository.objectFormat,
        createdAt := repository.createdAt, archivedAt := none })
  let repositoryDefaultBranches ← sqlite (db.repositoryDefaultBranches.insert
    { repositoryId := repository.id, refName := repository.defaultBranch })
  let db ← { db with repositories, repositoryDefaultBranches }.insertDomainEvent
    { repositoryId := repository.id, sourceIntentId := none, sourceOrdinal := none,
      pullRequestId := none, kind := repository.origin.eventKind, actor := repository.actor,
      refName := none, oldTarget := none, newTarget := none, createdAt := repository.createdAt }
  let db ← repository.initialReferences.foldlM (insertInitialReference repository) db
  db.insertAuditEvent
    { action := repository.origin.auditAction, actor := repository.actor,
      target := repository.owner ++ "/" ++ repository.slug, outcome := .success,
      correlationId := repository.correlationId, createdAt := repository.createdAt }

/-- A denied request for a repository is reported in the words of pull requests. -/
def denyAsPullRequest (result : Except StoreError Unit) : Except StoreError Unit :=
  match result with
  | .error .organizationDenied => .error .pullRequestDenied
  | result => result

def renameRepositoryForOwner (db : Database) (owner oldSlug newSlug actor : String)
    (changedAt : Int) (correlationId : String) : Except StoreError Database := do
  let ownerId ← db.activeNamespaceId owner
  let _ ← denyAsPullRequest (db.authorizeNamespaceMaintainer ownerId actor)
  let renamed : Repository → Bool := fun r =>
    decide (r.ownerNamespaceId = ownerId ∧ r.slug = oldSlug ∧ r.state = .active)
  let repositories ← uniqueAs (.repositoryExists owner newSlug)
    (db.repositories.update renamed fun r => { r with slug := newSlug })
  ensure (db.repositories.count renamed = 1) (db.repositoryStateError ownerId owner oldSlug)
  { db with repositories }.insertAuditEvent
    { action := "repository.rename", actor, target := owner ++ "/" ++ oldSlug ++ "->" ++ newSlug,
      outcome := .success, correlationId, createdAt := changedAt }

def unarchiveRepositoryForOwner (db : Database) (owner slug actor : String) (changedAt : Int)
    (correlationId : String) : Except StoreError Database := do
  let ownerId ← db.activeNamespaceId owner
  let _ ← denyAsPullRequest (db.authorizeNamespaceMaintainer ownerId actor)
  let archived : Repository → Bool := fun r =>
    decide (r.ownerNamespaceId = ownerId ∧ r.slug = slug ∧ r.state = .archived)
  let repositories ← sqlite (db.repositories.update archived
    fun r => { r with state := .active, archivedAt := none })
  ensure (db.repositories.count archived = 1) (db.repositoryStateError ownerId owner slug)
  { db with repositories }.insertAuditEvent
    { action := "repository.unarchive", actor, target := owner ++ "/" ++ slug,
      outcome := .success, correlationId, createdAt := changedAt }

end Database

end Tit.Store
