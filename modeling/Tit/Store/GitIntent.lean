/-
# Store.GitIntent -- the intents of pushes and merges

A push or a merge is written twice: in the database, as an intent and its events, and
in the Git repository, as references and objects.  A row of `git_operation_intent` is
`pending` until the objects are in place, `promoted` until the references are moved,
and then `completed` together with its events, or `abandoned`.

The payloads of these events hold bounded texts and are left out.
-/
import Tit.Store.PullRequest

namespace Tit.Store

open Tit.Theory

set_option autoImplicit false

structure NewGitOperationIntent where
  id : Identifier
  repositoryPath : RepositoryPath
  actor : String
  initialRefs : RefSnapshot
  proposedRefs : RefSnapshot
  eventPayload : RefSnapshot
  quarantinePath : QuarantinePath
  createdAt : Int

structure NewPullRequestMerge where
  owner : String
  repository : String
  number : Nat
  revision : Nat
  actor : String
  method : MergeMethod
  baseRef : RefName
  oldTarget : ObjectId
  headTarget : ObjectId
  newTarget : ObjectId
  createdAt : Int

def gitIntentRow (intent : NewGitOperationIntent) : GitOperationIntent where
  id := intent.id
  repositoryPath := intent.repositoryPath
  actor := intent.actor
  initialRefs := intent.initialRefs
  proposedRefs := intent.proposedRefs
  eventPayload := intent.eventPayload
  quarantinePath := intent.quarantinePath
  state := .pending
  packName := none
  createdAt := intent.createdAt

namespace Database

/-! ## Beginning -/

def beginGitIntent (db : Database) (intent : NewGitOperationIntent) :
    Except StoreError Database := do
  let gitOperationIntents ← sqlite (db.gitOperationIntents.insert (gitIntentRow intent))
  pure { db with gitOperationIntents }

/-- The revision whose number is `MAX(number)`. -/
def latestRevision (db : Database) (pullRequestId : Identifier) : Option PullRequestRevision :=
  db.pullRequestRevisions.find fun r =>
    decide (r.pullRequestId = pullRequestId ∧ r.number + 1 = db.nextRevisionNumber pullRequestId)

def mergeIntentRow (repositoryId : Identifier) (merge : NewPullRequestMerge)
    (intentId : Identifier) (p : PullRequest) (r : PullRequestRevision) :
    PullRequestMergeIntent where
  intentId := intentId
  repositoryId := repositoryId
  pullRequestId := p.id
  revisionId := r.id
  revisionNumber := merge.revision
  method := merge.method
  baseRef := merge.baseRef
  oldTarget := merge.oldTarget
  newTarget := merge.newTarget
  createdAt := merge.createdAt

def beginPullRequestMerge (db : Database) (merge : NewPullRequestMerge)
    (intent : NewGitOperationIntent) : Except StoreError Database := do
  let access ← db.repositoryIssueAccess merge.owner merge.repository (some merge.actor)
  ensure (access.canRead = true) .pullRequestHidden
  ensure (access.canMaintain = true) .pullRequestDenied
  ensure (managedRepositoryId intent.repositoryPath = some access.repository.id) .integrity
  let p ← required (db.pullRequestNumbered access.repository.id merge.number)
    (.pullRequestNotFound merge.owner merge.repository merge.number)
  let r ← required (db.latestRevision p.id)
    (.pullRequestNotFound merge.owner merge.repository merge.number)
  ensure (p.state = .open) .pullRequestState
  ensure (p.baseRef = merge.baseRef ∧ p.baseObjectId = merge.oldTarget ∧
    p.headObjectId = merge.headTarget ∧ r.number = merge.revision) .pullRequestRevisionNotFound
  ensure (intent.initialRefs = [(merge.baseRef, merge.oldTarget)] ∧
    intent.proposedRefs = [(merge.baseRef, merge.newTarget)]) .eventPayload
  let gitOperationIntents ← sqlite (db.gitOperationIntents.insert (gitIntentRow intent))
  let pullRequestMergeIntents ← sqlite (db.pullRequestMergeIntents.insert
    (mergeIntentRow access.repository.id merge intent.id p r))
  pure { db with gitOperationIntents, pullRequestMergeIntents }

/-! ## Promoting and abandoning -/

def inState (id : Identifier) (state : IntentState) (i : GitOperationIntent) : Bool :=
  decide (i.id = id ∧ i.state = state)

def markGitObjectsPromoted (db : Database) (id : Identifier) (packName : Option PackName) :
    Except StoreError Database := do
  let gitOperationIntents ← sqlite (db.gitOperationIntents.update (inState id .pending)
    fun i => { i with state := .promoted, packName })
  ensure (db.gitOperationIntents.count (inState id .pending) = 1) (.intentState id)
  pure { db with gitOperationIntents }

def unsettled (id : Identifier) (i : GitOperationIntent) : Bool :=
  decide (i.id = id) && i.incomplete

def abandonGitIntent (db : Database) (id : Identifier) : Except StoreError Database := do
  let pullRequestMergeIntents := db.pullRequestMergeIntents.delete fun m =>
    decide (m.intentId = id)
  let gitOperationIntents ← sqlite (db.gitOperationIntents.update (unsettled id)
    fun i => { i with state := .abandoned })
  ensure (db.gitOperationIntents.count (unsettled id) = 1) (.intentState id)
  pure { db with gitOperationIntents, pullRequestMergeIntents }

/-! ## Completing -/

/-- An event of the intent; `push` and the references come from `insert_push_events`. -/
def sourcedEvent (intent : GitOperationIntent) (repositoryId : Identifier) (ordinal : Nat)
    (kind : EventKind) : NewDomainEvent where
  repositoryId := repositoryId
  sourceIntentId := some intent.id
  sourceOrdinal := some ordinal
  pullRequestId := none
  kind := kind
  actor := intent.actor
  refName := none
  oldTarget := none
  newTarget := none
  createdAt := intent.createdAt

def refEventKind (tag : Bool) (old new : ObjectId) : EventKind :=
  if old.isNull then (if tag then .tagCreated else .refCreated)
  else if new.isNull then (if tag then .tagDeleted else .refDeleted)
  else if tag then .tagUpdated else .refUpdated

/-- `(!is_null_id(&id)).then_some(id)`. -/
def target (id : ObjectId) : Option ObjectId := if id.isNull then none else some id

def refEvent (intent : GitOperationIntent) (repositoryId : Identifier) (ordinal : Nat)
    (tag : Bool) (name : RefName) (old new : ObjectId) : NewDomainEvent :=
  { sourcedEvent intent repositoryId ordinal (refEventKind tag old new) with
    refName := some name, oldTarget := target old, newTarget := target new }

/-- The loop of `insert_push_events` over the two snapshots. -/
def insertRefEvents (intent : GitOperationIntent) (repositoryId : Identifier) :
    Database → Nat → List ((RefName × ObjectId) × (RefName × ObjectId)) →
    Except StoreError Database
  | db, _, [] => .ok db
  | db, ordinal, ((oldName, old), (newName, new)) :: rest => do
      ensure (oldName = newName ∧ ¬(old.isNull = true ∧ new.isNull = true)) .eventPayload
      let tag ← required (isTag oldName) .eventPayload
      let db ← db.insertDomainEvent (refEvent intent repositoryId ordinal tag oldName old new)
      insertRefEvents intent repositoryId db (ordinal + 1) rest

/-- The repository in the store that the path names. -/
def managedRepository (db : Database) (path : RepositoryPath) : Option Identifier :=
  (managedRepositoryId path).filter fun id => (db.repositories.get id).isSome

def refUpdateAudit (intent : GitOperationIntent) (repositoryId : Identifier) : NewAuditEvent where
  action := "ref.update"
  actor := intent.actor
  target := identifierText repositoryId
  outcome := .success
  correlationId := identifierText intent.id
  createdAt := intent.createdAt

def insertPushEvents (db : Database) (intent : GitOperationIntent) : Except StoreError Database :=
  match db.managedRepository intent.repositoryPath with
  | none => .ok db
  | some repositoryId => do
      ensure (intent.initialRefs.length = intent.proposedRefs.length) .eventPayload
      let db ← db.insertDomainEvent (sourcedEvent intent repositoryId 0 .push)
      let db ← insertRefEvents intent repositoryId db 1
        (intent.initialRefs.zip intent.proposedRefs)
      db.insertAuditEvent (refUpdateAudit intent repositoryId)

/-- The merge row of the intent, with its pull request and revision. -/
def mergeOf (db : Database) (intentId : Identifier) :
    Option (PullRequestMergeIntent × PullRequest × PullRequestRevision) := do
  let merge ← db.pullRequestMergeIntents.get intentId
  let p ← db.pullRequests.get merge.pullRequestId
  let r ← db.pullRequestRevisions.get merge.revisionId
  pure (merge, p, r)

/-- The pull request is still the one that the merge was begun for. -/
def stillMergeable (db : Database) (merge : PullRequestMergeIntent) (p : PullRequest)
    (r : PullRequestRevision) : Bool :=
  decide (p.state = .open ∧ p.baseRef = merge.baseRef ∧ p.baseObjectId = merge.oldTarget ∧
    p.headObjectId = r.headObjectId ∧ r.baseObjectId = merge.oldTarget ∧
    db.nextRevisionNumber p.id = merge.revisionNumber + 1)

def openPullRequest (id : Identifier) (p : PullRequest) : Bool :=
  decide (p.id = id ∧ p.state = .open)

def completePullRequestMerge (db : Database) (intent : GitOperationIntent) :
    Except StoreError Database :=
  match db.mergeOf intent.id with
  | none => .ok db
  | some (merge, p, r) => do
      ensure (db.stillMergeable merge p r = true) .pullRequestState
      let pullRequests ← sqlite (db.pullRequests.update (openPullRequest merge.pullRequestId)
        fun p => { p with state := .merged, updatedAt := intent.createdAt })
      ensure (db.pullRequests.count (openPullRequest merge.pullRequestId) = 1) .pullRequestState
      { db with pullRequests }.insertDomainEvent
        { sourcedEvent intent merge.repositoryId 2 .pullRequestMerged with
          pullRequestId := some merge.pullRequestId }

def gitEventRow (db : Database) (intent : GitOperationIntent) : GitOperationEvent where
  id := db.gitOperationEvents.nextRowid
  intentId := intent.id
  payload := intent.eventPayload

def completeGitIntent (db : Database) (id : Identifier) : Except StoreError Database := do
  let intent ← required
    ((db.gitOperationIntents.get id).filter fun i => decide (i.state = .promoted)) .noRows
  let gitOperationIntents ← sqlite (db.gitOperationIntents.update (inState id .promoted)
    fun i => { i with state := .completed })
  ensure (db.gitOperationIntents.count (inState id .promoted) = 1) (.intentState id)
  let gitOperationEvents ← sqlite (db.gitOperationEvents.insert (db.gitEventRow intent))
  let db ← { db with gitOperationIntents, gitOperationEvents }.insertPushEvents intent
  db.completePullRequestMerge intent

/-- The intents that recovery settles, oldest first. -/
def incompleteGitIntents (db : Database) : List GitOperationIntent :=
  (db.gitOperationIntents.rows.filter (·.incomplete)).insertionSort
    fun i j => createdBefore i.createdAt j.createdAt i.id j.id = true

end Database

end Tit.Store
