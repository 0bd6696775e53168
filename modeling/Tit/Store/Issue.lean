/-
# Store.Issue -- issues, and the pages that show issues and pull requests

Every operation on an issue first asks whether the actor may read the repository
(`issue_mutation_context`); so do the lists and the pages, of issues as of pull
requests.  The payload of an event is kept as the number of its characters.
-/
import Tit.Store.Review
import Tit.Store.Visibility

namespace Tit.Store

open Tit.Theory

set_option autoImplicit false

/-! ## Requests and records -/

/-- A new issue; `id` is the random key that the database draws for it. -/
structure NewIssue where
  id : Identifier
  owner : String
  repository : String
  actor : String
  title : String
  body : String
  createdAt : Int

structure IssueChange where
  owner : String
  repository : String
  number : Nat
  actor : String
  changedAt : Int

structure IssueRecord where
  id : Identifier
  number : Nat
  title : String
  body : String
  state : IssueState
  author : String
  createdAt : Int
  updatedAt : Int
  closedAt : Option Int
  deriving DecidableEq, Repr

structure StoredIssue where
  issue : IssueRecord
  authorAccountId : Nat
  deriving DecidableEq, Repr

structure IssueCommentRecord where
  id : Nat
  author : String
  body : String
  createdAt : Int
  deriving DecidableEq, Repr

/-- An event on the page of its issue or pull request, without its payload. -/
structure TimelineRecord where
  sequence : Nat
  kind : EventKind
  actor : String
  createdAt : Int
  deriving DecidableEq, Repr

structure RecordPage (α : Type) where
  items : List α
  page : Nat
  hasNext : Bool
  deriving DecidableEq, Repr

structure TimelinePagination where
  primaryPage : Nat
  timelinePage : Nat
  pageSize : Nat

structure IssueDetail where
  repository : RepositoryRecord
  issue : IssueRecord
  comments : List IssueCommentRecord
  timeline : List TimelineRecord
  canComment : Bool
  canEdit : Bool
  commentsPage : Nat
  commentsHasNext : Bool
  timelinePage : Nat
  timelineHasNext : Bool
  deriving DecidableEq, Repr

structure PullRequestRecord where
  id : Identifier
  number : Nat
  title : String
  body : String
  state : PullRequestState
  author : String
  baseRef : RefName
  headRef : RefName
  baseObjectId : ObjectId
  headObjectId : ObjectId
  createdAt : Int
  updatedAt : Int
  deriving DecidableEq, Repr

structure PullRequestRevisionRecord where
  id : Nat
  number : Nat
  author : String
  baseObjectId : ObjectId
  headObjectId : ObjectId
  createdAt : Int
  deriving DecidableEq, Repr

structure PullRequestReviewRecord where
  id : Nat
  revision : Nat
  author : String
  kind : ReviewKind
  body : String
  commitObjectId : Option ObjectId
  path : Option GitPath
  side : Option ReviewSide
  line : Option Nat
  createdAt : Int
  deriving DecidableEq, Repr

structure PullRequestDetail where
  repository : RepositoryRecord
  pullRequest : PullRequestRecord
  revisions : List PullRequestRevisionRecord
  reviews : List PullRequestReviewRecord
  timeline : List TimelineRecord
  reviewsPage : Nat
  reviewsHasNext : Bool
  timelinePage : Nat
  timelineHasNext : Bool
  canEdit : Bool
  canChangeState : Bool
  canRevise : Bool
  canReview : Bool
  canMerge : Bool
  deriving DecidableEq, Repr

/-! ## Payloads -/

def IssueState.text : IssueState → String
  | .open => "open"
  | .closed => "closed"

/-- `event::issue`. -/
def issueEvent (kind : EventKind) (issueId : Identifier) (number : Nat) (title body : String) :
    VersionedEvent where
  kind
  payloadLength := jsonObjectLength
    [("version", 1), ("issue_id", jsonStringLength (identifierText issueId)),
      ("number", jsonNumberLength number), ("title", jsonStringLength title),
      ("body", jsonStringLength body)]

/-- `event::issue_comment`. -/
def issueCommentEvent (issueId : Identifier) (number : Nat) (author body : String) :
    VersionedEvent where
  kind := .issueCommented
  payloadLength := jsonObjectLength
    [("version", 1), ("issue_id", jsonStringLength (identifierText issueId)),
      ("number", jsonNumberLength number), ("comment_id", 34),
      ("author", jsonStringLength author), ("body", jsonStringLength body)]

/-- `event::issue_state`. -/
def issueStateEvent (kind : EventKind) (issueId : Identifier) (number : Nat)
    (state : IssueState) : VersionedEvent where
  kind
  payloadLength := jsonObjectLength
    [("version", 1), ("issue_id", jsonStringLength (identifierText issueId)),
      ("number", jsonNumberLength number), ("state", jsonStringLength state.text)]

/-! ## Pages -/

/-- `usize::MAX`. -/
def maxSize : Nat := 2 ^ 64 - 1

/-- A number that fits an `i64` and was computed in a `usize`. -/
def eventLimited (n : Nat) : Except StoreError Nat := do
  ensure (n ≤ maxSize ∧ n ≤ Database.maxInteger) .eventLimit
  pure n

/-- `page_offset`. -/
def pageOffset (page pageSize : Nat) : Except StoreError Nat := do
  ensure (1 ≤ page) .eventLimit
  eventLimited ((page - 1) * pageSize)

/-- `LIMIT` and `OFFSET` over rows in their order, one more than the page shows. -/
def pageRows {α : Type} (rows : List α) (offset pageSize : Nat) : List α × Bool :=
  let found := (rows.drop offset).take (pageSize + 1)
  (found.take pageSize, decide (pageSize < found.length))

/-- The page of an activity, oldest first; without an activity all of it. -/
def activityRows {α : Type} (rows : List α) (activity : Option (Nat × Nat)) :
    Except StoreError (List α × Nat × Bool) :=
  match activity with
  | none => pure (rows.reverse, 1, false)
  | some (page, pageSize) => do
      let offset ← pageOffset page pageSize
      let (found, hasNext) := pageRows rows offset pageSize
      pure (found.reverse, page, hasNext)

namespace Database

/-! ## Issues -/

def issueRecord (i : Issue) (author : Account) : IssueRecord where
  id := i.id
  number := i.number
  title := i.title
  body := i.body
  state := i.state
  author := author.username
  createdAt := i.createdAt
  updatedAt := i.updatedAt
  closedAt := i.closedAt

/-- The row joined with its author. -/
def issueWithAuthor (db : Database) (i : Issue) : Option IssueRecord :=
  (db.accounts.get i.authorAccountId).map (issueRecord i)

def findIssue (db : Database) (repository : RepositoryRecord) (owner slug : String)
    (number : Nat) : Except StoreError StoredIssue := do
  let i ← required (db.issues.find fun i =>
    decide (i.repositoryId = repository.id ∧ i.number = number)) (.issueNotFound owner slug number)
  let issue ← required (db.issueWithAuthor i) (.issueNotFound owner slug number)
  pure { issue, authorAccountId := i.authorAccountId }

def issueMutationContext (db : Database) (owner repository : String) (number : Nat)
    (actor : String) : Except StoreError (RepositoryIssueAccess × StoredIssue) := do
  let access ← db.repositoryIssueAccess owner repository (some actor)
  ensure (access.canRead = true) .issueHidden
  ensure (access.activeActorId.isSome = true) .issueDenied
  let issue ← db.findIssue access.repository owner repository number
  pure (access, issue)

/-- The two statements that take the next issue number of a repository. -/
def takeIssueNumber (db : Database) (repositoryId : Identifier) :
    Except StoreError (Database × Nat) := do
  let repositoryCounters ← db.startedCounters repositoryId
  let repositoryCounters ← sqlite (repositoryCounters.update
    (fun c => decide (c.repositoryId = repositoryId))
    fun c => { c with nextIssueNumber := c.nextIssueNumber + 1 })
  let counter ← required (repositoryCounters.get repositoryId) .noRows
  pure ({ db with repositoryCounters }, counter.nextIssueNumber - 1)

def insertIssueEvent (db : Database) (repositoryId issueId : Identifier) (actor : String)
    (createdAt : Int) (event : VersionedEvent) : Except StoreError Database := do
  ensure (event.payloadLength ≤ maxPayloadLength) (.sqlite .check)
  db.insertDomainEvent
    { repositoryId, sourceIntentId := none, sourceOrdinal := none, issueId := some issueId,
      pullRequestId := none, kind := event.kind, actor, refName := none, oldTarget := none,
      newTarget := none, createdAt }

def createIssue (db : Database) (issue : NewIssue) : Except StoreError (Database × IssueRecord) := do
  let access ← db.repositoryIssueAccess issue.owner issue.repository (some issue.actor)
  ensure (access.canRead = true) .issueHidden
  let actorId ← required access.activeActorId .issueDenied
  let (db, number) ← db.takeIssueNumber access.repository.id
  let issues ← sqlite (db.issues.insert
    { id := issue.id, repositoryId := access.repository.id, number, title := issue.title,
      body := issue.body, state := .open, authorAccountId := actorId,
      createdAt := issue.createdAt, updatedAt := issue.createdAt, closedAt := none })
  let db ← { db with issues }.insertIssueEvent access.repository.id issue.id issue.actor
    issue.createdAt (issueEvent .issueCreated issue.id number issue.title issue.body)
  pure (db,
    { id := issue.id, number, title := issue.title, body := issue.body, state := .open,
      author := issue.actor, createdAt := issue.createdAt, updatedAt := issue.createdAt,
      closedAt := none })

def editIssue (db : Database) (change : IssueChange) (title body : String) :
    Except StoreError Database := do
  let (access, current) ← db.issueMutationContext change.owner change.repository change.number
    change.actor
  ensure (access.canWriteIssue current.authorAccountId = true) .issueDenied
  let issues ← sqlite (db.issues.update (fun i => decide (i.id = current.issue.id))
    fun i => { i with title, body, updatedAt := change.changedAt })
  { db with issues }.insertIssueEvent access.repository.id current.issue.id change.actor
    change.changedAt (issueEvent .issueEdited current.issue.id change.number title body)

def commentIssue (db : Database) (owner repository : String) (number : Nat)
    (actor body : String) (createdAt : Int) : Except StoreError (Database × Nat) := do
  let (access, current) ← db.issueMutationContext owner repository number actor
  let actorId ← required access.activeActorId .issueDenied
  ensure (access.canRead = true) .issueDenied
  let comment : IssueComment :=
    { id := db.issueComments.nextRowid, issueId := current.issue.id, authorAccountId := actorId,
      body, createdAt }
  let issueComments ← sqlite (db.issueComments.insert comment)
  let issues ← sqlite (db.issues.update (fun i => decide (i.id = current.issue.id))
    fun i => { i with updatedAt := createdAt })
  let db ← { db with issueComments, issues }.insertIssueEvent access.repository.id
    current.issue.id actor createdAt (issueCommentEvent current.issue.id number actor body)
  pure (db, comment.id)

def setIssueState (db : Database) (owner repository : String) (number : Nat) (actor : String)
    (state : IssueState) (changedAt : Int) : Except StoreError Database := do
  let (access, current) ← db.issueMutationContext owner repository number actor
  ensure (access.canWriteIssue current.authorAccountId = true) .issueDenied
  ensure (current.issue.state ≠ state) (.issueState state)
  let (closedAt, kind) : Option Int × EventKind :=
    match state with
    | .closed => (some changedAt, .issueClosed)
    | .open => (none, .issueReopened)
  let issues ← sqlite (db.issues.update (fun i => decide (i.id = current.issue.id))
    fun i => { i with state, updatedAt := changedAt, closedAt })
  { db with issues }.insertIssueEvent access.repository.id current.issue.id actor changedAt
    (issueStateEvent kind current.issue.id number state)

/-! ## Lists and pages -/

/-- The repository of a list or a page, which its reader may see. -/
def readableRepository (db : Database) (owner repository : String) (actor : Option String)
    (hidden : StoreError) : Except StoreError RepositoryIssueAccess := do
  let access ← db.repositoryIssueAccess owner repository actor
  ensure (access.canRead = true) hidden
  pure access

/-- `ORDER BY issue.number DESC`. -/
def issueRows (db : Database) (repositoryId : Identifier) : List IssueRecord :=
  ((db.issues.rows.filter fun i => decide (i.repositoryId = repositoryId)).filterMap
    db.issueWithAuthor).insertionSort fun i j => j.number ≤ i.number

/-- `issues`, whose name the table has. -/
def issuesOf (db : Database) (owner repository : String) (actor : Option String) :
    Except StoreError (RepositoryRecord × List IssueRecord) := do
  let access ← db.readableRepository owner repository actor .issueHidden
  pure (access.repository, (db.issueRows access.repository.id).take 1000)

/-- The rows of a list in one state; `"all"` asks for every state. -/
def inListedState {α : Type} (state : String) (text : α → String) (row : α) : Bool :=
  decide (state = "all" ∨ text row = state)

def issuePage (db : Database) (owner repository : String) (actor : Option String)
    (state : String) (page pageSize : Nat) :
    Except StoreError (RepositoryRecord × RecordPage IssueRecord) := do
  let access ← db.readableRepository owner repository actor .issueHidden
  let offset ← pageOffset page pageSize
  let _ ← eventLimited (pageSize + 1)
  let rows := (db.issueRows access.repository.id).filter
    (inListedState state fun i => i.state.text)
  let (items, hasNext) := pageRows rows offset pageSize
  pure (access.repository, { items, page, hasNext })

/-- The events of one subject, newest first. -/
def timelineRows (db : Database) (p : RepositoryEvent → Bool) : List TimelineRecord :=
  ((db.repositoryEvents.rows.filter p).map fun e =>
    ({ sequence := e.sequence, kind := e.kind, actor := e.actor, createdAt := e.createdAt } :
      TimelineRecord)).insertionSort fun a b => b.sequence ≤ a.sequence

/-- `ORDER BY created_at DESC, id DESC`. -/
def newestFirst (createdAt₁ : Int) (id₁ : Nat) (createdAt₂ : Int) (id₂ : Nat) : Prop :=
  createdAt₂ < createdAt₁ ∨ (createdAt₁ = createdAt₂ ∧ id₂ ≤ id₁)

instance (createdAt₁ : Int) (id₁ : Nat) (createdAt₂ : Int) (id₂ : Nat) :
    Decidable (newestFirst createdAt₁ id₁ createdAt₂ id₂) :=
  inferInstanceAs (Decidable (_ ∨ _))

def commentRows (db : Database) (issueId : Identifier) : List IssueCommentRecord :=
  ((db.issueComments.rows.filter fun c => decide (c.issueId = issueId)).filterMap fun c =>
    (db.accounts.get c.authorAccountId).map fun author =>
      ({ id := c.id, author := author.username, body := c.body, createdAt := c.createdAt } :
        IssueCommentRecord)).insertionSort fun c d => newestFirst c.createdAt c.id d.createdAt d.id

def issueDetail (db : Database) (owner repository : String) (number : Nat)
    (actor : Option String) (pagination : TimelinePagination) : Except StoreError IssueDetail := do
  let access ← db.readableRepository owner repository actor .issueHidden
  let current ← db.findIssue access.repository owner repository number
  let _ ← eventLimited (pagination.pageSize + 1)
  let commentsOffset ← pageOffset pagination.primaryPage pagination.pageSize
  let timelineOffset ← pageOffset pagination.timelinePage pagination.pageSize
  let (comments, commentsHasNext) :=
    pageRows (db.commentRows current.issue.id) commentsOffset pagination.pageSize
  let (timeline, timelineHasNext) :=
    pageRows (db.timelineRows fun e => decide (e.issueId = some current.issue.id))
      timelineOffset pagination.pageSize
  pure
    { repository := access.repository, issue := current.issue
      comments := comments.reverse, timeline := timeline.reverse
      canComment := access.activeActorId.isSome && access.canRead
      canEdit := access.canWriteIssue current.authorAccountId
      commentsPage := pagination.primaryPage, commentsHasNext
      timelinePage := pagination.timelinePage, timelineHasNext }

def pullRequestRecord (p : PullRequest) (author : Account) : PullRequestRecord where
  id := p.id
  number := p.number
  title := p.title
  body := p.body
  state := p.state
  author := author.username
  baseRef := p.baseRef
  headRef := p.headRef
  baseObjectId := p.baseObjectId
  headObjectId := p.headObjectId
  createdAt := p.createdAt
  updatedAt := p.updatedAt

def pullRequestWithAuthor (db : Database) (p : PullRequest) : Option PullRequestRecord :=
  (db.accounts.get p.authorAccountId).map (pullRequestRecord p)

def pullRequestPage (db : Database) (owner repository : String) (actor : Option String)
    (state : String) (page pageSize : Nat) :
    Except StoreError (RepositoryRecord × RecordPage PullRequestRecord × Bool) := do
  let access ← db.readableRepository owner repository actor .pullRequestHidden
  let offset ← pageOffset page pageSize
  let _ ← eventLimited (pageSize + 1)
  let rows := (((db.pullRequests.rows.filter fun p =>
    decide (p.repositoryId = access.repository.id)).filterMap
      db.pullRequestWithAuthor).insertionSort fun p q => q.number ≤ p.number).filter
        (inListedState state fun p => p.state.text)
  let (items, hasNext) := pageRows rows offset pageSize
  pure (access.repository, { items, page, hasNext }, access.canWriteRepository)

/-- `ORDER BY pull_request_revision.number`. -/
def revisionRows (db : Database) (pullRequestId : Identifier) : List PullRequestRevisionRecord :=
  ((db.pullRequestRevisions.rows.filter fun r =>
    decide (r.pullRequestId = pullRequestId)).filterMap fun r =>
      (db.accounts.get r.authorAccountId).map fun author =>
        ({ id := r.id, number := r.number, author := author.username,
           baseObjectId := r.baseObjectId, headObjectId := r.headObjectId,
           createdAt := r.createdAt } : PullRequestRevisionRecord)).insertionSort
    fun r s => r.number ≤ s.number

def reviewRows (db : Database) (pullRequestId : Identifier) : List PullRequestReviewRecord :=
  ((db.pullRequestReviews.rows.filter fun r =>
    decide (r.pullRequestId = pullRequestId)).filterMap fun r => do
      let revision ← db.pullRequestRevisions.get r.revisionId
      let author ← db.accounts.get r.authorAccountId
      pure ({ id := r.id, revision := revision.number, author := author.username,
              kind := r.kind, body := r.body, commitObjectId := r.commitObjectId, path := r.path,
              side := r.side, line := r.line, createdAt := r.createdAt } :
        PullRequestReviewRecord)).insertionSort
    fun r s => newestFirst r.createdAt r.id s.createdAt s.id

def pullRequestWithActivity (db : Database) (owner repository : String) (number : Nat)
    (actor : Option String) (activity : Option TimelinePagination) :
    Except StoreError PullRequestDetail := do
  let access ← db.readableRepository owner repository actor .pullRequestHidden
  let row ← required (db.pullRequestNumbered access.repository.id number)
    (.pullRequestNotFound owner repository number)
  let record ← required (db.pullRequestWithAuthor row)
    (.pullRequestNotFound owner repository number)
  let (reviews, reviewsPage, reviewsHasNext) ← activityRows (db.reviewRows row.id)
    (activity.map fun a => (a.primaryPage, a.pageSize))
  let (timeline, timelinePage, timelineHasNext) ←
    activityRows (db.timelineRows fun e => decide (e.pullRequestId = some row.id))
      (activity.map fun a => (a.timelinePage, a.pageSize))
  let isOpen := decide (row.state = .open)
  let canEdit := decide (row.state ≠ .merged) && access.canWriteIssue row.authorAccountId
  pure
    { repository := access.repository, pullRequest := record
      revisions := db.revisionRows row.id, reviews, timeline
      reviewsPage, reviewsHasNext, timelinePage, timelineHasNext
      canEdit, canChangeState := canEdit
      canRevise := isOpen && access.canWriteRepository
      canReview := isOpen && access.activeActorId.isSome && access.canRead
      canMerge := access.canMaintain && isOpen }

end Database

end Tit.Store
