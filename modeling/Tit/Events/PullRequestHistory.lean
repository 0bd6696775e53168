/-
# Events.PullRequestHistory -- a pull request is what its events tell

The life of a pull request (`pullRequestCycle`) begins with its creation at the first revision.
While it is open it is edited, revised, reviewed, closed or merged; closed, it is edited or
reopened; merged, it stays as it is.  In every state of a run of store operations (`Events.System`)
the events of a pull request are such a life, which ends in its row, in the number of its revisions
and in its reviews, in their order.  A state that is asked for is one of the two that the service
lets through (`Requested`).

A revision and a merge are begun apart from the transaction that logs them; what the intents name is
carried along as `Owned`.
-/
import Tit.Events.IssueHistory

namespace Tit.Events

open Tit.Theory Tit.Store Tit.Store.Database

set_option autoImplicit false

/-! ## The life of a pull request -/

/-- What a pull request shows of what happened to it. -/
structure PullRequestLife where
  repositoryId : Identifier
  state : PullRequestState
  createdAt : Int
  updatedAt : Int
  revisions : Nat
  reviews : List (EventKind × Int)
  deriving DecidableEq, Repr

namespace PullRequestLife

/-- An event of this kind at this time leaves this of the pull request, if it may happen at all. -/
def change (l : PullRequestLife) (kind : EventKind) (at_ : Int) : Option PullRequestLife :=
  match kind, l.state with
  | .pullRequestEdited, .open | .pullRequestEdited, .closed => some { l with updatedAt := at_ }
  | .pullRequestRevised, .open =>
      some { l with updatedAt := at_, revisions := l.revisions + 1 }
  | .pullRequestClosed, .open => some { l with state := .closed, updatedAt := at_ }
  | .pullRequestReopened, .closed => some { l with state := .open, updatedAt := at_ }
  | .pullRequestMerged, .open => some { l with state := .merged, updatedAt := at_ }
  | .pullRequestCommented, .open | .pullRequestLineCommented, .open
  | .pullRequestApproved, .open | .pullRequestChangesRequested, .open =>
      some { l with updatedAt := at_, reviews := l.reviews ++ [(kind, at_)] }
  | _, _ => none

/-- An event in the repository of the pull request. -/
def next (l : PullRequestLife) (e : RepositoryEvent) : Option PullRequestLife :=
  if e.repositoryId = l.repositoryId then l.change e.kind e.createdAt else none

/-- The first event of a pull request. -/
def first (e : RepositoryEvent) : Option PullRequestLife :=
  if e.kind = .pullRequestCreated then
    some
      { repositoryId := e.repositoryId, state := .open, createdAt := e.createdAt
        updatedAt := e.createdAt, revisions := 1, reviews := [] }
  else none

variable {l : PullRequestLife} {at_ : Int}

theorem next_of {e : RepositoryEvent} {repositoryId : Identifier} {kind : EventKind}
    (here : e.repositoryId = repositoryId) (located : l.repositoryId = repositoryId)
    (happens : e.kind = kind) (now : e.createdAt = at_) : l.next e = l.change kind at_ := by
  unfold next
  rw [if_pos (here.trans located.symm), happens, now]

theorem change_edited (unmerged : l.state ≠ .merged) :
    l.change .pullRequestEdited at_ = some { l with updatedAt := at_ } := by
  unfold change
  cases was : l.state with
  | merged => exact absurd was unmerged
  | «open» => rfl
  | closed => rfl

theorem change_revised (isOpen : l.state = .open) :
    l.change .pullRequestRevised at_ =
      some { l with updatedAt := at_, revisions := l.revisions + 1 } := by
  unfold change
  rw [isOpen]

theorem change_closed (isOpen : l.state = .open) :
    l.change .pullRequestClosed at_ = some { l with state := .closed, updatedAt := at_ } := by
  unfold change
  rw [isOpen]

theorem change_reopened (closed : l.state = .closed) :
    l.change .pullRequestReopened at_ = some { l with state := .open, updatedAt := at_ } := by
  unfold change
  rw [closed]

theorem change_merged (isOpen : l.state = .open) :
    l.change .pullRequestMerged at_ = some { l with state := .merged, updatedAt := at_ } := by
  unfold change
  rw [isOpen]

theorem change_reviewed (isOpen : l.state = .open) (kind : ReviewKind) :
    l.change kind.event at_ =
      some { l with updatedAt := at_, reviews := l.reviews ++ [(kind.event, at_)] } := by
  unfold change
  rw [isOpen]
  cases kind with
  | comment => rfl
  | lineComment => rfl
  | approved => rfl
  | changesRequested => rfl

end PullRequestLife

def pullRequestCycle : LifeCycle RepositoryEvent PullRequestLife :=
  ⟨PullRequestLife.first, PullRequestLife.next⟩

/-! ## What the tables show -/

def revisionCount (t : Table PullRequestRevision) (id : Identifier) : Nat :=
  t.count fun r => decide (r.pullRequestId = id)

/-- The reviews of a pull request, in the order of their insertion. -/
def reviewsOf (t : Table PullRequestReview) (id : Identifier) : List (EventKind × Int) :=
  (t.rows.filter fun v => decide (v.pullRequestId = id)).map fun v => (v.kind.event, v.createdAt)

def pullRequestLife (db : Database) (p : PullRequest) : PullRequestLife where
  repositoryId := p.repositoryId
  state := p.state
  createdAt := p.createdAt
  updatedAt := p.updatedAt
  revisions := revisionCount db.pullRequestRevisions p.id
  reviews := reviewsOf db.pullRequestReviews p.id

def pullRequestAt (db : Database) (id : Identifier) : Option PullRequestLife :=
  (db.pullRequests.get id).map (pullRequestLife db)

theorem revisionCount_insert {t t' : Table PullRequestRevision} {r : PullRequestRevision}
    (inserted : t.insert r = .ok t') (id : Identifier) :
    revisionCount t' id = revisionCount t id + if r.pullRequestId = id then 1 else 0 := by
  unfold revisionCount
  rw [Table.count_insert inserted]
  by_cases own : r.pullRequestId = id
  · rw [if_pos own, if_pos (decide_eq_true own)]
  · rw [if_neg own, if_neg (by simpa using own)]

theorem reviewsOf_insert {t t' : Table PullRequestReview} {v : PullRequestReview}
    (inserted : t.insert v = .ok t') (id : Identifier) :
    reviewsOf t' id = reviewsOf t id ++
      if v.pullRequestId = id then [(v.kind.event, v.createdAt)] else [] := by
  unfold reviewsOf
  rw [Table.ofRows_eq_ok inserted, List.filter_append, List.map_append]
  congr 1
  by_cases own : v.pullRequestId = id
  · rw [if_pos own, List.filter_cons_of_pos (by simpa using own), List.filter_nil, List.map_cons,
      List.map_nil]
  · rw [if_neg own, List.filter_cons_of_neg (by simpa using own), List.filter_nil, List.map_nil]

/-! ## The invariant -/

/-- The pull request is stored, in this repository. -/
def StoredIn (t : Table PullRequest) (id repositoryId : Identifier) : Prop :=
  ∃ p ∈ t, p.id = id ∧ p.repositoryId = repositoryId

/-- What refers to a pull request refers to one that is stored. -/
structure Owned (db : Database) : Prop where
  revisions : ∀ r ∈ db.pullRequestRevisions, ∃ repositoryId,
    StoredIn db.pullRequests r.pullRequestId repositoryId
  reviews : ∀ v ∈ db.pullRequestReviews, ∃ repositoryId,
    StoredIn db.pullRequests v.pullRequestId repositoryId
  intents : ∀ i ∈ db.pullRequestRefIntents, i.operation = .revise →
    StoredIn db.pullRequests i.pullRequestId i.repositoryId
  merges : ∀ m ∈ db.pullRequestMergeIntents,
    StoredIn db.pullRequests m.pullRequestId m.repositoryId

/-- An intent that is settled names what it named before. -/
theorem Owned.settled {db : Database} (owned : Owned db) {id : Identifier}
    {state : RefIntentState} {intents : Table PullRequestRefIntent}
    (updated : db.pullRequestRefIntents.update (pendingIntent id)
      (fun i => { i with state }) = .ok intents) :
    ∀ i ∈ intents, i.operation = .revise →
      StoredIn db.pullRequests i.pullRequestId i.repositoryId := by
  intro i hi revises
  obtain ⟨j, hj, rfl⟩ := (Table.mem_update updated).mp hi
  split at revises
  · rename_i chosen
    rw [if_pos chosen]
    exact owned.intents j hj revises
  · rename_i other
    rw [if_neg other]
    exact owned.intents j hj revises

/-- **Pull requests are what their events tell.** -/
structure PullRequestsTold (db : Database) : Prop where
  lives : Tells pullRequestCycle (·.pullRequestId) db.repositoryEvents.rows (pullRequestAt db)
  owned : Owned db

/-- A transaction that leaves the pull requests, and perhaps begins or settles intents. -/
structure PullRequestsKept (db db' : Database) : Prop where
  log : Appended (·.pullRequestId = none) db.repositoryEvents db'.repositoryEvents
  pullRequests : db'.pullRequests = db.pullRequests
  revisions : db'.pullRequestRevisions = db.pullRequestRevisions
  reviews : db'.pullRequestReviews = db.pullRequestReviews
  intents : ∀ i ∈ db'.pullRequestRefIntents, i.operation = .revise →
    StoredIn db.pullRequests i.pullRequestId i.repositoryId
  merges : ∀ m ∈ db'.pullRequestMergeIntents,
    StoredIn db.pullRequests m.pullRequestId m.repositoryId

namespace PullRequestsTold

variable {db db' : Database}

theorem initial : PullRequestsTold .initial := by
  refine ⟨Tells.empty, ?_, ?_, ?_, ?_⟩
  · exact fun r hr => absurd hr (Table.not_mem_empty r)
  · exact fun v hv => absurd hv (Table.not_mem_empty v)
  · exact fun i hi => absurd hi (Table.not_mem_empty i)
  · exact fun m hm => absurd hm (Table.not_mem_empty m)

theorem of_kept (told : PullRequestsTold db) (kept : PullRequestsKept db db') :
    PullRequestsTold db' := by
  obtain ⟨log, pullRequests, revisions, reviews, intents, merges⟩ := kept
  have same : pullRequestAt db' = pullRequestAt db := by
    have lives : pullRequestLife db' = pullRequestLife db := by
      unfold pullRequestLife
      rw [revisions, reviews]
    unfold pullRequestAt
    rw [lives, pullRequests]
  refine ⟨fun id => ?_, ?_, ?_, ?_, ?_⟩
  · rw [historyOf_appended log id, same]
    exact told.lives id
  · rw [revisions, pullRequests]
    exact told.owned.revisions
  · rw [reviews, pullRequests]
    exact told.owned.reviews
  · rw [pullRequests]
    exact intents
  · rw [pullRequests]
    exact merges

/-- One event more of one pull request. -/
theorem snoc (told : PullRequestsTold db) {id : Identifier} {row : RepositoryEvent}
    (rows : db'.repositoryEvents.rows = db.repositoryEvents.rows ++ [row])
    (own : row.pullRequestId = some id)
    (here : pullRequestCycle.advance (pullRequestAt db id) row = some (pullRequestAt db' id))
    (elsewhere : ∀ other, other ≠ id → pullRequestAt db' other = pullRequestAt db other)
    (owned : Owned db') : PullRequestsTold db' := by
  refine ⟨?_, owned⟩
  rw [rows]
  exact told.lives.snoc own here elsewhere

/-- A pull request that is not there has no revisions. -/
theorem unrevised (told : PullRequestsTold db) {id : Identifier}
    (missing : db.pullRequests.get id = none) : revisionCount db.pullRequestRevisions id = 0 := by
  refine List.countP_eq_zero.mpr fun r hr own => ?_
  obtain ⟨_, p, hp, same, -⟩ := told.owned.revisions r hr
  exact Table.get_eq_none.mp missing p hp (same.trans (of_decide_eq_true own))

/-- Nor reviews. -/
theorem unreviewed (told : PullRequestsTold db) {id : Identifier}
    (missing : db.pullRequests.get id = none) : reviewsOf db.pullRequestReviews id = [] := by
  unfold reviewsOf
  rw [List.map_eq_nil_iff, List.filter_eq_nil_iff]
  intro v hv own
  obtain ⟨_, p, hp, same, -⟩ := told.owned.reviews v hv
  exact Table.get_eq_none.mp missing p hp (same.trans (of_decide_eq_true own))

end PullRequestsTold

/-! ## Other transactions -/

section Kept

variable {db db' : Database}

/-- A transaction that leaves the intents as well. -/
theorem PullRequestsKept.of_log (owned : Owned db)
    (log : Appended (·.pullRequestId = none) db.repositoryEvents db'.repositoryEvents)
    (pullRequests : db'.pullRequests = db.pullRequests)
    (revisions : db'.pullRequestRevisions = db.pullRequestRevisions)
    (reviews : db'.pullRequestReviews = db.pullRequestReviews)
    (intents : db'.pullRequestRefIntents = db.pullRequestRefIntents)
    (merges : db'.pullRequestMergeIntents = db.pullRequestMergeIntents) :
    PullRequestsKept db db' := by
  refine ⟨log, pullRequests, revisions, reviews, ?_, ?_⟩
  · rw [intents]
    exact owned.intents
  · rw [merges]
    exact owned.merges

theorem insertIssueEvent_outside {repositoryId issueId : Identifier} {actor : String}
    {createdAt : Int} {event : VersionedEvent}
    (ok : db.insertIssueEvent repositoryId issueId actor createdAt event = .ok db') :
    ∃ repositoryEvents, db' = { db with repositoryEvents } ∧
      Appended (·.pullRequestId = none) db.repositoryEvents repositoryEvents := by
  obtain ⟨_, -, inserted⟩ := bind_eq_ok.mp ok
  exact insertDomainEvent_appended inserted rfl

theorem createRepository_unrequested (owned : Owned db) {repository : NewRepository}
    (ok : db.createRepository repository = .ok db') : PullRequestsKept db db' := by
  obtain ⟨repositories, branches, events, auditEvents, rfl, appended⟩ := createRepository_bare ok
  exact .of_log owned (appended.mono fun _ bare => bare.2) rfl rfl rfl rfl rfl

theorem createIssue_unrequested (owned : Owned db) {issue : NewIssue} {record : IssueRecord}
    (ok : db.createIssue issue = .ok (db', record)) : PullRequestsKept db db' := by
  simp only [createIssue, bind_eq_ok, sqlite_eq_ok, pure_eq_ok, Except.ok.injEq,
    Prod.mk.injEq] at ok
  obtain ⟨_, -, _, -, actorId, -, ⟨db₁, number⟩, taken, issues, -, db₂, event, rfl, -⟩ := ok
  obtain ⟨counters, rfl, -⟩ := takeIssueNumber_eq_ok taken
  obtain ⟨events, rfl, appended⟩ := insertIssueEvent_outside event
  exact .of_log owned appended rfl rfl rfl rfl rfl

theorem editIssue_unrequested (owned : Owned db) {change : IssueChange} {title body : String}
    (ok : db.editIssue change title body = .ok db') : PullRequestsKept db db' := by
  simp only [editIssue, bind_eq_ok] at ok
  obtain ⟨⟨access, current⟩, -, _, -, issues, -, event⟩ := ok
  obtain ⟨events, rfl, appended⟩ := insertIssueEvent_outside event
  exact .of_log owned appended rfl rfl rfl rfl rfl

theorem commentIssue_unrequested (owned : Owned db) {owner repository : String} {number : Nat}
    {actor body : String} {createdAt : Int} {id : Nat}
    (ok : db.commentIssue owner repository number actor body createdAt = .ok (db', id)) :
    PullRequestsKept db db' := by
  simp only [commentIssue, bind_eq_ok, pure_eq_ok, Except.ok.injEq, Prod.mk.injEq] at ok
  obtain ⟨⟨access, current⟩, -, actorId, -, _, -, comments, -, issues, -, db₁, event, rfl, -⟩ := ok
  obtain ⟨events, rfl, appended⟩ := insertIssueEvent_outside event
  exact .of_log owned appended rfl rfl rfl rfl rfl

theorem setIssueState_unrequested (owned : Owned db) {owner repository : String} {number : Nat}
    {actor : String} {state : IssueState} {changedAt : Int}
    (ok : db.setIssueState owner repository number actor state changedAt = .ok db') :
    PullRequestsKept db db' := by
  simp only [setIssueState, bind_eq_ok] at ok
  obtain ⟨⟨access, current⟩, -, _, -, _, -, issues, -, event⟩ := ok
  obtain ⟨events, rfl, appended⟩ := insertIssueEvent_outside event
  exact .of_log owned appended rfl rfl rfl rfl rfl

theorem beginGitIntent_unrequested (owned : Owned db) {intent : NewGitOperationIntent}
    (ok : db.beginGitIntent intent = .ok db') : PullRequestsKept db db' := by
  obtain ⟨intents, -, rfl⟩ := beginGitIntent_eq_ok ok
  exact .of_log owned .refl rfl rfl rfl rfl rfl

theorem markGitObjectsPromoted_unrequested (owned : Owned db) {id : Identifier}
    {packName : Option PackName} (ok : db.markGitObjectsPromoted id packName = .ok db') :
    PullRequestsKept db db' := by
  obtain ⟨i, -, -, -, intents, rfl, -⟩ := Git.markGitObjectsPromoted_rows ok
  exact .of_log owned .refl rfl rfl rfl rfl rfl

theorem abandonGitIntent_unrequested (owned : Owned db) {id : Identifier}
    (ok : db.abandonGitIntent id = .ok db') : PullRequestsKept db db' := by
  obtain ⟨i, -, -, -, intents, -, rfl⟩ := abandonGitIntent_eq_ok ok
  refine ⟨.refl, rfl, rfl, rfl, owned.intents, fun m hm => ?_⟩
  exact owned.merges m (Table.mem_delete.mp hm).1

theorem beginPullRequestMerge_unrequested (owned : Owned db) {merge : NewPullRequestMerge}
    {intent : NewGitOperationIntent} (ok : db.beginPullRequestMerge merge intent = .ok db') :
    PullRequestsKept db db' := by
  obtain ⟨repositoryId, p, r, intents, merges, -, of, -, -, -, -, added, rfl⟩ :=
    beginPullRequestMerge_eq_ok ok
  refine ⟨.refl, rfl, rfl, rfl, owned.intents, fun m hm => ?_⟩
  rcases (Table.mem_insert added).mp hm with before | rfl
  · exact owned.merges m before
  · exact ⟨p, of.pullRequest, rfl, of.repositoryId⟩

theorem beginPullRequestOpen_unrequested (owned : Owned db) {intent : NewPullRequestRefIntent}
    {row : PullRequestRefIntent} (ok : db.beginPullRequestOpen intent = .ok (db', row)) :
    PullRequestsKept db db' := by
  simp only [beginPullRequestOpen, bind_eq_ok, sqlite_eq_ok, pure_eq_ok, Except.ok.injEq,
    Prod.mk.injEq] at ok
  obtain ⟨⟨repositoryId, actorId⟩, -, ⟨db₁, number⟩, taken, intents, inserted, rfl, rfl⟩ := ok
  obtain ⟨counters, rfl, -, -⟩ := takePullRequestNumber_eq_ok taken
  refine ⟨.refl, rfl, rfl, rfl, fun i hi revises => ?_, owned.merges⟩
  rcases (Table.mem_insert inserted).mp hi with before | rfl
  · exact owned.intents i before revises
  · cases revises

theorem beginPullRequestRevision_unrequested (owned : Owned db) {number : Nat}
    {intent : NewPullRequestRefIntent} {row : PullRequestRefIntent}
    (ok : db.beginPullRequestRevision number intent = .ok (db', row)) :
    PullRequestsKept db db' := by
  simp only [beginPullRequestRevision, bind_eq_ok, required_eq_ok, ensure_eq_ok, sqlite_eq_ok,
    pure_eq_ok, Except.ok.injEq, Prod.mk.injEq] at ok
  obtain ⟨⟨repositoryId, actorId⟩, -, stored, found, _, -, _, texts, intents, inserted, rfl,
    -⟩ := ok
  obtain ⟨hp, chosen⟩ := Table.mem_of_find found
  refine ⟨.refl, rfl, rfl, rfl, fun i hi revises => ?_, owned.merges⟩
  rcases (Table.mem_insert inserted).mp hi with before | rfl
  · exact owned.intents i before revises
  · exact ⟨stored, hp, texts.1, (of_decide_eq_true chosen).1⟩

theorem abandonPullRequestRefIntent_unrequested (owned : Owned db) {id : Identifier}
    (ok : db.abandonPullRequestRefIntent id = .ok db') : PullRequestsKept db db' := by
  obtain ⟨intents, updated, rfl⟩ := abandonPullRequestRefIntent_eq_ok ok
  exact ⟨.refl, rfl, rfl, rfl, owned.settled updated, owned.merges⟩

end Kept

/-! ## Changes of one pull request -/

section Changes

variable {db db' : Database} {p : PullRequest} {chosen : PullRequest → Bool}
  {f : PullRequest → PullRequest} {pullRequests : Table PullRequest}

/-- An update that chooses one pull request. -/
theorem get_update_pullRequest (hp : p ∈ db.pullRequests) (selected : chosen p = true)
    (only : ∀ q, chosen q = true → q.id = p.id)
    (updated : db.pullRequests.update chosen f = .ok pullRequests) (same : ∀ q, (f q).id = q.id)
    (id : Identifier) :
    pullRequests.get id = if id = p.id then some (f p) else db.pullRequests.get id := by
  rw [Table.get_update updated same id]
  by_cases here : id = p.id
  · have found : db.pullRequests.get id = some p := by
      rw [here]
      exact Table.get_of_mem hp
    rw [if_pos here, found, Option.map_some, if_pos selected]
  · rw [if_neg here]
    cases found : db.pullRequests.get id with
    | none => rfl
    | some q =>
        obtain ⟨-, key⟩ := Table.get_eq_some.mp found
        have key : q.id = id := key
        rw [Option.map_some, if_neg fun chosen => here (key.symm.trans (only q chosen))]

theorem StoredIn.update (updated : db.pullRequests.update chosen f = .ok pullRequests)
    (same : ∀ q, (f q).id = q.id ∧ (f q).repositoryId = q.repositoryId)
    {id repositoryId : Identifier} (stored : StoredIn db.pullRequests id repositoryId) :
    StoredIn pullRequests id repositoryId := by
  obtain ⟨q, hq, own, located⟩ := stored
  refine ⟨_, (Table.mem_update updated).mpr ⟨q, hq, rfl⟩, ?_⟩
  split
  · exact ⟨(same q).1.trans own, (same q).2.trans located⟩
  · exact ⟨own, located⟩

/-- **A change of one pull request is told by the event that comes with it.** -/
theorem PullRequestsTold.update (told : PullRequestsTold db) (hp : p ∈ db.pullRequests)
    (selected : chosen p = true) (only : ∀ q, chosen q = true → q.id = p.id)
    (updated : db.pullRequests.update chosen f = .ok pullRequests)
    (same : ∀ q, (f q).id = q.id ∧ (f q).repositoryId = q.repositoryId)
    (result : db'.pullRequests = pullRequests) {row : RepositoryEvent}
    (rows : db'.repositoryEvents.rows = db.repositoryEvents.rows ++ [row])
    (own : row.pullRequestId = some p.id)
    (next : (pullRequestLife db p).next row = some (pullRequestLife db' (f p)))
    (others : ∀ id, id ≠ p.id →
      revisionCount db'.pullRequestRevisions id = revisionCount db.pullRequestRevisions id ∧
        reviewsOf db'.pullRequestReviews id = reviewsOf db.pullRequestReviews id)
    (revisions : ∀ r ∈ db'.pullRequestRevisions,
      r ∈ db.pullRequestRevisions ∨ r.pullRequestId = p.id)
    (reviews : ∀ v ∈ db'.pullRequestReviews, v ∈ db.pullRequestReviews ∨ v.pullRequestId = p.id)
    (intents : ∀ i ∈ db'.pullRequestRefIntents, i.operation = .revise →
      StoredIn db.pullRequests i.pullRequestId i.repositoryId)
    (merges : db'.pullRequestMergeIntents = db.pullRequestMergeIntents) :
    PullRequestsTold db' := by
  have found := get_update_pullRequest hp selected only updated fun q => (same q).1
  have here : db.pullRequests.get p.id = some p := Table.get_of_mem hp
  have stays : ∀ {id repositoryId}, StoredIn db.pullRequests id repositoryId →
      StoredIn pullRequests id repositoryId := StoredIn.update updated same
  refine told.snoc rows own ?_ ?_ ⟨?_, ?_, ?_, ?_⟩
  · have after : pullRequestAt db' p.id = some (pullRequestLife db' (f p)) := by
      unfold pullRequestAt
      rw [result, found, if_pos rfl, Option.map_some]
    rw [after, pullRequestAt, here, Option.map_some, LifeCycle.advance_some]
    exact congrArg (Option.map some) next
  · intro id apart
    unfold pullRequestAt
    rw [result, found, if_neg apart]
    cases there : db.pullRequests.get id with
    | none => rfl
    | some q =>
        obtain ⟨-, key⟩ := Table.get_eq_some.mp there
        have key : q.id = id := key
        obtain ⟨count, list⟩ := others id apart
        simp only [Option.map_some, pullRequestLife, key, count, list]
  · intro r hr
    rw [result]
    rcases revisions r hr with before | mine
    · obtain ⟨repositoryId, stored⟩ := told.owned.revisions r before
      exact ⟨repositoryId, stays stored⟩
    · exact ⟨p.repositoryId, stays ⟨p, hp, mine.symm, rfl⟩⟩
  · intro v hv
    rw [result]
    rcases reviews v hv with before | mine
    · obtain ⟨repositoryId, stored⟩ := told.owned.reviews v before
      exact ⟨repositoryId, stays stored⟩
    · exact ⟨p.repositoryId, stays ⟨p, hp, mine.symm, rfl⟩⟩
  · intro i hi revises
    rw [result]
    exact stays (intents i hi revises)
  · intro m hm
    rw [merges] at hm
    rw [result]
    exact stays (told.owned.merges m hm)

/-- The event of a pull request is the last of the log. -/
theorem insertPullRequestEvent_rows {repositoryId pullRequestId : Identifier} {actor : String}
    {createdAt : Int} {event : VersionedEvent}
    (ok : db.insertPullRequestEvent repositoryId pullRequestId actor createdAt event = .ok db') :
    ∃ repositoryEvents row, db' = { db with repositoryEvents } ∧
      repositoryEvents.rows = db.repositoryEvents.rows ++ [row] ∧
      row.pullRequestId = some pullRequestId ∧ row.repositoryId = repositoryId ∧
      row.kind = event.kind ∧ row.createdAt = createdAt := by
  obtain ⟨_, -, inserted⟩ := bind_eq_ok.mp ok
  obtain ⟨events, added, rfl⟩ := insertDomainEvent_eq_ok.mp inserted
  exact ⟨events, _, rfl, Table.ofRows_eq_ok added, rfl, rfl, rfl, rfl⟩

/-- The pull request of a request, which is in the repository of the request. -/
theorem pullRequestNumbered_eq_some {repositoryId : Identifier} {number : Nat}
    (found : db.pullRequestNumbered repositoryId number = some p) :
    p ∈ db.pullRequests ∧ p.repositoryId = repositoryId := by
  obtain ⟨hp, chosen⟩ := Table.mem_of_find found
  exact ⟨hp, (of_decide_eq_true chosen).1⟩

theorem editPullRequest_told (told : PullRequestsTold db) {edit : PullRequestEdit}
    (ok : db.editPullRequest edit = .ok db') : PullRequestsTold db' := by
  simp only [editPullRequest, bind_eq_ok, sqlite_eq_ok, required_eq_ok, ensure_eq_ok] at ok
  obtain ⟨access, -, current, found, _, -, _, unmerged, pullRequests, updated, event⟩ := ok
  obtain ⟨hp, located⟩ := pullRequestNumbered_eq_some found
  obtain ⟨events, row, rfl, rows, own, here, kind, at_⟩ := insertPullRequestEvent_rows event
  refine told.update hp (decide_eq_true rfl) (fun q => of_decide_eq_true) updated
    (fun _ => ⟨rfl, rfl⟩) rfl rows own ?_ (fun _ _ => ⟨rfl, rfl⟩) (fun _ => Or.inl)
    (fun _ => Or.inl) told.owned.intents rfl
  exact (PullRequestLife.next_of here located kind at_).trans
    (PullRequestLife.change_edited unmerged)

/-- One of the two states that the service asks for. -/
theorem setPullRequestState_told (told : PullRequestsTold db) {owner repository : String}
    {number : Nat} {actor : String} {state : PullRequestState} {changedAt : Int}
    (requested : state ≠ .merged)
    (ok : db.setPullRequestState owner repository number actor state changedAt = .ok db') :
    PullRequestsTold db' := by
  simp only [setPullRequestState, bind_eq_ok, sqlite_eq_ok, required_eq_ok, ensure_eq_ok] at ok
  obtain ⟨access, -, current, found, _, -, _, ⟨unmerged, changes⟩, pullRequests, updated,
    event⟩ := ok
  obtain ⟨hp, located⟩ := pullRequestNumbered_eq_some found
  obtain ⟨events, row, rfl, rows, own, here, kind, at_⟩ := insertPullRequestEvent_rows event
  refine told.update hp (decide_eq_true rfl) (fun q => of_decide_eq_true) updated
    (fun _ => ⟨rfl, rfl⟩) rfl rows own ?_ (fun _ _ => ⟨rfl, rfl⟩) (fun _ => Or.inl)
    (fun _ => Or.inl) told.owned.intents rfl
  refine (PullRequestLife.next_of here located kind at_).trans ?_
  cases state with
  | merged => exact absurd rfl requested
  | «open» =>
      refine PullRequestLife.change_reopened ?_
      show current.state = .closed
      cases was : current.state with
      | merged => exact absurd was unmerged
      | «open» => exact absurd was changes
      | closed => rfl
  | closed =>
      refine PullRequestLife.change_closed ?_
      show current.state = .open
      cases was : current.state with
      | merged => exact absurd was unmerged
      | «open» => rfl
      | closed => exact absurd was changes

theorem createPullRequestReview_told (told : PullRequestsTold db) {review : NewPullRequestReview}
    {id : Nat} (ok : db.createPullRequestReview review = .ok (db', id)) : PullRequestsTold db' := by
  simp only [createPullRequestReview, bind_eq_ok, sqlite_eq_ok, required_eq_ok, ensure_eq_ok,
    pure_eq_ok, Except.ok.injEq, Prod.mk.injEq] at ok
  obtain ⟨access, -, _, -, actorId, -, p, found, _, isOpen, r, -, _, -, reviews, added,
    pullRequests, updated, db₁, event, rfl, -⟩ := ok
  obtain ⟨hp, located⟩ := pullRequestNumbered_eq_some found
  obtain ⟨events, row, rfl, rows, own, here, kind, at_⟩ := insertPullRequestEvent_rows event
  have list := reviewsOf_insert added
  refine told.update hp (decide_eq_true rfl) (fun q => of_decide_eq_true) updated
    (fun _ => ⟨rfl, rfl⟩) rfl rows own ?_ ?_ (fun _ => Or.inl) ?_ told.owned.intents rfl
  · rw [PullRequestLife.next_of here located kind at_]
    refine (PullRequestLife.change_reviewed isOpen review.kind).trans ?_
    simp only [pullRequestLife, list, reviewRow, if_true]
  · intro id apart
    refine ⟨rfl, ?_⟩
    rw [list, if_neg (fun same => apart same.symm), List.append_nil]
  · intro v hv
    rcases (Table.mem_insert added).mp hv with before | rfl
    · exact Or.inl before
    · exact Or.inr rfl

/-- A revision that completes, of the pull request that its intent names. -/
theorem complete_revision_told (told : PullRequestsTold db) {i : PullRequestRefIntent}
    (hi : i ∈ db.pullRequestRefIntents) (revises : i.operation = .revise)
    (stored : db.storePullRequest i = .ok pullRequests)
    {revisions : Table PullRequestRevision}
    (added : db.pullRequestRevisions.insert (db.revisionRow i) = .ok revisions)
    {db₁ : Database} (event : { db with pullRequests, pullRequestRevisions := revisions
      }.insertDomainEvent (pullRequestRefEvent i) = .ok db₁)
    {intents : Table PullRequestRefIntent}
    (settled : ∀ j ∈ intents, j.operation = .revise →
      StoredIn db.pullRequests j.pullRequestId j.repositoryId) :
    PullRequestsTold { db₁ with pullRequestRefIntents := intents } := by
  obtain ⟨events, inserted, rfl⟩ := insertDomainEvent_eq_ok.mp event
  have rows := Table.ofRows_eq_ok inserted
  simp only [storePullRequest, revises, bind_eq_ok, sqlite_eq_ok, ensure_eq_ok, pure_eq_ok,
    Except.ok.injEq] at stored
  obtain ⟨_, updated, _, counted, rfl⟩ := stored
  obtain ⟨p, hp, chosen⟩ := Table.exists_of_count (by rw [counted]; decide)
  obtain ⟨own, isOpen, -⟩ := of_decide_eq_true chosen
  obtain ⟨q, hq, same, located⟩ := told.owned.intents i hi revises
  obtain rfl : q = p := Table.eq_of_key hq hp (same.trans own.symm)
  have count := revisionCount_insert added
  refine told.update hp chosen (fun q' chosen' => (of_decide_eq_true chosen').1.trans own.symm)
    updated (fun _ => ⟨rfl, rfl⟩) rfl rows (congrArg some own.symm) ?_ ?_ ?_ (fun _ => Or.inl)
    settled rfl
  · have kind : (pullRequestRefEvent i).kind = .pullRequestRevised := by
      unfold pullRequestRefEvent
      rw [revises]
    refine (PullRequestLife.next_of rfl located kind rfl).trans ?_
    refine (PullRequestLife.change_revised isOpen).trans ?_
    simp only [pullRequestLife, revisedRow, count, revisionRow, own, if_true]
    rfl
  · intro id apart
    refine ⟨?_, rfl⟩
    rw [count, if_neg (fun mine => apart (mine.symm.trans own.symm)), Nat.add_zero]
  · intro r hr
    rcases (Table.mem_insert added).mp hr with before | rfl
    · exact Or.inl before
    · exact Or.inr own.symm

/-- A pull request that is opened: there was none of this key. -/
theorem complete_opening_told (told : PullRequestsTold db) {i : PullRequestRefIntent}
    (opens : i.operation = .open) (stored : db.storePullRequest i = .ok pullRequests)
    {revisions : Table PullRequestRevision}
    (added : db.pullRequestRevisions.insert (db.revisionRow i) = .ok revisions)
    {db₁ : Database} (event : { db with pullRequests, pullRequestRevisions := revisions
      }.insertDomainEvent (pullRequestRefEvent i) = .ok db₁)
    {intents : Table PullRequestRefIntent}
    (settled : ∀ j ∈ intents, j.operation = .revise →
      StoredIn db.pullRequests j.pullRequestId j.repositoryId) :
    PullRequestsTold { db₁ with pullRequestRefIntents := intents } := by
  obtain ⟨events, logged, rfl⟩ := insertDomainEvent_eq_ok.mp event
  have rows := Table.ofRows_eq_ok logged
  simp only [storePullRequest, opens, sqlite_eq_ok] at stored
  have missing : db.pullRequests.get i.pullRequestId = none := by
    rw [Table.get_eq_none]
    exact fun p hp same => Table.insert_fresh stored p hp (Schema.clash_of_key _ _ same)
  have found : pullRequests.get i.pullRequestId = some (openedRow i) :=
    Table.get_of_mem ((Table.mem_insert stored).mpr (Or.inr rfl))
  have others : ∀ id, id ≠ i.pullRequestId → pullRequests.get id = db.pullRequests.get id :=
    fun id apart => (Table.get_insert stored id).trans (if_neg fun same => apart same.symm)
  have stays : ∀ {id repositoryId}, StoredIn db.pullRequests id repositoryId →
      StoredIn pullRequests id repositoryId := by
    rintro id repositoryId ⟨p, hp, names⟩
    exact ⟨p, (Table.mem_insert stored).mpr (Or.inl hp), names⟩
  have count := revisionCount_insert added
  refine told.snoc rows rfl ?_ ?_ ⟨?_, ?_, ?_, ?_⟩
  · -- the first event, of a pull request without revisions and reviews
    have kind : (pullRequestRefEvent i).kind = .pullRequestCreated := by
      unfold pullRequestRefEvent
      rw [opens]
    have unborn : pullRequestAt db i.pullRequestId = none := by
      unfold pullRequestAt
      rw [missing, Option.map_none]
    rw [unborn, LifeCycle.advance_none]
    refine (congrArg (Option.map some) (if_pos kind)).trans ?_
    refine congrArg some ?_
    unfold pullRequestAt
    refine Eq.trans ?_ (congrArg (Option.map _) found).symm
    simp only [Option.map_some, pullRequestLife, openedRow, count, told.unrevised missing,
      told.unreviewed missing, revisionRow, if_true]
    rfl
  · intro id apart
    have apart' : ¬(db.revisionRow i).pullRequestId = id := fun same => apart same.symm
    unfold pullRequestAt
    refine (congrArg (Option.map _) (others id apart)).trans ?_
    cases there : db.pullRequests.get id with
    | none => rfl
    | some q =>
        obtain ⟨-, key⟩ := Table.get_eq_some.mp there
        have key : q.id = id := key
        simp only [Option.map_some, pullRequestLife, key, count, if_neg apart', Nat.add_zero]
  · intro r hr
    rcases (Table.mem_insert added).mp hr with before | rfl
    · obtain ⟨repositoryId, stored⟩ := told.owned.revisions r before
      exact ⟨repositoryId, stays stored⟩
    · exact ⟨i.repositoryId, openedRow i, (Table.mem_insert stored).mpr (Or.inr rfl), rfl, rfl⟩
  · intro v hv
    obtain ⟨repositoryId, stored⟩ := told.owned.reviews v hv
    exact ⟨repositoryId, stays stored⟩
  · exact fun j hj revises => stays (settled j hj revises)
  · exact fun m hm => stays (told.owned.merges m hm)

theorem completePullRequestRefIntent_told (told : PullRequestsTold db) {id : Identifier}
    (ok : db.completePullRequestRefIntent id = .ok db') : PullRequestsTold db' := by
  simp only [completePullRequestRefIntent, bind_eq_ok, required_eq_ok, ensure_eq_ok, sqlite_eq_ok,
    pure_eq_ok, Except.ok.injEq] at ok
  obtain ⟨i, found, _, -, pullRequests, stored, revisions, added, db₁, event, intents, updated,
    rfl⟩ := ok
  obtain ⟨hi, -⟩ := Table.get_eq_some.mp found
  have same : db₁.pullRequestRefIntents = db.pullRequestRefIntents := by
    obtain ⟨events, -, rfl⟩ := insertDomainEvent_eq_ok.mp event
    rfl
  rw [same] at updated
  have settled := told.owned.settled updated
  cases operation : i.operation with
  | «open» => exact complete_opening_told told operation stored added event settled
  | revise => exact complete_revision_told told hi operation stored added event settled

/-! ## Merging -/

theorem completePullRequestMerge_told (told : PullRequestsTold db) {i : GitOperationIntent}
    (ok : db.completePullRequestMerge i = .ok db') : PullRequestsTold db' := by
  unfold completePullRequestMerge at ok
  split at ok
  · cases ok
    exact told
  · rename_i m p r found
    simp only [bind_eq_ok, ensure_eq_ok, sqlite_eq_ok] at ok
    obtain ⟨_, still, pullRequests, updated, _, -, event⟩ := ok
    obtain ⟨⟨hm, -⟩, ⟨hp, own⟩, -⟩ := mergeOf_eq_some.mp found
    obtain ⟨events, inserted, rfl⟩ := insertDomainEvent_eq_ok.mp event
    have rows := Table.ofRows_eq_ok inserted
    have isOpen := stillMergeable_open still
    obtain ⟨q, hq, same, located⟩ := told.owned.merges m hm
    obtain rfl : q = p := Table.eq_of_key hq hp (same.trans own.symm)
    refine told.update hp (openPullRequest_iff.mpr ⟨own, isOpen⟩)
      (fun q' chosen => (openPullRequest_iff.mp chosen).1.trans own.symm) updated
      (fun _ => ⟨rfl, rfl⟩) rfl rows (congrArg some own.symm) ?_ (fun _ _ => ⟨rfl, rfl⟩)
      (fun _ => Or.inl) (fun _ => Or.inl) told.owned.intents rfl
    refine (PullRequestLife.next_of rfl located rfl rfl).trans ?_
    exact PullRequestLife.change_merged isOpen

theorem completeGitIntent_told (told : PullRequestsTold db) {id : Identifier}
    (ok : db.completeGitIntent id = .ok db') : PullRequestsTold db' := by
  simp only [completeGitIntent, bind_eq_ok, required_eq_ok, sqlite_eq_ok] at ok
  obtain ⟨i, -, intents, -, _, -, gitEvents, -, db₁, pushed, merged⟩ := ok
  obtain ⟨events, auditEvents, rfl, appended⟩ := insertPushEvents_bare pushed
  refine completePullRequestMerge_told (told.of_kept ?_) merged
  exact .of_log told.owned (appended.mono fun _ bare => bare.2) rfl rfl rfl rfl rfl

end Changes

/-! ## The pull requests of every run -/

/-- The states that the service lets through: `open` and `closed`. -/
def Requested : Operation → Prop
  | .setPullRequestState _ _ _ _ state _ => state ≠ .merged
  | _ => True

/-- **Every operation keeps the pull requests told by their events.** -/
theorem PullRequestsTold.perform {w : World} (told : PullRequestsTold w.db) {operation : Operation}
    (requested : Requested operation) : PullRequestsTold (w.perform operation).db := by
  have committed : ∀ result : Except StoreError Database,
      (∀ db', result = .ok db' → PullRequestsTold db') → PullRequestsTold (w.commit result).db := by
    intro result keeps
    cases result with
    | error e => exact told
    | ok db' => exact keeps db' rfl
  have kept : ∀ result : Except StoreError Database,
      (∀ db', result = .ok db' → PullRequestsKept w.db db') →
        PullRequestsTold (w.commit result).db :=
    fun result keeps => committed result fun db' ok => told.of_kept (keeps db' ok)
  have owned := told.owned
  cases operation with
  | createRepository repository => exact kept _ fun _ => createRepository_unrequested owned
  | createIssue issue =>
      simp only [World.perform]
      split
      · rename_i db record ok
        exact told.of_kept (createIssue_unrequested owned ok)
      · exact told
  | editIssue change title body => exact kept _ fun _ => editIssue_unrequested owned
  | commentIssue owner repository number actor body createdAt =>
      refine kept _ fun db' ok => ?_
      obtain ⟨⟨db₁, id⟩, first, rfl⟩ := map_eq_ok.mp ok
      exact commentIssue_unrequested owned first
  | setIssueState owner repository number actor state changedAt =>
      exact kept _ fun _ => setIssueState_unrequested owned
  | beginPullRequestOpen intent =>
      simp only [World.perform]
      split
      · rename_i db row ok
        exact told.of_kept (beginPullRequestOpen_unrequested owned ok)
      · exact told
  | beginPullRequestRevision number intent =>
      refine kept _ fun db' ok => ?_
      obtain ⟨⟨db₁, row⟩, first, rfl⟩ := map_eq_ok.mp ok
      exact beginPullRequestRevision_unrequested owned first
  | completePullRequestRefIntent id =>
      exact committed _ fun _ => completePullRequestRefIntent_told told
  | abandonPullRequestRefIntent id =>
      exact kept _ fun _ => abandonPullRequestRefIntent_unrequested owned
  | editPullRequest edit => exact committed _ fun _ => editPullRequest_told told
  | createPullRequestReview review =>
      refine committed _ fun db' ok => ?_
      obtain ⟨⟨db₁, id⟩, first, rfl⟩ := map_eq_ok.mp ok
      exact createPullRequestReview_told told first
  | setPullRequestState owner repository number actor state changedAt =>
      exact committed _ fun _ => setPullRequestState_told told requested
  | beginGitIntent intent => exact kept _ fun _ => beginGitIntent_unrequested owned
  | beginPullRequestMerge merge intent =>
      exact kept _ fun _ => beginPullRequestMerge_unrequested owned
  | markGitObjectsPromoted id packName =>
      exact kept _ fun _ => markGitObjectsPromoted_unrequested owned
  | completeGitIntent id =>
      simp only [World.perform]
      split
      · rename_i db ok
        exact completeGitIntent_told told ok
      · exact told
  | abandonGitIntent id => exact kept _ fun _ => abandonGitIntent_unrequested owned
  | elsewhere others => exact told.of_kept (.of_log owned .refl rfl rfl rfl rfl rfl)

/-- The events of a pull request. -/
def pullRequestEvents (t : Table RepositoryEvent) (id : Identifier) : List RepositoryEvent :=
  historyOf (·.pullRequestId) t.rows id

/-- What the log says of the pull requests of a database. -/
structure PullRequestsChronicled (db : Database) : Prop where
  /-- A pull request is where its events end. -/
  pullRequest : ∀ p ∈ db.pullRequests,
    run pullRequestCycle.advance none (pullRequestEvents db.repositoryEvents p.id) =
      some (some (pullRequestLife db p))
  /-- There are no events of other pull requests. -/
  others : ∀ e ∈ db.repositoryEvents, ∀ id, e.pullRequestId = some id →
    ∃ p ∈ db.pullRequests, p.id = id
  /-- A merge is the last thing that happens. -/
  merged : ∀ p ∈ db.pullRequests, ∀ before e after,
    pullRequestEvents db.repositoryEvents p.id = before ++ e :: after →
      e.kind = .pullRequestMerged → after = [] ∧ p.state = .merged

theorem PullRequestLife.merged_last {l : PullRequestLife} {events : List RepositoryEvent}
    {after : Option PullRequestLife} (merged : l.state = .merged)
    (ran : run pullRequestCycle.advance (some l) events = some after) :
    events = [] ∧ after = some l := by
  cases events with
  | nil =>
      cases ran
      exact ⟨rfl, rfl⟩
  | cons e events =>
      have stuck : l.change e.kind e.createdAt = none := by
        unfold change
        rw [merged]
        cases e.kind <;> rfl
      have ends : pullRequestCycle.advance (some l) e = none := by
        rw [LifeCycle.advance_some]
        show (l.next e).map some = none
        unfold next
        rw [stuck, ite_self, Option.map_none]
      rw [run, ends] at ran
      cases ran

/-- Only an open pull request is merged. -/
theorem PullRequestLife.merged_of_advance {before after : Option PullRequestLife}
    {e : RepositoryEvent} (merges : e.kind = .pullRequestMerged)
    (went : pullRequestCycle.advance before e = some after) :
    ∃ l, after = some l ∧ l.state = .merged := by
  cases before with
  | none =>
      rw [LifeCycle.advance_none, Option.map_eq_some_iff] at went
      obtain ⟨l, born, -⟩ := went
      have born : PullRequestLife.first e = some l := born
      rw [first, merges, if_neg (by decide)] at born
      cases born
  | some l =>
      rw [LifeCycle.advance_some, Option.map_eq_some_iff] at went
      obtain ⟨l', went, rfl⟩ := went
      refine ⟨l', rfl, ?_⟩
      have went : l.next e = some l' := went
      rw [next, merges, Option.ite_none_right_eq_some] at went
      cases was : l.state with
      | «open» =>
          rw [change_merged was] at went
          rw [← Option.some.inj went.2]
      | closed =>
          unfold change at went
          rw [was] at went
          cases went.2
      | merged =>
          unfold change at went
          rw [was] at went
          cases went.2

theorem PullRequestsTold.chronicled {db : Database} (told : PullRequestsTold db) :
    PullRequestsChronicled db := by
  have ends : ∀ p ∈ db.pullRequests,
      run pullRequestCycle.advance none (pullRequestEvents db.repositoryEvents p.id) =
        some (some (pullRequestLife db p)) := by
    intro p hp
    have ran := told.lives p.id
    rw [pullRequestAt] at ran
    exact ran.trans (congrArg (fun found => some (Option.map _ found)) (Table.get_of_mem hp))
  refine ⟨ends, fun e he id own => ?_, fun p hp before e after split merges => ?_⟩
  · obtain ⟨l, there⟩ := told.lives.exists_life he own
    obtain ⟨p, found, -⟩ := Option.map_eq_some_iff.mp there
    exact ⟨p, Table.get_eq_some.mp found⟩
  · have ran := ends p hp
    rw [split, run_append, Option.bind_eq_some_iff] at ran
    obtain ⟨earlier, -, rest⟩ := ran
    rw [run] at rest
    cases went : pullRequestCycle.advance earlier e with
    | none =>
        rw [went] at rest
        cases rest
    | some now =>
        rw [went] at rest
        obtain ⟨l, rfl, merged⟩ := PullRequestLife.merged_of_advance merges went
        obtain ⟨last, same⟩ := PullRequestLife.merged_last merged rest
        refine ⟨last, ?_⟩
        have state := congrArg PullRequestLife.state (Option.some.inj same)
        exact state.trans merged

/-- **In every run the pull requests are what their events tell.** -/
theorem pullRequests_chronicled (operations : List Operation)
    (requested : ∀ operation ∈ operations, Requested operation) :
    Always step (fun w => PullRequestsChronicled w.db) .initial operations := by
  have meets : Meets step (fun _ operation => Requested operation) .initial operations :=
    meets_of_forall (fun operation member _ => requested operation member) _
  have always : Always step (fun w => PullRequestsTold w.db) .initial operations := by
    refine always_of_meets ?_ PullRequestsTold.initial meets
    intro w operation w' told allowed next
    cases next
    exact told.perform allowed
  exact always.mono fun _ => PullRequestsTold.chronicled

/-! Pole: a pull request of `alice` that is opened, revised, closed and reopened. -/

def aliceIntent (id : Identifier) (head : Nat) (createdAt : Int) : NewPullRequestRefIntent where
  id := id
  pullRequestId := 7
  owner := "alice"
  repository := "tit"
  actor := "alice"
  title := "t"
  body := ""
  baseRef := asciiBytes "refs/heads/main"
  headRef := asciiBytes "refs/heads/work"
  baseObjectId := ⟨1⟩
  headObjectId := ⟨head⟩
  createdAt := createdAt

def reopenedByAlice : List Operation :=
  [.elsewhere oneRepository, .beginPullRequestOpen (aliceIntent 1 2 3),
   .completePullRequestRefIntent 1, .beginPullRequestRevision 1 (aliceIntent 2 3 4),
   .completePullRequestRefIntent 2, .setPullRequestState "alice" "tit" 1 "alice" .closed 5,
   .setPullRequestState "alice" "tit" 1 "alice" .open 6]

theorem pullRequests_chronicled_reopenedByAlice :
    Always step (fun w => PullRequestsChronicled w.db) .initial reopenedByAlice :=
  pullRequests_chronicled reopenedByAlice (by simp [reopenedByAlice, Requested])

example :
    let w := reopenedByAlice.foldl World.perform .initial
    w.db.pullRequests.rows.map (fun p => (p.state, p.updatedAt)) = [(.open, 6)] ∧
      (pullRequestEvents w.db.repositoryEvents 7).map (·.kind) =
        [.pullRequestCreated, .pullRequestRevised, .pullRequestClosed, .pullRequestReopened] := by
  decide +kernel

end Tit.Events
