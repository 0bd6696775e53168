/-
# Store.Database -- one state of the database

The tables, and the two helpers that nearly every transaction shares: a row of the
audit history and a row of the domain event log.
-/
import Tit.Store.Error

namespace Tit.Store

open Tit.Theory

set_option autoImplicit false

structure Database where
  accounts : Table Account
  sshPublicKeys : Table SshPublicKey
  recoveryCredentials : Table RecoveryCredential
  signupInvitations : Table SignupInvitation
  loginNonces : Table LoginNonce
  sshLoginApprovals : Table SshLoginApproval
  webSessions : Table WebSession
  feedTokens : Table FeedToken
  auditEvents : Table AuditEvent
  namespaces : Table Namespace
  organizations : Table Organization
  organizationMembers : Table OrganizationMember
  repositories : Table Repository
  repositoryCollaborators : Table RepositoryCollaborator
  repositoryDefaultBranches : Table RepositoryDefaultBranch
  repositoryDefaultBranchIntents : Table RepositoryDefaultBranchIntent
  repositoryCounters : Table RepositoryCounter
  repositoryEvents : Table RepositoryEvent
  gitOperationIntents : Table GitOperationIntent
  gitOperationEvents : Table GitOperationEvent
  pullRequests : Table PullRequest
  pullRequestRevisions : Table PullRequestRevision
  pullRequestRefIntents : Table PullRequestRefIntent
  pullRequestMergeIntents : Table PullRequestMergeIntent
  pullRequestReviews : Table PullRequestReview
  issues : Table Issue
  issueComments : Table IssueComment
  watches : Table Watch

namespace Database

/-- The database that the migrations leave. -/
def initial : Database where
  accounts := .empty
  sshPublicKeys := .empty
  recoveryCredentials := .empty
  signupInvitations := .empty
  loginNonces := .empty
  sshLoginApprovals := .empty
  webSessions := .empty
  feedTokens := .empty
  auditEvents := .empty
  namespaces := .empty
  organizations := .empty
  organizationMembers := .empty
  repositories := .empty
  repositoryCollaborators := .empty
  repositoryDefaultBranches := .empty
  repositoryDefaultBranchIntents := .empty
  repositoryCounters := .empty
  repositoryEvents := .empty
  gitOperationIntents := .empty
  gitOperationEvents := .empty
  pullRequests := .empty
  pullRequestRevisions := .empty
  pullRequestRefIntents := .empty
  pullRequestMergeIntents := .empty
  pullRequestReviews := .empty
  issues := .empty
  issueComments := .empty
  watches := .empty

/-! ## The audit history -/

structure NewAuditEvent where
  action : String
  actor : String
  target : String
  outcome : AuditOutcome
  correlationId : String
  createdAt : Int

/-- The row of a new audit event. -/
def auditRow (db : Database) (event : NewAuditEvent) : AuditEvent where
  id := db.auditEvents.nextRowid
  action := event.action
  actor := event.actor
  target := event.target
  outcome := event.outcome
  correlationId := event.correlationId
  createdAt := event.createdAt

def insertAuditEvent (db : Database) (event : NewAuditEvent) : Except StoreError Database := do
  let auditEvents ← sqlite (db.auditEvents.insert (db.auditRow event))
  pure { db with auditEvents }

theorem insertAuditEvent_eq_ok {db db' : Database} {event : NewAuditEvent} :
    db.insertAuditEvent event = .ok db' ↔
      ∃ auditEvents, db.auditEvents.insert (db.auditRow event) = .ok auditEvents ∧
        db' = { db with auditEvents } := by
  unfold insertAuditEvent
  simp only [bind_eq_ok, sqlite_eq_ok, pure_eq_ok, Except.ok.injEq]
  exact exists_congr fun _ => and_congr_right fun _ => eq_comm

/-- **The audit history takes an event exactly when its texts fit the columns.** -/
theorem insertAuditEvent_succeeds {db : Database} (event : NewAuditEvent) :
    (∃ db', db.insertAuditEvent event = .ok db') ↔
      (1 ≤ event.action.length ∧ event.action.length ≤ 80) ∧
        (1 ≤ event.actor.length ∧ event.actor.length ≤ 256) ∧
        (1 ≤ event.target.length ∧ event.target.length ≤ 512) ∧
        (1 ≤ event.correlationId.length ∧ event.correlationId.length ≤ 128) ∧
        0 ≤ event.createdAt := by
  constructor
  · rintro ⟨db', inserted⟩
    obtain ⟨auditEvents, inserted, -⟩ := insertAuditEvent_eq_ok.mp inserted
    exact AuditEvent.check_iff.mp
      (auditEvents.checked _ ((Table.mem_insert inserted).mpr (Or.inr rfl)))
  · intro fits
    have fresh : ∀ s ∈ db.auditEvents, ¬Schema.clash s (db.auditRow event) = true := by
      intro s hs clash
      exact absurd (AuditEvent.clash_iff.mp clash) (Nat.ne_of_lt (Table.key_lt_nextRowid hs))
    obtain ⟨auditEvents, inserted⟩ := Table.insert_of (AuditEvent.check_iff.mpr fits) fresh
    exact ⟨_, insertAuditEvent_eq_ok.mpr ⟨auditEvents, inserted, rfl⟩⟩

/-! ## The event log -/

structure NewDomainEvent where
  repositoryId : Identifier
  sourceIntentId : Option Identifier
  sourceOrdinal : Option Nat
  issueId : Option Identifier := none
  pullRequestId : Option Identifier
  kind : EventKind
  actor : String
  refName : Option RefName
  oldTarget : Option ObjectId
  newTarget : Option ObjectId
  createdAt : Int

/-- `COALESCE(MAX(sequence), 0) + 1` over the events of the repository. -/
def nextSequence (db : Database) (repositoryId : Identifier) : Nat :=
  ((db.repositoryEvents.rows.filter fun e => decide (e.repositoryId = repositoryId)).map
    (·.sequence)).max?.getD 0 + 1

def eventRow (db : Database) (event : NewDomainEvent) : RepositoryEvent where
  id := db.repositoryEvents.nextRowid
  repositoryId := event.repositoryId
  sequence := db.nextSequence event.repositoryId
  sourceIntentId := event.sourceIntentId
  sourceOrdinal := event.sourceOrdinal
  issueId := event.issueId
  pullRequestId := event.pullRequestId
  kind := event.kind
  actor := event.actor
  refName := event.refName
  oldTarget := event.oldTarget
  newTarget := event.newTarget
  createdAt := event.createdAt

def insertDomainEvent (db : Database) (event : NewDomainEvent) : Except StoreError Database := do
  let repositoryEvents ← sqlite (db.repositoryEvents.insert (db.eventRow event))
  pure { db with repositoryEvents }

theorem insertDomainEvent_eq_ok {db db' : Database} {event : NewDomainEvent} :
    db.insertDomainEvent event = .ok db' ↔
      ∃ repositoryEvents, db.repositoryEvents.insert (db.eventRow event) = .ok repositoryEvents ∧
        db' = { db with repositoryEvents } := by
  unfold insertDomainEvent
  simp only [bind_eq_ok, sqlite_eq_ok, pure_eq_ok, Except.ok.injEq]
  exact exists_congr fun _ => and_congr_right fun _ => eq_comm

theorem sequence_lt_nextSequence {db : Database} {e : RepositoryEvent}
    (member : e ∈ db.repositoryEvents) : e.sequence < db.nextSequence e.repositoryId := by
  refine Nat.lt_succ_of_le (List.le_max?_getD_of_mem (List.mem_map_of_mem ?_))
  exact List.mem_filter.mpr ⟨member, by simp⟩

/-- The log takes an event of a permitted shape whose source is new. -/
theorem insertDomainEvent_succeeds {db : Database} {event : NewDomainEvent}
    (actor : 1 ≤ event.actor.length ∧ event.actor.length ≤ 256) (since : 0 ≤ event.createdAt)
    (sourced : event.sourceIntentId.isSome = event.sourceOrdinal.isSome)
    (shaped : (db.eventRow event).shaped = true)
    (fresh : ∀ e ∈ db.repositoryEvents, event.sourceIntentId ≠ none →
      e.sourceIntentId = event.sourceIntentId → e.sourceOrdinal ≠ event.sourceOrdinal) :
    ∃ db', db.insertDomainEvent event = .ok db' := by
  have checked : Schema.check (db.eventRow event) = true := by
    simp only [Schema.check, Bool.and_eq_true, decide_eq_true_eq, lengthBetween_iff, beq_iff_eq]
    exact ⟨⟨⟨⟨Nat.succ_le_succ (Nat.zero_le _), actor⟩, since⟩, sourced⟩, shaped⟩
  obtain ⟨repositoryEvents, inserted⟩ := Table.insert_of (t := db.repositoryEvents) checked (by
    intro e he clash
    rcases of_decide_eq_true clash with id | ⟨repository, sequence⟩ | ⟨some, source, -, ordinal⟩
    · exact absurd id (Nat.ne_of_lt (Table.key_lt_nextRowid he))
    · have below := sequence_lt_nextSequence he
      rw [repository] at below
      exact absurd sequence (Nat.ne_of_lt below)
    · have sourced : e.sourceIntentId = event.sourceIntentId := source
      exact fresh e he (sourced ▸ some) sourced ordinal)
  exact ⟨_, insertDomainEvent_eq_ok.mpr ⟨repositoryEvents, inserted, rfl⟩⟩

end Database

end Tit.Store
