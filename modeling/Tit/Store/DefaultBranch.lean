/-
# Store.DefaultBranch -- the default branch of a repository and its intent

A change of the default branch is written twice: the name in the database and the
symbolic reference `HEAD` of the Git repository.  A row of
`repository_default_branch_intent` stands for a change between the two.
-/
import Tit.Store.Access
import Mathlib.Data.List.Sort

namespace Tit.Store

open Tit.Theory

set_option autoImplicit false

structure NewDefaultBranchIntent where
  id : Identifier
  owner : String
  slug : String
  actor : String
  previousBranch : String
  defaultBranch : String
  changedAt : Int

/-- `ORDER BY created_at, id`. -/
def createdBefore (createdAt createdAt' : Int) (id id' : Identifier) : Bool :=
  decide (createdAt < createdAt' ∨ (createdAt = createdAt' ∧ id.toNat ≤ id'.toNat))

namespace Database

def repositoryDefaultBranch (db : Database) (owner slug : String) : Except StoreError String := do
  let (_, repository) ← required (db.repositoryNamed owner slug) (.repositoryNotFound owner slug)
  let stored ← required (db.repositoryDefaultBranches.get repository.id)
    (.repositoryNotFound owner slug)
  pure stored.refName

/-- The part of `repository_settings` that the default branch needs. -/
def repositorySettings (db : Database) (owner slug actor : String) :
    Except StoreError (Identifier × String) := do
  let access ← db.repositoryIssueAccess owner slug (some actor)
  ensure (access.canMaintain = true) .pullRequestDenied
  let defaultBranch ← db.repositoryDefaultBranch owner slug
  pure (access.repository.id, defaultBranch)

/-- The row that `begin_repository_default_branch` adds. -/
def defaultBranchIntentRow (repositoryId : Identifier) (intent : NewDefaultBranchIntent) :
    RepositoryDefaultBranchIntent where
  id := intent.id
  repositoryId := repositoryId
  actor := intent.actor
  previousRefName := intent.previousBranch
  proposedRefName := intent.defaultBranch
  createdAt := intent.changedAt

def beginRepositoryDefaultBranch (db : Database) (intent : NewDefaultBranchIntent) :
    Except StoreError Database := do
  let access ← db.repositoryIssueAccess intent.owner intent.slug (some intent.actor)
  ensure (access.canMaintain = true) .pullRequestDenied
  let stored ← required (db.repositoryDefaultBranches.get access.repository.id) .noRows
  ensure (stored.refName = intent.previousBranch) .invalidDefaultBranch
  let repositoryDefaultBranchIntents ← sqlite
    (db.repositoryDefaultBranchIntents.insert
      (defaultBranchIntentRow access.repository.id intent))
  pure { db with repositoryDefaultBranchIntents }

/-- The audit event of a completed change. -/
def defaultBranchAudit (owner slug : String) (intent : RepositoryDefaultBranchIntent) :
    NewAuditEvent where
  action := "repository.default-branch"
  actor := intent.actor
  target := owner ++ "/" ++ slug ++ ":" ++ intent.proposedRefName
  outcome := .success
  correlationId := identifierText intent.id
  createdAt := intent.createdAt

def completeRepositoryDefaultBranch (db : Database) (id : Identifier) :
    Except StoreError Database := do
  let (intent, repository, owner) ← required (do
      let intent ← db.repositoryDefaultBranchIntents.get id
      let repository ← db.repositories.get intent.repositoryId
      let owner ← db.namespaces.get repository.ownerNamespaceId
      pure (intent, repository, owner)) (.defaultBranchIntentState id)
  let changed : RepositoryDefaultBranch → Bool := fun d =>
    decide (d.repositoryId = repository.id)
  let repositoryDefaultBranches ← sqlite (db.repositoryDefaultBranches.update changed
    fun d => { d with refName := intent.proposedRefName })
  ensure (db.repositoryDefaultBranches.count changed = 1) .invalidDefaultBranch
  let db ← { db with repositoryDefaultBranches }.insertAuditEvent
    (defaultBranchAudit owner.slug repository.slug intent)
  let deleted : RepositoryDefaultBranchIntent → Bool := fun i => decide (i.id = id)
  ensure (db.repositoryDefaultBranchIntents.count deleted = 1) (.defaultBranchIntentState id)
  pure { db with
    repositoryDefaultBranchIntents := db.repositoryDefaultBranchIntents.delete deleted }

def abandonRepositoryDefaultBranch (db : Database) (id : Identifier) :
    Except StoreError Database := do
  let deleted : RepositoryDefaultBranchIntent → Bool := fun i => decide (i.id = id)
  ensure (db.repositoryDefaultBranchIntents.count deleted = 1) (.defaultBranchIntentState id)
  pure { db with
    repositoryDefaultBranchIntents := db.repositoryDefaultBranchIntents.delete deleted }

def incompleteRepositoryDefaultBranches (db : Database) : List RepositoryDefaultBranchIntent :=
  db.repositoryDefaultBranchIntents.rows.insertionSort fun i j =>
    createdBefore i.createdAt j.createdAt i.id j.id = true

theorem mem_incompleteRepositoryDefaultBranches {db : Database}
    {intent : RepositoryDefaultBranchIntent} :
    intent ∈ db.incompleteRepositoryDefaultBranches ↔
      intent ∈ db.repositoryDefaultBranchIntents :=
  List.mem_insertionSort _

/-- The intents are listed once each. -/
theorem incompleteRepositoryDefaultBranches_distinct (db : Database) :
    db.incompleteRepositoryDefaultBranches.Pairwise fun i j => i.id ≠ j.id := by
  refine (List.Perm.pairwise_iff (fun {_ _} apart => Ne.symm apart) ?_).mpr
    db.repositoryDefaultBranchIntents.pairwise_key
  exact List.perm_insertionSort _ _

/-! ## What the three transactions do -/

/-- A new intent records the stored branch of an existing repository, and an actor
that has an account. -/
theorem beginRepositoryDefaultBranch_eq_ok {db db' : Database} {intent : NewDefaultBranchIntent}
    (ok : db.beginRepositoryDefaultBranch intent = .ok db') :
    ∃ n ∈ db.namespaces, ∃ r ∈ db.repositories, ∃ intents, n.slug = intent.owner ∧
      r.slug = intent.slug ∧ r.ownerNamespaceId = n.id ∧
      (db.repositoryDefaultBranches.get r.id).map (·.refName) = some intent.previousBranch ∧
      (1 ≤ intent.actor.length ∧ intent.actor.length ≤ 40) ∧
      db.repositoryDefaultBranchIntents.insert (defaultBranchIntentRow r.id intent)
        = .ok intents ∧
      db' = { db with repositoryDefaultBranchIntents := intents } := by
  unfold beginRepositoryDefaultBranch at ok
  simp only [bind_eq_ok, ensure_eq_ok, required_eq_ok, sqlite_eq_ok, pure_eq_ok,
    Except.ok.injEq] at ok
  obtain ⟨access, accessed, _, allowed, stored, found, _, same, intents, inserted, rfl⟩ := ok
  obtain ⟨a, ha, named⟩ := canMaintain_account accessed allowed
  obtain ⟨n, hn, r, hr, owned, slug, inside, id, -, -⟩ := repositoryIssueAccess_eq_ok accessed
  rw [id] at found inserted
  refine ⟨n, hn, r, hr, intents, owned, slug, inside, ?_, named ▸ username_fits ha, inserted, rfl⟩
  rw [found, Option.map_some, same]

/-- A maintainer's request for a repository without an intent is stored. -/
theorem beginRepositoryDefaultBranch_succeeds {db : Database} {intent : NewDefaultBranchIntent}
    {access : RepositoryIssueAccess} {stored : RepositoryDefaultBranch}
    (accessed : db.repositoryIssueAccess intent.owner intent.slug (some intent.actor)
      = .ok access)
    (allowed : access.canMaintain = true)
    (found : db.repositoryDefaultBranches.get access.repository.id = some stored)
    (same : stored.refName = intent.previousBranch)
    (valid : branchCheck intent.defaultBranch = true) (since : 0 ≤ intent.changedAt)
    (free : ∀ i ∈ db.repositoryDefaultBranchIntents,
      i.id ≠ intent.id ∧ i.repositoryId ≠ access.repository.id) :
    ∃ intents, db.repositoryDefaultBranchIntents.insert
        (defaultBranchIntentRow access.repository.id intent) = .ok intents ∧
      db.beginRepositoryDefaultBranch intent =
        .ok { db with repositoryDefaultBranchIntents := intents } := by
  have checked := db.repositoryDefaultBranches.checked stored (Table.get_eq_some.mp found).1
  obtain ⟨intents, inserted⟩ := Table.insert_of (t := db.repositoryDefaultBranchIntents)
    (r := defaultBranchIntentRow access.repository.id intent)
    (by
      simp only [Schema.check, defaultBranchIntentRow, Bool.and_eq_true]
      exact ⟨⟨same ▸ checked, valid⟩, decide_eq_true since⟩)
    (by
      intro i hi clash
      rcases of_decide_eq_true clash with sameId | sameRepository
      · exact (free i hi).1 sameId
      · exact (free i hi).2 sameRepository)
  refine ⟨intents, inserted, ?_⟩
  unfold beginRepositoryDefaultBranch
  simp only [bind_eq_ok, ensure_eq_ok, required_eq_ok, sqlite_eq_ok, pure_eq_ok]
  exact ⟨access, accessed, ⟨⟩, allowed, stored, found, ⟨⟩, same, intents, inserted, rfl⟩

/-- A completed change sets the stored branch, writes the audit history and removes
the intent. -/
theorem completeRepositoryDefaultBranch_eq_ok {db db' : Database} {id : Identifier}
    (ok : db.completeRepositoryDefaultBranch id = .ok db') :
    ∃ intent repository owner branches auditEvents,
      db.repositoryDefaultBranchIntents.get id = some intent ∧
      db.repositories.get intent.repositoryId = some repository ∧
      db.namespaces.get repository.ownerNamespaceId = some owner ∧
      db.repositoryDefaultBranches.update
          (fun d => decide (d.repositoryId = repository.id))
          (fun d => { d with refName := intent.proposedRefName }) = .ok branches ∧
      db.auditEvents.insert
        (db.auditRow (defaultBranchAudit owner.slug repository.slug intent)) = .ok auditEvents ∧
      db' = { db with
        repositoryDefaultBranches := branches, auditEvents
        repositoryDefaultBranchIntents :=
          db.repositoryDefaultBranchIntents.delete fun i => decide (i.id = id) } := by
  unfold completeRepositoryDefaultBranch at ok
  simp only [bind_eq_ok, ensure_eq_ok, required_eq_ok, sqlite_eq_ok, pure_eq_ok,
    Except.ok.injEq, Option.bind_eq_bind, Option.bind_eq_some_iff, Option.pure_def,
    Option.some.injEq] at ok
  obtain ⟨⟨intent, repository, owner⟩, found, branches, updated, _, -, db₁, audited, _, -, rfl⟩ :=
    ok
  obtain ⟨intent, foundIntent, repository, foundRepository, owner, foundOwner, same⟩ := found
  cases same
  obtain ⟨auditEvents, inserted, rfl⟩ := insertAuditEvent_eq_ok.mp audited
  exact ⟨intent, repository, owner, branches, auditEvents, foundIntent, foundRepository,
    foundOwner, updated, inserted, rfl⟩

theorem countIntent {db : Database} {intent : RepositoryDefaultBranchIntent}
    (member : intent ∈ db.repositoryDefaultBranchIntents) :
    db.repositoryDefaultBranchIntents.count (fun i => decide (i.id = intent.id)) = 1 :=
  Table.count_eq_one member (decide_eq_true rfl) fun _ _ same => of_decide_eq_true same

theorem abandonRepositoryDefaultBranch_eq_ok {db db' : Database} {id : Identifier}
    (ok : db.abandonRepositoryDefaultBranch id = .ok db') :
    db' = { db with
      repositoryDefaultBranchIntents :=
        db.repositoryDefaultBranchIntents.delete fun i => decide (i.id = id) } := by
  unfold abandonRepositoryDefaultBranch at ok
  simp only [bind_eq_ok, pure_eq_ok, Except.ok.injEq] at ok
  obtain ⟨_, -, rfl⟩ := ok
  rfl

theorem abandonRepositoryDefaultBranch_succeeds {db : Database}
    {intent : RepositoryDefaultBranchIntent}
    (member : intent ∈ db.repositoryDefaultBranchIntents) :
    ∃ db', db.abandonRepositoryDefaultBranch intent.id = .ok db' := by
  unfold abandonRepositoryDefaultBranch
  simp only [bind_eq_ok, ensure_eq_ok, pure_eq_ok]
  exact ⟨_, ⟨⟩, countIntent member, rfl⟩

/-- What the audit history is to record of the change has this many characters. -/
def targetLength (owner slug branch : String) : Nat :=
  owner.length + 1 + slug.length + 1 + branch.length

theorem defaultBranchAudit_target (owner slug : String) (intent : RepositoryDefaultBranchIntent) :
    (defaultBranchAudit owner slug intent).target.length =
      targetLength owner slug intent.proposedRefName := by
  have slash : "/".length = 1 := by decide
  have colon : ":".length = 1 := by decide
  simp only [defaultBranchAudit, targetLength, String.length_append, slash, colon]

/-- The target of a completed change fits the audit history. -/
theorem completeRepositoryDefaultBranch_fits {db db' : Database}
    {intent : RepositoryDefaultBranchIntent} {repository : Repository} {owner : Namespace}
    (member : intent ∈ db.repositoryDefaultBranchIntents)
    (foundRepository : db.repositories.get intent.repositoryId = some repository)
    (foundOwner : db.namespaces.get repository.ownerNamespaceId = some owner)
    (ok : db.completeRepositoryDefaultBranch intent.id = .ok db') :
    targetLength owner.slug repository.slug intent.proposedRefName ≤ 512 := by
  obtain ⟨intent', repository', owner', branches, auditEvents, foundIntent', foundRepository',
    foundOwner', -, inserted, -⟩ := completeRepositoryDefaultBranch_eq_ok ok
  obtain rfl : intent = intent' :=
    Option.some.inj ((Table.get_of_mem member).symm.trans foundIntent')
  obtain rfl : repository = repository' :=
    Option.some.inj (foundRepository.symm.trans foundRepository')
  obtain rfl : owner = owner' := Option.some.inj (foundOwner.symm.trans foundOwner')
  have fits := (insertAuditEvent_succeeds _).mp
    ⟨_, insertAuditEvent_eq_ok.mpr ⟨auditEvents, inserted, rfl⟩⟩
  rw [defaultBranchAudit_target] at fits
  exact fits.2.2.1.2

/-- A change whose audit target fits completes. -/
theorem completeRepositoryDefaultBranch_succeeds {db : Database}
    {intent : RepositoryDefaultBranchIntent} {repository : Repository} {owner : Namespace}
    (member : intent ∈ db.repositoryDefaultBranchIntents)
    (foundRepository : db.repositories.get intent.repositoryId = some repository)
    (foundOwner : db.namespaces.get repository.ownerNamespaceId = some owner)
    (stored : ∃ d ∈ db.repositoryDefaultBranches, d.repositoryId = repository.id)
    (actor : 1 ≤ intent.actor.length ∧ intent.actor.length ≤ 40)
    (fits : targetLength owner.slug repository.slug intent.proposedRefName ≤ 512) :
    ∃ db', db.completeRepositoryDefaultBranch intent.id = .ok db' := by
  have checkedIntent := db.repositoryDefaultBranchIntents.checked intent member
  simp only [Schema.check, Bool.and_eq_true, decide_eq_true_eq] at checkedIntent
  obtain ⟨d, hd, same⟩ := stored
  obtain ⟨branches, updated⟩ : ∃ branches, db.repositoryDefaultBranches.update
      (fun d => decide (d.repositoryId = repository.id))
      (fun d => { d with refName := intent.proposedRefName }) = .ok branches :=
    Table.update_of (fun r s => Iff.rfl) fun _ _ _ => checkedIntent.1.2
  have counted : db.repositoryDefaultBranches.count
      (fun d => decide (d.repositoryId = repository.id)) = 1 :=
    Table.count_eq_one hd (decide_eq_true same) fun e _ chosen =>
      (of_decide_eq_true chosen).trans same.symm
  have audit : ∃ db', ({ db with repositoryDefaultBranches := branches } :
      Database).insertAuditEvent (defaultBranchAudit owner.slug repository.slug intent)
      = .ok db' := by
    refine (insertAuditEvent_succeeds _).mpr ?_
    have long : 1 ≤ targetLength owner.slug repository.slug intent.proposedRefName := by
      unfold targetLength
      omega
    rw [defaultBranchAudit_target]
    simp only [defaultBranchAudit, identifierText_length]
    exact ⟨by decide, ⟨actor.1, by omega⟩, ⟨long, fits⟩, by decide, checkedIntent.2⟩
  obtain ⟨db', audited⟩ := audit
  obtain ⟨auditEvents, -, same'⟩ := insertAuditEvent_eq_ok.mp audited
  unfold completeRepositoryDefaultBranch
  simp only [bind_eq_ok, ensure_eq_ok, required_eq_ok, sqlite_eq_ok, pure_eq_ok]
  refine ⟨_, (intent, repository, owner), ?_, branches, updated, ⟨⟩, counted, db', audited, ⟨⟩,
    ?_, rfl⟩
  · have foundIntent := Table.get_of_mem member
    simp only [Schema.key] at foundIntent
    simp [foundIntent, foundRepository, foundOwner]
  · rw [same']
    exact countIntent member

end Database

end Tit.Store
