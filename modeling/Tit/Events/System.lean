/-
# Events.System -- runs of store operations and the log they leave

Any sequence of the transactions that write events, intents or counters, each with any arguments; a
transaction that fails is rolled back.  `elsewhere` stands for all other transactions: it replaces
the tables that those may write with any tables.  Beside the database a world keeps what was handed
out: the intents that were completed in a managed repository, and the numbers that issues and pull
requests were given, whatever became of them.
-/
import Tit.Events.Log
import Tit.Sessions.Frame
import Tit.Directory.Unreachable

namespace Tit.Events

open Tit.Theory Tit.Store Tit.Store.Database

set_option autoImplicit false

/-! ## Operations -/

inductive Operation where
  | createRepository (repository : NewRepository)
  | createIssue (issue : NewIssue)
  | editIssue (change : IssueChange) (title body : String)
  | commentIssue (owner repository : String) (number : Nat) (actor body : String)
      (createdAt : Int)
  | setIssueState (owner repository : String) (number : Nat) (actor : String)
      (state : IssueState) (changedAt : Int)
  | beginPullRequestOpen (intent : NewPullRequestRefIntent)
  | beginPullRequestRevision (number : Nat) (intent : NewPullRequestRefIntent)
  | completePullRequestRefIntent (id : Identifier)
  | abandonPullRequestRefIntent (id : Identifier)
  | editPullRequest (edit : PullRequestEdit)
  | createPullRequestReview (review : NewPullRequestReview)
  | setPullRequestState (owner repository : String) (number : Nat) (actor : String)
      (state : PullRequestState) (changedAt : Int)
  | beginGitIntent (intent : NewGitOperationIntent)
  | beginPullRequestMerge (merge : NewPullRequestMerge) (intent : NewGitOperationIntent)
  | markGitObjectsPromoted (id : Identifier) (packName : Option PackName)
  | completeGitIntent (id : Identifier)
  | abandonGitIntent (id : Identifier)
  | elsewhere (others : Database)

structure World where
  db : Database
  managed : List Identifier
  issues : List (Identifier × Nat)
  pullRequests : List (Identifier × Nat)

def World.initial : World := ⟨.initial, [], [], []⟩

/-- The tables of `others`, but for those of the log, the intents, the requests and the counters. -/
def replaceOthers (db others : Database) : Database :=
  { others with
    repositoryCounters := db.repositoryCounters
    repositoryEvents := db.repositoryEvents
    gitOperationIntents := db.gitOperationIntents
    gitOperationEvents := db.gitOperationEvents
    pullRequests := db.pullRequests
    pullRequestRevisions := db.pullRequestRevisions
    pullRequestRefIntents := db.pullRequestRefIntents
    pullRequestMergeIntents := db.pullRequestMergeIntents
    pullRequestReviews := db.pullRequestReviews
    issues := db.issues
    issueComments := db.issueComments }

/-- `db'` comes from `db` by a transaction that `elsewhere` stands for. -/
def Elsewhere (db db' : Database) : Prop := replaceOthers db db' = db'

theorem Elsewhere.insertAuditEvent {db db₁ db' : Database} {event : NewAuditEvent}
    (ok : db₁.insertAuditEvent event = .ok db') (first : Elsewhere db db₁) : Elsewhere db db' := by
  obtain ⟨auditEvents, -, rfl⟩ := insertAuditEvent_eq_ok.mp ok
  exact congrArg (fun d : Database => { d with auditEvents }) first

/-- The account and login transactions are among the other ones. -/
theorem accounts_elsewhere {db db' : Database} {operation : Sessions.Operation}
    (ok : operation.transact db = .ok db') : Elsewhere db db' := by
  have only := Sessions.transact_accountsOnly operation ok
  unfold Sessions.AccountsOnly at only
  rw [Elsewhere, only]
  rfl

/-- So are the changes of a repository. -/
theorem changes_elsewhere {db db' : Database} {change : Directory.RepositoryChange}
    (ok : change.transact db = .ok db') : Elsewhere db db' := by
  cases change with
  | renameRepository owner oldSlug newSlug changedAt actor correlationId =>
      simp only [Directory.RepositoryChange.transact, renameRepository, bind_eq_ok] at ok
      obtain ⟨ownerId, -, repositories, -, ok⟩ := ok
      split at ok
      · exact Elsewhere.insertAuditEvent ok rfl
      · cases ok
      · cases ok
  | renameRepositoryForOwner owner oldSlug newSlug actor changedAt correlationId =>
      simp only [Directory.RepositoryChange.transact, renameRepositoryForOwner, bind_eq_ok] at ok
      obtain ⟨ownerId, -, _, -, repositories, -, _, -, audit⟩ := ok
      exact Elsewhere.insertAuditEvent audit rfl
  | archiveRepository owner slug archivedAt actor correlationId =>
      simp only [Directory.RepositoryChange.transact, archiveRepository, bind_eq_ok] at ok
      obtain ⟨ownerId, -, repositories, -, _, -, audit⟩ := ok
      exact Elsewhere.insertAuditEvent audit rfl
  | archiveRepositoryForActor owner slug actor changedAt correlationId =>
      simp only [Directory.RepositoryChange.transact, archiveRepositoryForActor, bind_eq_ok] at ok
      obtain ⟨access, -, _, -, repositories, -, audit⟩ := ok
      exact Elsewhere.insertAuditEvent audit rfl
  | unarchiveRepositoryForOwner owner slug actor changedAt correlationId =>
      simp only [Directory.RepositoryChange.transact, unarchiveRepositoryForOwner, bind_eq_ok] at ok
      obtain ⟨ownerId, -, _, -, repositories, -, _, -, audit⟩ := ok
      exact Elsewhere.insertAuditEvent audit rfl
  | setRepositoryVisibility owner slug visibility changedAt actor correlationId =>
      simp only [Directory.RepositoryChange.transact, setRepositoryVisibility, bind_eq_ok] at ok
      obtain ⟨parsed, -, ownerId, -, repositories, -, _, -, audit⟩ := ok
      exact Elsewhere.insertAuditEvent audit rfl
  | setRepositoryCollaborator owner slug username role changedAt actor correlationId =>
      simp only [Directory.RepositoryChange.transact, setRepositoryCollaborator, bind_eq_ok] at ok
      obtain ⟨granted, -, ownerId, -, repository, -, account, -, own, -, _, -, collaborators, -,
        audit⟩ := ok
      exact Elsewhere.insertAuditEvent audit rfl
  | removeRepositoryCollaborator owner slug username changedAt actor correlationId =>
      simp only [Directory.RepositoryChange.transact, removeRepositoryCollaborator, bind_eq_ok] at ok
      obtain ⟨ownerId, -, repository, -, account, -, own, -, _, -, _, -, audit⟩ := ok
      exact Elsewhere.insertAuditEvent audit rfl

/-- The repository and the number that a new issue was given. -/
def issueNumber (db : Database) (id : Identifier) : List (Identifier × Nat) :=
  ((db.issues.get id).map fun i => (i.repositoryId, i.number)).toList

namespace World

def commit (w : World) : Except StoreError Database → World
  | .ok db => { w with db }
  | .error _ => w

def perform (w : World) : Operation → World
  | .createRepository repository => w.commit (w.db.createRepository repository)
  | .createIssue issue =>
      match w.db.createIssue issue with
      | .ok (db, _) => { w with db, issues := issueNumber db issue.id ++ w.issues }
      | .error _ => w
  | .editIssue change title body => w.commit (w.db.editIssue change title body)
  | .commentIssue owner repository number actor body createdAt =>
      w.commit ((w.db.commentIssue owner repository number actor body createdAt).map (·.1))
  | .setIssueState owner repository number actor state changedAt =>
      w.commit (w.db.setIssueState owner repository number actor state changedAt)
  | .beginPullRequestOpen intent =>
      match w.db.beginPullRequestOpen intent with
      | .ok (db, row) =>
          { w with
            db, pullRequests := (row.repositoryId, row.pullRequestNumber) :: w.pullRequests }
      | .error _ => w
  | .beginPullRequestRevision number intent =>
      w.commit ((w.db.beginPullRequestRevision number intent).map (·.1))
  | .completePullRequestRefIntent id => w.commit (w.db.completePullRequestRefIntent id)
  | .abandonPullRequestRefIntent id => w.commit (w.db.abandonPullRequestRefIntent id)
  | .editPullRequest edit => w.commit (w.db.editPullRequest edit)
  | .createPullRequestReview review =>
      w.commit ((w.db.createPullRequestReview review).map (·.1))
  | .setPullRequestState owner repository number actor state changedAt =>
      w.commit (w.db.setPullRequestState owner repository number actor state changedAt)
  | .beginGitIntent intent => w.commit (w.db.beginGitIntent intent)
  | .beginPullRequestMerge merge intent => w.commit (w.db.beginPullRequestMerge merge intent)
  | .markGitObjectsPromoted id packName => w.commit (w.db.markGitObjectsPromoted id packName)
  | .completeGitIntent id =>
      match w.db.completeGitIntent id with
      | .ok db => { w with db, managed := completedIn w.db id ++ w.managed }
      | .error _ => w
  | .abandonGitIntent id => w.commit (w.db.abandonGitIntent id)
  | .elsewhere others => { w with db := replaceOthers w.db others }

end World

def step (w : World) (operation : Operation) : Option World := some (w.perform operation)

/-! ## Numbers -/

/-- Numbers that were given out, each below the next one of its repository. -/
structure Issued (given : List (Identifier × Nat)) (next : Identifier → Nat) : Prop where
  nodup : given.Nodup
  below : ∀ x ∈ given, x.2 < next x.1

/-- **The next number was not given out before.** -/
theorem Issued.take {given : List (Identifier × Nat)} {next next' : Identifier → Nat}
    (issued : Issued given next) {repositoryId : Identifier} {number : Nat}
    (taken : number = next repositoryId)
    (after : ∀ id, next' id = if id = repositoryId then number + 1 else next id) :
    Issued ((repositoryId, number) :: given) next' := by
  refine ⟨List.nodup_cons.mpr ⟨fun again => ?_, issued.nodup⟩, fun x member => ?_⟩
  · have below := issued.below _ again
    simp only [taken] at below
    omega
  · rw [after]
    rcases List.mem_cons.mp member with rfl | before
    · rw [if_pos rfl]
      exact Nat.lt_succ_self _
    · have below := issued.below x before
      split
      · rename_i here
        rw [here, ← taken] at below
        omega
      · exact below

theorem Issued.of_eq {given : List (Identifier × Nat)} {next next' : Identifier → Nat}
    (issued : Issued given next) (same : ∀ id, next' id = next id) : Issued given next' :=
  ⟨issued.nodup, fun x member => by rw [same]; exact issued.below x member⟩

/-! ## The invariant -/

structure Logged (w : World) : Prop where
  recorded : Recorded w.db w.managed
  issues : Issued w.issues w.db.nextIssueNumber
  pullRequests : Issued w.pullRequests w.db.nextPullRequestNumber

namespace Logged

variable {w : World} {result : Except StoreError Database}

theorem initial : Logged .initial :=
  ⟨.initial, ⟨List.nodup_nil, nofun⟩, List.nodup_nil, nofun⟩

/-- A transaction that keeps the record and the counters, or fails. -/
theorem commit (logged : Logged w) (keeps : ∀ db', result = .ok db' →
      Recorded db' w.managed ∧ db'.repositoryCounters = w.db.repositoryCounters) :
    Logged (w.commit result) := by
  cases result with
  | error e => exact logged
  | ok db' =>
      obtain ⟨recorded, counters⟩ := keeps db' rfl
      refine ⟨recorded, logged.issues.of_eq fun id => ?_, logged.pullRequests.of_eq fun id => ?_⟩
      · simp only [World.commit, nextIssueNumber, counters]
      · simp only [World.commit, nextPullRequestNumber, counters]

theorem commit_plain (logged : Logged w)
    (plain : ∀ db', result = .ok db' → Plain w.db db') : Logged (w.commit result) :=
  logged.commit fun db' ok => ⟨logged.recorded.of_plain (plain db' ok), (plain db' ok).counters⟩

theorem commit_map {α : Type} (logged : Logged w) {result : Except StoreError (Database × α)}
    (plain : ∀ db' a, result = .ok (db', a) → Plain w.db db') :
    Logged (w.commit (result.map (·.1))) := by
  refine logged.commit_plain fun db' ok => ?_
  cases result with
  | error e => cases ok
  | ok answer =>
      obtain ⟨db₁, a⟩ := answer
      cases ok
      exact plain db₁ a rfl

theorem create_issue (logged : Logged w) (issue : NewIssue) :
    Logged (w.perform (.createIssue issue)) := by
  simp only [World.perform]
  split
  · rename_i db record ok
    obtain ⟨counters, row, plain, stored, next, after, other⟩ := createIssue_plain ok
    refine ⟨(logged.recorded.of_counters counters).of_plain plain, ?_,
      logged.pullRequests.of_eq other⟩
    simp only [issueNumber, stored, Option.map_some, Option.toList_some, List.singleton_append]
    exact logged.issues.take next after
  · exact logged

theorem begin_open (logged : Logged w) (intent : NewPullRequestRefIntent) :
    Logged (w.perform (.beginPullRequestOpen intent)) := by
  simp only [World.perform]
  split
  · rename_i db row ok
    obtain ⟨counters, plain, next, after, other⟩ := beginPullRequestOpen_plain ok
    exact ⟨(logged.recorded.of_counters counters).of_plain plain, logged.issues.of_eq other,
      logged.pullRequests.take next after⟩
  · exact logged

theorem complete_git_intent (logged : Logged w) (id : Identifier) :
    Logged (w.perform (.completeGitIntent id)) := by
  simp only [World.perform]
  split
  · rename_i db ok
    have recorded := logged.recorded.complete_intent ok
    have counters : db.repositoryCounters = w.db.repositoryCounters := by
      obtain ⟨i, -, -, -, -, intents, gitEvents, events, auditEvents, pullRequests, -, -, -, -, rfl⟩ :=
        completeGitIntent_eq_ok ok
      rfl
    refine ⟨recorded, logged.issues.of_eq fun id => ?_, logged.pullRequests.of_eq fun id => ?_⟩
    · simp only [nextIssueNumber, counters]
    · simp only [nextPullRequestNumber, counters]
  · exact logged

/-- **Every operation keeps the record.** -/
theorem perform (logged : Logged w) (operation : Operation) : Logged (w.perform operation) := by
  cases operation with
  | createRepository repository => exact logged.commit_plain fun _ => createRepository_plain
  | createIssue issue => exact logged.create_issue issue
  | editIssue change title body => exact logged.commit_plain fun _ => editIssue_plain
  | commentIssue owner repository number actor body createdAt =>
      exact logged.commit_map fun _ _ => commentIssue_plain
  | setIssueState owner repository number actor state changedAt =>
      exact logged.commit_plain fun _ => setIssueState_plain
  | beginPullRequestOpen intent => exact logged.begin_open intent
  | beginPullRequestRevision number intent =>
      exact logged.commit_map fun _ _ => beginPullRequestRevision_plain
  | completePullRequestRefIntent id =>
      exact logged.commit_plain fun _ => completePullRequestRefIntent_plain
  | abandonPullRequestRefIntent id =>
      exact logged.commit_plain fun _ => abandonPullRequestRefIntent_plain
  | editPullRequest edit => exact logged.commit_plain fun _ => editPullRequest_plain
  | createPullRequestReview review =>
      exact logged.commit_map fun _ _ => createPullRequestReview_plain
  | setPullRequestState owner repository number actor state changedAt =>
      exact logged.commit_plain fun _ => setPullRequestState_plain
  | beginGitIntent intent =>
      refine logged.commit fun db' ok => ⟨logged.recorded.begin_intent ok, ?_⟩
      obtain ⟨intents, -, rfl⟩ := beginGitIntent_eq_ok ok
      rfl
  | beginPullRequestMerge merge intent =>
      refine logged.commit fun db' ok => ⟨logged.recorded.begin_merge ok, ?_⟩
      obtain ⟨_, _, _, intents, merges, -, -, -, -, -, -, -, rfl⟩ := beginPullRequestMerge_eq_ok ok
      rfl
  | markGitObjectsPromoted id packName =>
      refine logged.commit fun db' ok => ⟨logged.recorded.mark_promoted ok, ?_⟩
      obtain ⟨i, -, -, -, intents, rfl, -⟩ := Git.markGitObjectsPromoted_rows ok
      rfl
  | completeGitIntent id => exact logged.complete_git_intent id
  | abandonGitIntent id =>
      refine logged.commit fun db' ok => ⟨logged.recorded.abandon_intent ok, ?_⟩
      obtain ⟨i, -, -, -, intents, -, rfl⟩ := abandonGitIntent_eq_ok ok
      rfl
  | elsewhere others =>
      obtain ⟨⟨contiguous, sources, complete, managed, merges⟩, issues, pullRequests⟩ := logged
      refine ⟨⟨contiguous, sources, complete, managed, fun m hm => ?_⟩, issues, pullRequests⟩
      obtain ⟨intent, pullRequest, revision⟩ := merges m hm
      exact ⟨intent, pullRequest, revision⟩

end Logged

/-! ## The log of every run -/

/-- What the log says of a world. -/
structure Faithful (w : World) : Prop where
  /-- The events of a repository, in the order of their insertion, are numbered `1, 2, …`. -/
  contiguous : ∀ repositoryId, sequencesOf w.db.repositoryEvents repositoryId =
    List.range' 1 (sequencesOf w.db.repositoryEvents repositoryId).length
  /-- A completed intent of a managed repository has the events of its push, and no other. -/
  complete : ∀ i ∈ w.db.gitOperationIntents, i.state = .completed → i.id ∈ w.managed →
    Complete w.db.repositoryEvents w.db.pullRequestMergeIntents i
  kinds : ∀ i ∈ w.db.gitOperationIntents, i.state = .completed → i.id ∈ w.managed →
    ∀ v ∈ refViews 1 (i.initialRefs.zip i.proposedRefs), KindMatches v
  /-- The references are numbered from `1`, in the order of the commands. -/
  commands : ∀ i ∈ w.db.gitOperationIntents,
    (refViews 1 (i.initialRefs.zip i.proposedRefs)).map (fun v => (v.ordinal, v.refName)) =
      (i.initialRefs.zip i.proposedRefs).mapIdx fun k pair => (some (1 + k), some pair.1.1)
  /-- The ordinals of one intent differ, that of its merge event from the others. -/
  ordinals : ∀ i ∈ w.db.gitOperationIntents,
    ((eventsOf w.db.repositoryEvents i.id).map (·.ordinal)).Nodup
  /-- The events of an intent are in the repository that it writes to. -/
  located : ∀ i ∈ w.db.gitOperationIntents, ∀ e ∈ w.db.repositoryEvents,
    e.sourceIntentId = some i.id → managedRepositoryId i.repositoryPath = some e.repositoryId
  incomplete : ∀ i ∈ w.db.gitOperationIntents, i.state ≠ .completed →
    eventsOf w.db.repositoryEvents i.id = []
  issues : w.issues.Nodup
  pullRequests : w.pullRequests.Nodup

theorem Logged.faithful {w : World} (logged : Logged w) : Faithful w := by
  refine ⟨logged.recorded.contiguous, logged.recorded.complete, ?_, ?_, ?_, ?_, ?_,
    logged.issues.nodup, logged.pullRequests.nodup⟩
  · exact fun i hi completed inside => (logged.recorded.complete i hi completed inside).kinds
  · exact fun i _ => refViews_ordinals _ 1
  · exact fun i _ => ordinals_nodup _ i.id
  · intro i hi e he source
    obtain ⟨j, hj, same, -, inRepository⟩ := logged.recorded.sources e he i.id source
    rw [← Git.eq_of_id hj hi same]
    exact inRepository
  · exact fun i hi incomplete => logged.recorded.unlogged hi incomplete

/-- **The event log over every run of store operations.** -/
theorem event_log_faithful (operations : List Operation) :
    Always step Faithful .initial operations := by
  refine (always_of_steps ?_ Logged.initial operations).mono fun w logged => logged.faithful
  intro w operation w' logged next
  cases next
  exact logged.perform operation

end Tit.Events
