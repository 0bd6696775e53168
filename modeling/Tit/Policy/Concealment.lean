/-
# Policy.Concealment -- what an actor learns of a repository it may not read

Two databases differ in the issues and pull requests of one repository, and one actor
who may not read it runs one operation in each.  Every operation leaves both databases as
they are.  All but two refuse before they look at an issue or a pull request, and so give
the same answer in both.  `edit_pull_request` and `set_pull_request_state` look for the
pull request first, and their refusal tells whether it exists.
-/
import Tit.Store.GitIntent
import Tit.Store.Issue

namespace Tit.Policy

open Tit.Theory Tit.Store

set_option autoImplicit false

/-! ## Operations -/

/-- The operations of the store on issues and pull requests. -/
inductive Operation where
  | createIssue (issue : NewIssue)
  | editIssue (change : IssueChange) (title body : String)
  | commentIssue (owner repository : String) (number : Nat) (actor body : String)
      (createdAt : Int)
  | setIssueState (owner repository : String) (number : Nat) (actor : String)
      (state : IssueState) (changedAt : Int)
  | issues (owner repository : String) (actor : Option String)
  | issuePage (owner repository : String) (actor : Option String) (state : String)
      (page pageSize : Nat)
  | issueDetail (owner repository : String) (number : Nat) (actor : Option String)
      (pagination : TimelinePagination)
  | pullRequest (owner repository : String) (number : Nat) (actor : Option String)
      (activity : Option TimelinePagination)
  | pullRequestPage (owner repository : String) (actor : Option String) (state : String)
      (page pageSize : Nat)
  | beginPullRequestOpen (intent : NewPullRequestRefIntent)
  | beginPullRequestRevision (number : Nat) (intent : NewPullRequestRefIntent)
  | createPullRequestReview (review : NewPullRequestReview)
  | editPullRequest (edit : PullRequestEdit)
  | setPullRequestState (owner repository : String) (number : Nat) (actor : String)
      (state : PullRequestState) (changedAt : Int)
  | beginPullRequestMerge (merge : NewPullRequestMerge) (intent : NewGitOperationIntent)

inductive Answer where
  | done
  | issue (issue : IssueRecord)
  | comment (id : Nat)
  | issues (listed : RepositoryRecord × List IssueRecord)
  | issuePage (page : RepositoryRecord × RecordPage IssueRecord)
  | issueDetail (detail : IssueDetail)
  | pullRequest (detail : PullRequestDetail)
  | pullRequestPage (page : RepositoryRecord × RecordPage PullRequestRecord × Bool)
  | intent (intent : PullRequestRefIntent)
  | review (id : Nat)
  deriving DecidableEq

namespace Operation

def owner : Operation → String
  | .createIssue issue => issue.owner
  | .editIssue change _ _ => change.owner
  | .commentIssue owner .. | .setIssueState owner .. | .issues owner .. | .issuePage owner ..
  | .issueDetail owner .. | .pullRequest owner .. | .pullRequestPage owner ..
  | .setPullRequestState owner .. => owner
  | .beginPullRequestOpen intent | .beginPullRequestRevision _ intent => intent.owner
  | .createPullRequestReview review => review.owner
  | .editPullRequest edit => edit.owner
  | .beginPullRequestMerge merge _ => merge.owner

def repository : Operation → String
  | .createIssue issue => issue.repository
  | .editIssue change _ _ => change.repository
  | .commentIssue _ repository .. | .setIssueState _ repository .. | .issues _ repository _
  | .issuePage _ repository .. | .issueDetail _ repository .. | .pullRequest _ repository ..
  | .pullRequestPage _ repository .. | .setPullRequestState _ repository .. => repository
  | .beginPullRequestOpen intent | .beginPullRequestRevision _ intent => intent.repository
  | .createPullRequestReview review => review.repository
  | .editPullRequest edit => edit.repository
  | .beginPullRequestMerge merge _ => merge.repository

/-- The actor, where only a reader may be nobody. -/
def actor : Operation → Option String
  | .createIssue issue => some issue.actor
  | .editIssue change _ _ => some change.actor
  | .commentIssue _ _ _ actor .. | .setIssueState _ _ _ actor ..
  | .setPullRequestState _ _ _ actor .. => some actor
  | .issues _ _ actor | .issuePage _ _ actor .. | .issueDetail _ _ _ actor _
  | .pullRequest _ _ _ actor _ | .pullRequestPage _ _ actor .. => actor
  | .beginPullRequestOpen intent | .beginPullRequestRevision _ intent => some intent.actor
  | .createPullRequestReview review => some review.actor
  | .editPullRequest edit => some edit.actor
  | .beginPullRequestMerge merge _ => some merge.actor

def perform (db : Database) : Operation → Except StoreError (Database × Answer)
  | .createIssue issue => (db.createIssue issue).map fun r => (r.1, .issue r.2)
  | .editIssue change title body => (db.editIssue change title body).map (·, .done)
  | .commentIssue owner repository number actor body createdAt =>
      (db.commentIssue owner repository number actor body createdAt).map fun r =>
        (r.1, .comment r.2)
  | .setIssueState owner repository number actor state changedAt =>
      (db.setIssueState owner repository number actor state changedAt).map (·, .done)
  | .issues owner repository actor =>
      (db.issuesOf owner repository actor).map fun r => (db, .issues r)
  | .issuePage owner repository actor state page pageSize =>
      (db.issuePage owner repository actor state page pageSize).map fun r => (db, .issuePage r)
  | .issueDetail owner repository number actor pagination =>
      (db.issueDetail owner repository number actor pagination).map fun r =>
        (db, .issueDetail r)
  | .pullRequest owner repository number actor activity =>
      (db.pullRequestWithActivity owner repository number actor activity).map fun r =>
        (db, .pullRequest r)
  | .pullRequestPage owner repository actor state page pageSize =>
      (db.pullRequestPage owner repository actor state page pageSize).map fun r =>
        (db, .pullRequestPage r)
  | .beginPullRequestOpen intent =>
      (db.beginPullRequestOpen intent).map fun r => (r.1, .intent r.2)
  | .beginPullRequestRevision number intent =>
      (db.beginPullRequestRevision number intent).map fun r => (r.1, .intent r.2)
  | .createPullRequestReview review =>
      (db.createPullRequestReview review).map fun r => (r.1, .review r.2)
  | .editPullRequest edit => (db.editPullRequest edit).map (·, .done)
  | .setPullRequestState owner repository number actor state changedAt =>
      (db.setPullRequestState owner repository number actor state changedAt).map (·, .done)
  | .beginPullRequestMerge merge intent => (db.beginPullRequestMerge merge intent).map (·, .done)

/-- What the caller sees. -/
def result (db : Database) (op : Operation) : Except StoreError Answer :=
  (op.perform db).map (·.2)

/-- The database after the operation; a failed one is rolled back. -/
def after (db : Database) (op : Operation) : Database :=
  committed db ((op.perform db).map (·.1))

/-- The number of the pull request that the operation looks for before anything else. -/
def looksFirstFor : Operation → Option Nat
  | .editPullRequest edit => some edit.number
  | .setPullRequestState _ _ number .. => some number
  | _ => none

end Operation

/-! ## Two databases and one repository -/

/-- The databases are the same but for the issues and pull requests of the repository,
with their comments, revisions, reviews and events. -/
structure DifferOnlyIn (repositoryId : Identifier) (db db' : Database) : Prop where
  rest : db' =
    { db with
      issues := db'.issues, issueComments := db'.issueComments
      pullRequests := db'.pullRequests, pullRequestRevisions := db'.pullRequestRevisions
      pullRequestReviews := db'.pullRequestReviews, repositoryEvents := db'.repositoryEvents }
  issues : ∀ i : Issue, i.repositoryId ≠ repositoryId → (i ∈ db.issues ↔ i ∈ db'.issues)
  comments : ∀ c : IssueComment,
    (∀ i : Issue, i ∈ db.issues ∨ i ∈ db'.issues → i.id = c.issueId →
      i.repositoryId ≠ repositoryId) → (c ∈ db.issueComments ↔ c ∈ db'.issueComments)
  pullRequests : ∀ p : PullRequest, p.repositoryId ≠ repositoryId →
    (p ∈ db.pullRequests ↔ p ∈ db'.pullRequests)
  revisions : ∀ r : PullRequestRevision,
    (∀ p : PullRequest, p ∈ db.pullRequests ∨ p ∈ db'.pullRequests → p.id = r.pullRequestId →
      p.repositoryId ≠ repositoryId) →
        (r ∈ db.pullRequestRevisions ↔ r ∈ db'.pullRequestRevisions)
  reviews : ∀ r : PullRequestReview,
    (∀ p : PullRequest, p ∈ db.pullRequests ∨ p ∈ db'.pullRequests → p.id = r.pullRequestId →
      p.repositoryId ≠ repositoryId) →
        (r ∈ db.pullRequestReviews ↔ r ∈ db'.pullRequestReviews)
  events : ∀ e : RepositoryEvent, e.repositoryId ≠ repositoryId →
    (e ∈ db.repositoryEvents ↔ e ∈ db'.repositoryEvents)

/-- The operation is on this repository, which its actor may not read. -/
def Hidden (db : Database) (repositoryId : Identifier) (op : Operation) : Prop :=
  ∃ access, db.repositoryIssueAccess op.owner op.repository op.actor = .ok access ∧
    access.repository.id = repositoryId ∧ access.canRead = false

/-- One answer in both databases, and neither is changed. -/
def NonInterfering (db db' : Database) (op : Operation) : Prop :=
  op.result db = op.result db' ∧ op.after db = db ∧ op.after db' = db'

/-- A pull request of the repository has this number. -/
def Numbered (db : Database) (repositoryId : Identifier) (number : Nat) : Prop :=
  (db.pullRequestNumbered repositoryId number).isSome = true

instance (db : Database) (repositoryId : Identifier) (number : Nat) :
    Decidable (Numbered db repositoryId number) :=
  inferInstanceAs (Decidable (_ = true))

/-! ## Refusals -/

/-- What an actor who may not read the repository is told. -/
def Operation.refusal (db : Database) (repositoryId : Identifier) (op : Operation) : StoreError :=
  match op with
  | .createIssue .. | .editIssue .. | .commentIssue .. | .setIssueState .. | .issues ..
  | .issuePage .. | .issueDetail .. => .issueHidden
  | .editPullRequest edit =>
      if Numbered db repositoryId edit.number then .pullRequestDenied
      else .pullRequestNotFound edit.owner edit.repository edit.number
  | .setPullRequestState owner repository number .. =>
      if Numbered db repositoryId number then .pullRequestDenied
      else .pullRequestNotFound owner repository number
  | _ => .pullRequestHidden

section Refusals

variable {db db' : Database} {repositoryId : Identifier} {op : Operation}

theorem ensure_readable {access : RepositoryIssueAccess} (unreadable : access.canRead = false)
    (error : StoreError) :
    (ensure (access.canRead = true) error : Except StoreError PUnit.{1}) = .error error :=
  ensure_of_not (by rw [unreadable]; exact Bool.false_ne_true) error

theorem cannot_write {access : RepositoryIssueAccess} (unreadable : access.canRead = false)
    (author : Nat) : ¬access.canWriteIssue author = true := by
  simp [RepositoryIssueAccess.canWriteIssue, unreadable]

/-- A chain whose first step fails. -/
theorem fails_first {ε α β : Type} {first : Except ε α} {error : ε} (next : α → Except ε β)
    (fails : first = .error error) : (first >>= next) = .error error := by
  rw [fails, error_bind]

section Refused

variable {access : RepositoryIssueAccess} {owner repository actor : String} {number : Nat}
  {reader : Option String}

theorem issueMutationContext_hidden
    (accessed : db.repositoryIssueAccess owner repository (some actor) = .ok access)
    (unreadable : access.canRead = false) :
    db.issueMutationContext owner repository number actor = .error .issueHidden := by
  unfold Database.issueMutationContext
  rw [accessed, ok_bind, ensure_readable unreadable, error_bind]

theorem readableRepository_hidden {hidden : StoreError}
    (accessed : db.repositoryIssueAccess owner repository reader = .ok access)
    (unreadable : access.canRead = false) :
    db.readableRepository owner repository reader hidden = .error hidden := by
  unfold Database.readableRepository
  rw [accessed, ok_bind, ensure_readable unreadable, error_bind]

theorem pullRequestWriter_hidden {intent : NewPullRequestRefIntent}
    (accessed : db.repositoryIssueAccess intent.owner intent.repository (some intent.actor) =
      .ok access)
    (unreadable : access.canRead = false) :
    db.pullRequestWriter intent = .error .pullRequestHidden := by
  unfold Database.pullRequestWriter
  rw [accessed, ok_bind, ensure_readable unreadable, error_bind]

theorem createIssue_hidden {issue : NewIssue}
    (accessed : db.repositoryIssueAccess issue.owner issue.repository (some issue.actor) =
      .ok access)
    (unreadable : access.canRead = false) : db.createIssue issue = .error .issueHidden := by
  unfold Database.createIssue
  rw [accessed, ok_bind, ensure_readable unreadable, error_bind]

theorem createPullRequestReview_hidden {review : NewPullRequestReview}
    (accessed : db.repositoryIssueAccess review.owner review.repository (some review.actor) =
      .ok access)
    (unreadable : access.canRead = false) :
    db.createPullRequestReview review = .error .pullRequestHidden := by
  unfold Database.createPullRequestReview
  rw [accessed, ok_bind, ensure_readable unreadable, error_bind]

theorem beginPullRequestMerge_hidden {merge : NewPullRequestMerge} {intent : NewGitOperationIntent}
    (accessed : db.repositoryIssueAccess merge.owner merge.repository (some merge.actor) =
      .ok access)
    (unreadable : access.canRead = false) :
    db.beginPullRequestMerge merge intent = .error .pullRequestHidden := by
  unfold Database.beginPullRequestMerge
  rw [accessed, ok_bind, ensure_readable unreadable, error_bind]

/-- The look-up comes before the permission. -/
theorem editPullRequest_hidden {edit : PullRequestEdit}
    (accessed : db.repositoryIssueAccess edit.owner edit.repository (some edit.actor) =
      .ok access)
    (unreadable : access.canRead = false) :
    db.editPullRequest edit =
      .error ((Operation.editPullRequest edit).refusal db access.repository.id) := by
  unfold Database.editPullRequest
  rw [accessed, ok_bind]
  cases found : db.pullRequestNumbered access.repository.id edit.number with
  | none => simp [Operation.refusal, Numbered, found]
  | some p =>
      rw [required_some, ok_bind, ensure_of_not (cannot_write unreadable _), error_bind]
      simp [Operation.refusal, Numbered, found]

theorem setPullRequestState_hidden {state : PullRequestState} {changedAt : Int}
    (accessed : db.repositoryIssueAccess owner repository (some actor) = .ok access)
    (unreadable : access.canRead = false) :
    db.setPullRequestState owner repository number actor state changedAt =
      .error ((Operation.setPullRequestState owner repository number actor state
        changedAt).refusal db access.repository.id) := by
  unfold Database.setPullRequestState
  rw [accessed, ok_bind]
  cases found : db.pullRequestNumbered access.repository.id number with
  | none => simp [Operation.refusal, Numbered, found]
  | some p =>
      rw [required_some, ok_bind, ensure_of_not (cannot_write unreadable _), error_bind]
      simp [Operation.refusal, Numbered, found]

end Refused

/-- **A hidden repository refuses every operation.** -/
theorem perform_hidden (hidden : Hidden db repositoryId op) :
    op.perform db = .error (op.refusal db repositoryId) := by
  obtain ⟨access, accessed, rfl, unreadable⟩ := hidden
  cases op with
  | createIssue issue => exact congrArg (Except.map _) (createIssue_hidden accessed unreadable)
  | editIssue change title body =>
      exact congrArg (Except.map _) (fails_first _ (issueMutationContext_hidden accessed unreadable))
  | commentIssue owner repository number actor body createdAt =>
      exact congrArg (Except.map _) (fails_first _ (issueMutationContext_hidden accessed unreadable))
  | setIssueState owner repository number actor state changedAt =>
      exact congrArg (Except.map _) (fails_first _ (issueMutationContext_hidden accessed unreadable))
  | issues owner repository actor =>
      exact congrArg (Except.map _) (fails_first _ (readableRepository_hidden accessed unreadable))
  | issuePage owner repository actor state page pageSize =>
      exact congrArg (Except.map _) (fails_first _ (readableRepository_hidden accessed unreadable))
  | issueDetail owner repository number actor pagination =>
      exact congrArg (Except.map _) (fails_first _ (readableRepository_hidden accessed unreadable))
  | pullRequest owner repository number actor activity =>
      exact congrArg (Except.map _) (fails_first _ (readableRepository_hidden accessed unreadable))
  | pullRequestPage owner repository actor state page pageSize =>
      exact congrArg (Except.map _) (fails_first _ (readableRepository_hidden accessed unreadable))
  | beginPullRequestOpen intent =>
      exact congrArg (Except.map _) (fails_first _ (pullRequestWriter_hidden accessed unreadable))
  | beginPullRequestRevision number intent =>
      exact congrArg (Except.map _) (fails_first _ (pullRequestWriter_hidden accessed unreadable))
  | createPullRequestReview review =>
      exact congrArg (Except.map _) (createPullRequestReview_hidden accessed unreadable)
  | beginPullRequestMerge merge intent =>
      exact congrArg (Except.map _) (beginPullRequestMerge_hidden accessed unreadable)
  | editPullRequest edit =>
      exact congrArg (Except.map _) (editPullRequest_hidden accessed unreadable)
  | setPullRequestState owner repository number actor state changedAt =>
      exact congrArg (Except.map _) (setPullRequestState_hidden accessed unreadable)

theorem result_hidden (hidden : Hidden db repositoryId op) :
    op.result db = .error (op.refusal db repositoryId) := by
  unfold Operation.result
  rw [perform_hidden hidden]
  rfl

theorem after_hidden (hidden : Hidden db repositoryId op) : op.after db = db := by
  unfold Operation.after
  rw [perform_hidden hidden]
  rfl

/-- The refusals agree unless the operation looks for a pull request that only one of the
databases has. -/
theorem refusal_eq_iff :
    op.refusal db repositoryId = op.refusal db' repositoryId ↔
      ∀ number, op.looksFirstFor = some number →
        (Numbered db repositoryId number ↔ Numbered db' repositoryId number) := by
  cases op <;> simp only [Operation.refusal, Operation.looksFirstFor, Option.some.injEq,
    reduceCtorEq, false_implies, implies_true, forall_eq']
  case editPullRequest edit =>
    split <;> split <;> simp_all
  case setPullRequestState owner repository number actor state changedAt =>
    split <;> split <;> simp_all

/-- The access is computed from none of the tables that may differ. -/
theorem DifferOnlyIn.access {owner slug : String} {actor : Option String}
    (differ : DifferOnlyIn repositoryId db db') :
    db'.repositoryIssueAccess owner slug actor = db.repositoryIssueAccess owner slug actor := by
  rw [differ.rest]
  rfl

theorem DifferOnlyIn.hidden (differ : DifferOnlyIn repositoryId db db')
    (hidden : Hidden db repositoryId op) : Hidden db' repositoryId op := by
  obtain ⟨access, accessed, id, unreadable⟩ := hidden
  exact ⟨access, differ.access.trans accessed, id, unreadable⟩

/-- **An operation of an actor who may not read the repository interferes exactly when it
edits a pull request, or changes the state of one, that only one of the databases has.** -/
theorem nonInterfering_iff (differ : DifferOnlyIn repositoryId db db')
    (hidden : Hidden db repositoryId op) :
    NonInterfering db db' op ↔
      ∀ number, op.looksFirstFor = some number →
        (Numbered db repositoryId number ↔ Numbered db' repositoryId number) := by
  unfold NonInterfering
  rw [result_hidden hidden, result_hidden (differ.hidden hidden), after_hidden hidden,
    after_hidden (differ.hidden hidden), ← refusal_eq_iff, Except.error.injEq]
  exact ⟨fun same => same.1, fun same => ⟨same, rfl, rfl⟩⟩

end Refusals

/-! Pole: a private repository of `alice`, with one pull request or with none. -/

def privateRepository : Database :=
  { Database.oneRepository with
    repositories := ⟨[
      { id := 1, ownerNamespaceId := 1, slug := "tit", visibility := .priv, state := .active,
        objectFormat := .sha1, createdAt := 0, archivedAt := none }], by decide, by decide⟩ }

def openRequest : PullRequest where
  id := 1
  repositoryId := 1
  number := 1
  title := "t"
  body := ""
  state := .open
  authorAccountId := 1
  baseRef := asciiBytes "refs/heads/main"
  headRef := asciiBytes "refs/heads/topic"
  baseObjectId := ⟨1⟩
  headObjectId := ⟨2⟩
  createdAt := 0
  updatedAt := 0

def privatePullRequest : Database :=
  { privateRepository with pullRequests := ⟨[openRequest], by decide, by decide⟩ }

def closesOne : Operation := .setPullRequestState "alice" "tit" 1 "mallory" .closed 1

def revisesOne : Operation :=
  .createPullRequestReview
    { owner := "alice", repository := "tit", number := 1, revision := 1, actor := "mallory"
      kind := .approved, body := "", commitObjectId := none, path := none, side := none
      line := none, createdAt := 1 }

theorem differ_in_pull_request : DifferOnlyIn 1 privateRepository privatePullRequest where
  rest := rfl
  issues _ _ := Iff.rfl
  comments _ _ := Iff.rfl
  pullRequests p other := by
    constructor
    · exact nofun
    · intro member
      obtain rfl := List.mem_singleton.mp member
      exact absurd rfl other
  revisions _ _ := Iff.rfl
  reviews _ _ := Iff.rfl
  events _ _ := Iff.rfl

/-- A review is refused in the same words whether or not the pull request exists. -/
theorem revisesOne_nonInterfering :
    DifferOnlyIn 1 privateRepository privatePullRequest ∧ Hidden privateRepository 1 revisesOne ∧
      NonInterfering privateRepository privatePullRequest revisesOne := by
  have hidden : Hidden privateRepository 1 revisesOne := ⟨_, rfl, rfl, by decide⟩
  exact ⟨differ_in_pull_request, hidden,
    (nonInterfering_iff differ_in_pull_request hidden).mpr nofun⟩

/-- An outsider who closes number 1 is told whether the private repository has it. -/
theorem closesOne_interferes :
    DifferOnlyIn 1 privateRepository privatePullRequest ∧ Hidden privateRepository 1 closesOne ∧
      closesOne.result privateRepository = .error (.pullRequestNotFound "alice" "tit" 1) ∧
      closesOne.result privatePullRequest = .error .pullRequestDenied ∧
      ¬NonInterfering privateRepository privatePullRequest closesOne := by
  have without : closesOne.result privateRepository =
      .error (.pullRequestNotFound "alice" "tit" 1) := by decide
  have with' : closesOne.result privatePullRequest = .error .pullRequestDenied := by
    decide
  refine ⟨differ_in_pull_request, ⟨_, rfl, rfl, by decide⟩, without, with', ?_⟩
  intro same
  have told := same.1
  rw [without, with'] at told
  cases told

end Tit.Policy
