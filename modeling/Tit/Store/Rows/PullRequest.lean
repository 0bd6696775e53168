/-
# Store.Rows.PullRequest -- pull requests, revisions and their intents

The rows of `repository_counter`, `pull_request`, `pull_request_revision`,
`pull_request_review`, `pull_request_ref_intent` and `pull_request_merge_intent`, with
their constraints.
-/
import Tit.Store.Rows.Git

namespace Tit.Store

open Tit.Theory

set_option autoImplicit false

structure RepositoryCounter where
  repositoryId : Identifier
  nextIssueNumber : Nat
  nextPullRequestNumber : Nat
  deriving DecidableEq, Repr

instance : Schema RepositoryCounter Identifier where
  key r := r.repositoryId
  check r := decide (1 ≤ r.nextIssueNumber) && decide (1 ≤ r.nextPullRequestNumber)
  clash r s := decide (r.repositoryId = s.repositoryId)
  clash_symm r s := by grind
  clash_of_key r s same := by simp [same]

inductive PullRequestState where
  | «open»
  | closed
  | merged
  deriving DecidableEq, Repr

/-- `length(CAST(text AS BLOB)) BETWEEN low AND high`. -/
def bytesBetween (low high : Nat) (bytes : Nat) : Bool := decide (low ≤ bytes ∧ bytes ≤ high)

structure PullRequest where
  id : Identifier
  repositoryId : Identifier
  number : Nat
  title : String
  body : String
  state : PullRequestState
  authorAccountId : Nat
  baseRef : RefName
  headRef : RefName
  baseObjectId : ObjectId
  headObjectId : ObjectId
  createdAt : Int
  updatedAt : Int
  deriving DecidableEq, Repr

instance : Schema PullRequest Identifier where
  key r := r.id
  check r :=
    decide (1 ≤ r.number) && bytesBetween 1 200 r.title.utf8ByteSize &&
      bytesBetween 0 262144 r.body.utf8ByteSize && bytesBetween 12 1024 r.baseRef.length &&
      bytesBetween 12 1024 r.headRef.length && decide (0 ≤ r.createdAt) &&
      decide (r.createdAt ≤ r.updatedAt)
  clash r s :=
    decide (r.id = s.id ∨ (r.repositoryId = s.repositoryId ∧ r.number = s.number))
  clash_symm r s := by grind
  clash_of_key r s same := by simp [same]

theorem PullRequest.check_iff {p : PullRequest} :
    Schema.check p = true ↔
      (((((1 ≤ p.number ∧ bytesBetween 1 200 p.title.utf8ByteSize = true) ∧
          bytesBetween 0 262144 p.body.utf8ByteSize = true) ∧
        bytesBetween 12 1024 p.baseRef.length = true) ∧
      bytesBetween 12 1024 p.headRef.length = true) ∧ 0 ≤ p.createdAt) ∧
        p.createdAt ≤ p.updatedAt := by
  simp only [Schema.check, Bool.and_eq_true, decide_eq_true_eq]

/-- The random text key of a revision is a number that no other revision has. -/
structure PullRequestRevision where
  id : Nat
  pullRequestId : Identifier
  number : Nat
  authorAccountId : Nat
  baseObjectId : ObjectId
  headObjectId : ObjectId
  createdAt : Int
  deriving DecidableEq, Repr

instance : Schema PullRequestRevision Nat where
  key r := r.id
  check r := decide (1 ≤ r.number) && decide (0 ≤ r.createdAt)
  clash r s :=
    decide (r.id = s.id ∨ (r.pullRequestId = s.pullRequestId ∧ r.number = s.number))
  clash_symm r s := by grind
  clash_of_key r s same := by simp [same]

/-! ## Reviews -/

inductive ReviewKind where
  | comment
  | lineComment
  | approved
  | changesRequested
  deriving DecidableEq, Repr

inductive ReviewSide where
  | base
  | head
  deriving DecidableEq, Repr

/-- The bytes of a path inside a repository. -/
abbrev GitPath := List UInt8

/-- The random text key of a review is a number, as that of a revision. -/
structure PullRequestReview where
  id : Nat
  pullRequestId : Identifier
  revisionId : Nat
  authorAccountId : Nat
  kind : ReviewKind
  body : String
  commitObjectId : Option ObjectId
  path : Option GitPath
  side : Option ReviewSide
  line : Option Nat
  createdAt : Int
  deriving DecidableEq, Repr

/-- A line comment has all four columns of its anchor, another review none of them. -/
def PullRequestReview.anchored (r : PullRequestReview) : Bool :=
  if r.kind = .lineComment then
    decide (1 ≤ r.body.utf8ByteSize) && r.commitObjectId.isSome && r.path.isSome &&
      r.side.isSome && r.line.isSome
  else
    r.commitObjectId.isNone && r.path.isNone && r.side.isNone && r.line.isNone

instance : Schema PullRequestReview Nat where
  key r := r.id
  check r :=
    bytesBetween 0 262144 r.body.utf8ByteSize &&
      r.path.all (fun path => bytesBetween 1 4096 path.length && decide ((0 : UInt8) ∉ path)) &&
      r.line.all (fun line => decide (1 ≤ line)) && decide (0 ≤ r.createdAt) && r.anchored &&
      (!decide (r.kind = .comment ∨ r.kind = .changesRequested) ||
        decide (1 ≤ r.body.utf8ByteSize))
  clash r s := decide (r.id = s.id)
  clash_symm r s := by grind
  clash_of_key r s same := by simp [same]

/-! ## Intents -/

inductive RefOperation where
  | «open»
  | revise
  deriving DecidableEq, Repr

inductive RefIntentState where
  | pending
  | completed
  | abandoned
  deriving DecidableEq, Repr

structure PullRequestRefIntent where
  id : Identifier
  repositoryId : Identifier
  pullRequestId : Identifier
  pullRequestNumber : Nat
  revisionNumber : Nat
  operation : RefOperation
  title : String
  body : String
  authorAccountId : Nat
  actor : String
  baseRef : RefName
  headRef : RefName
  baseObjectId : ObjectId
  oldHeadObjectId : Option ObjectId
  headObjectId : ObjectId
  state : RefIntentState
  createdAt : Int
  deriving DecidableEq, Repr

instance : Schema PullRequestRefIntent Identifier where
  key r := r.id
  check r :=
    decide (1 ≤ r.pullRequestNumber) && decide (1 ≤ r.revisionNumber) &&
      bytesBetween 1 200 r.title.utf8ByteSize && bytesBetween 0 262144 r.body.utf8ByteSize &&
      lengthBetween 1 40 r.actor && bytesBetween 12 1024 r.baseRef.length &&
      bytesBetween 12 1024 r.headRef.length && decide (0 ≤ r.createdAt) &&
      match r.operation with
      | .open => decide (r.revisionNumber = 1 ∧ r.oldHeadObjectId = none)
      | .revise => decide (1 < r.revisionNumber ∧ r.oldHeadObjectId ≠ none)
  clash r s := decide (r.id = s.id)
  clash_symm r s := by grind
  clash_of_key r s same := by simp [same]

inductive MergeMethod where
  | fastForward
  | mergeCommit
  deriving DecidableEq, Repr

structure PullRequestMergeIntent where
  intentId : Identifier
  repositoryId : Identifier
  pullRequestId : Identifier
  revisionId : Nat
  revisionNumber : Nat
  method : MergeMethod
  baseRef : RefName
  oldTarget : ObjectId
  newTarget : ObjectId
  createdAt : Int
  deriving DecidableEq, Repr

instance : Schema PullRequestMergeIntent Identifier where
  key r := r.intentId
  check r :=
    decide (1 ≤ r.revisionNumber) && bytesBetween 12 1024 r.baseRef.length &&
      decide (0 ≤ r.createdAt)
  clash r s := decide (r.intentId = s.intentId ∨ r.pullRequestId = s.pullRequestId)
  clash_symm r s := by grind
  clash_of_key r s same := by simp [same]

end Tit.Store
