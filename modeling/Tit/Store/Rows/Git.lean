/-
# Store.Rows.Git -- Git operation intents and domain events

The rows of `git_operation_intent`, `git_operation_event` and `repository_event`,
with their constraints.  The reference snapshots of an intent are kept decoded, as
lists of names and object identifiers, and its paths by their last components.
-/
import Tit.Store.Rows.Directory

namespace Tit.Store

open Tit.Theory

set_option autoImplicit false

/-- The bytes of a full reference name. -/
abbrev RefName := List UInt8

/-- The number that the hexadecimal digits of an object identifier spell. -/
structure ObjectId where
  value : Nat
  deriving DecidableEq, Repr

/-- All digits are `0`: the reference does not exist. -/
def ObjectId.null : ObjectId := ⟨0⟩

def ObjectId.isNull (id : ObjectId) : Bool := decide (id = .null)

@[simp] theorem ObjectId.isNull_iff {id : ObjectId} : id.isNull = true ↔ id = .null := by
  simp [ObjectId.isNull]

/-- The names of a push and the value each has before, or is to have after it. -/
abbrev RefSnapshot := List (RefName × ObjectId)

/-- The checksum in the file name of a pack. -/
abbrev PackName := Nat

/-- A repository directory: `<id>.git` for a repository the store manages, or
some other name. -/
inductive RepositoryPath where
  | managed (id : Identifier)
  | unmanaged (name : String)
  deriving DecidableEq, Repr

/-- The identifier in the last component of the path. -/
def managedRepositoryId : RepositoryPath → Option Identifier
  | .managed id => some id
  | .unmanaged _ => none

/-- The directory `<repository>/objects/tit-quarantine/<name>`. -/
structure QuarantinePath where
  repository : RepositoryPath
  name : Identifier
  deriving DecidableEq, Repr

inductive IntentState where
  | pending
  | promoted
  | completed
  | abandoned
  deriving DecidableEq, Repr

structure GitOperationIntent where
  id : Identifier
  repositoryPath : RepositoryPath
  actor : String
  initialRefs : RefSnapshot
  proposedRefs : RefSnapshot
  eventPayload : RefSnapshot
  quarantinePath : QuarantinePath
  state : IntentState
  packName : Option PackName
  createdAt : Int
  deriving DecidableEq, Repr

instance : Schema GitOperationIntent Identifier where
  key r := r.id
  check r := lengthBetween 1 256 r.actor && decide (0 ≤ r.createdAt)
  clash r s := decide (r.id = s.id)
  clash_symm r s := by grind
  clash_of_key r s same := by simp [same]

/-- `state IN ('pending', 'promoted')`. -/
def GitOperationIntent.incomplete (intent : GitOperationIntent) : Bool :=
  decide (intent.state = .pending ∨ intent.state = .promoted)

structure GitOperationEvent where
  id : Nat
  intentId : Identifier
  payload : RefSnapshot
  deriving DecidableEq, Repr

instance : Schema GitOperationEvent Nat where
  key r := r.id
  check _ := true
  clash r s := decide (r.id = s.id ∨ r.intentId = s.intentId)
  clash_symm r s := by grind
  clash_of_key r s same := by simp [same]

/-! ## Domain events -/

inductive EventKind where
  | repositoryCreated
  | repositoryImported
  | push
  | refCreated
  | refUpdated
  | refDeleted
  | tagCreated
  | tagUpdated
  | tagDeleted
  | issueCreated
  | issueEdited
  | issueCommented
  | issueClosed
  | issueReopened
  | pullRequestCreated
  | pullRequestRevised
  | pullRequestEdited
  | pullRequestClosed
  | pullRequestReopened
  | pullRequestCommented
  | pullRequestLineCommented
  | pullRequestApproved
  | pullRequestChangesRequested
  | pullRequestMerged
  deriving DecidableEq, Repr

/-- The shapes that the `CHECK` on `repository_event` tells apart. -/
inductive EventShape where
  | repository
  | reference
  | issue
  | pullRequest
  deriving DecidableEq, Repr

def EventKind.shape : EventKind → EventShape
  | .repositoryCreated | .repositoryImported | .push => .repository
  | .refCreated | .refUpdated | .refDeleted => .reference
  | .tagCreated | .tagUpdated | .tagDeleted => .reference
  | .issueCreated | .issueEdited | .issueCommented | .issueClosed | .issueReopened => .issue
  | .pullRequestCreated | .pullRequestRevised | .pullRequestEdited | .pullRequestClosed
  | .pullRequestReopened | .pullRequestCommented | .pullRequestLineCommented
  | .pullRequestApproved | .pullRequestChangesRequested | .pullRequestMerged => .pullRequest

structure RepositoryEvent where
  id : Nat
  repositoryId : Identifier
  sequence : Nat
  sourceIntentId : Option Identifier
  sourceOrdinal : Option Nat
  issueId : Option Identifier
  pullRequestId : Option Identifier
  kind : EventKind
  actor : String
  refName : Option RefName
  oldTarget : Option ObjectId
  newTarget : Option ObjectId
  createdAt : Int
  deriving DecidableEq, Repr

/-- The columns that may be set for this kind of event. -/
def RepositoryEvent.shaped (r : RepositoryEvent) : Bool :=
  match r.kind.shape with
  | .repository =>
      decide (r.issueId = none ∧ r.pullRequestId = none ∧ r.refName = none ∧
        r.oldTarget = none ∧ r.newTarget = none)
  | .reference =>
      decide (r.issueId = none ∧ r.pullRequestId = none ∧ r.refName ≠ none ∧
        (r.oldTarget ≠ none ∨ r.newTarget ≠ none))
  | .issue =>
      decide (r.issueId ≠ none ∧ r.pullRequestId = none ∧ r.sourceIntentId = none ∧
        r.sourceOrdinal = none ∧ r.refName = none ∧ r.oldTarget = none ∧ r.newTarget = none)
  | .pullRequest =>
      decide (r.issueId = none ∧ r.pullRequestId ≠ none ∧
        (r.sourceIntentId = none ∨ r.kind = .pullRequestMerged) ∧
        r.refName = none ∧ r.oldTarget = none ∧ r.newTarget = none)

instance : Schema RepositoryEvent Nat where
  key r := r.id
  check r :=
    decide (1 ≤ r.sequence) && lengthBetween 1 256 r.actor && decide (0 ≤ r.createdAt) &&
      (r.sourceIntentId.isSome == r.sourceOrdinal.isSome) && r.shaped
  clash r s :=
    decide (r.id = s.id ∨ (r.repositoryId = s.repositoryId ∧ r.sequence = s.sequence) ∨
      (r.sourceIntentId ≠ none ∧ r.sourceIntentId = s.sourceIntentId ∧
        r.sourceOrdinal ≠ none ∧ r.sourceOrdinal = s.sourceOrdinal))
  clash_symm r s := by grind
  clash_of_key r s same := by simp [same]

end Tit.Store
