/-
# Store.Error -- what a store call reports

`StoreError` with the errors that the modelled operations report.  A failed
constraint is an SQLite error unless the operation turns it into one of its own.
-/
import Tit.Store.Rows.Issue

namespace Tit.Store

open Tit.Theory

set_option autoImplicit false

inductive StoreError where
  | sqlite (constraint : Constraint)
  /-- `query_row` without a row. -/
  | noRows
  | integrity
  /-- An `unreachable!` was reached: the call panics. -/
  | unreachable
  | intentState (id : Identifier)
  | alreadyInitialized
  | accountNotFound (username : String)
  | usernameUnavailable (username : String)
  | namespaceNotFound (slug : String)
  | namespaceUnavailable (slug : String)
  | organizationDenied
  | organizationMemberNotFound (username : String)
  | lastOrganizationOwner
  | invalidOrganizationRole
  | invalidInvitation
  | invalidRecovery
  | keyExists
  | keyNotFound
  | lastKey
  | loginIdentity
  | loginNonceLimit
  | invalidLoginChallenge
  | invalidLoginApproval
  | loginApprovalPending
  | invalidSession
  | repositoryNotFound (owner repository : String)
  | repositoryExists (owner repository : String)
  | repositoryIdentifierCollision
  | repositoryArchived (owner repository : String)
  | invalidRepositoryVisibility
  | invalidCollaboratorRole
  | collaboratorNotFound (username : String)
  | ownerCollaborator
  | invalidDefaultBranch
  | defaultBranchIntentState (id : Identifier)
  | eventPayload
  | pullRequestNotFound (owner repository : String) (number : Nat)
  | pullRequestDenied
  | pullRequestHidden
  | pullRequestState
  | pullRequestRevisionNotFound
  | pullRequestIntentState (id : Identifier)
  | pullRequestReviewAnchor
  | issueNotFound (owner repository : String) (number : Nat)
  | issueDenied
  | issueHidden
  | issueState (state : IssueState)
  | watchDenied
  | eventLimit
  deriving DecidableEq, Repr

/-- A statement whose failure is passed on. -/
def sqlite {α : Type} (result : Except Constraint α) : Except StoreError α :=
  match result with
  | .ok value => .ok value
  | .error constraint => .error (.sqlite constraint)

/-- A statement whose `UNIQUE` failure has a name (`is_unique_constraint`). -/
def uniqueAs {α : Type} (error : StoreError) (result : Except Constraint α) :
    Except StoreError α :=
  match result with
  | .ok value => .ok value
  | .error .unique => .error error
  | .error .check => .error (.sqlite .check)

@[simp] theorem sqlite_eq_ok {α : Type} {result : Except Constraint α} {value : α} :
    sqlite result = .ok value ↔ result = .ok value := by
  cases result <;> simp [sqlite]

theorem sqlite_error {α : Type} {result : Except Constraint α} {error : StoreError}
    (failed : sqlite result = .error error) : ∃ constraint, error = .sqlite constraint := by
  cases result with
  | ok value => cases failed
  | error constraint =>
      cases failed
      exact ⟨constraint, rfl⟩

@[simp] theorem uniqueAs_eq_ok {α : Type} {error : StoreError} {result : Except Constraint α}
    {value : α} : uniqueAs error result = .ok value ↔ result = .ok value := by
  rcases result with constraint | result
  · cases constraint <;> simp [uniqueAs]
  · simp [uniqueAs]

end Tit.Store
