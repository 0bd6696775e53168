/-
# Store.Rows.Issue -- issues, their comments and watches

The rows of `issue`, `issue_comment` and `watch`, with their constraints.
-/
import Tit.Store.Rows.PullRequest

namespace Tit.Store

open Tit.Theory

set_option autoImplicit false

inductive IssueState where
  | «open»
  | closed
  deriving DecidableEq, Repr

structure Issue where
  id : Identifier
  repositoryId : Identifier
  number : Nat
  title : String
  body : String
  state : IssueState
  authorAccountId : Nat
  createdAt : Int
  updatedAt : Int
  closedAt : Option Int
  deriving DecidableEq, Repr

instance : Schema Issue Identifier where
  key r := r.id
  check r :=
    decide (1 ≤ r.number) && bytesBetween 1 200 r.title.utf8ByteSize &&
      bytesBetween 0 262144 r.body.utf8ByteSize && decide (0 ≤ r.createdAt) &&
      decide (r.createdAt ≤ r.updatedAt) && absentOrSince r.createdAt r.closedAt &&
      decide (r.state = .open ↔ r.closedAt = none)
  clash r s :=
    decide (r.id = s.id ∨ (r.repositoryId = s.repositoryId ∧ r.number = s.number))
  clash_symm r s := by grind
  clash_of_key r s same := by simp [same]

/-- The random text key of a comment is a number that no other comment has. -/
structure IssueComment where
  id : Nat
  issueId : Identifier
  authorAccountId : Nat
  body : String
  createdAt : Int
  deriving DecidableEq, Repr

instance : Schema IssueComment Nat where
  key r := r.id
  check r := bytesBetween 1 262144 r.body.utf8ByteSize && decide (0 ≤ r.createdAt)
  clash r s := decide (r.id = s.id)
  clash_symm r s := by grind
  clash_of_key r s same := by simp [same]

/-- The watch of an account on a repository; its own random key is left out. -/
structure Watch where
  repositoryId : Identifier
  accountId : Nat
  createdAt : Int
  updatedAt : Int
  deriving DecidableEq, Repr

instance : Schema Watch (Identifier × Nat) where
  key r := (r.repositoryId, r.accountId)
  check r := decide (0 ≤ r.createdAt) && decide (r.createdAt ≤ r.updatedAt)
  clash r s := decide (r.repositoryId = s.repositoryId ∧ r.accountId = s.accountId)
  clash_symm r s := by grind
  clash_of_key r s same := by simpa using same

end Tit.Store
