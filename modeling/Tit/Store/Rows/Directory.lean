/-
# Store.Rows.Directory -- namespaces, organizations and repositories

The rows of `namespace`, `organization`, `organization_member`, `repository`,
`repository_collaborator`, `repository_default_branch` and
`repository_default_branch_intent`, with their constraints.
-/
import Tit.Store.Rows.Identity

namespace Tit.Store

open Tit.Theory

set_option autoImplicit false

def reservedSlugs : List String := ["admin", "api", "assets", "feeds", "issues", "setup"]

/-! ## Namespaces and organizations -/

inductive NamespaceKind where
  | account
  | organization
  deriving DecidableEq, Repr

structure Namespace where
  id : Nat
  slug : String
  kind : NamespaceKind
  accountId : Option Nat
  createdAt : Int
  deriving DecidableEq, Repr

instance : Schema Namespace Nat where
  key r := r.id
  check r :=
    nameCheck r.slug && decide (r.slug ∉ reservedSlugs) && decide (0 ≤ r.createdAt) &&
      decide (r.kind = .account ↔ r.accountId ≠ none)
  clash r s :=
    decide (r.id = s.id ∨ r.slug = s.slug ∨ (r.accountId ≠ none ∧ r.accountId = s.accountId))
  clash_symm r s := by grind
  clash_of_key r s same := by simp [same]

/-- The state of an organization or of a repository. -/
inductive ArchiveState where
  | active
  | archived
  deriving DecidableEq, Repr

structure Organization where
  namespaceId : Nat
  displayName : String
  description : String
  state : ArchiveState
  createdAt : Int
  deriving DecidableEq, Repr

instance : Schema Organization Nat where
  key r := r.namespaceId
  check r :=
    decide (1 ≤ r.displayName.utf8ByteSize ∧ r.displayName.utf8ByteSize ≤ 100) &&
      decide (r.description.utf8ByteSize ≤ 512) && decide (0 ≤ r.createdAt)
  clash r s := decide (r.namespaceId = s.namespaceId)
  clash_symm r s := by grind
  clash_of_key r s same := by simp [same]

/-- `owner`, `maintainer`, `writer` and `reader`, as organizations and repositories
grant them. -/
inductive Role where
  | owner
  | maintainer
  | writer
  | reader
  deriving DecidableEq, Repr

def Role.parse : String → Option Role
  | "owner" => some .owner
  | "maintainer" => some .maintainer
  | "writer" => some .writer
  | "reader" => some .reader
  | _ => none

structure OrganizationMember where
  organizationId : Nat
  accountId : Nat
  role : Role
  createdAt : Int
  deriving DecidableEq, Repr

instance : Schema OrganizationMember (Nat × Nat) where
  key r := (r.organizationId, r.accountId)
  check r := decide (0 ≤ r.createdAt)
  clash r s := decide (r.organizationId = s.organizationId ∧ r.accountId = s.accountId)
  clash_symm r s := by grind
  clash_of_key r s same := by simpa using same

/-! ## Repositories -/

inductive Visibility where
  | pub
  | priv
  deriving DecidableEq, Repr

inductive ObjectFormat where
  | sha1
  | sha256
  deriving DecidableEq, Repr

/-- The pattern of `repository.slug`. -/
def slugCheck (slug : String) : Bool :=
  lengthBetween 1 100 slug &&
    slug.toList.all (fun c => c.isLower || c.isDigit || c == '.' || c == '_' || c == '-') &&
    slug.toList.head?.all (fun c => c.isLower || c.isDigit) &&
    slug.toList.getLast?.all (fun c => c.isLower || c.isDigit) &&
    decide (slug.toList.drop (slug.length - 4) ≠ ['.', 'g', 'i', 't']) &&
    decide (slug ∉ reservedSlugs)

structure Repository where
  id : Identifier
  ownerNamespaceId : Nat
  slug : String
  visibility : Visibility
  state : ArchiveState
  objectFormat : ObjectFormat
  createdAt : Int
  archivedAt : Option Int
  deriving DecidableEq, Repr

instance : Schema Repository Identifier where
  key r := r.id
  check r :=
    slugCheck r.slug && decide (0 ≤ r.createdAt) && absentOrSince r.createdAt r.archivedAt &&
      decide (r.state = .active ↔ r.archivedAt = none)
  clash r s :=
    decide (r.id = s.id ∨ (r.ownerNamespaceId = s.ownerNamespaceId ∧ r.slug = s.slug))
  clash_symm r s := by grind
  clash_of_key r s same := by simp [same]

structure RepositoryCollaborator where
  repositoryId : Identifier
  accountId : Nat
  role : Role
  createdAt : Int
  deriving DecidableEq, Repr

instance : Schema RepositoryCollaborator (Identifier × Nat) where
  key r := (r.repositoryId, r.accountId)
  check r := decide (r.role ≠ .owner) && decide (0 ≤ r.createdAt)
  clash r s := decide (r.repositoryId = s.repositoryId ∧ r.accountId = s.accountId)
  clash_symm r s := by grind
  clash_of_key r s same := by simpa using same

/-! ## Default branches -/

/-- `length(ref_name) BETWEEN 12 AND 1024 AND substr(ref_name, 1, 11) = 'refs/heads/'`. -/
def branchCheck (refName : String) : Bool :=
  lengthBetween 12 1024 refName && decide (refName.toList.take 11 = "refs/heads/".toList)

structure RepositoryDefaultBranch where
  repositoryId : Identifier
  refName : String
  deriving DecidableEq, Repr

instance : Schema RepositoryDefaultBranch Identifier where
  key r := r.repositoryId
  check r := branchCheck r.refName
  clash r s := decide (r.repositoryId = s.repositoryId)
  clash_symm r s := by grind
  clash_of_key r s same := by simp [same]

structure RepositoryDefaultBranchIntent where
  id : Identifier
  repositoryId : Identifier
  actor : String
  previousRefName : String
  proposedRefName : String
  createdAt : Int
  deriving DecidableEq, Repr

instance : Schema RepositoryDefaultBranchIntent Identifier where
  key r := r.id
  check r :=
    branchCheck r.previousRefName && branchCheck r.proposedRefName && decide (0 ≤ r.createdAt)
  clash r s := decide (r.id = s.id ∨ r.repositoryId = s.repositoryId)
  clash_symm r s := by grind
  clash_of_key r s same := by simp [same]

end Tit.Store
