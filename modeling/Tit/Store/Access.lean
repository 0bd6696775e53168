/-
# Store.Access -- what an actor may do with a repository

`repository_issue_access`, the query in front of issues, pull requests, settings and
the default branch.
-/
import Tit.Store.Directory

namespace Tit.Store

open Tit.Theory

set_option autoImplicit false

structure RepositoryRecord where
  id : Identifier
  owner : String
  slug : String
  visibility : Visibility
  state : ArchiveState
  objectFormat : ObjectFormat
  createdAt : Int
  archivedAt : Option Int
  deriving DecidableEq, Repr

structure RepositoryIssueAccess where
  repository : RepositoryRecord
  activeActorId : Option Nat
  role : Option Role
  deriving DecidableEq, Repr

namespace RepositoryIssueAccess

def canRead (access : RepositoryIssueAccess) : Bool :=
  decide (access.repository.state = .active) &&
    (decide (access.repository.visibility = .pub) || access.role.isSome)

def canMaintain (access : RepositoryIssueAccess) : Bool :=
  access.canRead && decide (access.role = some .owner ∨ access.role = some .maintainer)

def canWriteRepository (access : RepositoryIssueAccess) : Bool :=
  access.canRead &&
    decide (access.role = some .owner ∨ access.role = some .maintainer ∨
      access.role = some .writer)

end RepositoryIssueAccess

namespace Database

/-- The `CASE` over the account, its membership in the owning organization and its
collaboration on the repository. -/
def accessRole (db : Database) (owner : Namespace) (repository : Repository)
    (actor : Account) : Option Role :=
  let member : Option Role := (db.organizationMembers.get (owner.id, actor.id)).map (·.role)
  let collaborator : Option Role :=
    (db.repositoryCollaborators.get (repository.id, actor.id)).map (·.role)
  if actor.state ≠ .active then none
  else if owner.accountId = some actor.id then some .owner
  else if member = some .owner then some .owner
  else if member = some .maintainer ∨ collaborator = some .maintainer then some .maintainer
  else if member = some .writer ∨ collaborator = some .writer then some .writer
  else if member = some .reader ∨ collaborator = some .reader then some .reader
  else none

/-- The repository of this owner and name; both are `UNIQUE`. -/
def repositoryNamed (db : Database) (owner slug : String) : Option (Namespace × Repository) := do
  let namespaceRow ← db.namespaces.find fun n => decide (n.slug = owner)
  let repository ← db.repositories.find fun r =>
    decide (r.ownerNamespaceId = namespaceRow.id ∧ r.slug = slug)
  pure (namespaceRow, repository)

def repositoryIssueAccess (db : Database) (owner repository : String) (actor : Option String) :
    Except StoreError RepositoryIssueAccess := do
  let (namespaceRow, row) ← required (db.repositoryNamed owner repository)
    (.repositoryNotFound owner repository)
  let account := actor.bind fun name => db.accounts.find fun a => decide (a.username = name)
  pure
    { repository :=
        { id := row.id, owner := namespaceRow.slug, slug := row.slug,
          visibility := row.visibility, state := row.state, objectFormat := row.objectFormat,
          createdAt := row.createdAt, archivedAt := row.archivedAt }
      activeActorId := (account.filter fun a => decide (a.state = .active)).map (·.id)
      role := account.bind (db.accessRole namespaceRow row) }

theorem repositoryNamed_eq_some {db : Database} {owner slug : String} {n : Namespace}
    {r : Repository} (found : db.repositoryNamed owner slug = some (n, r)) :
    n ∈ db.namespaces ∧ n.slug = owner ∧ r ∈ db.repositories ∧ r.ownerNamespaceId = n.id ∧
      r.slug = slug := by
  unfold repositoryNamed at found
  simp only [Option.bind_eq_bind, Option.bind_eq_some_iff, Option.pure_def, Option.some.injEq,
    Prod.mk.injEq] at found
  obtain ⟨n, foundNamespace, r, foundRepository, rfl, rfl⟩ := found
  obtain ⟨hn, slug⟩ := Table.mem_of_find foundNamespace
  obtain ⟨hr, named⟩ := Table.mem_of_find foundRepository
  exact ⟨hn, of_decide_eq_true slug, hr, of_decide_eq_true named⟩

/-- The access is that of a repository in the store, with its namespace. -/
theorem repositoryIssueAccess_eq_ok {db : Database} {owner slug : String}
    {actor : Option String} {access : RepositoryIssueAccess}
    (ok : db.repositoryIssueAccess owner slug actor = .ok access) :
    ∃ n ∈ db.namespaces, ∃ r ∈ db.repositories, n.slug = owner ∧ r.slug = slug ∧
      r.ownerNamespaceId = n.id ∧ access.repository.id = r.id ∧
      access.repository.state = r.state ∧
      access.role = (actor.bind fun name => db.accounts.find fun a =>
        decide (a.username = name)).bind (db.accessRole n r) := by
  unfold repositoryIssueAccess at ok
  simp only [bind_eq_ok, required_eq_ok, pure_eq_ok, Except.ok.injEq] at ok
  obtain ⟨⟨n, r⟩, found, rfl⟩ := ok
  obtain ⟨hn, owned, hr, inside, named⟩ := repositoryNamed_eq_some found
  exact ⟨n, hn, r, hr, owned, named, inside, rfl, rfl, rfl⟩

/-- Only an account can maintain a repository. -/
theorem canMaintain_account {db : Database} {owner slug actor : String}
    {access : RepositoryIssueAccess}
    (ok : db.repositoryIssueAccess owner slug (some actor) = .ok access)
    (allowed : access.canMaintain = true) : ∃ a ∈ db.accounts, a.username = actor := by
  obtain ⟨n, -, r, -, -, -, -, -, -, role⟩ := repositoryIssueAccess_eq_ok ok
  simp only [RepositoryIssueAccess.canMaintain, Bool.and_eq_true, decide_eq_true_eq] at allowed
  rw [Option.bind_some] at role
  cases found : db.accounts.find (fun a => decide (a.username = actor)) with
  | none =>
      rw [found, Option.bind_none] at role
      rw [role] at allowed
      simp at allowed
  | some a =>
      obtain ⟨ha, named⟩ := Table.mem_of_find found
      exact ⟨a, ha, of_decide_eq_true named⟩

end Database

/-- A name that an account has fits an `actor` column. -/
theorem username_fits {db : Database} {a : Account} (member : a ∈ db.accounts) :
    1 ≤ a.username.length ∧ a.username.length ≤ 40 := by
  have checked := db.accounts.checked a member
  simp only [Schema.check, nameCheck, Bool.and_eq_true, lengthBetween_iff] at checked
  exact checked.1.1.1.1

namespace Database

/-! Pole: one account, `alice`, with one repository, `tit`. -/

def oneRepository : Database :=
  { initial with
    accounts := ⟨[
      { id := 1, username := "alice", isAdministrator := true, state := .active,
        createdAt := 0 }], by decide, by decide⟩
    namespaces := ⟨[
      { id := 1, slug := "alice", kind := .account, accountId := some 1, createdAt := 0 }],
      by decide, by decide⟩
    repositories := ⟨[
      { id := 1, ownerNamespaceId := 1, slug := "tit", visibility := .pub, state := .active,
        objectFormat := .sha1, createdAt := 0, archivedAt := none }], by decide, by decide⟩
    repositoryDefaultBranches := ⟨[{ repositoryId := 1, refName := "refs/heads/main" }],
      by decide, by decide⟩ }

def aliceAccess : RepositoryIssueAccess where
  repository :=
    { id := 1, owner := "alice", slug := "tit", visibility := .pub, state := .active,
      objectFormat := .sha1, createdAt := 0, archivedAt := none }
  activeActorId := some 1
  role := some .owner

example : oneRepository.repositoryIssueAccess "alice" "tit" (some "alice") = .ok aliceAccess := by
  decide

end Database

end Tit.Store
