/-
# Directory.Collaborators -- two ways to remove a collaborator

A maintainer of a repository removes a collaborator on the web, the local administrator on the
command line.  Both delete the row of the account that the name stands for, and both keep the owner
out of it.  The maintainer's transaction looks the account up among the active ones only, so that it
does not find one that is suspended, although the settings of the repository list it.
-/
import Tit.Directory.Authority
import Tit.Store.RepositoryChanges

namespace Tit.Directory

open Tit.Theory Tit.Store

set_option autoImplicit false

/-- The clock and the random identifier of a request. -/
structure Occasion where
  changedAt : Int
  correlationId : String
  since : 0 ≤ changedAt
  fits : 1 ≤ correlationId.length ∧ correlationId.length ≤ 128

def maintainerRemoves (db : Database) (owner slug actor username : String) (occasion : Occasion) :
    Except StoreError (Table RepositoryCollaborator) :=
  (db.updateRepositoryCollaborator owner slug actor username none occasion.changedAt
    occasion.correlationId).map (·.repositoryCollaborators)

def administratorRemoves (db : Database) (owner slug username : String) (occasion : Occasion) :
    Except StoreError (Table RepositoryCollaborator) :=
  (db.removeRepositoryCollaborator owner slug username occasion.changedAt Database.adminCli
    occasion.correlationId).map (·.repositoryCollaborators)

/-- The settings of the repository list the name. -/
def Listed (db : Database) (repositoryId : Identifier) (username : String) : Prop :=
  ∃ role, (username, role) ∈ db.collaboratorRecords repositoryId

/-- The accounts of the listed name are active, and none is the owner. -/
def Current (db : Database) (owner : String) (repositoryId : Identifier) (username : String) :
    Prop :=
  ∀ a ∈ db.accounts, a.username = username →
    (∃ c ∈ db.repositoryCollaborators, c.repositoryId = repositoryId ∧ c.accountId = a.id) →
    a.state = .active ∧ username ≠ owner ∧
      ∀ n ∈ db.namespaces, n.slug = owner → n.accountId ≠ some a.id

section Removal

variable {db : Database} {owner slug actor username : String} {access : RepositoryIssueAccess}
  {ownerId : Nat} {table : Table RepositoryCollaborator} {occasion : Occasion}

/-- The row that both transactions delete. -/
def collaboratorRow (repositoryId : Identifier) (accountId : Nat) (c : RepositoryCollaborator) :
    Bool :=
  decide (c.repositoryId = repositoryId ∧ c.accountId = accountId)

theorem count_collaboratorRow {repositoryId : Identifier} {accountId : Nat} :
    db.repositoryCollaborators.count (collaboratorRow repositoryId accountId) ≠ 0 ↔
      ∃ c ∈ db.repositoryCollaborators, c.repositoryId = repositoryId ∧ c.accountId = accountId := by
  constructor
  · intro some
    obtain ⟨c, hc, here⟩ := Table.exists_of_count some
    exact ⟨c, hc, of_decide_eq_true here⟩
  · rintro ⟨c, hc, here⟩ none
    exact List.countP_eq_zero.mp none c hc (decide_eq_true here)

theorem listed_iff {repositoryId : Identifier} : Listed db repositoryId username ↔
    ∃ a ∈ db.accounts, a.username = username ∧
      ∃ c ∈ db.repositoryCollaborators, c.repositoryId = repositoryId ∧ c.accountId = a.id := by
  unfold Listed Database.collaboratorRecords
  constructor
  · rintro ⟨role, listed⟩
    rw [List.mem_insertionSort, List.mem_filterMap] at listed
    obtain ⟨c, chosen, record⟩ := listed
    obtain ⟨hc, here⟩ := List.mem_filter.mp chosen
    obtain ⟨a, found, made⟩ := Option.map_eq_some_iff.mp record
    obtain ⟨rfl, rfl⟩ := Prod.mk.inj made
    obtain ⟨ha, same⟩ := Table.get_eq_some.mp found
    exact ⟨a, ha, rfl, c, hc, of_decide_eq_true here, same.symm⟩
  · rintro ⟨a, ha, rfl, c, hc, here, same⟩
    refine ⟨c.role, ?_⟩
    rw [List.mem_insertionSort, List.mem_filterMap]
    refine ⟨c, List.mem_filter.mpr ⟨hc, decide_eq_true here⟩, ?_⟩
    rw [Table.get_eq_some.mpr ⟨ha, same.symm⟩]
    rfl

/-- The audit history takes the removal of a collaborator. -/
theorem removal_recorded (occasion : Occasion) (db : Database) (actor : String)
    (named : 1 ≤ actor.length ∧ actor.length ≤ 256) (short : owner.length ≤ 40)
    (short' : slug.length ≤ 100) (short'' : username.length ≤ 40) :
    ∃ auditEvents, db.insertAuditEvent
      { action := "collaborator.remove", actor, target := owner ++ "/" ++ slug ++ ":" ++ username,
        outcome := .success, correlationId := occasion.correlationId,
        createdAt := occasion.changedAt } = .ok { db with auditEvents } := by
  have action : 1 ≤ "collaborator.remove".length ∧ "collaborator.remove".length ≤ 80 := by decide
  have slash : "/".length = 1 := by decide
  have colon : ":".length = 1 := by decide
  obtain ⟨db', inserted⟩ := (@Database.insertAuditEvent_succeeds db
    { action := "collaborator.remove", actor, target := owner ++ "/" ++ slug ++ ":" ++ username,
      outcome := .success, correlationId := occasion.correlationId,
      createdAt := occasion.changedAt }).mpr
    ⟨action, named, by simp only [String.length_append]; omega, occasion.fits, occasion.since⟩
  obtain ⟨auditEvents, -, rfl⟩ := Database.insertAuditEvent_eq_ok.mp inserted
  exact ⟨auditEvents, inserted⟩

/-! ## What each of them removes -/

/-- The repository that both transactions come to. -/
structure Place (db : Database) (owner slug : String) (access : RepositoryIssueAccess)
    (n : Namespace) (r : Repository) : Prop where
  namespaces : n ∈ db.namespaces
  owner : n.slug = owner
  repositories : r ∈ db.repositories
  slug : r.slug = slug
  inside : r.ownerNamespaceId = n.id
  id : access.repository.id = r.id
  active : r.state = .active

theorem Place.short {n : Namespace} {r : Repository} (place : Place db owner slug access n r) :
    owner.length ≤ 40 ∧ slug.length ≤ 100 := by
  have namespaceRow := db.namespaces.checked n place.namespaces
  have repository := db.repositories.checked r place.repositories
  simp only [Schema.check, nameCheck, slugCheck, Bool.and_eq_true, lengthBetween_iff] at namespaceRow repository
  rw [← place.owner, ← place.slug]
  exact ⟨namespaceRow.1.1.1.1.1.1.2, repository.1.1.1.1.1.1.1.1.2⟩

theorem place_of_access (read : db.repositoryIssueAccess owner slug (some actor) = .ok access)
    (maintains : access.canMaintain = true) : ∃ n r, Place db owner slug access n r := by
  obtain ⟨n, hn, r, hr, owned, named, inside, id, state, -⟩ :=
    Database.repositoryIssueAccess_eq_ok read
  refine ⟨n, r, hn, owned, hr, named, inside, id, ?_⟩
  simp only [RepositoryIssueAccess.canMaintain, RepositoryIssueAccess.canRead, Bool.and_eq_true,
    decide_eq_true_eq] at maintains
  rw [← state]
  exact maintains.1.1

theorem account_eq {a b : Account} (ha : a ∈ db.accounts) (hb : b ∈ db.accounts)
    (same : a.username = b.username) : a = b :=
  Table.eq_of_clash ha hb (decide_eq_true (.inr same))

theorem activeCollaboratorId_eq_ok {id : Nat} : db.activeCollaboratorId username = .ok id ↔
    ∃ a ∈ db.accounts, a.username = username ∧ a.state = .active ∧ a.id = id := by
  unfold Database.activeCollaboratorId
  constructor
  · intro ok
    split at ok
    · rename_i found
      cases ok
      exact Database.activeAccountId_eq_ok found
    · cases ok
    · cases ok
  · rintro ⟨a, ha, named, state, rfl⟩
    have found : db.activeAccountId username = .ok a.id := by
      unfold Database.activeAccountId
      rw [Table.find_eq_some ha (decide_eq_true ⟨named, state⟩) fun s hs same =>
        Table.eq_of_clash hs ha (decide_eq_true (.inr ((of_decide_eq_true same).1.trans named.symm)))]
      rfl
    rw [found]

/-- The name of an account, and that of a maintainer, fit the audit history. -/
theorem username_short {a : Account} (ha : a ∈ db.accounts) (named : a.username = username) :
    1 ≤ username.length ∧ username.length ≤ 40 := by
  rw [← named]
  exact username_fits ha

variable (table username occasion) in
theorem maintainerRemoves_eq_ok {n : Namespace} {r : Repository}
    (place : Place db owner slug access n r)
    (read : db.repositoryIssueAccess owner slug (some actor) = .ok access)
    (maintains : access.canMaintain = true) :
    maintainerRemoves db owner slug actor username occasion = .ok table ↔
      ∃ a ∈ db.accounts, a.username = username ∧ a.state = .active ∧ username ≠ owner ∧
        db.repositoryCollaborators.count (collaboratorRow access.repository.id a.id) ≠ 0 ∧
        table = db.repositoryCollaborators.delete (collaboratorRow access.repository.id a.id) := by
  unfold maintainerRemoves Database.updateRepositoryCollaborator
  simp only [map_eq_ok, bind_eq_ok, ensure_eq_ok, read, Except.ok.injEq, Option.bind_none,
    pure_eq_ok, activeCollaboratorId_eq_ok]
  constructor
  · rintro ⟨db', ⟨-, -, _, rfl, -, -, _, ⟨a, ha, named, state, rfl⟩, -, other, -, some, _, rfl,
      recorded⟩, rfl⟩
    obtain ⟨auditEvents, -, rfl⟩ := Database.insertAuditEvent_eq_ok.mp recorded
    exact ⟨a, ha, named, state, other, some, rfl⟩
  · rintro ⟨a, ha, named, state, other, some, rfl⟩
    obtain ⟨b, hb, named'⟩ := Database.canMaintain_account read maintains
    have long := username_short hb named'
    obtain ⟨auditEvents, recorded⟩ := removal_recorded occasion
      { db with repositoryCollaborators :=
          db.repositoryCollaborators.delete (collaboratorRow access.repository.id a.id) }
      actor ⟨long.1, by omega⟩ place.short.1 place.short.2 (username_short ha named).2
    exact ⟨_, ⟨(), rfl, access, rfl, (), maintains, a.id, ⟨a, ha, named, state, rfl⟩, (), other, (),
      some, _, rfl, recorded⟩, rfl⟩

variable (table username occasion) in
theorem administratorRemoves_eq_ok {n : Namespace} {r : Repository}
    (place : Place db owner slug access n r) (active : db.activeNamespaceId owner = .ok ownerId) :
    administratorRemoves db owner slug username occasion = .ok table ↔
      ∃ a ∈ db.accounts, a.username = username ∧ n.accountId ≠ some a.id ∧
        db.repositoryCollaborators.count (collaboratorRow access.repository.id a.id) ≠ 0 ∧
        table = db.repositoryCollaborators.delete (collaboratorRow access.repository.id a.id) := by
  obtain ⟨n', hn', slug', rfl⟩ := activeNamespaceId_eq_ok active
  obtain rfl : n' = n := Table.eq_of_clash hn' place.namespaces
    (decide_eq_true (.inr (.inl (slug'.trans place.owner.symm))))
  have repository : db.repositories.find (Database.repositoryInState n'.id slug .active) = some r :=
    Table.find_eq_some place.repositories
      (decide_eq_true ⟨place.inside, place.slug, place.active⟩) fun s hs same => by
        obtain ⟨inside, named, -⟩ := of_decide_eq_true same
        exact Table.eq_of_clash hs place.repositories (decide_eq_true
          (.inr ⟨inside.trans place.inside.symm, named.trans place.slug.symm⟩))
  have namespaceRow : db.namespaceAccountId n'.id = .ok n'.accountId := by
    unfold Database.namespaceAccountId
    rw [show db.namespaces.get n'.id = some n' from Table.get_of_mem hn']
    rfl
  unfold administratorRemoves Database.removeRepositoryCollaborator
  simp only [map_eq_ok, bind_eq_ok, ensure_eq_ok, active, Except.ok.injEq, repository,
    namespaceRow, required_eq_ok, exists_eq_left', place.id]
  constructor
  · rintro ⟨db', ⟨_, here, a, found, -, other, -, some, recorded⟩, rfl⟩
    obtain rfl := Option.some.inj here
    obtain ⟨ha, named⟩ := Table.mem_of_find found
    obtain ⟨auditEvents, -, rfl⟩ := Database.insertAuditEvent_eq_ok.mp recorded
    exact ⟨a, ha, of_decide_eq_true named, other, some, rfl⟩
  · rintro ⟨a, ha, named, other, some, rfl⟩
    obtain ⟨auditEvents, recorded⟩ := removal_recorded occasion
      { db with repositoryCollaborators :=
          db.repositoryCollaborators.delete (collaboratorRow r.id a.id) }
      Database.adminCli (by decide) place.short.1 place.short.2 (username_short ha named).2
    have found : db.accounts.find (fun a => decide (a.username = username)) = .some a :=
      Table.find_eq_some ha (decide_eq_true named) fun s hs same =>
        Table.eq_of_clash hs ha (decide_eq_true (.inr ((of_decide_eq_true same).trans named.symm)))
    exact ⟨_, ⟨r, rfl, a, found, (), other, (), some, recorded⟩, rfl⟩

/-- **The two transactions agree on a name, and remove it when it is listed, exactly when the
account is active and not the owner, or has no row at all.** -/
theorem removals_agree_iff
    (read : db.repositoryIssueAccess owner slug (some actor) = .ok access)
    (maintains : access.canMaintain = true) (active : db.activeNamespaceId owner = .ok ownerId)
    (username : String) (occasion occasion' : Occasion) :
    ((∀ table, maintainerRemoves db owner slug actor username occasion = .ok table ↔
        administratorRemoves db owner slug username occasion' = .ok table) ∧
      (Listed db access.repository.id username →
        (∃ table, maintainerRemoves db owner slug actor username occasion = .ok table) ∧
          ∃ table, administratorRemoves db owner slug username occasion' = .ok table)) ↔
    Current db owner access.repository.id username := by
  obtain ⟨n, r, place⟩ := place_of_access read maintains
  have maintainer (table) := maintainerRemoves_eq_ok username table occasion place read maintains
  have administrator (table) :=
    administratorRemoves_eq_ok username table occasion' place active
  constructor
  · rintro ⟨-, both⟩ a ha named row
    obtain ⟨⟨_, byMaintainer⟩, _, byAdministrator⟩ := both (listed_iff.mpr ⟨a, ha, named, row⟩)
    obtain ⟨b, hb, named', state, other, -⟩ := (maintainer _).mp byMaintainer
    obtain ⟨b', hb', named'', apart, -⟩ := (administrator _).mp byAdministrator
    obtain rfl : b = a := account_eq hb ha (named'.trans named.symm)
    obtain rfl : b' = b := account_eq hb' ha (named''.trans named.symm)
    refine ⟨state, other, fun n' hn' slug' => ?_⟩
    obtain rfl : n' = n := Table.eq_of_clash hn' place.namespaces
      (decide_eq_true (.inr (.inl (slug'.trans place.owner.symm))))
    exact apart
  · intro current
    have fine : ∀ a ∈ db.accounts, a.username = username →
        db.repositoryCollaborators.count (collaboratorRow access.repository.id a.id) ≠ 0 →
        a.state = .active ∧ username ≠ owner ∧ n.accountId ≠ some a.id := by
      intro a ha named some
      obtain ⟨state, other, apart⟩ := current a ha named (count_collaboratorRow.mp some)
      exact ⟨state, other, apart n place.namespaces place.owner⟩
    refine ⟨fun table => ?_, fun listed => ?_⟩
    · rw [maintainer, administrator]
      constructor
      · rintro ⟨a, ha, named, -, -, some, rfl⟩
        exact ⟨a, ha, named, (fine a ha named some).2.2, some, rfl⟩
      · rintro ⟨a, ha, named, -, some, rfl⟩
        obtain ⟨state, other, -⟩ := fine a ha named some
        exact ⟨a, ha, named, state, other, some, rfl⟩
    · obtain ⟨a, ha, named, row⟩ := listed_iff.mp listed
      have some := count_collaboratorRow.mpr row
      obtain ⟨state, other, apart⟩ := fine a ha named some
      exact ⟨⟨_, (maintainer _).mpr ⟨a, ha, named, state, other, some, rfl⟩⟩,
        _, (administrator _).mpr ⟨a, ha, named, apart, some, rfl⟩⟩

/-! Pole: a suspended collaborator. -/

/-- `bob` is a reader of the repository of `alice`. -/
def withReader (state : AccountState) : Database :=
  { Database.oneRepository with
    accounts := ⟨[
      { id := 1, username := "alice", isAdministrator := true, state := .active, createdAt := 0 },
      { id := 2, username := "bob", isAdministrator := false, state, createdAt := 0 }],
      by cases state <;> decide, by cases state <;> decide⟩
    repositoryCollaborators := ⟨[
      { repositoryId := 1, accountId := 2, role := .reader, createdAt := 0 }],
      by decide, by decide⟩ }

def firstSecond : Occasion := ⟨1, "c", by decide, by decide⟩

theorem withReader_read (state : AccountState) :
    (withReader state).repositoryIssueAccess "alice" "tit" (some "alice") =
      .ok Database.aliceAccess := by
  cases state <;> decide

theorem withReader_active (state : AccountState) :
    (withReader state).activeNamespaceId "alice" = .ok 1 := by
  cases state <;> decide

/-- The maintainer's transaction does not find a suspended account that the settings list. -/
theorem suspended_kept : ¬∀ (db : Database) (owner slug actor : String)
    (access : RepositoryIssueAccess) (ownerId : Nat) (username : String)
    (occasion occasion' : Occasion),
    db.repositoryIssueAccess owner slug (some actor) = .ok access → access.canMaintain = true →
    db.activeNamespaceId owner = .ok ownerId →
      ((∀ table, maintainerRemoves db owner slug actor username occasion = .ok table ↔
          administratorRemoves db owner slug username occasion' = .ok table) ∧
        (Listed db access.repository.id username →
          (∃ table, maintainerRemoves db owner slug actor username occasion = .ok table) ∧
            ∃ table, administratorRemoves db owner slug username occasion' = .ok table)) := by
  intro claim
  obtain ⟨same, -⟩ := claim (withReader .suspended) "alice" "tit" "alice" Database.aliceAccess 1
    "bob" firstSecond firstSecond (withReader_read _) (by decide) (withReader_active _)
  have removed : (administratorRemoves (withReader .suspended) "alice" "tit" "bob"
      firstSecond).toOption.isSome = true := by decide
  have refused : (maintainerRemoves (withReader .suspended) "alice" "tit" "alice" "bob"
      firstSecond).toOption.isSome = false := by decide
  obtain ⟨table, found⟩ := Option.isSome_iff_exists.mp removed
  rw [(same table).mpr (ok_of_toOption found)] at refused
  cases refused

/-- The theorem at an active account: either of them removes `bob`. -/
theorem reader_removed :
    ((∀ table, maintainerRemoves (withReader .active) "alice" "tit" "alice" "bob" firstSecond
          = .ok table ↔
        administratorRemoves (withReader .active) "alice" "tit" "bob" firstSecond = .ok table) ∧
      (Listed (withReader .active) 1 "bob" →
        (∃ table, maintainerRemoves (withReader .active) "alice" "tit" "alice" "bob" firstSecond
          = .ok table) ∧
        ∃ table, administratorRemoves (withReader .active) "alice" "tit" "bob" firstSecond
          = .ok table)) := by
  refine (removals_agree_iff (withReader_read .active) (by decide) (withReader_active .active) "bob"
    firstSecond firstSecond).mpr fun a ha named _ => ?_
  rcases List.mem_cons.mp ha with rfl | ha
  · exact absurd named (by decide)
  · obtain rfl := List.mem_singleton.mp ha
    refine ⟨rfl, by decide, fun n hn _ => ?_⟩
    obtain rfl := List.mem_singleton.mp hn
    decide

end Removal

end Tit.Directory
