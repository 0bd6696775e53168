/-
# Directory.Ownership -- every organization keeps an owner

An organization starts with its first member as owner.  A change of a member to another role and
a removal of a member ask first whether the organization has an owner beside that member, unless
the member is no owner.  The guard reads no state of the accounts, so that a suspension cannot
take the last owner away either.
-/
import Tit.Directory.Authority
import Tit.Sessions.Frame

namespace Tit.Directory

open Tit.Theory Tit.Store

set_option autoImplicit false

/-- The organization has an owner among its members. -/
def HasOwner (members : Table OrganizationMember) (organizationId : Nat) : Prop :=
  ∃ m ∈ members, m.organizationId = organizationId ∧ m.role = .owner

def Owned (db : Database) : Prop :=
  ∀ o ∈ db.organizations, HasOwner db.organizationMembers o.namespaceId

/-- Every organization has an owner, and a rejected operation leaves the members alone. -/
structure OwnersStay (db : Database) : Prop where
  owned : Owned db
  rejected : ∀ operation error, Operation.transact db operation = .error error →
    ∀ db', step db operation = some db' → db'.organizationMembers = db.organizationMembers

section Members

variable {db db' : Database} {organizationId accountId : Nat}

theorem hasRole_owner : db.hasRole organizationId accountId [.owner] = true ↔
    ∃ m ∈ db.organizationMembers, m.organizationId = organizationId ∧ m.accountId = accountId ∧
      m.role = .owner := by
  unfold Database.hasRole
  simp only [Table.any_iff, decide_eq_true_eq, List.mem_singleton]

/-- **The guard**: beside an account that passes it, an owned organization has another owner. -/
theorem other_owner {done : Unit}
    (passes : db.requireOtherOrganizationOwner organizationId accountId = .ok done)
    (owned : HasOwner db.organizationMembers organizationId) :
    ∃ m ∈ db.organizationMembers, m.organizationId = organizationId ∧
      m.accountId ≠ accountId ∧ m.role = .owner := by
  unfold Database.requireOtherOrganizationOwner at passes
  split at passes
  · rw [ensure_eq_ok] at passes
    obtain ⟨m, hm, facts⟩ := Table.any_iff.mp passes
    exact ⟨m, hm, of_decide_eq_true facts⟩
  · rename_i noOwner
    obtain ⟨m, hm, inside, owner⟩ := owned
    refine ⟨m, hm, inside, fun same => ?_, owner⟩
    exact noOwner (hasRole_owner.mpr ⟨m, hm, inside, same, owner⟩)

/-- The new role of a member leaves the owners of other accounts as they are. -/
theorem mem_upsertMember {member m : OrganizationMember} {members : Table OrganizationMember}
    (ok : db.upsertMember member = .ok members) (hm : m ∈ db.organizationMembers)
    (other : ¬(m.organizationId = member.organizationId ∧ m.accountId = member.accountId)) :
    m ∈ members := by
  unfold Database.upsertMember at ok
  split at ok
  · exact (Table.mem_insert ok).mpr (Or.inl hm)
  · refine (Table.mem_update ok).mpr ⟨m, hm, ?_⟩
    rw [if_neg (by simpa using other)]

/-- The member has the new role. -/
theorem upsertMember_role {member : OrganizationMember} {members : Table OrganizationMember}
    (ok : db.upsertMember member = .ok members) :
    ∃ m ∈ members, m.organizationId = member.organizationId ∧ m.accountId = member.accountId ∧
      m.role = member.role := by
  unfold Database.upsertMember at ok
  split at ok
  · exact ⟨member, (Table.mem_insert ok).mpr (Or.inr rfl), rfl, rfl, rfl⟩
  · rename_i before found
    obtain ⟨hm, same⟩ := Table.get_eq_some.mp found
    have named : before.organizationId = member.organizationId ∧
        before.accountId = member.accountId := Prod.ext_iff.mp same
    refine ⟨{ before with role := member.role },
      (Table.mem_update ok).mpr ⟨before, hm, ?_⟩, named.1, named.2, rfl⟩
    rw [if_pos (decide_eq_true named)]

end Members

/-! ## Steps -/

section Steps

variable {db db' : Database}

/-- The organizations are the same, and each that had an owner has one. -/
theorem Owned.carried (owned : Owned db)
    (back : ∀ o ∈ db'.organizations, ∃ o₁ ∈ db.organizations, o₁.namespaceId = o.namespaceId)
    (keeps : ∀ id, HasOwner db.organizationMembers id → HasOwner db'.organizationMembers id) :
    Owned db' := by
  intro o ho
  obtain ⟨o₁, ho₁, same⟩ := back o ho
  rw [← same]
  exact keeps _ (owned o₁ ho₁)

theorem Owned.of_eq (owned : Owned db) (organizations : db'.organizations = db.organizations)
    (members : db'.organizationMembers = db.organizationMembers) : Owned db' := by
  unfold Owned
  rw [organizations, members]
  exact owned

theorem createOrganization_owned (owned : Owned db) {slug displayName description owner : String}
    {createdAt : Int} {correlationId : String}
    (ok : db.createOrganization slug displayName description owner createdAt correlationId =
      .ok db') : Owned db' := by
  simp only [Database.createOrganization, bind_eq_ok, uniqueAs_eq_ok, sqlite_eq_ok] at ok
  obtain ⟨ownerId, -, namespaces, -, organizations, created, members, joined, audit⟩ := ok
  obtain ⟨auditEvents, -, rfl⟩ := Database.insertAuditEvent_eq_ok.mp audit
  intro o ho
  rcases (Table.mem_insert created).mp ho with old | rfl
  · obtain ⟨m, hm, facts⟩ := owned o old
    exact ⟨m, (Table.mem_insert joined).mpr (Or.inl hm), facts⟩
  · exact ⟨_, (Table.mem_insert joined).mpr (Or.inr rfl), rfl, rfl⟩

theorem setOrganizationMember_owned (owned : Owned db)
    {organization actor username role correlationId : String} {changedAt : Int}
    (ok : db.setOrganizationMember organization actor username role changedAt correlationId =
      .ok db') : Owned db' := by
  simp only [Database.setOrganizationMember, bind_eq_ok] at ok
  obtain ⟨granted, -, organizationId, -, _, -, account, -, ok⟩ := ok
  have guarded : ∃ members, sqlite (db.upsertMember ⟨organizationId, account.id, granted,
      changedAt⟩) = .ok members ∧ (granted ≠ .owner →
        db.requireOtherOrganizationOwner organizationId account.id = .ok ()) ∧
      ∃ auditEvents, db' = { db with organizationMembers := members, auditEvents } := by
    split at ok <;>
      · obtain ⟨_, guard, ok⟩ := bind_eq_ok.mp ok
        obtain ⟨members, joined, audit⟩ := bind_eq_ok.mp ok
        obtain ⟨auditEvents, -, rfl⟩ := Database.insertAuditEvent_eq_ok.mp audit
        exact ⟨members, joined, fun other => by first | exact guard | contradiction, _, rfl⟩
  obtain ⟨members, joined, guard, auditEvents, rfl⟩ := guarded
  rw [sqlite_eq_ok] at joined
  refine owned.carried (fun o ho => ⟨o, ho, rfl⟩) fun id has => ?_
  by_cases here : id = organizationId
  · subst here
    by_cases owner : granted = .owner
    · obtain ⟨m, hm, inside, -, granted'⟩ := upsertMember_role joined
      exact ⟨m, hm, inside, granted'.trans owner⟩
    · obtain ⟨m, hm, inside, other, isOwner⟩ := other_owner (guard owner) has
      exact ⟨m, mem_upsertMember joined hm fun same => other same.2, inside, isOwner⟩
  · obtain ⟨m, hm, inside, isOwner⟩ := has
    exact ⟨m, mem_upsertMember joined hm fun same => here (inside.symm.trans same.1), inside,
      isOwner⟩

theorem removeOrganizationMember_owned (owned : Owned db)
    {organization actor username correlationId : String} {changedAt : Int}
    (ok : db.removeOrganizationMember organization actor username changedAt correlationId =
      .ok db') : Owned db' := by
  simp only [Database.removeOrganizationMember, bind_eq_ok] at ok
  obtain ⟨organizationId, -, _, -, account, -, done, guarded, _, -, audit⟩ := ok
  obtain ⟨auditEvents, -, rfl⟩ := Database.insertAuditEvent_eq_ok.mp audit
  refine owned.carried (fun o ho => ⟨o, ho, rfl⟩) fun id has => ?_
  have stays : ∀ m ∈ db.organizationMembers,
      ¬(m.organizationId = organizationId ∧ m.accountId = account.id) →
      m ∈ db.organizationMembers.delete fun m =>
        decide (m.organizationId = organizationId ∧ m.accountId = account.id) :=
    fun m hm other => Table.mem_delete.mpr ⟨hm, by simpa using other⟩
  by_cases here : id = organizationId
  · subst here
    obtain ⟨m, hm, inside, other, isOwner⟩ := other_owner guarded has
    exact ⟨m, stays m hm fun same => other same.2, inside, isOwner⟩
  · obtain ⟨m, hm, inside, isOwner⟩ := has
    exact ⟨m, stays m hm fun same => here (inside.symm.trans same.1), inside, isOwner⟩

theorem updateOrganizationProfile_owned (owned : Owned db)
    {organization actor displayName description correlationId : String} {changedAt : Int}
    (ok : db.updateOrganizationProfile organization actor displayName description changedAt
      correlationId = .ok db') : Owned db' := by
  simp only [Database.updateOrganizationProfile, bind_eq_ok, sqlite_eq_ok] at ok
  obtain ⟨organizationId, -, _, -, organizations, updated, _, -, audit⟩ := ok
  obtain ⟨auditEvents, -, rfl⟩ := Database.insertAuditEvent_eq_ok.mp audit
  refine owned.carried (fun o ho => ?_) fun id has => has
  obtain ⟨o₁, ho₁, rfl⟩ := (Table.mem_update updated).mp ho
  refine ⟨o₁, ho₁, ?_⟩
  split <;> rfl

theorem insertDomainEvent_directory {event : Database.NewDomainEvent}
    (ok : db.insertDomainEvent event = .ok db') : db'.organizations = db.organizations ∧
      db'.organizationMembers = db.organizationMembers := by
  obtain ⟨events, -, rfl⟩ := Database.insertDomainEvent_eq_ok.mp ok
  exact ⟨rfl, rfl⟩

theorem initialReferences_directory {repository : NewRepository}
    {references : List NewRepositoryReference}
    (ok : references.foldlM (Database.insertInitialReference repository) db = .ok db') :
    db'.organizations = db.organizations ∧
      db'.organizationMembers = db.organizationMembers := by
  induction references generalizing db with
  | nil =>
      cases ok
      exact ⟨rfl, rfl⟩
  | cons reference references ih =>
      rw [List.foldlM_cons] at ok
      obtain ⟨db₁, first, rest⟩ := bind_eq_ok.mp ok
      unfold Database.insertInitialReference at first
      obtain ⟨tag, -, event⟩ := bind_eq_ok.mp first
      obtain ⟨organizations, members⟩ := insertDomainEvent_directory event
      obtain ⟨organizations', members'⟩ := ih rest
      exact ⟨organizations'.trans organizations, members'.trans members⟩

theorem request_owned (owned : Owned db) {actor : String} {request : Request}
    (ok : request.transact db actor = .ok db') : Owned db' := by
  cases request with
  | createRepository repository =>
      simp only [Request.transact, Database.createRepository, bind_eq_ok, uniqueAs_eq_ok,
        sqlite_eq_ok] at ok
      obtain ⟨ownerId, -, _, -, repositories, -, branches, -, db₁, event, db₂, references,
        audit⟩ := ok
      obtain ⟨organizations, members⟩ := insertDomainEvent_directory event
      obtain ⟨organizations', members'⟩ := initialReferences_directory references
      obtain ⟨auditEvents, -, rfl⟩ := Database.insertAuditEvent_eq_ok.mp audit
      exact owned.of_eq (organizations'.trans organizations) (members'.trans members)
  | renameRepositoryForOwner owner oldSlug newSlug changedAt correlationId =>
      simp only [Request.transact, Database.renameRepositoryForOwner, bind_eq_ok] at ok
      obtain ⟨ownerId, -, _, -, repositories, -, _, -, audit⟩ := ok
      obtain ⟨auditEvents, -, rfl⟩ := Database.insertAuditEvent_eq_ok.mp audit
      exact owned
  | unarchiveRepositoryForOwner owner slug changedAt correlationId =>
      simp only [Request.transact, Database.unarchiveRepositoryForOwner, bind_eq_ok] at ok
      obtain ⟨ownerId, -, _, -, repositories, -, _, -, audit⟩ := ok
      obtain ⟨auditEvents, -, rfl⟩ := Database.insertAuditEvent_eq_ok.mp audit
      exact owned
  | updateOrganizationProfile organization displayName description changedAt correlationId =>
      exact updateOrganizationProfile_owned owned ok
  | setOrganizationMember organization username role changedAt correlationId =>
      exact setOrganizationMember_owned owned ok
  | removeOrganizationMember organization username changedAt correlationId =>
      exact removeOrganizationMember_owned owned ok

theorem transact_owned (owned : Owned db) {operation : Operation}
    (ok : operation.transact db = .ok db') : Owned db' := by
  cases operation with
  | session operation =>
      have only := Sessions.transact_accountsOnly operation ok
      exact owned.of_eq only.organizations only.organizationMembers
  | createOrganization slug displayName description owner createdAt correlationId =>
      exact createOrganization_owned owned ok
  | request actor request => exact request_owned owned ok

theorem step_owned (db : Database) (operation : Operation) (db' : Database) (owned : Owned db)
    (stepped : step db operation = some db') : Owned db' := by
  cases stepped
  rcases committed_eq_or db (operation.transact db) with same | ok
  · rw [same]
    exact owned
  · exact transact_owned owned ok

theorem Owned.ownersStay (owned : Owned db) : OwnersStay db where
  owned := owned
  rejected operation error failed db' stepped := by
    cases stepped
    rw [failed]
    rfl

end Steps

/-- **Every organization has an owner in every state of every run**, whatever else is done to
accounts and repositories, and a rejected operation leaves the members alone. -/
theorem always_ownersStay (operations : List Operation) :
    Always step OwnersStay .initial operations := by
  have start : Owned .initial := fun o ho => absurd ho (Table.not_mem_empty o)
  exact (always_of_steps step_owned start operations).mono fun _ owned => owned.ownersStay

/-! Pole: the only owner of an organization cannot step down. -/

example : (run step .initial (adminCliSignup.take 1 ++
    [.createOrganization "acme" "Acme" "" "alice" 3 "c"])).map (fun db =>
      match db.setOrganizationMember "acme" "alice" "alice" "writer" 4 "c" with
      | .ok _ => none
      | .error error => some error) = some (some .lastOrganizationOwner) := by
  decide

end Tit.Directory
