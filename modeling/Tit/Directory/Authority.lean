/-
# Directory.Authority -- who may change a namespace

A request on a namespace may change the database when the account it is made for is
active and is the account of the namespace or has the required role in its
organization.  The two authorization queries decide exactly that, for every actor but
one: the name `admin-cli` passes both without a look-up.  It stands for the local
administrator, but `validate_username` accepts it, so that an invited person can take
it as the name of an account.
-/
import Tit.Sessions.Operations
import Tit.Store.Directory

namespace Tit.Directory

open Tit.Theory Tit.Store

set_option autoImplicit false

/-! ## What the requests are meant to need -/

/-- `actor` is an active account, and `rights` holds of it and a namespace with this
name. -/
def ActsFor (db : Database) (actor slug : String) (rights : Account → Namespace → Prop) : Prop :=
  ∃ a ∈ db.accounts, a.username = actor ∧ a.state = .active ∧
    ∃ n ∈ db.namespaces, n.slug = slug ∧ rights a n

def Owner (db : Database) (a : Account) (n : Namespace) : Prop :=
  ∃ m ∈ db.organizationMembers, m.organizationId = n.id ∧ m.accountId = a.id ∧ m.role = .owner

/-- The account of the namespace, or an owner or a maintainer of its organization. -/
def Maintainer (db : Database) (a : Account) (n : Namespace) : Prop :=
  n.accountId = some a.id ∨
    ∃ m ∈ db.organizationMembers, m.organizationId = n.id ∧ m.accountId = a.id ∧
      (m.role = .owner ∨ m.role = .maintainer)

inductive Request where
  | createRepository (repository : NewRepository)
  | renameRepositoryForOwner (owner oldSlug newSlug : String) (changedAt : Int)
      (correlationId : String)
  | unarchiveRepositoryForOwner (owner slug : String) (changedAt : Int) (correlationId : String)
  | updateOrganizationProfile (organization displayName description : String) (changedAt : Int)
      (correlationId : String)
  | setOrganizationMember (organization username role : String) (changedAt : Int)
      (correlationId : String)
  | removeOrganizationMember (organization username : String) (changedAt : Int)
      (correlationId : String)

/-- The request, made on behalf of `actor`. -/
def Request.transact (db : Database) (actor : String) : Request → Except StoreError Database
  | .createRepository repository => db.createRepository { repository with actor }
  | .renameRepositoryForOwner owner oldSlug newSlug changedAt correlationId =>
      db.renameRepositoryForOwner owner oldSlug newSlug actor changedAt correlationId
  | .unarchiveRepositoryForOwner owner slug changedAt correlationId =>
      db.unarchiveRepositoryForOwner owner slug actor changedAt correlationId
  | .updateOrganizationProfile organization displayName description changedAt correlationId =>
      db.updateOrganizationProfile organization actor displayName description changedAt
        correlationId
  | .setOrganizationMember organization username role changedAt correlationId =>
      db.setOrganizationMember organization actor username role changedAt correlationId
  | .removeOrganizationMember organization username changedAt correlationId =>
      db.removeOrganizationMember organization actor username changedAt correlationId

/-- The rights the request requires: owner for changes of the members, maintainer for
the others. -/
def Request.Authorized (db : Database) (actor : String) : Request → Prop
  | .createRepository repository => ActsFor db actor repository.owner (Maintainer db)
  | .renameRepositoryForOwner owner _ _ _ _ => ActsFor db actor owner (Maintainer db)
  | .unarchiveRepositoryForOwner owner _ _ _ => ActsFor db actor owner (Maintainer db)
  | .updateOrganizationProfile organization _ _ _ _ =>
      ActsFor db actor organization (Maintainer db)
  | .setOrganizationMember organization _ _ _ _ => ActsFor db actor organization (Owner db)
  | .removeOrganizationMember organization _ _ _ => ActsFor db actor organization (Owner db)

/-- No request on behalf of the account `username` changes the database without the
rights it requires. -/
def ActsWithinRights (username : String) (db : Database) : Prop :=
  (∃ a ∈ db.accounts, a.username = username) →
    ∀ request : Request, committed db (request.transact db username) ≠ db →
      request.Authorized db username

/-! ## What the two queries decide -/

variable {db db' : Database} {actor slug : String} {id : Nat}

theorem activeNamespaceId_eq_ok (found : db.activeNamespaceId slug = .ok id) :
    ∃ n ∈ db.namespaces, n.slug = slug ∧ n.id = id := by
  unfold Database.activeNamespaceId at found
  simp only [bind_eq_ok, required_eq_ok, pure_eq_ok, Except.ok.injEq] at found
  obtain ⟨n, found, rfl⟩ := found
  obtain ⟨member, pinned⟩ := Table.mem_of_find found
  exact ⟨n, member, of_decide_eq_true (Bool.and_eq_true_iff.mp pinned).1, rfl⟩

theorem activeOrganizationId_eq_ok (found : db.activeOrganizationId slug = .ok id) :
    ∃ n ∈ db.namespaces, n.slug = slug ∧ n.id = id := by
  unfold Database.activeOrganizationId at found
  simp only [bind_eq_ok, required_eq_ok, pure_eq_ok, Except.ok.injEq] at found
  obtain ⟨n, found, rfl⟩ := found
  obtain ⟨member, pinned⟩ := Table.mem_of_find found
  exact ⟨n, member, of_decide_eq_true (Bool.and_eq_true_iff.mp pinned).1, rfl⟩

theorem hasRole_iff {organizationId accountId : Nat} {roles : List Role} :
    db.hasRole organizationId accountId roles = true ↔
      ∃ m ∈ db.organizationMembers, m.organizationId = organizationId ∧
        m.accountId = accountId ∧ m.role ∈ roles := by
  simp only [Database.hasRole, Table.any_iff, decide_eq_true_eq]

theorem authorizeNamespaceMaintainer_acts (named : actor ≠ Database.adminCli)
    (found : ∃ n ∈ db.namespaces, n.slug = slug ∧ n.id = id)
    (ok : db.authorizeNamespaceMaintainer id actor = .ok ()) :
    ActsFor db actor slug (Maintainer db) := by
  unfold Database.authorizeNamespaceMaintainer at ok
  simp only [if_neg named, bind_eq_ok, ensure_eq_ok, Table.any_iff, Bool.and_eq_true,
    Bool.or_eq_true, decide_eq_true_eq] at ok
  obtain ⟨actorId, active, n, hn, rfl, rights⟩ := ok
  obtain ⟨a, ha, username, state, rfl⟩ := Database.activeAccountId_eq_ok active
  obtain ⟨n', hn', sameSlug, sameId⟩ := found
  obtain rfl : n' = n := Table.eq_of_key hn' hn sameId
  refine ⟨a, ha, username, state, n', hn', sameSlug, ?_⟩
  rcases rights with own | role
  · exact Or.inl own
  · obtain ⟨m, hm, organization, account, role⟩ := hasRole_iff.mp role
    exact Or.inr ⟨m, hm, organization, account, by simpa using role⟩

theorem authorizeOrganizationOwner_acts (named : actor ≠ Database.adminCli)
    (found : ∃ n ∈ db.namespaces, n.slug = slug ∧ n.id = id)
    (ok : db.authorizeOrganizationOwner id actor = .ok ()) :
    ActsFor db actor slug (Owner db) := by
  unfold Database.authorizeOrganizationOwner at ok
  simp only [if_neg named, bind_eq_ok, ensure_eq_ok] at ok
  obtain ⟨actorId, active, rights⟩ := ok
  obtain ⟨a, ha, username, state, rfl⟩ := Database.activeAccountId_eq_ok active
  obtain ⟨n, hn, sameSlug, rfl⟩ := found
  obtain ⟨m, hm, organization, account, role⟩ := hasRole_iff.mp rights
  exact ⟨a, ha, username, state, n, hn, sameSlug, m, hm, organization, account,
    by simpa using role⟩

theorem denyAsPullRequest_eq_ok {result : Except StoreError Unit} {done : Unit}
    (ok : Database.denyAsPullRequest result = .ok done) : result = .ok () := by
  unfold Database.denyAsPullRequest at ok
  split at ok
  · cases ok
  · exact ok

/-- **Every request that goes through has its rights, unless `admin-cli` makes it.** -/
theorem request_authorized (named : actor ≠ Database.adminCli) {request : Request}
    (ok : request.transact db actor = .ok db') : request.Authorized db actor := by
  cases request with
  | createRepository repository =>
      simp only [Request.transact, Database.createRepository, bind_eq_ok] at ok
      obtain ⟨ownerId, found, _, authorized, -⟩ := ok
      exact authorizeNamespaceMaintainer_acts named (activeNamespaceId_eq_ok found) authorized
  | renameRepositoryForOwner owner oldSlug newSlug changedAt correlationId =>
      simp only [Request.transact, Database.renameRepositoryForOwner, bind_eq_ok] at ok
      obtain ⟨ownerId, found, _, authorized, -⟩ := ok
      exact authorizeNamespaceMaintainer_acts named (activeNamespaceId_eq_ok found)
        (denyAsPullRequest_eq_ok authorized)
  | unarchiveRepositoryForOwner owner slug changedAt correlationId =>
      simp only [Request.transact, Database.unarchiveRepositoryForOwner, bind_eq_ok] at ok
      obtain ⟨ownerId, found, _, authorized, -⟩ := ok
      exact authorizeNamespaceMaintainer_acts named (activeNamespaceId_eq_ok found)
        (denyAsPullRequest_eq_ok authorized)
  | updateOrganizationProfile organization displayName description changedAt correlationId =>
      simp only [Request.transact, Database.updateOrganizationProfile, bind_eq_ok] at ok
      obtain ⟨organizationId, found, _, authorized, -⟩ := ok
      exact authorizeNamespaceMaintainer_acts named (activeOrganizationId_eq_ok found) authorized
  | setOrganizationMember organization username role changedAt correlationId =>
      simp only [Request.transact, Database.setOrganizationMember, bind_eq_ok] at ok
      obtain ⟨granted, -, organizationId, found, _, authorized, -⟩ := ok
      exact authorizeOrganizationOwner_acts named (activeOrganizationId_eq_ok found) authorized
  | removeOrganizationMember organization username changedAt correlationId =>
      simp only [Request.transact, Database.removeOrganizationMember, bind_eq_ok] at ok
      obtain ⟨organizationId, found, _, authorized, -⟩ := ok
      exact authorizeOrganizationOwner_acts named (activeOrganizationId_eq_ok found) authorized

/-! ## Runs -/

/-- Account and login transactions, new organizations, and the requests. -/
inductive Operation where
  | session (operation : Sessions.Operation)
  | createOrganization (slug displayName description owner : String) (createdAt : Int)
      (correlationId : String)
  | request (actor : String) (request : Request)

def Operation.transact (db : Database) : Operation → Except StoreError Database
  | .session operation => operation.transact db
  | .createOrganization slug displayName description owner createdAt correlationId =>
      db.createOrganization slug displayName description owner createdAt correlationId
  | .request actor asked => asked.transact db actor

def step (db : Database) (operation : Operation) : Option Database :=
  some (committed db (operation.transact db))

theorem actsWithinRights_of_ne (db : Database) {username : String}
    (named : username ≠ Database.adminCli) : ActsWithinRights username db := by
  intro _ request changed
  rcases committed_eq_or db (request.transact db username) with same | ok
  · exact absurd same changed
  · exact request_authorized named ok

/-- An invited person takes the name of the local administrator; the organization has
one owner, who is someone else. -/
def adminCliSignup : List Operation :=
  [.session (.createInitialAdministrator
    { username := "alice", canonicalKey := "k1", fingerprint := "f1", recoveryHash := 0,
      createdAt := 0 }),
   .session (.createSignupInvitation 7 1 100),
   .session (.createAccountWithInvitation
    { invitationHash := 7, username := "admin-cli",
      key := { canonicalKey := "k2", fingerprint := "f2", label := "laptop" },
      recoveryHash := 1, createdAt := 2, correlationId := "c" }),
   .createOrganization "acme" "Acme" "" "alice" 3 "c"]

/-- The invited person makes itself an owner of the organization. -/
def takeover : Request := .setOrganizationMember "acme" "admin-cli" "owner" 4 "c"

/-- The account exists, no owner of an organization bears its name, and the request
goes through. -/
def takesOver (db : Database) : Bool :=
  db.accounts.any (fun a => decide (a.username = Database.adminCli)) &&
    !(db.accounts.any fun a => decide (a.username = Database.adminCli) &&
      db.organizationMembers.any fun m => decide (m.accountId = a.id)) &&
    match takeover.transact db Database.adminCli with
    | .ok db' => decide (db'.organizationMembers.count (fun _ => true) ≠
        db.organizationMembers.count fun _ => true)
    | .error _ => false

theorem adminCliSignup_takesOver :
    (run step .initial adminCliSignup).any takesOver = true := by
  decide

theorem not_actsWithinRights_of_takesOver (taken : takesOver db = true) :
    ¬ActsWithinRights Database.adminCli db := by
  intro within
  simp only [takesOver, Bool.and_eq_true, Bool.not_eq_true', Bool.eq_false_iff, ne_eq,
    Table.any_iff, decide_eq_true_eq] at taken
  obtain ⟨⟨account, roleless⟩, changes⟩ := taken
  have changed : committed db (takeover.transact db Database.adminCli) ≠ db := by
    intro same
    split at changes
    · rename_i db' ok
      rw [ok] at same
      simp only [committed] at same
      simp [same] at changes
    · cases changes
  obtain ⟨a, ha, username, -, n, -, -, m, hm, -, owner, -⟩ := within account takeover changed
  exact roleless ⟨a, ha, username, m, hm, owner⟩

/-- **Which names act within their rights in every reachable state: all but
`admin-cli`.** -/
theorem actsWithinRights_iff (username : String) :
    (∀ operations, Always step (ActsWithinRights username) .initial operations) ↔
      username ≠ Database.adminCli := by
  constructor
  · rintro always rfl
    obtain ⟨db, ran, taken⟩ := (Option.any_eq_true _ _).mp adminCliSignup_takesOver
    exact not_actsWithinRights_of_takesOver taken ((always adminCliSignup).final ran)
  · intro named operations
    exact always_of_forall (fun db => actsWithinRights_of_ne db named) .initial operations

/-- The name is one an account can have. -/
theorem admin_cli_acts_without_rights :
    validateUsername "admin-cli" = true ∧
      ¬Always step (ActsWithinRights "admin-cli") .initial adminCliSignup := by
  refine ⟨by decide, fun always => ?_⟩
  obtain ⟨db, ran, taken⟩ := (Option.any_eq_true _ _).mp adminCliSignup_takesOver
  exact not_actsWithinRights_of_takesOver taken (always.final ran)

end Tit.Directory
