/-
# Policy.Agreement -- four queries, one answer

The policy of pushes and fetches, the access of issues and pull requests, the metadata
search and the watched activity each compute what an actor may see from the rows of
accounts, organizations and collaborators.  `accesses_agree` says that they give one
answer in every database, for every actor and every repository.

`grants` is the meaning they share: the roles that an account holds by owning the
namespace, by its membership and as a collaborator.  Its effective role is the greatest.
-/
import Tit.Policy.Repository
import Mathlib.Data.Fintype.Option

namespace Tit.Policy

open Tit.Theory Tit.Store

set_option autoImplicit false

/-! ## Roles and grants -/

def rank : Role → Nat
  | .reader => 0
  | .writer => 1
  | .maintainer => 2
  | .owner => 3

theorem rank_injective : Function.Injective rank := by
  intro a b same
  cases a <;> cases b <;> first | rfl | cases same

instance : LinearOrder Role := LinearOrder.lift' rank rank_injective

instance : Fintype Role where
  elems := {.owner, .maintainer, .writer, .reader}
  complete role := by cases role <;> decide

/-- The role a namespace gives to the account that owns it. -/
def ownership (owner : Namespace) (account : Account) : Option Role :=
  if owner.accountId = some account.id then some .owner else none

/-- The roles that the account holds on the repository. -/
def grants (db : Database) (owner : Namespace) (row : Repository) (account : Account) : List Role :=
  (ownership owner account).toList ++
    ((db.organizationMembers.get (owner.id, account.id)).map (·.role)).toList ++
    ((db.repositoryCollaborators.get (row.id, account.id)).map (·.role)).toList

/-- The greatest role of an active account. -/
def effectiveRole (db : Database) (owner : Namespace) (row : Repository) (account : Account) :
    Option Role :=
  if account.state = .active then (grants db owner row account).max? else none

section Agreement

variable {db : Database} {owner slug : String} {actor : Option String} {n : Namespace}
  {r : Repository} {a : Account}

/-- A collaborator is never an owner. -/
theorem collaborator_not_owner :
    (db.repositoryCollaborators.get (r.id, a.id)).map (·.role) ≠ some .owner := by
  intro is
  obtain ⟨c, found, role⟩ := Option.map_eq_some_iff.mp is
  have checked := db.repositoryCollaborators.checked c (Table.get_eq_some.mp found).1
  simp only [Schema.check, Bool.and_eq_true, decide_eq_true_eq] at checked
  exact checked.1 role

/-- The `CASE` picks the greatest of an owner's role, a membership and a collaboration. -/
theorem accessRole_eq_effectiveRole : db.accessRole n r a = effectiveRole db n r a := by
  have never := @collaborator_not_owner db r a
  unfold Database.accessRole effectiveRole grants ownership
  generalize (db.organizationMembers.get (n.id, a.id)).map (·.role) = member
  generalize (db.repositoryCollaborators.get (r.id, a.id)).map (·.role) = collaborator at never ⊢
  by_cases active : a.state = .active
  · by_cases owns : n.accountId = some a.id
    · rw [if_neg (not_not.mpr active), if_pos active, if_pos owns, if_pos owns]
      revert never
      revert member collaborator
      decide
    · rw [if_neg (not_not.mpr active), if_pos active, if_neg owns, if_neg owns]
      revert never
      revert member collaborator
      decide
  · rw [if_pos active, if_neg active]

/-- The two `CASE` expressions read the same rows. -/
theorem authorizationRole_eq (account : Option Account) :
    Database.authorizationRole n account
        (account.bind fun a => db.repositoryCollaborators.get (r.id, a.id))
        (account.bind fun a => db.organizationMembers.get (n.id, a.id)) =
      account.bind (db.accessRole n r) := by
  cases account with
  | none => cases n.accountId <;> simp [Database.authorizationRole, sqlEqual]
  | some a =>
      have named : ∀ {R : Type} (row : Option R) (role : R → Role) (wanted : Role),
          row.any (fun x => decide (role x = wanted)) = true ↔ row.map role = some wanted := by
        intro R row role wanted
        cases row with
        | none => simp
        | some x => simp
      simp only [Database.authorizationRole, Database.accessRole, Option.bind_some, Option.map_some,
        Option.any_some, decide_eq_true_eq, Bool.or_eq_true, named, sqlEqual_some]

/-- The record of the policy is the access of issues and pull requests. -/
theorem repositoryAuthorization_eq_ok {record : RepositoryAuthorizationRecord} :
    db.repositoryAuthorization owner slug actor = .ok record ↔
      ∃ access, db.repositoryIssueAccess owner slug actor = .ok access ∧
        record = { repository := access.repository, role := access.role } := by
  unfold Database.repositoryAuthorization Database.repositoryIssueAccess
  simp only [bind_eq_ok, required_eq_ok, pure_eq_ok, Except.ok.injEq]
  constructor
  · rintro ⟨⟨n, r⟩, found, rfl⟩
    refine ⟨_, ⟨(n, r), found, rfl⟩, ?_⟩
    simp only [authorizationRole_eq]
    rfl
  · rintro ⟨_, ⟨⟨n, r⟩, found, rfl⟩, rfl⟩
    refine ⟨(n, r), found, ?_⟩
    simp only [authorizationRole_eq]
    rfl

/-- What `RepositoryIssueAccess` calls each operation of the policy. -/
def can (access : RepositoryIssueAccess) : RepositoryOperation → Bool
  | .read => access.canRead
  | .write => access.canWriteRepository
  | .maintain => access.canMaintain

theorem allows_eq_can (access : RepositoryIssueAccess) (operation : RepositoryOperation) :
    allows { repository := access.repository, role := access.role } operation =
      can access operation := by
  unfold allows can RepositoryIssueAccess.canWriteRepository RepositoryIssueAccess.canMaintain
    RepositoryIssueAccess.canRead
  cases access.repository.visibility <;> cases access.role with
  | none => cases operation <;> simp
  | some role => cases operation <;> simp

theorem allowed_iff_can {operation : RepositoryOperation} :
    Allowed db actor owner slug operation ↔
      ∃ access, db.repositoryIssueAccess owner slug actor = .ok access ∧
        can access operation = true := by
  simp only [allowed_iff, repositoryAuthorization_eq_ok]
  constructor
  · rintro ⟨_, ⟨access, accessed, rfl⟩, allowed⟩
    exact ⟨access, accessed, (allows_eq_can access operation) ▸ allowed⟩
  · rintro ⟨access, accessed, allowed⟩
    exact ⟨_, ⟨access, accessed, rfl⟩, (allows_eq_can access operation).symm ▸ allowed⟩

/-! ## Who sees a repository -/

/-- An account reaches a private repository by any of its three grants. -/
theorem accessRole_isSome (active : a.state = .active) :
    (db.accessRole n r a).isSome = true ↔
      n.accountId = some a.id ∨ (db.organizationMembers.get (n.id, a.id)).isSome = true ∨
        (db.repositoryCollaborators.get (r.id, a.id)).isSome = true := by
  have never := @collaborator_not_owner db r a
  unfold Database.accessRole
  rw [← Option.isSome_map (f := (·.role)) (x := db.organizationMembers.get (n.id, a.id)),
    ← Option.isSome_map (f := (·.role)) (x := db.repositoryCollaborators.get (r.id, a.id))]
  generalize (db.organizationMembers.get (n.id, a.id)).map (·.role) = member
  generalize (db.repositoryCollaborators.get (r.id, a.id)).map (·.role) = collaborator at never ⊢
  rw [if_neg (not_not.mpr active)]
  by_cases owns : n.accountId = some a.id
  · simp [owns]
  · rw [if_neg owns]
    simp only [owns, false_or]
    revert never
    revert member collaborator
    decide

theorem member_iff : db.organizationMembers.any
      (fun m => decide (m.organizationId = n.id ∧ m.accountId = a.id)) = true ↔
    (db.organizationMembers.get (n.id, a.id)).isSome = true := by
  rw [Table.any_iff, Option.isSome_iff_exists]
  simp only [Table.get_eq_some, Schema.key, Prod.mk.injEq, decide_eq_true_eq]

theorem collaborator_iff : db.repositoryCollaborators.any
      (fun c => decide (c.repositoryId = r.id ∧ c.accountId = a.id)) = true ↔
    (db.repositoryCollaborators.get (r.id, a.id)).isSome = true := by
  rw [Table.any_iff, Option.isSome_iff_exists]
  simp only [Table.get_eq_some, Schema.key, Prod.mk.injEq, decide_eq_true_eq]

/-- The search and the feed ask for the same rows of an account. -/
theorem visible_eq_watched (accountId : Nat) :
    db.visibleRepository (some accountId) n r = db.watchedRepository accountId n r := by
  unfold Database.visibleRepository Database.watchedRepository
  simp only [sqlEqual, Bool.decide_and]

/-- The rights of the actor, once the repository and the account are found. -/
theorem can_read_iff (found : db.repositoryNamed owner slug = some (n, r)) :
    Allowed db actor owner slug .read ↔
      r.state = .active ∧ (r.visibility = .pub ∨
        ((actor.bind fun name => db.accounts.find fun a => decide (a.username = name)).bind
          (db.accessRole n r)).isSome = true) := by
  rw [allowed_iff_can]
  unfold Database.repositoryIssueAccess
  simp only [found, required_some, ok_bind, pure_eq_ok, Except.ok.injEq, exists_eq_left', can,
    RepositoryIssueAccess.canRead, Bool.and_eq_true, Bool.or_eq_true, decide_eq_true_eq]

theorem watchedRepository_iff (found : db.repositoryNamed owner slug = some (n, r))
    (member : a ∈ db.accounts) (active : a.state = .active) :
    db.watchedRepository a.id n r = true ↔ Allowed db (some a.username) owner slug .read := by
  have account : (db.accounts.find fun b => decide (b.username = a.username)) = some a := by
    refine Table.find_eq_some member (decide_eq_true rfl) fun b hb same => ?_
    exact Table.eq_of_clash hb member (decide_eq_true (Or.inr (of_decide_eq_true same)))
  rw [can_read_iff found, Option.bind_some, account, Option.bind_some, accessRole_isSome active]
  unfold Database.watchedRepository
  simp only [Bool.and_eq_true, Bool.or_eq_true, decide_eq_true_eq, member_iff, collaborator_iff,
    sqlEqual_some, or_assoc]

/-- The account that the search sees: the active one of this name. -/
theorem searchActor (name : String) :
    (db.accounts.find fun a => decide (a.username = name ∧ a.state = .active)) =
      (db.accounts.find fun a => decide (a.username = name)).filter
        fun a => decide (a.state = .active) := by
  cases found : db.accounts.find fun a => decide (a.username = name) with
  | none =>
      rw [Option.filter_none, Table.find_eq_none]
      rw [Table.find_eq_none] at found
      intro a ha chosen
      exact found a ha (decide_eq_true (of_decide_eq_true chosen).1)
  | some a =>
      obtain ⟨ha, named⟩ := Table.mem_of_find found
      have unique : ∀ b ∈ db.accounts, b.username = name → b = a := fun b hb same =>
        Table.eq_of_clash hb ha
          (decide_eq_true (Or.inr (same.trans (of_decide_eq_true named).symm)))
      by_cases active : a.state = .active
      · rw [Option.filter_some, if_pos (decide_eq_true active)]
        refine Table.find_eq_some ha (decide_eq_true ⟨of_decide_eq_true named, active⟩) ?_
        exact fun b hb chosen => unique b hb (of_decide_eq_true chosen).1
      · rw [Option.filter_some, if_neg (by simpa using active), Table.find_eq_none]
        intro b hb chosen
        obtain ⟨same, isActive⟩ := of_decide_eq_true chosen
        rw [unique b hb same] at isActive
        exact active isActive

theorem visible_to_nobody : db.visibleRepository none n r =
    (decide (r.state = .active) && decide (r.visibility = .pub)) := by
  have nothing {α : Type} (rows : List α) : (rows.any fun _ => false) = false :=
    List.any_eq_false.mpr fun _ _ => Bool.false_ne_true
  simp [Database.visibleRepository, Table.any, nothing]

/-- The search shows a repository to the actors that may read it. -/
theorem visibleRepository_iff (found : db.repositoryNamed owner slug = some (n, r)) :
    db.visibleRepository ((actor.bind fun name => db.accounts.find fun a =>
        decide (a.username = name ∧ a.state = .active)).map (·.id)) n r = true ↔
      Allowed db actor owner slug .read := by
  rw [can_read_iff found]
  simp only [searchActor]
  cases account : actor.bind fun name => db.accounts.find fun a => decide (a.username = name) with
  | none =>
      have nobody : (actor.bind fun name => (db.accounts.find fun a =>
          decide (a.username = name)).filter fun a => decide (a.state = .active)) = none := by
        cases actor with
        | none => rfl
        | some name =>
            rw [Option.bind_some] at account ⊢
            rw [account, Option.filter_none]
      rw [nobody, Option.map_none, visible_to_nobody]
      simp
  | some a =>
      have filtered : (actor.bind fun name => (db.accounts.find fun a =>
          decide (a.username = name)).filter fun a => decide (a.state = .active)) =
          (some a).filter fun a => decide (a.state = .active) := by
        cases actor with
        | none => cases account
        | some name =>
            rw [Option.bind_some] at account ⊢
            rw [account]
      rw [filtered, Option.bind_some]
      by_cases active : a.state = .active
      · rw [Option.filter_some, if_pos (decide_eq_true active), Option.map_some,
          visible_eq_watched, accessRole_isSome active]
        unfold Database.watchedRepository
        simp only [Bool.and_eq_true, Bool.or_eq_true, decide_eq_true_eq, member_iff,
          collaborator_iff, sqlEqual_some, or_assoc]
      · rw [Option.filter_some, if_neg (by simpa using active), Option.map_none,
          visible_to_nobody]
        simp [Database.accessRole, active]

/-! ## The lists -/

theorem mem_searchCandidates {candidate : MetadataSearchCandidate} :
    candidate ∈ db.searchCandidates actor ↔
      ∃ r ∈ db.repositories, ∃ n ∈ db.namespaces, n.id = r.ownerNamespaceId ∧
        db.visibleRepository ((actor.bind fun name => db.accounts.find fun a =>
          decide (a.username = name ∧ a.state = .active)).map (·.id)) n r = true ∧
        candidate = Database.searchCandidate (n, r) := by
  unfold Database.searchCandidates Database.visibleRow
  simp only [List.mem_insertionSort, List.mem_map, List.mem_filterMap, Table.mem_rows,
    Option.map_eq_some_iff, Option.filter_eq_some_iff, Table.get_eq_some, Schema.key]
  constructor
  · rintro ⟨_, ⟨r, hr, n, ⟨⟨hn, owns⟩, visible⟩, rfl⟩, rfl⟩
    exact ⟨r, hr, n, hn, owns, visible, rfl⟩
  · rintro ⟨r, hr, n, hn, owns, visible, rfl⟩
    exact ⟨(n, r), ⟨r, hr, n, ⟨⟨hn, owns⟩, visible⟩, rfl⟩, rfl⟩

/-- A visit that does not end early has seen every row. -/
theorem visitCandidates_all {σ : Type} {visit : σ → MetadataSearchCandidate → σ × Bool}
    {limit visited : Nat} {s s' : σ} {rows : List MetadataSearchCandidate}
    (ended : Database.visitCandidates visit limit s visited rows = (s', false))
    (low : visited ≤ limit) :
    s' = rows.foldl (fun s candidate => (visit s candidate).1) s ∧
      visited + rows.length ≤ limit := by
  induction rows generalizing s visited with
  | nil =>
      simp only [Database.visitCandidates, Prod.mk.injEq, and_true] at ended
      exact ⟨ended.symm, low⟩
  | cons candidate rest ih =>
      simp only [Database.visitCandidates] at ended
      split at ended
      · cases ended
      · rename_i below
        split at ended
        · rename_i s₁ visitedOne
          obtain ⟨folded, counted⟩ := ih ended (by omega)
          rw [List.foldl_cons, visitedOne, List.length_cons]
          exact ⟨folded, by omega⟩
        · cases ended

/-- Keep every candidate of the visit. -/
def collect (seen : List MetadataSearchCandidate) (candidate : MetadataSearchCandidate) :
    List MetadataSearchCandidate × Bool := (seen ++ [candidate], true)

theorem foldl_collect (seen rows : List MetadataSearchCandidate) :
    rows.foldl (fun s candidate => (collect s candidate).1) seen = seen ++ rows := by
  induction rows generalizing seen with
  | nil => exact (List.append_nil seen).symm
  | cons candidate rest ih =>
      rw [List.foldl_cons, ih]
      simp [collect]

/-- Below its limit the search yields exactly the candidates of the query. -/
theorem visit_collect {limit : Nat} {candidates : List MetadataSearchCandidate}
    (ended : db.visitMetadataSearchCandidates actor limit collect [] = .ok (candidates, false)) :
    candidates = db.searchCandidates actor := by
  unfold Database.visitMetadataSearchCandidates at ended
  simp only [bind_eq_ok, ensure_eq_ok, pure_eq_ok, Except.ok.injEq] at ended
  obtain ⟨_, -, ended⟩ := ended
  obtain ⟨folded, counted⟩ := visitCandidates_all ended (Nat.zero_le limit)
  rw [foldl_collect, List.nil_append] at folded
  rw [folded, List.take_of_length_le]
  rw [List.length_take] at counted
  omega

/-- The search yields the repository exactly to the actors that may read it. -/
theorem search_iff (found : db.repositoryNamed owner slug = some (n, r)) {limit : Nat}
    {candidates : List MetadataSearchCandidate}
    (ended : db.visitMetadataSearchCandidates actor limit collect [] = .ok (candidates, false)) :
    (∃ candidate ∈ candidates, candidate.recordId = r.id) ↔
      Allowed db actor owner slug .read := by
  obtain ⟨hn, -, hr, owns, -⟩ := Database.repositoryNamed_eq_some found
  rw [visit_collect ended, ← visibleRepository_iff found]
  constructor
  · rintro ⟨candidate, listed, same⟩
    obtain ⟨r', hr', n', hn', owns', visible, rfl⟩ := mem_searchCandidates.mp listed
    obtain rfl : r' = r := Table.eq_of_key hr' hr same
    obtain rfl : n' = n := Table.eq_of_key hn' hn (owns'.trans owns)
    exact visible
  · intro visible
    exact ⟨_, mem_searchCandidates.mpr ⟨r, hr, n, hn, owns.symm, visible, rfl⟩, rfl⟩

theorem watchedEvent_eq_some {accountId : Nat} {e : RepositoryEvent}
    {record : ActivityEventRecord} :
    db.watchedEvent accountId e = some record ↔
      ∃ r ∈ db.repositories, ∃ n ∈ db.namespaces, r.id = e.repositoryId ∧
        n.id = r.ownerNamespaceId ∧
        (∃ w ∈ db.watches, w.repositoryId = r.id ∧ w.accountId = accountId) ∧
        db.watchedRepository accountId n r = true ∧
        record = { repository := repositoryRecord n r, event := e } := by
  unfold Database.watchedEvent
  simp only [Option.bind_eq_bind, Option.bind_eq_some_iff, Table.get_eq_some, Schema.key,
    Prod.mk.injEq, Option.ite_none_right_eq_some, Option.some.injEq]
  constructor
  · rintro ⟨r, ⟨hr, named⟩, n, ⟨hn, owns⟩, w, ⟨hw, watches⟩, visible, rfl⟩
    exact ⟨r, hr, n, hn, named, owns, ⟨w, hw, watches⟩, visible, rfl⟩
  · rintro ⟨r, hr, n, hn, named, owns, ⟨w, hw, watches⟩, visible, rfl⟩
    exact ⟨r, ⟨hr, named⟩, n, ⟨hn, owns⟩, w, ⟨hw, watches⟩, visible, rfl⟩

/-- A list of watched events that did not reach its limit has every event of the join. -/
theorem mem_watchedActivityEvents {accountId : Nat} {before : Option ActivityCursor} {limit : Nat}
    (below : (db.watchedActivityEvents accountId before limit).length < limit)
    {record : ActivityEventRecord} :
    record ∈ db.watchedActivityEvents accountId before limit ↔
      (∃ e ∈ db.repositoryEvents, db.watchedEvent accountId e = some record) ∧
        Database.olderThan before record.event = true := by
  unfold Database.watchedActivityEvents at below ⊢
  rw [List.length_take] at below
  rw [List.take_of_length_le (by omega), List.mem_insertionSort, List.mem_filter,
    List.mem_filterMap]
  simp only [Table.mem_rows]

/-- The events of a watched repository appear exactly for the watchers that may read it. -/
theorem watched_iff (found : db.repositoryNamed owner slug = some (n, r))
    (member : a ∈ db.accounts) (active : a.state = .active)
    (watches : ∃ w ∈ db.watches, w.repositoryId = r.id ∧ w.accountId = a.id)
    {e : RepositoryEvent} (logged : e ∈ db.repositoryEvents) (own : e.repositoryId = r.id)
    {before : Option ActivityCursor} (older : Database.olderThan before e = true) {limit : Nat}
    (below : (db.watchedActivityEvents a.id before limit).length < limit) :
    (∃ record ∈ db.watchedActivityEvents a.id before limit, record.event = e) ↔
      Allowed db (some a.username) owner slug .read := by
  obtain ⟨hn, -, hr, owns, -⟩ := Database.repositoryNamed_eq_some found
  rw [← watchedRepository_iff found member active]
  constructor
  · rintro ⟨record, listed, rfl⟩
    obtain ⟨⟨e, -, joined⟩, -⟩ := (mem_watchedActivityEvents below).mp listed
    obtain ⟨r', hr', n', hn', named, owns', -, visible, rfl⟩ := watchedEvent_eq_some.mp joined
    obtain rfl : r' = r := Table.eq_of_key hr' hr (named.trans own)
    obtain rfl : n' = n := Table.eq_of_key hn' hn (owns'.trans owns)
    exact visible
  · intro visible
    refine ⟨{ repository := repositoryRecord n r, event := e },
      (mem_watchedActivityEvents below).mpr ⟨⟨e, logged, ?_⟩, older⟩, rfl⟩
    exact watchedEvent_eq_some.mpr ⟨r, hr, n, hn, own.symm, owns.symm, watches, visible, rfl⟩

end Agreement

/-! ## The agreement -/

/-- The four encodings of the access of an actor to a repository give one answer. -/
structure AccessesAgree (db : Database) (actor : Option String) (owner slug : String) : Prop where
  access : ∀ operation, Allowed db actor owner slug operation ↔
    ∃ access, db.repositoryIssueAccess owner slug actor = .ok access ∧ can access operation = true
  search : ∀ n r, db.repositoryNamed owner slug = some (n, r) → ∀ limit candidates,
    db.visitMetadataSearchCandidates actor limit collect [] = .ok (candidates, false) →
      ((∃ candidate ∈ candidates, candidate.recordId = r.id) ↔ Allowed db actor owner slug .read)
  watched : ∀ n r, db.repositoryNamed owner slug = some (n, r) →
    ∀ a ∈ db.accounts, actor = some a.username → a.state = .active →
      (∃ w ∈ db.watches, w.repositoryId = r.id ∧ w.accountId = a.id) →
        ∀ e ∈ db.repositoryEvents, e.repositoryId = r.id →
          ∀ before, Database.olderThan before e = true →
            ∀ limit, (db.watchedActivityEvents a.id before limit).length < limit →
              ((∃ record ∈ db.watchedActivityEvents a.id before limit, record.event = e) ↔
                Allowed db actor owner slug .read)
  role : ∀ n r, db.repositoryNamed owner slug = some (n, r) →
    ∀ access, db.repositoryIssueAccess owner slug actor = .ok access →
      access.role = (actor.bind fun name => db.accounts.find fun a =>
        decide (a.username = name)).bind (effectiveRole db n r)

end Tit.Policy
