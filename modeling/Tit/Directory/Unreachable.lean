/-
# Directory.Unreachable -- which changes of a repository panic

`repository_state_error` takes for granted that the repository it looks up is archived or not
there.  Every caller asks for an active repository and comes to it when there is none, which
bears the assumption out, but one: `unarchive_repository_for_owner` asks for an archived one, so
that it comes to `unreachable!` with an active repository.
-/
import Tit.Directory.Authority
import Tit.Store.RepositoryChanges

namespace Tit.Directory

open Tit.Theory Tit.Store

set_option autoImplicit false

/-- The eight changes, each with any arguments. -/
inductive RepositoryChange where
  | renameRepository (owner oldSlug newSlug : String) (changedAt : Int)
      (actor correlationId : String)
  | renameRepositoryForOwner (owner oldSlug newSlug actor : String) (changedAt : Int)
      (correlationId : String)
  | archiveRepository (owner slug : String) (archivedAt : Int) (actor correlationId : String)
  | archiveRepositoryForActor (owner slug actor : String) (changedAt : Int)
      (correlationId : String)
  | unarchiveRepositoryForOwner (owner slug actor : String) (changedAt : Int)
      (correlationId : String)
  | setRepositoryVisibility (owner slug visibility : String) (changedAt : Int)
      (actor correlationId : String)
  | setRepositoryCollaborator (owner slug username role : String) (changedAt : Int)
      (actor correlationId : String)
  | removeRepositoryCollaborator (owner slug username : String) (changedAt : Int)
      (actor correlationId : String)

def RepositoryChange.transact (db : Database) : RepositoryChange → Except StoreError Database
  | .renameRepository owner oldSlug newSlug changedAt actor correlationId =>
      db.renameRepository owner oldSlug newSlug changedAt actor correlationId
  | .renameRepositoryForOwner owner oldSlug newSlug actor changedAt correlationId =>
      db.renameRepositoryForOwner owner oldSlug newSlug actor changedAt correlationId
  | .archiveRepository owner slug archivedAt actor correlationId =>
      db.archiveRepository owner slug archivedAt actor correlationId
  | .archiveRepositoryForActor owner slug actor changedAt correlationId =>
      db.archiveRepositoryForActor owner slug actor changedAt correlationId
  | .unarchiveRepositoryForOwner owner slug actor changedAt correlationId =>
      db.unarchiveRepositoryForOwner owner slug actor changedAt correlationId
  | .setRepositoryVisibility owner slug visibility changedAt actor correlationId =>
      db.setRepositoryVisibility owner slug visibility changedAt actor correlationId
  | .setRepositoryCollaborator owner slug username role changedAt actor correlationId =>
      db.setRepositoryCollaborator owner slug username role changedAt actor correlationId
  | .removeRepositoryCollaborator owner slug username changedAt actor correlationId =>
      db.removeRepositoryCollaborator owner slug username changedAt actor correlationId

/-- The actor may maintain the active namespace `owner`, whose repository `slug` is active. -/
def MaintainsActive (db : Database) (owner slug actor : String) : Prop :=
  ∃ ownerId, db.activeNamespaceId owner = .ok ownerId ∧
    db.authorizeNamespaceMaintainer ownerId actor = .ok () ∧
    ∃ r ∈ db.repositories, r.ownerNamespaceId = ownerId ∧ r.slug = slug ∧ r.state = .active

/-- The change is the unarchiving of an active repository by one of its maintainers. -/
def UnarchivesActive (db : Database) : RepositoryChange → Prop
  | .unarchiveRepositoryForOwner owner slug actor _ _ => MaintainsActive db owner slug actor
  | _ => False

section Errors

variable {db : Database} {ownerId : Nat} {owner slug : String}

theorem repositoryStateError_iff : db.repositoryStateError ownerId owner slug = .unreachable ↔
    ∃ r ∈ db.repositories, r.ownerNamespaceId = ownerId ∧ r.slug = slug ∧ r.state = .active := by
  unfold Database.repositoryStateError
  cases found : db.repositories.find fun r =>
      decide (r.ownerNamespaceId = ownerId ∧ r.slug = slug) with
  | none =>
      simp only [reduceCtorEq, false_iff]
      rintro ⟨r, hr, own, named, -⟩
      exact Table.find_eq_none.mp found r hr (decide_eq_true ⟨own, named⟩)
  | some r =>
      obtain ⟨hr, facts⟩ := Table.mem_of_find found
      obtain ⟨own, named⟩ := of_decide_eq_true facts
      cases state : r.state with
      | archived =>
          dsimp only
          rw [if_pos state]
          simp only [reduceCtorEq, false_iff]
          rintro ⟨s, hs, own', named', active⟩
          obtain rfl : r = s := Table.eq_of_clash hr hs
            (decide_eq_true (Or.inr ⟨own.trans own'.symm, named.trans named'.symm⟩))
          rw [state] at active
          cases active
      | active =>
          dsimp only
          rw [if_neg (by rw [state]; decide)]
          exact iff_of_true rfl ⟨r, hr, own, named, state⟩

/-- At most one repository has a name. -/
theorem count_inState (state : ArchiveState) :
    db.repositories.count (Database.repositoryInState ownerId slug state) = 0 ∧
        (∀ r ∈ db.repositories, ¬(r.ownerNamespaceId = ownerId ∧ r.slug = slug ∧ r.state = state)) ∨
      db.repositories.count (Database.repositoryInState ownerId slug state) = 1 ∧
        ∃ r ∈ db.repositories, r.ownerNamespaceId = ownerId ∧ r.slug = slug ∧ r.state = state := by
  by_cases none : db.repositories.count (Database.repositoryInState ownerId slug state) = 0
  · refine Or.inl ⟨none, fun r hr facts => ?_⟩
    have one := Table.count_eq_one (p := Database.repositoryInState ownerId slug state) hr
      (decide_eq_true facts) fun s hs chosen => by
        obtain ⟨own, named, -⟩ := of_decide_eq_true chosen
        exact congrArg Schema.key (Table.eq_of_clash hs hr (decide_eq_true
          (Or.inr ⟨own.trans facts.1.symm, named.trans facts.2.1.symm⟩)))
    omega
  · obtain ⟨r, hr, chosen⟩ := Table.exists_of_count none
    have facts := of_decide_eq_true chosen
    refine Or.inr ⟨?_, r, hr, facts⟩
    exact Table.count_eq_one hr chosen fun s hs chosen' => by
      obtain ⟨own, named, -⟩ := of_decide_eq_true chosen'
      exact congrArg Schema.key (Table.eq_of_clash hs hr (decide_eq_true
        (Or.inr ⟨own.trans facts.1.symm, named.trans facts.2.1.symm⟩)))

/-- Without an active repository of the name, its state is told. -/
theorem stateError_reachable
    (none : ∀ r ∈ db.repositories,
      ¬(r.ownerNamespaceId = ownerId ∧ r.slug = slug ∧ r.state = .active)) :
    db.repositoryStateError ownerId owner slug ≠ .unreachable := fun same => by
  obtain ⟨r, hr, facts⟩ := repositoryStateError_iff.mp same
  exact none r hr facts

end Errors

/-! ## Calls that do not panic -/

section Safe

variable {α β : Type}

/-- The call does not come to an `unreachable!`. -/
def Safe (result : Except StoreError α) : Prop := result ≠ .error .unreachable

theorem Safe.ok (value : α) : Safe (.ok value) := nofun

theorem Safe.error {error : StoreError} (other : error ≠ .unreachable) :
    Safe (.error error : Except StoreError α) := fun same => other (Except.error.inj same)

theorem Safe.bind {first : Except StoreError α} {next : α → Except StoreError β}
    (safe : Safe first) (rest : ∀ a, first = .ok a → Safe (next a)) : Safe (first >>= next) := by
  cases result : first with
  | ok a => exact rest a result
  | error error =>
      rw [result] at safe
      exact fun same => safe (congrArg _ (Except.error.inj same))

theorem Safe.required {found : Option α} {error : StoreError}
    (other : found = none → error ≠ .unreachable) : Safe (required found error) := by
  cases found with
  | none => exact Safe.error (other rfl)
  | some a => exact Safe.ok a

theorem Safe.ensure {condition : Prop} [Decidable condition] {error : StoreError}
    (other : ¬condition → error ≠ .unreachable) :
    Safe (ensure condition error : Except StoreError Unit) := by
  by_cases holds : condition
  · rw [ensure_of holds]
    exact Safe.ok _
  · rw [ensure_of_not holds]
    exact Safe.error (other holds)

theorem Safe.sqlite (result : Except Constraint α) : Safe (sqlite result) := by
  cases result with
  | ok a => exact Safe.ok a
  | error constraint => exact Safe.error nofun

theorem Safe.uniqueAs {error : StoreError} (other : error ≠ .unreachable)
    (result : Except Constraint α) : Safe (uniqueAs error result) := by
  cases result with
  | ok a => exact Safe.ok a
  | error constraint =>
      cases constraint with
      | unique => exact Safe.error other
      | check => exact Safe.error nofun

variable {db : Database}

theorem Safe.audit (event : Database.NewAuditEvent) : Safe (db.insertAuditEvent event) := by
  unfold Database.insertAuditEvent
  exact (Safe.sqlite _).bind fun _ _ => Safe.ok _

theorem Safe.namespaceId (owner : String) : Safe (db.activeNamespaceId owner) := by
  unfold Database.activeNamespaceId
  exact (Safe.required (by nofun)).bind fun _ _ => Safe.ok _

theorem Safe.access (owner slug : String) (actor : Option String) :
    Safe (db.repositoryIssueAccess owner slug actor) := by
  unfold Database.repositoryIssueAccess
  exact (Safe.required (by nofun)).bind fun _ _ => Safe.ok _

theorem Safe.accountOf (namespaceId : Nat) : Safe (db.namespaceAccountId namespaceId) := by
  unfold Database.namespaceAccountId
  exact (Safe.required (by nofun)).bind fun _ _ => Safe.ok _

theorem Safe.maintainer (namespaceId : Nat) (actor : String) :
    Safe (db.authorizeNamespaceMaintainer namespaceId actor) := by
  unfold Database.authorizeNamespaceMaintainer
  split
  · exact Safe.ok _
  · have active : Safe (db.activeAccountId actor) := by
      unfold Database.activeAccountId
      exact (Safe.required fun _ same => by cases same).bind fun _ _ => Safe.ok _
    exact active.bind fun _ _ => Safe.ensure fun _ same => by cases same

theorem Safe.denied {result : Except StoreError Unit} (safe : Safe result) :
    Safe (Database.denyAsPullRequest result) := by
  unfold Database.denyAsPullRequest
  split
  · exact Safe.error nofun
  · exact safe

/-- A repository that was not found in the active state. -/
theorem Safe.stateError {ownerId : Nat} {owner slug : String}
    (none : db.repositories.find (Database.repositoryInState ownerId slug .active) = none) :
    db.repositoryStateError ownerId owner slug ≠ .unreachable :=
  stateError_reachable fun r hr facts => Table.find_eq_none.mp none r hr (decide_eq_true facts)

/-- A change that found no active repository to change. -/
theorem Safe.countError {ownerId : Nat} {owner slug : String}
    (none : db.repositories.count (Database.repositoryInState ownerId slug .active) = 0) :
    db.repositoryStateError ownerId owner slug ≠ .unreachable := by
  refine stateError_reachable ?_
  rcases @count_inState db ownerId slug .active with ⟨-, absent⟩ | ⟨one, -⟩
  · exact absent
  · omega

end Safe

/-! ## The eight changes -/

section Changes

variable {db : Database}

theorem renameRepository_safe (owner oldSlug newSlug : String) (changedAt : Int)
    (actor correlationId : String) :
    Safe (db.renameRepository owner oldSlug newSlug changedAt actor correlationId) := by
  unfold Database.renameRepository
  refine (Safe.namespaceId owner).bind fun ownerId _ => ?_
  refine (Safe.uniqueAs (by nofun) _).bind fun repositories _ => ?_
  rcases @count_inState db ownerId oldSlug .active with ⟨none, -⟩ | ⟨one, -⟩
  · rw [none]
    exact Safe.error (Safe.countError none)
  · rw [one]
    exact Safe.audit _

theorem renameRepositoryForOwner_safe (owner oldSlug newSlug actor : String) (changedAt : Int)
    (correlationId : String) :
    Safe (db.renameRepositoryForOwner owner oldSlug newSlug actor changedAt correlationId) := by
  unfold Database.renameRepositoryForOwner
  refine (Safe.namespaceId owner).bind fun ownerId _ => ?_
  refine (Safe.denied (Safe.maintainer ownerId actor)).bind fun _ _ => ?_
  refine (Safe.uniqueAs (by nofun) _).bind fun repositories _ => ?_
  refine (Safe.ensure fun other => ?_).bind fun _ _ => Safe.audit _
  rcases @count_inState db ownerId oldSlug .active with ⟨none, -⟩ | ⟨one, -⟩
  · exact Safe.countError none
  · exact absurd one other

theorem archiveRepository_safe (owner slug : String) (archivedAt : Int)
    (actor correlationId : String) :
    Safe (db.archiveRepository owner slug archivedAt actor correlationId) := by
  unfold Database.archiveRepository
  refine (Safe.namespaceId owner).bind fun ownerId _ => ?_
  refine (Safe.sqlite _).bind fun repositories _ => ?_
  exact (Safe.ensure fun other => Safe.countError (not_not.mp other)).bind fun _ _ => Safe.audit _

theorem archiveRepositoryForActor_safe (owner slug actor : String) (changedAt : Int)
    (correlationId : String) :
    Safe (db.archiveRepositoryForActor owner slug actor changedAt correlationId) := by
  unfold Database.archiveRepositoryForActor
  refine (Safe.access owner slug (some actor)).bind fun access _ => ?_
  refine (Safe.ensure (by nofun)).bind fun _ _ => ?_
  exact (Safe.sqlite _).bind fun repositories _ => Safe.audit _

theorem setRepositoryVisibility_safe (owner slug visibility : String) (changedAt : Int)
    (actor correlationId : String) :
    Safe (db.setRepositoryVisibility owner slug visibility changedAt actor correlationId) := by
  unfold Database.setRepositoryVisibility
  refine (Safe.required (by nofun)).bind fun parsed _ => ?_
  refine (Safe.namespaceId owner).bind fun ownerId _ => ?_
  refine (Safe.sqlite _).bind fun repositories _ => ?_
  exact (Safe.ensure fun other => Safe.countError (not_not.mp other)).bind fun _ _ => Safe.audit _

theorem setRepositoryCollaborator_safe (owner slug username role : String) (changedAt : Int)
    (actor correlationId : String) :
    Safe (db.setRepositoryCollaborator owner slug username role changedAt actor
      correlationId) := by
  unfold Database.setRepositoryCollaborator
  refine (Safe.required (by nofun)).bind fun granted _ => ?_
  refine (Safe.namespaceId owner).bind fun ownerId _ => ?_
  refine (Safe.required Safe.stateError).bind fun repository _ => ?_
  refine (Safe.required (by nofun)).bind fun account _ => ?_
  refine (Safe.accountOf ownerId).bind fun ownAccount _ => ?_
  refine (Safe.ensure (by nofun)).bind fun _ _ => ?_
  exact (Safe.sqlite _).bind fun collaborators _ => Safe.audit _

theorem removeRepositoryCollaborator_safe (owner slug username : String) (changedAt : Int)
    (actor correlationId : String) :
    Safe (db.removeRepositoryCollaborator owner slug username changedAt actor
      correlationId) := by
  unfold Database.removeRepositoryCollaborator
  refine (Safe.namespaceId owner).bind fun ownerId _ => ?_
  refine (Safe.required Safe.stateError).bind fun repository _ => ?_
  refine (Safe.required (by nofun)).bind fun account _ => ?_
  refine (Safe.accountOf ownerId).bind fun ownAccount _ => ?_
  refine (Safe.ensure (by nofun)).bind fun _ _ => ?_
  exact (Safe.ensure (by nofun)).bind fun _ _ => Safe.audit _

theorem denyAsPullRequest_ok {result : Except StoreError Unit} {done : Unit}
    (ok : Database.denyAsPullRequest result = .ok done) : result = .ok () := by
  unfold Database.denyAsPullRequest at ok
  split at ok
  · cases ok
  · exact ok

/-- The one caller that does not ask for an active repository. -/
theorem unarchiveRepositoryForOwner_safe_iff (owner slug actor : String) (changedAt : Int)
    (correlationId : String) :
    Safe (db.unarchiveRepositoryForOwner owner slug actor changedAt correlationId) ↔
      ¬MaintainsActive db owner slug actor := by
  constructor
  · rintro safe ⟨ownerId, found, allowed, r, hr, own, named, active⟩
    have none : ∀ s ∈ db.repositories,
        ¬(s.ownerNamespaceId = ownerId ∧ s.slug = slug ∧ s.state = .archived) := by
      rintro s hs ⟨own', named', archived⟩
      obtain rfl : r = s := Table.eq_of_clash hr hs
        (decide_eq_true (Or.inr ⟨own.trans own'.symm, named.trans named'.symm⟩))
      rw [active] at archived
      cases archived
    have zero : db.repositories.count (fun s =>
        decide (s.ownerNamespaceId = ownerId ∧ s.slug = slug ∧ s.state = .archived)) = 0 :=
      List.countP_eq_zero.mpr fun s hs => by simpa using none s hs
    obtain ⟨repositories, updated⟩ : ∃ repositories, db.repositories.update
        (fun s => decide (s.ownerNamespaceId = ownerId ∧ s.slug = slug ∧ s.state = .archived))
        (fun s => { s with state := .active, archivedAt := .none }) = .ok repositories :=
      Table.update_of (fun _ _ => Iff.rfl) fun s hs chosen =>
        absurd (of_decide_eq_true chosen) (none s hs)
    refine safe ?_
    unfold Database.unarchiveRepositoryForOwner
    rw [found, ok_bind, allowed]
    simp only [Database.denyAsPullRequest, ok_bind, updated, sqlite]
    rw [ensure_of_not (by omega), repositoryStateError_iff.mpr ⟨r, hr, own, named, active⟩]
    rfl
  · intro refused
    unfold Database.unarchiveRepositoryForOwner
    refine (Safe.namespaceId owner).bind fun ownerId found => ?_
    refine (Safe.denied (Safe.maintainer ownerId actor)).bind fun _ allowed => ?_
    refine (Safe.sqlite _).bind fun repositories _ => ?_
    refine (Safe.ensure fun _ => ?_).bind fun _ _ => Safe.audit _
    refine stateError_reachable fun r hr facts => refused ?_
    exact ⟨ownerId, found, denyAsPullRequest_ok allowed, r, hr, facts⟩

/-- **A change of a repository panics exactly if it unarchives an active repository**, in every
state of the database and with all arguments. -/
theorem change_safe_iff (db : Database) (change : RepositoryChange) :
    Safe (change.transact db) ↔ ¬UnarchivesActive db change := by
  cases change with
  | renameRepository owner oldSlug newSlug changedAt actor correlationId =>
      exact iff_of_true (renameRepository_safe owner oldSlug newSlug changedAt actor correlationId) nofun
  | renameRepositoryForOwner owner oldSlug newSlug actor changedAt correlationId =>
      exact iff_of_true
        (renameRepositoryForOwner_safe owner oldSlug newSlug actor changedAt correlationId) nofun
  | archiveRepository owner slug archivedAt actor correlationId =>
      exact iff_of_true (archiveRepository_safe owner slug archivedAt actor correlationId) nofun
  | archiveRepositoryForActor owner slug actor changedAt correlationId =>
      exact iff_of_true
        (archiveRepositoryForActor_safe owner slug actor changedAt correlationId) nofun
  | unarchiveRepositoryForOwner owner slug actor changedAt correlationId =>
      exact unarchiveRepositoryForOwner_safe_iff owner slug actor changedAt correlationId
  | setRepositoryVisibility owner slug visibility changedAt actor correlationId =>
      exact iff_of_true
        (setRepositoryVisibility_safe owner slug visibility changedAt actor correlationId) nofun
  | setRepositoryCollaborator owner slug username role changedAt actor correlationId =>
      exact iff_of_true
        (setRepositoryCollaborator_safe owner slug username role changedAt actor correlationId) nofun
  | removeRepositoryCollaborator owner slug username changedAt actor correlationId =>
      exact iff_of_true
        (removeRepositoryCollaborator_safe owner slug username changedAt actor correlationId) nofun

end Changes

/-! Pole: `alice` creates a repository, and unarchives it before anybody has archived it. -/

def newRepository : List Operation :=
  [.session (.createInitialAdministrator
    { username := "alice", canonicalKey := "k1", fingerprint := "f1", recoveryHash := 0,
      createdAt := 0 }),
   .request "alice" (.createRepository
    { id := 1, owner := "alice", slug := "tit", objectFormat := .sha1,
      defaultBranch := "refs/heads/main", createdAt := 1, origin := .created,
      initialReferences := [], actor := "alice", correlationId := "c" })]

def unarchivesNew : RepositoryChange :=
  .unarchiveRepositoryForOwner "alice" "tit" "alice" 2 "c"

/-- The call comes to an `unreachable!`. -/
def panics (result : Except StoreError Database) : Bool :=
  match result with
  | .error .unreachable => true
  | _ => false

theorem panics_iff {result : Except StoreError Database} :
    panics result = true ↔ ¬Safe result := by
  unfold panics Safe
  split
  · simp
  · rename_i other
    simp only [Bool.false_eq_true, ne_eq, not_not, false_iff]
    exact other

theorem unarchivesNew_panics :
    ¬∀ operations db, run step .initial operations = some db →
      ∀ change : RepositoryChange, Safe (change.transact db) := by
  intro all
  have ends : (run step .initial newRepository).any
      (fun db => panics (unarchivesNew.transact db)) = true := by
    decide
  obtain ⟨db, ran, panicked⟩ := (Option.any_eq_true _ _).mp ends
  exact panics_iff.mp panicked (all newRepository db ran unarchivesNew)

end Tit.Directory
