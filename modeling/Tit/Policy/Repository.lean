/-
# Policy.Repository -- which operations the policy allows

`RepositoryPolicy` decides reads, writes and maintenance over SSH and HTTP from the
record of `repository_authorization`, and the reference changes of a push from that
record and the stored default branch.
-/
import Tit.Store.Visibility
import Tit.Store.DefaultBranch

namespace Tit.Policy

open Tit.Theory Tit.Store

set_option autoImplicit false

inductive PolicyError where
  | store (error : StoreError)
  | denied
  deriving DecidableEq, Repr

inductive RepositoryOperation where
  | read
  | write
  | maintain
  deriving DecidableEq, Repr

inductive RefChange where
  | create
  | fastForward
  | force
  | delete
  | tagUpdate
  deriving DecidableEq, Repr

/-- `policy::allows`. -/
def allows (record : RepositoryAuthorizationRecord) (operation : RepositoryOperation) : Bool :=
  decide (record.repository.state = .active) &&
    match operation with
    | .read => decide (record.repository.visibility = .pub) || record.role.isSome
    | .write =>
        decide (record.role = some .owner ∨ record.role = some .maintainer ∨
          record.role = some .writer)
    | .maintain => decide (record.role = some .owner ∨ record.role = some .maintainer)

/-- A store call whose failure is passed on. -/
def fromStore {α : Type} (result : Except StoreError α) : Except PolicyError α :=
  match result with
  | .ok value => .ok value
  | .error error => .error (.store error)

@[simp] theorem fromStore_eq_ok {α : Type} {result : Except StoreError α} {value : α} :
    fromStore result = .ok value ↔ result = .ok value := by
  cases result <;> simp [fromStore]

def authorize (db : Database) (actor : Option String) (owner repository : String)
    (operation : RepositoryOperation) : Except PolicyError RepositoryRecord := do
  let record ← fromStore (db.repositoryAuthorization owner repository actor)
  ensure (allows record operation = true) .denied
  pure record.repository

def authorizeRefChange (db : Database) (actor owner repository : String) (refName : RefName)
    (change : RefChange) : Except PolicyError RepositoryRecord := do
  let record ← fromStore (db.repositoryAuthorization owner repository (some actor))
  ensure (allows record .write = true) .denied
  let defaultBranch ← fromStore (db.repositoryDefaultBranch owner repository)
  let isProtected := decide (refName = defaultBranch.toByteArray.data.toList)
  ensure (¬(change = .force ∨ (isProtected = true ∧ change = .delete) ∨
    (isProtected = true ∧ ¬allows record .maintain = true))) .denied
  pure record.repository

def authorizeMerge (db : Database) (actor owner repository : String) :
    Except PolicyError RepositoryRecord :=
  authorize db (some actor) owner repository .maintain

/-- The actor is allowed the operation. -/
def Allowed (db : Database) (actor : Option String) (owner repository : String)
    (operation : RepositoryOperation) : Prop :=
  ∃ record, authorize db actor owner repository operation = .ok record

theorem allowed_iff {db : Database} {actor : Option String} {owner repository : String}
    {operation : RepositoryOperation} :
    Allowed db actor owner repository operation ↔
      ∃ record, db.repositoryAuthorization owner repository actor = .ok record ∧
        allows record operation = true := by
  unfold Allowed authorize
  simp only [bind_eq_ok, fromStore_eq_ok, ensure_eq_ok, pure_eq_ok]
  constructor
  · rintro ⟨_, record, found, _, allowed, -⟩
    exact ⟨record, found, allowed⟩
  · rintro ⟨record, found, allowed⟩
    exact ⟨record.repository, record, found, ⟨⟩, allowed, rfl⟩

end Tit.Policy
