/-
# DefaultBranch.System -- changing the default branch, step by step

`update_default_branch` holds the `git_operation` mutex, so that one call runs at a
time: it checks the request and stores the intent (`update`), moves `HEAD`
(`setHead`), and completes the intent, or abandons it when `HEAD` could not be moved.
Any step may fail, and the process may stop after any step; what is left behind is
settled by `recover`, which may itself stop after some of the intents.

The actions carry what the environment decides: the arguments of a request, the
clock, and whether the branch is found in the Git repository.
-/
import Tit.Store.DefaultBranch
import Tit.Theory.Run

namespace Tit.DefaultBranch

open Tit.Theory Tit.Store

set_option autoImplicit false

inductive RepositoryServiceError where
  | store (error : StoreError)
  | invalidName
  | git
  | invalidBranch
  | defaultBranchState
  deriving DecidableEq, Repr

/-- A store call whose failure is passed on. -/
def fromStore {α : Type} (result : Except StoreError α) : Except RepositoryServiceError α :=
  match result with
  | .ok value => .ok value
  | .error error => .error (.store error)

@[simp] theorem fromStore_eq_ok {α : Type} {result : Except StoreError α} {value : α} :
    fromStore result = .ok value ↔ result = .ok value := by
  cases result <;> simp [fromStore]

/-- What the running call does next. -/
inductive Stage where
  | setting
  | completing
  | abandoning
  deriving DecidableEq, Repr

structure Call where
  intentId : Identifier
  repositoryId : Identifier
  branch : String
  stage : Stage
  deriving DecidableEq, Repr

/-- The database, what `HEAD` of each Git repository points at (`none` outside:
there is no repository; `none` inside: no branch), and the call under way. -/
structure World where
  db : Database
  head : Identifier → Option (Option String)
  call : Option Call

structure Request where
  intentId : Identifier
  owner : String
  repository : String
  actor : String
  defaultBranch : String
  changedAt : Int

/-- `resolve_branch`: a name of at most 1024 bytes below `refs/heads/` that is found
and points at a commit. -/
def resolveBranch (name : String) (found : Bool) : Bool :=
  decide (name.toList.take 11 = "refs/heads/".toList) && decide (name.utf8ByteSize ≤ 1024) && found

/-- The first half of `update_default_branch`, up to the stored intent. -/
def beginUpdate (w : World) (request : Request) (found : Bool) :
    Except RepositoryServiceError World := do
  ensure (validateUsername request.owner = true) .invalidName
  ensure (validateSlug request.repository = true) .invalidName
  ensure (validateUsername request.actor = true) .invalidName
  let (repositoryId, previous) ← fromStore
    (w.db.repositorySettings request.owner request.repository request.actor)
  let head ← required (w.head repositoryId) .git
  ensure (resolveBranch request.defaultBranch found = true) .invalidBranch
  ensure (head = some previous) .defaultBranchState
  let db ← fromStore (w.db.beginRepositoryDefaultBranch
    { id := request.intentId, owner := request.owner, slug := request.repository,
      actor := request.actor, previousBranch := previous,
      defaultBranch := request.defaultBranch, changedAt := request.changedAt })
  pure { w with
    db
    call := some
      { intentId := request.intentId, repositoryId, branch := request.defaultBranch,
        stage := .setting } }

/-- `set_default_branch`; a branch that is gone makes it fail. -/
def setHead (w : World) (call : Call) (found : Bool) : World :=
  if resolveBranch call.branch found then
    { w with
      head := Function.update w.head call.repositoryId (some (some call.branch))
      call := some { call with stage := .completing } }
  else { w with call := some { call with stage := .abandoning } }

/-! ## Recovery -/

/-- What `recover` does with one intent. -/
def settle (w : World) (intent : RepositoryDefaultBranchIntent) :
    Except RepositoryServiceError World := do
  let head ← required (w.head intent.repositoryId) .git
  if head = some intent.previousRefName then do
    let db ← fromStore (w.db.abandonRepositoryDefaultBranch intent.id)
    pure { w with db }
  else if head = some intent.proposedRefName then do
    let db ← fromStore (w.db.completeRepositoryDefaultBranch intent.id)
    pure { w with db }
  else .error .defaultBranchState

/-- Settle the intents in order; the first failure ends it and keeps what was done. -/
def recoverIntents (w : World) :
    List RepositoryDefaultBranchIntent → World × Option RepositoryServiceError
  | [] => (w, none)
  | intent :: rest =>
      match settle w intent with
      | .ok w' => recoverIntents w' rest
      | .error error => (w, some error)

def recover (w : World) : World × Option RepositoryServiceError :=
  recoverIntents w w.db.incompleteRepositoryDefaultBranches

/-! ## Steps -/

inductive Action where
  | update (request : Request) (found : Bool)
  | setHead (found : Bool)
  | setHeadFails
  | complete
  | completeFails
  | abandon
  | abandonFails
  | crash
  | recover (limit : Nat)

/-- The call under way, when it is at this stage. -/
def World.callAt (w : World) (stage : Stage) : Option Call :=
  w.call.filter fun call => decide (call.stage = stage)

def step (w : World) : Action → Option World
  | .update request found =>
      match w.call with
      | none => some (committed w (beginUpdate w request found))
      | some _ => none
  | .setHead found => (w.callAt .setting).map fun call => DefaultBranch.setHead w call found
  | .setHeadFails =>
      (w.callAt .setting).map fun call =>
        { w with call := some { call with stage := .abandoning } }
  | .complete =>
      (w.callAt .completing).map fun call =>
        { w with
          db := committed w.db (w.db.completeRepositoryDefaultBranch call.intentId)
          call := none }
  | .completeFails => (w.callAt .completing).map fun _ => { w with call := none }
  | .abandon =>
      (w.callAt .abandoning).map fun call =>
        { w with
          db := committed w.db (w.db.abandonRepositoryDefaultBranch call.intentId)
          call := none }
  | .abandonFails => (w.callAt .abandoning).map fun _ => { w with call := none }
  | .crash => some { w with call := none }
  | .recover limit =>
      match w.call with
      | none => some (recoverIntents w (w.db.incompleteRepositoryDefaultBranches.take limit)).1
      | some _ => none

/-- A state to start from: nothing is under way and every stored branch is where
`HEAD` points. -/
structure Settled extends World where
  idle : call = none
  empty : ∀ intent, intent ∉ db.repositoryDefaultBranchIntents
  agrees : ∀ d ∈ db.repositoryDefaultBranches, head d.repositoryId = some (some d.refName)

end Tit.DefaultBranch
