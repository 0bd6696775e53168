/-
# PullRequests.System -- opening and revising pull requests, step by step

`open` and `revise` hold the `git_operation` mutex, so that one such call runs at a
time.  A call first settles the pending intents (`recover_inner`); `revise` then reads
the pull request; both store an intent, move `refs/pull/N/head` and complete the
intent, or abandon it when the reference could not be moved.  Edits and changes of
state take no mutex and run between any two of these steps.

A call may fail after any step and the process may stop after any step (`stop`); what
recovery had done until then stays done (`recoverUntil`).  The actions carry what the
environment decides: the arguments of a request, the random identifiers, the clock and
the commits that the branches point at.
-/
import Tit.Store.PullRequest
import Tit.Theory.Run

namespace Tit.PullRequests

open Tit.Theory Tit.Store

set_option autoImplicit false

inductive PullRequestError where
  | store (error : StoreError)
  | context
  | content
  | branch
  | state
  | unchanged
  | git
  | mixedRecovery (id : Identifier)
  deriving DecidableEq, Repr

/-- A store call whose failure is passed on. -/
def fromStore {α : Type} (result : Except StoreError α) : Except PullRequestError α :=
  match result with
  | .ok value => .ok value
  | .error error => .error (.store error)

@[simp] theorem fromStore_eq_ok {α : Type} {result : Except StoreError α} {value : α} :
    fromStore result = .ok value ↔ result = .ok value := by
  cases result <;> simp [fromStore]

structure NewPullRequest where
  owner : String
  repository : String
  actor : String
  title : String
  body : String
  baseRef : RefName
  headRef : RefName

structure Revise where
  owner : String
  repository : String
  number : Nat
  actor : String

/-- What the call that holds the mutex does next. -/
inductive Stage where
  | opening (request : NewPullRequest)
  | reading (request : Revise)
  | revising (request : Revise) (current : PullRequest)
  | applying (intent : PullRequestRefIntent)
  | completing (intent : PullRequestRefIntent)
  | abandoning (intent : PullRequestRefIntent)

/-- The database, the references `refs/pull/N/head` of each Git repository (`none`:
there is no repository), and the call under way. -/
structure World where
  db : Database
  refs : Identifier → Option (Nat → Option ObjectId)
  call : Option Stage

/-! ## Checks of a request -/

def validateContext (owner repository actor : String) : Bool :=
  validateUsername owner && validateSlug repository && validateUsername actor

def validateContent (title body : String) : Bool :=
  bytesBetween 1 200 title.utf8ByteSize && title.toList.all (fun c => c ≠ '\r' && c ≠ '\n') &&
    bytesBetween 0 262144 body.utf8ByteSize

def validateBranch (name : RefName) : Bool :=
  (asciiBytes "refs/heads/").isPrefixOf name && decide (name.length ≤ 1024) &&
    name.all fun byte => decide (byte < 128)

def NewPullRequest.valid (request : NewPullRequest) : Bool :=
  validateContext request.owner request.repository request.actor &&
    validateContent request.title request.body && validateBranch request.baseRef &&
    validateBranch request.headRef

def Revise.valid (request : Revise) : Bool :=
  validateContext request.owner request.repository request.actor && decide (1 ≤ request.number)

/-! ## The reference of a pull request -/

/-- `reference_target` of `refs/pull/N/head`. -/
def World.pullRef (w : World) (repositoryId : Identifier) (number : Nat) :
    Option (Option ObjectId) :=
  (w.refs repositoryId).map fun refs => refs number

def World.setRef (w : World) (repositoryId : Identifier) (number : Nat) (head : ObjectId) :
    World :=
  { w with
    refs := fun id =>
      if id = repositoryId then
        (w.refs id).map fun refs n => if n = number then some head else refs n
      else w.refs id }

/-- `update_reference`: the reference must still be at the old head. -/
def updateReference (w : World) (intent : PullRequestRefIntent) : Except PullRequestError World :=
  if w.pullRef intent.repositoryId intent.pullRequestNumber = some intent.oldHeadObjectId then
    .ok (w.setRef intent.repositoryId intent.pullRequestNumber intent.headObjectId)
  else .error .git

/-- Where `apply_intent` goes on when the reference could not be moved. -/
def afterFailure (w : World) (intent : PullRequestRefIntent) : Option Stage :=
  match w.pullRef intent.repositoryId intent.pullRequestNumber with
  | none => none
  | some current =>
      if current = some intent.headObjectId then some (.completing intent)
      else if current = intent.oldHeadObjectId then some (.abandoning intent)
      else none

def applyIntent (w : World) (intent : PullRequestRefIntent) : World :=
  match updateReference w intent with
  | .ok w' => { w' with call := some (.completing intent) }
  | .error _ => { w with call := afterFailure w intent }

/-! ## Recovery -/

/-- The first half of `recover_intent`: the reference is brought to the new head. -/
def recoverReference (w : World) (intent : PullRequestRefIntent) :
    Except PullRequestError World := do
  let current ← required (w.pullRef intent.repositoryId intent.pullRequestNumber) .git
  if current = some intent.headObjectId then .ok w
  else if current = intent.oldHeadObjectId then updateReference w intent
  else .error (.mixedRecovery intent.id)

/-- Settle the intents in order; the first failure ends it and keeps what was done. -/
def recoverIntents (w : World) :
    List PullRequestRefIntent → World × Option PullRequestError
  | [] => (w, none)
  | intent :: rest =>
      match recoverReference w intent with
      | .error error => (w, some error)
      | .ok moved =>
          match moved.db.completePullRequestRefIntent intent.id with
          | .error error => (moved, some (.store error))
          | .ok db => recoverIntents { moved with db } rest

/-- `recover_inner`. -/
def recover (w : World) : World × Option PullRequestError :=
  recoverIntents w w.db.incompletePullRequestRefIntents

/-- Recovery that ends after some of the intents, and perhaps after the reference of
the next one. -/
def recoverUntil (w : World) (limit : Nat) (moved : Bool) : World :=
  let intents := w.db.incompletePullRequestRefIntents
  let (w', failed) := recoverIntents w (intents.take limit)
  match failed, moved, (intents.drop limit).head? with
  | none, true, some next => committed w' (recoverReference w' next)
  | _, _, _ => w'

/-! ## The stored intents -/

/-- `random_id` gives an identifier that no pull request has. -/
def unusedPullRequestId (db : Database) (id : Identifier) : Bool :=
  !(db.pullRequests.any fun p => decide (p.id = id)) &&
    !(db.pullRequestRefIntents.any fun i => decide (i.pullRequestId = id))

/-- The Git repository that the request names. -/
def requireRepository (w : World) (owner repository actor : String) :
    Except PullRequestError Unit := do
  let access ← fromStore (w.db.repositoryIssueAccess owner repository (some actor))
  let _ ← required (w.refs access.repository.id) .git
  pure ()

def beginOpen (w : World) (request : NewPullRequest) (intentId pullRequestId : Identifier)
    (base head : ObjectId) (createdAt : Int) : Except PullRequestError World := do
  requireRepository w request.owner request.repository request.actor
  let (db, intent) ← fromStore (w.db.beginPullRequestOpen
    { id := intentId, pullRequestId, owner := request.owner, repository := request.repository,
      actor := request.actor, title := request.title, body := request.body,
      baseRef := request.baseRef, headRef := request.headRef, baseObjectId := base,
      headObjectId := head, createdAt })
  pure { w with db, call := some (.applying intent) }

/-- The read of `revise`, between recovery and the stored intent. -/
def readCurrent (w : World) (request : Revise) : Except PullRequestError PullRequest := do
  let current ← fromStore
    (w.db.pullRequest request.owner request.repository request.number (some request.actor))
  ensure (current.state = .open) (.store .pullRequestState)
  pure current

def beginRevision (w : World) (request : Revise) (current : PullRequest)
    (intentId : Identifier) (base head : ObjectId) (createdAt : Int) :
    Except PullRequestError World := do
  requireRepository w request.owner request.repository request.actor
  ensure (¬(head = current.headObjectId ∧ base = current.baseObjectId)) .unchanged
  let (db, intent) ← fromStore (w.db.beginPullRequestRevision request.number
    { id := intentId, pullRequestId := current.id, owner := request.owner,
      repository := request.repository, actor := request.actor, title := current.title,
      body := current.body, baseRef := current.baseRef, headRef := current.headRef,
      baseObjectId := base, headObjectId := head, createdAt })
  pure { w with db, call := some (.applying intent) }

/-! ## Steps -/

structure SetState where
  owner : String
  repository : String
  number : Nat
  actor : String
  state : PullRequestState
  changedAt : Int

inductive Action where
  | «open» (request : NewPullRequest)
  | revise (request : Revise)
  | beginOpen (intentId pullRequestId : Identifier) (base head : ObjectId) (createdAt : Int)
  | readCurrent
  | beginRevision (intentId : Identifier) (base head : ObjectId) (createdAt : Int)
  | applyIntent
  /-- `update_reference` reports a failure, before or after it moved the reference. -/
  | applyIntentFails (moved : Bool)
  | complete
  | abandon
  | stop
  | recoverUntil (limit : Nat) (moved : Bool)
  | edit (edit : PullRequestEdit)
  | setState (request : SetState)

/-- A call that has just taken the mutex: it goes on once recovery has succeeded. -/
def enter (w : World) (stage : Stage) : World :=
  match recover w with
  | (w', none) => { w' with call := some stage }
  | (w', some _) => w'

/-- The result of a step of the call under way; a failure ends the call. -/
def continued (w : World) (result : Except PullRequestError World) : World :=
  match result with
  | .ok w' => w'
  | .error _ => { w with call := none }

def step (w : World) : Action → Option World
  | .open request =>
      match w.call with
      | none => if request.valid then some (enter w (.opening request)) else none
      | some _ => none
  | .revise request =>
      match w.call with
      | none => if request.valid then some (enter w (.reading request)) else none
      | some _ => none
  | .beginOpen intentId pullRequestId base head createdAt =>
      match w.call with
      | some (.opening request) =>
          if unusedPullRequestId w.db pullRequestId then
            some (continued w (beginOpen w request intentId pullRequestId base head createdAt))
          else none
      | _ => none
  | .readCurrent =>
      match w.call with
      | some (.reading request) =>
          some (continued w do
            let current ← readCurrent w request
            pure { w with call := some (.revising request current) })
      | _ => none
  | .beginRevision intentId base head createdAt =>
      match w.call with
      | some (.revising request current) =>
          some (continued w (beginRevision w request current intentId base head createdAt))
      | _ => none
  | .applyIntent =>
      match w.call with
      | some (.applying intent) => some (applyIntent w intent)
      | _ => none
  | .applyIntentFails moved =>
      match w.call with
      | some (.applying intent) =>
          let w' := if moved then committed w (updateReference w intent) else w
          some { w' with call := afterFailure w' intent }
      | _ => none
  | .complete =>
      match w.call with
      | some (.completing intent) =>
          some { w with
            db := committed w.db (w.db.completePullRequestRefIntent intent.id)
            call := none }
      | _ => none
  | .abandon =>
      match w.call with
      | some (.abandoning intent) =>
          some { w with
            db := committed w.db (w.db.abandonPullRequestRefIntent intent.id)
            call := none }
      | _ => none
  | .stop => some { w with call := none }
  | .recoverUntil limit moved =>
      match w.call with
      | none => some (recoverUntil w limit moved)
      | some _ => none
  | .edit edit =>
      if validateContext edit.owner edit.repository edit.actor &&
          validateContent edit.title edit.body && decide (1 ≤ edit.number) then
        some { w with db := committed w.db (w.db.editPullRequest edit) }
      else none
  | .setState request =>
      if validateContext request.owner request.repository request.actor &&
          decide (1 ≤ request.number) && decide (request.state ≠ .merged) then
        some { w with
          db := committed w.db (w.db.setPullRequestState request.owner request.repository
            request.number request.actor request.state request.changedAt) }
      else none

/-- A state to start from: no pull requests yet, and no reference of one. -/
structure Vacant extends World where
  idle : call = none
  noPullRequest : ∀ p, p ∉ db.pullRequests
  noRevision : ∀ r, r ∉ db.pullRequestRevisions
  noIntent : ∀ i, i ∉ db.pullRequestRefIntents
  noReference : ∀ id refs n, refs ∈ toWorld.refs id → refs n = none

end Tit.PullRequests
