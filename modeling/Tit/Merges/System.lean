/-
# Merges.System -- a merge from its first look to its end

The system of pushes and merges, with what its merges leave out: `merge` reads the pull request,
the rights of its actor, the base branch, the head branch and the comparison one after another,
while pushes go on.  The other transactions of the store run between any two steps; those that
open and revise pull requests hold `git_operation`, as a merge does.

Three lists are not stored anywhere.  `begun` are the merges whose intent was stored, with what
they had read; `moves` are the reference transactions; `found` are the references that
recovery, or a merge whose own transaction failed, found at the proposed value.
-/
import Tit.Git.Read
import Tit.Operations.Transition
import Tit.Policy.Repository
import Tit.PullRequests.History

namespace Tit.Merges

open Tit.Theory Tit.Theory.Text Tit.Store Tit.Git Tit.Operations Tit.Policy

set_option autoImplicit false

/-! ## What a merge prepares -/

structure Commit where
  tree : ObjectId
  parents : List ObjectId
  actor : String
  createdAt : Int
  message : Bytes
  deriving DecidableEq, Repr

/-- Identifiers are digests, so what an identifier names is a fixed function. -/
structure Library extends Gix where
  contents : Objects
  mergedTree : ObjectId → ObjectId → Except ReadError ObjectId
  commitId : Commit → ObjectId

variable {graph : ObjectGraph}

/-- The objects of a repository. -/
def objectsOf (library : Library) (graph : ObjectGraph) (git : GitRepository) : Objects := fun id =>
  if graph.stored git id then library.contents id else none

def mergeMessage (p : PullRequest) : Bytes :=
  asciiBytes "Merge pull request #" ++ decimal p.number ++ asciiBytes " from " ++ p.headRef ++
    [newline, newline] ++ p.title.toByteArray.data.toList

/-- `write_merge_commit`. -/
def mergeCommit (library : Library) (base head : ObjectId) (actor : String) (createdAt : Int)
    (message : Bytes) : Except ReadError Commit := do
  let conflicts ← library.conflicts base head
  ensure (conflicts = false) .git
  let tree ← library.mergedTree base head
  pure { tree, parents := [base, head], actor, createdAt, message }

/-- The new target that `merge` comes to. -/
def newTarget (library : Library) (objects : Objects) (request : NewPullRequestMerge)
    (message : Bytes) : Option ObjectId :=
  match comparison ReadLimits.default objects library.toGix request.oldTarget
      request.headTarget with
  | .error _ => none
  | .ok c =>
      match request.method, c.mergeability with
      | .fastForward, .fastForward => some request.headTarget
      | .mergeCommit, .clean =>
          (mergeCommit library request.oldTarget request.headTarget request.actor request.createdAt
            message).toOption.map library.commitId
      | _, _ => none

/-! ## Reading -/

/-- The arguments of `merge`, and the pull request that it found. -/
structure Call where
  owner : String
  repository : String
  actor : String
  method : MergeMethod
  repositoryId : Identifier
  pullRequest : PullRequest
  revision : PullRequestRevision

def Call.path (call : Call) : RepositoryPath := .managed call.repositoryId

/-- How far the reading has come.  The repository is the one that had the head there. -/
inductive Reading where
  | detailed (call : Call)
  | authorized (call : Call)
  | based (call : Call) (base : ObjectId)
  | headed (call : Call) (base head : ObjectId) (git : GitRepository)
      (there : git.refs call.pullRequest.headRef = some head)

def Reading.call : Reading → Call
  | .detailed call | .authorized call | .based call _ | .headed call _ _ _ _ => call

/-- A merge with what it has read. -/
structure Plan (library : Library) (graph : ObjectGraph) where
  merge : Merge graph
  headRef : RefName
  message : Bytes
  headIn : GitRepository
  comparedIn : GitRepository
  head : headIn.refs headRef = some merge.request.headTarget
  prepared : newTarget library (objectsOf library graph comparedIn) merge.request message =
    some merge.request.newTarget

/-- A merge whose intent was stored in this database. -/
structure Begun (library : Library) (graph : ObjectGraph) extends Plan library graph where
  db : Database
  began : (db.beginPullRequestMerge merge.request merge.intent).toOption.isSome = true

/-- A reference transaction: the repository before it was at the old values. -/
structure Move where
  path : RepositoryPath
  commands : Commands
  before : GitRepository
  matched : before.refsMatch commands.initial = true

/-- The value of a reference, which is null when there is no reference. -/
def valueAt (git : GitRepository) (name : RefName) : ObjectId := (git.refs name).getD ⟨0⟩

/-- A reference of an intent was seen at its proposed value. -/
structure Finding where
  id : Identifier
  path : RepositoryPath
  entry : RefName × ObjectId
  git : GitRepository
  there : valueAt git entry.1 = entry.2

structure World (library : Library) (graph : ObjectGraph) where
  server : Operations.World graph
  reading : Option Reading
  plan : Option (Plan library graph)
  begun : List (Begun library graph)
  moves : List Move
  found : List Finding

variable {library : Library}

/-- Nobody holds `git_operation`. -/
def unlocked (w : World library graph) : Bool :=
  match w.reading, w.server.merge with
  | none, .idle => true
  | _, _ => false

/-- `merge` up to its first read. -/
def readDetail (w : World library graph) (owner repository : String) (number : Nat)
    (actor : String) (method : MergeMethod) : Option (World library graph) :=
  let db := w.server.disk.db
  match w.server.mode, unlocked w, db.incompletePullRequestRefIntents,
      db.repositoryIssueAccess owner repository (some actor) with
  | .up, true, [], .ok access =>
      if PullRequests.validateContext owner repository actor && decide (1 ≤ number) &&
          access.canRead then
        match db.pullRequestNumbered access.repository.id number with
        | none => none
        | some p =>
            match db.latestRevision p.id with
            | none => none
            | some r =>
                if p.state = .open then
                  some { w with
                    reading := some (.detailed ⟨owner, repository, actor, method,
                      access.repository.id, p, r⟩) }
                else none
      else none
  | _, _, _, _ => none

def readRights (w : World library graph) : Option (World library graph) :=
  match w.reading with
  | some (.detailed call) =>
      if (authorizeMerge w.server.disk.db call.actor call.owner call.repository).toOption.isSome then
        some { w with reading := some (.authorized call) }
      else none
  | _ => none

/-- The target of a branch (`resolve_branch`). -/
def readBase (w : World library graph) : Option (World library graph) :=
  match w.reading with
  | some (.authorized call) =>
      match (w.server.disk.git call.path).bind fun git => git.refs call.pullRequest.baseRef with
      | none => none
      | some base => some { w with reading := some (.based call base) }
  | _ => none

def readHead (w : World library graph) : Option (World library graph) :=
  match w.reading with
  | some (.based call base) =>
      match w.server.disk.git call.path with
      | none => none
      | some git =>
          match there : git.refs call.pullRequest.headRef with
          | none => none
          | some head => some { w with reading := some (.headed call base head git there) }
  | _ => none

/-- The request that the call has come to. -/
def requestOf (call : Call) (base head target : ObjectId) (createdAt : Int) :
    NewPullRequestMerge where
  owner := call.owner
  repository := call.repository
  number := call.pullRequest.number
  revision := call.revision.number
  actor := call.actor
  method := call.method
  baseRef := call.pullRequest.baseRef
  oldTarget := base
  headTarget := head
  newTarget := target
  createdAt := createdAt

deriving instance DecidableEq for NewPullRequestMerge

/-- The merge is what the call comes to: the branches are at the revision, and the target is the
one for its method. -/
def Prepares (call : Call) (base head : ObjectId) (m : Merge graph) : Prop :=
  base = call.revision.baseObjectId ∧ head = call.revision.headObjectId ∧
    m.request = requestOf call base head m.request.newTarget m.request.createdAt ∧
    m.repositoryId = call.repositoryId

instance (call : Call) (base head : ObjectId) (m : Merge graph) :
    Decidable (Prepares call base head m) :=
  inferInstanceAs (Decidable (_ ∧ _))

/-- The plan for the call, when its comparison in this repository allows the method. -/
def planFor (library : Library) (call : Call) (base head : ObjectId) (git git' : GitRepository)
    (there : git.refs call.pullRequest.headRef = some head) (m : Merge graph)
    (prepares : Prepares call base head m) : Option (Plan library graph) :=
  if prepared : newTarget library (objectsOf library graph git') m.request
      (mergeMessage call.pullRequest) = some m.request.newTarget then
    some
      { merge := m
        headRef := call.pullRequest.headRef
        message := mergeMessage call.pullRequest
        headIn := git
        comparedIn := git'
        head := by rw [prepares.2.2.1]; exact there
        prepared }
  else none

def prepare (w : World library graph) (m : Merge graph) : Option (World library graph) :=
  match w.reading with
  | some (.headed call base head git there) =>
      match w.server.disk.git call.path with
      | none => none
      | some git' =>
          if prepares : Prepares call base head m then
            (planFor library call base head git git' there m prepares).map fun plan =>
              { w with reading := none, plan := some plan, server := { w.server with merge := .read m } }
          else none
  | _ => none

/-! ## What is noted -/

def newBegun (w : World library graph) (a : Operations.Action graph) : List (Begun library graph) :=
  match a, w.server.merge, w.plan with
  | .mergeNext, .read _, some plan =>
      if began : (w.server.disk.db.beginPullRequestMerge plan.merge.request
          plan.merge.intent).toOption.isSome = true then
        [{ plan with db := w.server.disk.db, began }]
      else []
  | _, _, _ => []

def moveOf (disk : Disk) (path : RepositoryPath) (commands : Commands) : List Move :=
  match disk.git path with
  | none => []
  | some git =>
      if matched : git.refsMatch commands.initial = true then [⟨path, commands, git, matched⟩]
      else []

def newMoves (w : World library graph) : Operations.Action graph → List Move
  | .mergeNext =>
      match w.server.merge with
      | .committing m => moveOf w.server.disk m.path m.commands
      | _ => []
  | .pushNext =>
      match w.server.push with
      | .committing push => moveOf w.server.disk push.path push.commands
      | _ => []
  | _ => []

def findingOf (disk : Disk) (path : RepositoryPath) (id : Identifier)
    (entry : RefName × ObjectId) : List Finding :=
  match disk.git path with
  | none => []
  | some git => if there : valueAt git entry.1 = entry.2 then [⟨id, path, entry, git, there⟩] else []

/-- What recovery finds with the next reference. -/
def recoveryFound (disk : Disk) : Recovery → List Finding
  | .proposed i _ (e :: _) _ => findingOf disk i.repositoryPath i.id e
  | _ => []

def newFound (w : World library graph) : Operations.Action graph → List Finding
  | .mergeNext =>
      match w.server.merge with
      | .refused m =>
          findingOf w.server.disk m.path m.id (m.request.baseRef, m.request.newTarget)
      | _ => []
  | .pushNext =>
      match w.server.push with
      | .recovering at' => recoveryFound w.server.disk at'
      | _ => []
  | _ => []

/-! ## The system -/

inductive Action (graph : ObjectGraph) where
  | operations (action : Operations.Action graph)
  | readDetail (owner repository : String) (number : Nat) (actor : String) (method : MergeMethod)
  | readRights
  | readBase
  | readHead
  | prepare (m : Merge graph)
  /-- A check of the reading fails. -/
  | giveUp
  | transact (operation : PullRequests.Operation)

/-- A merge starts with its reading. -/
def permitted : Operations.Action graph → Bool
  | .startMerge _ => false
  | _ => true

def isCrash : Operations.Action graph → Bool
  | .crash => true
  | _ => false

/-- The world with what the step of the server adds to the lists. -/
def noting (w : World library graph) (a : Operations.Action graph)
    (server : Operations.World graph) : World library graph where
  server := server
  reading := if isCrash a then none else w.reading
  plan := w.plan
  begun := newBegun w a ++ w.begun
  moves := newMoves w a ++ w.moves
  found := newFound w a ++ w.found

def stepServer (w : World library graph) (a : Operations.Action graph) :
    Option (World library graph) :=
  if permitted a then (Operations.step w.server a).map (noting w a) else none

/-- Intents of pull request references are written under `git_operation`, and Git intents only
by the steps of the server. -/
def mayTransact (w : World library graph) : PullRequests.Operation → Bool
  | .beginOpen _ | .beginRevision _ _ | .completeRefIntent _ | .abandonRefIntent _ => unlocked w
  | .edit _ | .review _ | .setState _ _ _ _ _ _ | .elsewhere _ => true
  | .beginMerge _ _ | .beginGitIntent _ | .markObjectsPromoted _ _ | .completeGitIntent _
  | .abandonGitIntent _ => false

def withDb (w : World library graph) (db : Database) : World library graph :=
  { w with server := { w.server with disk := { w.server.disk with db } } }

def step (w : World library graph) : Action graph → Option (World library graph)
  | .operations a => stepServer w a
  | .readDetail owner repository number actor method =>
      readDetail w owner repository number actor method
  | .readRights => readRights w
  | .readBase => readBase w
  | .readHead => readHead w
  | .prepare m => prepare w m
  | .giveUp => some { w with reading := none }
  | .transact operation =>
      if mayTransact w operation then
        some (withDb w (committed w.server.disk.db (operation.transact w.server.disk.db)))
      else none

/-- A state to start from: nothing is under way, and there are no pull requests yet. -/
structure Fresh (library : Library) (graph : ObjectGraph) extends World library graph where
  idlePush : server.push = .idle
  idleMerge : server.merge = .idle
  noReading : reading = none
  noPlan : plan = none
  noBegun : begun = []
  noMove : moves = []
  noFinding : found = []
  noPullRequest : ∀ p, p ∉ server.disk.db.pullRequests
  noRevision : ∀ r, r ∉ server.disk.db.pullRequestRevisions
  noReview : ∀ v, v ∉ server.disk.db.pullRequestReviews
  noIntent : ∀ i, i ∉ server.disk.db.pullRequestRefIntents
  noMerge : ∀ m, m ∉ server.disk.db.pullRequestMergeIntents

end Tit.Merges
