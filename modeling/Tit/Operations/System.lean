/-
# Operations.System -- pushes and merges of one server, step by step

Pushes hold `push_permit` and merges hold `git_operation`, so at most one push and one
merge run at a time, each in its own lane, and their steps interleave.  A step is one
transaction of the store, one write to a repository, or the reading of one reference.
A push whose step fails recovers the incomplete intents of the whole instance in its
lane, one reference after another, while the merge lane goes on.

The process may stop at any point, which ends both lanes; `boot` runs the recovery of the
start-up, before any push or merge, and the server is up only after it has succeeded.
`startRecovery` is the recovery of the SSH server, which the web server does not wait for.

Object identifiers are digests, so what an object links to and what a pack of a name holds
are fixed functions (`ObjectGraph`).  The policy on a push may refuse at `pushFails`.
-/
import Tit.Git.ReceivePack
import Tit.Theory.Walk
import Tit.PullRequests.System

namespace Tit.Operations

open Tit.Theory Tit.Store Tit.Git

set_option autoImplicit false

structure ObjectGraph where
  /-- The tree and the parents of a commit, the entries of a tree except gitlinks, the
  target of a tag. -/
  links : ObjectId → List ObjectId
  packed : PackName → List ObjectId

variable {graph : ObjectGraph}

def maxWalkObjects : Nat := 500000

/-- The object is in the repository. -/
def ObjectGraph.stored (graph : ObjectGraph) (git : GitRepository) (id : ObjectId) : Bool :=
  decide (id ∈ git.loose) || git.packs.any fun p => decide (id ∈ graph.packed p)

/-- `CombinedObjects::object` finds it: in the received pack, or in the repository. -/
def ObjectGraph.combined (graph : ObjectGraph) (git : GitRepository) (pack : Option PackName)
    (id : ObjectId) : Bool :=
  pack.any (fun p => decide (id ∈ graph.packed p)) || graph.stored git id

/-- `validate_reachable` of every new value. -/
def ObjectGraph.validates (graph : ObjectGraph) (git : GitRepository) (push : Push) : Bool :=
  push.commands.list.all fun c =>
    c.new.isNull ||
      (walk graph.links (graph.combined git push.pack) maxWalkObjects [c.new] []).isSome

/-! ## A merge -/

/-- A merge as it is prepared: the objects that `write_merge_commit` will write link to
each other, and to what the two branches have. -/
structure Merge (graph : ObjectGraph) where
  id : Identifier
  repositoryId : Identifier
  request : NewPullRequestMerge
  written : List ObjectId
  branch : (isTag request.baseRef).isSome = true
  moves : request.oldTarget ≠ request.newTarget
  target :
    match request.method with
    | .fastForward => request.newTarget = request.headTarget
    | .mergeCommit => request.newTarget ∈ written
  linked : ∀ o ∈ written, ∀ l ∈ graph.links o, l ∈ written ∨
    Reaches graph.links request.oldTarget l ∨ Reaches graph.links request.headTarget l

namespace Merge

def path (m : Merge graph) : RepositoryPath := .managed m.repositoryId

def commands (m : Merge graph) : Commands :=
  .single m.request.baseRef m.request.oldTarget m.request.newTarget m.moves m.branch

def intent (m : Merge graph) : NewGitOperationIntent where
  id := m.id
  repositoryPath := m.path
  actor := m.request.actor
  initialRefs := m.commands.initial
  proposedRefs := m.commands.proposed
  eventPayload := m.commands.proposed
  quarantinePath := ⟨m.path, m.id⟩
  createdAt := m.request.createdAt

end Merge

/-- What `merge` reads before it begins: an open pull request, and two branches that are
at the objects of its latest revision. -/
def readsMerge (disk : Disk) (m : Merge graph) : Bool :=
  match disk.db.repositoryIssueAccess m.request.owner m.request.repository (some m.request.actor),
      disk.git m.path with
  | .ok access, some git =>
      PullRequests.validateContext m.request.owner m.request.repository m.request.actor &&
      decide (1 ≤ m.request.number) &&
      decide (access.repository.id = m.repositoryId) && access.canMaintain &&
      match disk.db.pullRequestNumbered access.repository.id m.request.number with
      | none => false
      | some p =>
          match disk.db.latestRevision p.id with
          | none => false
          | some r =>
              decide (p.state = .open ∧ p.baseRef = m.request.baseRef ∧
                r.number = m.request.revision ∧ git.refs p.baseRef = some m.request.oldTarget ∧
                git.refs p.headRef = some m.request.headTarget ∧
                r.baseObjectId = m.request.oldTarget ∧ r.headObjectId = m.request.headTarget)
  | _, _ => false

/-! ## The lanes -/

/-- How far `recover_incomplete_pushes` has come.  `left` are the references of the
snapshot that are still to be compared, `rest` the intents after this one. -/
inductive Recovery where
  | listed (rest : List GitOperationIntent)
  | initial (i : GitOperationIntent) (left : RefSnapshot) (rest : List GitOperationIntent)
  | proposed (i : GitOperationIntent) (atInitial : Bool) (left : RefSnapshot)
      (rest : List GitOperationIntent)
  | removing (i : GitOperationIntent) (rest : List GitOperationIntent)
  | settling (i : GitOperationIntent) (completes : Bool) (rest : List GitOperationIntent)

inductive PushStage where
  | idle
  | validated (push : Push)
  | indexing (push : Push)
  | marking (push : Push) (packName : Option PackName)
  | committing (push : Push)
  | completing (push : Push)
  | failing
  | recovering (at' : Recovery)

inductive MergeStage (graph : ObjectGraph) where
  | idle
  | read (m : Merge graph)
  | writing (m : Merge graph)
  | marking (m : Merge graph)
  | committing (m : Merge graph)
  /-- The compare-and-set failed, and the target of the base is read. -/
  | refused (m : Merge graph)
  | completing (m : Merge graph) (moved : Bool)
  | abandoning (m : Merge graph)

inductive Mode where
  | down
  | starting
  | up
  deriving DecidableEq, Repr

/-- `committed` and `returned` are not stored anywhere: the intents whose reference
transaction was committed, and the merges that returned, with whether they returned Ok. -/
structure World (graph : ObjectGraph) where
  disk : Disk
  mode : Mode
  push : PushStage
  merge : MergeStage graph
  committed : List Identifier
  returned : List (Merge graph × Bool)

/-! ## Recovery in the push lane -/

/-- Where one step of recovery leads. -/
inductive Outcome where
  | continues (at' : Recovery)
  | succeeded
  | failed

/-- The `match` of `recover_intent`. -/
def decided (i : GitOperationIntent) (atInitial atProposed : Bool)
    (rest : List GitOperationIntent) : Outcome :=
  match settlement i atInitial atProposed with
  | none => .failed
  | some .abandon => .continues (.settling i false rest)
  | some .complete => .continues (.settling i true rest)
  | some .removeAndAbandon => .continues (.removing i rest)

/-- The reference is as the snapshot says. -/
def reads (disk : Disk) (i : GitOperationIntent) (e : RefName × ObjectId) : Option Bool :=
  (disk.git i.repositoryPath).map fun git => git.refsMatch [e]

def settles (disk : Disk) (i : GitOperationIntent) (completes : Bool) :
    Disk × Option ReceivePackError :=
  disk.inStore (if completes then disk.db.completeGitIntent i.id else disk.db.abandonGitIntent i.id)

def recoveryStep (disk : Disk) : Recovery → Disk × Outcome
  | .listed [] => (disk, .succeeded)
  | .listed (i :: rest) =>
      match disk.git i.repositoryPath with
      | none => (disk, .failed)
      | some _ => (disk, .continues (.initial i i.initialRefs rest))
  | .initial i [] rest => (disk, .continues (.proposed i true i.proposedRefs rest))
  | .initial i (e :: left) rest =>
      match reads disk i e with
      | none => (disk, .failed)
      | some true => (disk, .continues (.initial i left rest))
      | some false => (disk, .continues (.proposed i false i.proposedRefs rest))
  | .proposed i atInitial [] rest => (disk, decided i atInitial true rest)
  | .proposed i atInitial (e :: left) rest =>
      match reads disk i e with
      | none => (disk, .failed)
      | some true => (disk, .continues (.proposed i atInitial left rest))
      | some false => (disk, decided i atInitial false rest)
  | .removing i rest =>
      (disk.removePack i.repositoryPath i.packName, .continues (.settling i false rest))
  | .settling i completes rest =>
      match settles disk i completes with
      | (disk, some _) => (disk, .failed)
      | (disk, none) =>
          if Disk.quarantined i then (disk, .continues (.listed rest)) else (disk, .failed)

/-- The recovery of the start-up ends with the server up, or down. -/
def endRecovery (w : World graph) (succeeded : Bool) : World graph :=
  match w.mode with
  | .starting => { w with push := .idle, mode := if succeeded then .up else .down }
  | _ => { w with push := .idle }

def afterRecovery (w : World graph) (disk : Disk) : Outcome → World graph
  | .continues at' => { w with disk, push := .recovering at' }
  | .succeeded => endRecovery { w with disk } true
  | .failed => endRecovery { w with disk } false

def recoverNext (w : World graph) (at' : Recovery) : World graph :=
  afterRecovery w (recoveryStep w.disk at').1 (recoveryStep w.disk at').2

/-! ## The steps of a push -/

/-- A step of the store, and the stage after it; an error leads to recovery. -/
def pushStores (w : World graph) (result : Except StoreError Database) (next : PushStage) :
    World graph :=
  match result with
  | .ok db => { w with disk := { w.disk with db }, push := next }
  | .error _ => { w with push := .failing }

def pushNext (w : World graph) : Option (World graph) :=
  match w.push with
  | .idle => none
  | .validated push =>
      match w.disk.db.beginGitIntent push.intent with
      | .ok db => some { w with disk := { w.disk with db }, push := .indexing push }
      | .error _ => some { w with push := .idle }
  | .indexing push =>
      match w.disk.git push.path with
      | none => some { w with push := .failing }
      | some git =>
          if graph.validates git push then
            let placed := w.disk.place push.path push.pack
            some { w with disk := placed.1, push := .marking push placed.2 }
          else some { w with push := .failing }
  | .marking push packName =>
      some (pushStores w (w.disk.db.markGitObjectsPromoted push.id packName) (.committing push))
  | .committing push =>
      match w.disk.moveRefs push.path push.commands with
      | none => some { w with push := .failing }
      | some disk =>
          some { w with disk, push := .completing push, committed := push.id :: w.committed }
  | .completing push => some (pushStores w (w.disk.db.completeGitIntent push.id) .idle)
  | .failing => some { w with push := .recovering (.listed w.disk.db.incompleteGitIntents) }
  | .recovering at' => some (recoverNext w at')

/-- The next step of the push lane fails.  The indexing may fail after the pack was
renamed. -/
def pushFails (w : World graph) (placed : Bool) : Option (World graph) :=
  match w.push with
  | .idle => none
  | .validated _ => some { w with push := .idle }
  | .indexing push =>
      match w.disk.git push.path with
      | none => some { w with push := .failing }
      | some git =>
          if placed && graph.validates git push then
            some { w with disk := (w.disk.place push.path push.pack).1, push := .failing }
          else some { w with push := .failing }
  | .marking _ _ | .committing _ | .completing _ => some { w with push := .failing }
  | .failing | .recovering _ => some (endRecovery w false)

/-! ## The steps of a merge -/

def returns (w : World graph) (m : Merge graph) (ok : Bool) : World graph :=
  { w with merge := .idle, returned := (m, ok) :: w.returned }

def mergeStores (w : World graph) (m : Merge graph) (result : Except StoreError Database)
    (next : World graph → World graph) : World graph :=
  match result with
  | .ok db => next { w with disk := { w.disk with db } }
  | .error _ => returns w m false

def writeObjects (disk : Disk) (m : Merge graph) : Disk :=
  match disk.git m.path with
  | none => disk
  | some git => disk.setGit m.path { git with loose := m.written ++ git.loose }

def mergeNext (w : World graph) : Option (World graph) :=
  match w.merge with
  | .idle => none
  | .read m =>
      some (mergeStores w m (w.disk.db.beginPullRequestMerge m.request m.intent) fun w =>
        { w with merge := if m.request.method = .mergeCommit then .writing m else .marking m })
  | .writing m => some { w with disk := writeObjects w.disk m, merge := .marking m }
  | .marking m =>
      some (mergeStores w m (w.disk.db.markGitObjectsPromoted m.id none) fun w =>
        { w with merge := .committing m })
  | .committing m =>
      match w.disk.moveRefs m.path m.commands with
      | none => some { w with merge := .refused m }
      | some disk =>
          some { w with disk, merge := .completing m true, committed := m.id :: w.committed }
  | .refused m =>
      match w.disk.git m.path with
      | none => some (returns w m false)
      | some git =>
          if git.refs m.request.baseRef = some m.request.newTarget then
            some { w with merge := .completing m false }
          else some { w with merge := .abandoning m }
  | .completing m moved =>
      some (mergeStores w m (w.disk.db.completeGitIntent m.id) fun w => returns w m moved)
  | .abandoning m =>
      some (mergeStores w m (w.disk.db.abandonGitIntent m.id) fun w => returns w m false)

/-- The next step of the merge lane fails. -/
def mergeFails (w : World graph) : Option (World graph) :=
  match w.merge with
  | .idle => none
  | .writing m => some { w with merge := .abandoning m }
  | .committing m => some { w with merge := .refused m }
  | .read m | .marking m | .refused m | .completing m _ | .abandoning m => some (returns w m false)

/-! ## The system -/

inductive Action (graph : ObjectGraph) where
  | startPush (push : Push)
  | pushNext
  | pushFails (placed : Bool)
  | startRecovery
  | startMerge (m : Merge graph)
  | mergeNext
  | mergeFails
  | setState (request : PullRequests.SetState)
  | crash
  | boot

/-- `validate_initial_refs`. -/
def validatesInitial (disk : Disk) (push : Push) : Bool :=
  (disk.git push.path).any (·.refsMatch push.commands.initial)

def step (w : World graph) : Action graph → Option (World graph)
  | .startPush push =>
      match w.mode, w.push with
      | .up, .idle =>
          if validatesInitial w.disk push then some { w with push := .validated push } else none
      | _, _ => none
  | .pushNext => pushNext w
  | .pushFails placed => pushFails w placed
  | .startRecovery =>
      match w.mode, w.push with
      | .up, .idle => some { w with push := .failing }
      | _, _ => none
  | .startMerge m =>
      match w.mode, w.merge with
      | .up, .idle => if readsMerge w.disk m then some { w with merge := .read m } else none
      | _, _ => none
  | .mergeNext => mergeNext w
  | .mergeFails => mergeFails w
  | .setState request =>
      match w.mode with
      | .up =>
          if PullRequests.validateContext request.owner request.repository request.actor &&
              decide (1 ≤ request.number) && decide (request.state ≠ .merged) then
            some { w with disk := { w.disk with
              db := committed w.disk.db (w.disk.db.setPullRequestState request.owner
                request.repository request.number request.actor request.state
                request.changedAt) } }
          else none
      | _ => none
  | .crash => some { w with mode := .down, push := .idle, merge := .idle }
  | .boot =>
      match w.mode with
      | .down => some { w with mode := .starting, push := .failing }
      | _ => none

/-- A server that has run no push and no merge yet. -/
structure Fresh (graph : ObjectGraph) extends World graph where
  up : mode = .up
  idlePush : push = .idle
  idleMerge : merge = .idle
  noCommit : committed = []
  noReturn : returned = []
  noIntent : ∀ i, i ∉ disk.db.gitOperationIntents
  noMerge : ∀ m, m ∉ disk.db.pullRequestMergeIntents
  noGitEvent : ∀ e, e ∉ disk.db.gitOperationEvents
  noSource : ∀ e ∈ disk.db.repositoryEvents, e.sourceIntentId = none
  /-- The row of a pull request repeats its latest revision. -/
  agrees : ∀ p ∈ disk.db.pullRequests, ∀ r ∈ disk.db.pullRequestRevisions,
    r.pullRequestId = p.id → r.number + 1 = disk.db.nextRevisionNumber p.id →
    r.headObjectId = p.headObjectId ∧ r.baseObjectId = p.baseObjectId
  /-- The closure of every reference is in its repository. -/
  closed : ∀ path git, disk.git path = some git → ∀ name id, git.refs name = some id →
    ∀ o, Reaches graph.links id o → graph.stored git o = true

end Tit.Operations
