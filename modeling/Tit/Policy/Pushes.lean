/-
# Policy.Pushes -- the policy on a push and the default branch, interleaved

The system of pushes and merges, with the two parts it leaves out: `validate_policy`, which
asks the policy about one command after another while the pack is indexed, and
`update_default_branch`, which runs from its first check to its last write.  A push holds
`push_permit` and the change of the default branch holds `git_operation`, so that a change
may fall between the decision on a command and the reference transaction.

`protected_of_spares` says that this is the only way to lose the default branch: as long as no
change chooses a branch that the push under way was allowed to delete, or to move without
being a maintainer, every transaction of a push is lawful and the default branch stays.
-/
import Tit.Policy.Repository
import Tit.DefaultBranch.System
import Tit.Operations.Settlement

namespace Tit.Policy.Pushes

open Tit.Theory Tit.Store Tit.Git Tit.Operations

set_option autoImplicit false

variable {graph : ObjectGraph}

/-! ## The system -/

/-- The bytes of a branch name. -/
def branchBytes (name : String) : RefName := name.toByteArray.data.toList

/-- The stored default branch of a repository. -/
def defaultOf (db : Database) (repositoryId : Identifier) : Option RefName :=
  (db.repositoryDefaultBranches.get repositoryId).map fun d => branchBytes d.refName

structure World (graph : ObjectGraph) where
  server : Operations.World graph
  head : Identifier → Option (Option String)
  /-- The owner and the name under which the push of the lane was authorized. -/
  context : Option (String × String)
  /-- The commands of that push that the policy has not been asked about. -/
  unchecked : List RefCommand

/-- `CombinedObjects::is_ancestor`; the first link of a commit is its tree. -/
def isAncestor (graph : ObjectGraph) (git : GitRepository) (pack : Option PackName)
    (ancestor descendant : ObjectId) : Bool :=
  (walk (fun id => (graph.links id).drop 1) (graph.combined git pack) maxWalkObjects
    [descendant] []).any fun seen => decide (ancestor ∈ seen)

/-- The change of one command in `validate_proposed_objects`. -/
def refChange (graph : ObjectGraph) (git : GitRepository) (push : Push) (c : RefCommand) :
    RefChange :=
  if c.new.isNull then .delete
  else if c.old.isNull then .create
  else if isTag c.name = some true then .tagUpdate
  else if isAncestor graph git push.pack c.old c.new then .fastForward
  else .force

inductive Action (graph : ObjectGraph) where
  | operations (action : Operations.Action graph)
  | beginPush (owner repository : String) (push : Push)
  | checkPolicy
  | updateDefaultBranch (request : DefaultBranch.Request) (commit : Bool)

/-- The steps of the server that are taken here as they are.  A push starts with
`beginPush`, and its pack is placed when the policy has seen every command.  No object has
the null identifier. -/
def permitted (w : World graph) : Operations.Action graph → Bool
  | .startPush _ => false
  | .pushNext =>
      match w.server.push with
      | .indexing _ => w.unchecked.isEmpty
      | _ => true
  | .startMerge m => !m.request.newTarget.isNull
  | _ => true

/-- `finish_receive`: the write permission, and then `finish`. -/
def beginPush (w : World graph) (owner repository : String) (push : Push) :
    Option (World graph) :=
  match authorize w.server.disk.db (some push.actor) owner repository .write with
  | .error _ => none
  | .ok record =>
      if record.id = push.repository then
        (Operations.step w.server (.startPush push)).map fun server =>
          { w with server, context := some (owner, repository), unchecked := push.commands.list }
      else none

/-- One turn of the loop of `validate_policy`. -/
def checkPolicy (w : World graph) : Option (World graph) :=
  match w.server.push, w.context, w.unchecked with
  | .indexing push, some (owner, repository), c :: rest =>
      match w.server.disk.git push.path with
      | none => none
      | some git =>
          match authorizeRefChange w.server.disk.db push.actor owner repository c.name
            (refChange graph git push c) with
          | .ok _ => some { w with unchecked := rest }
          | .error _ => some { w with server := { w.server with push := .failing } }
  | _, _, _ => none

/-- The branch is found in the repository of the request. -/
def branchFound (disk : Disk) (request : DefaultBranch.Request) : Bool :=
  match disk.db.repositoryIssueAccess request.owner request.repository (some request.actor) with
  | .error _ => false
  | .ok access =>
      (disk.git (.managed access.repository.id)).any fun git =>
        (git.refs (branchBytes request.defaultBranch)).isSome

/-- `update_default_branch` from its first to its last step. -/
def updateDefaultBranch (w : DefaultBranch.World) (request : DefaultBranch.Request)
    (found : Bool) : DefaultBranch.World :=
  match DefaultBranch.beginUpdate w request found with
  | .error _ => w
  | .ok begun =>
      (run DefaultBranch.step begun [.setHead found, .complete]).getD begun

def step (w : World graph) : Action graph → Option (World graph)
  | .operations action =>
      if permitted w action then
        (Operations.step w.server action).map fun server => { w with server }
      else none
  | .beginPush owner repository push => beginPush w owner repository push
  | .checkPolicy => checkPolicy w
  | .updateDefaultBranch request commit =>
      match w.server.mode, w.server.merge with
      | .up, .idle =>
          let updated := updateDefaultBranch ⟨w.server.disk.db, w.head, none⟩ request
            (commit && branchFound w.server.disk request)
          some { w with
            server := { w.server with disk := { w.server.disk with db := updated.db } }
            head := updated.head }
      | _, _ => none

/-- Nothing is under way. -/
structure Quiet (graph : ObjectGraph) extends World graph where
  idlePush : server.push = .idle
  idleMerge : server.merge = .idle

/-! ## What is to hold -/

/-- The command leaves the reference there, and its account may maintain the repository. -/
def Lawful (db : Database) (owner repository : String) (push : Push) (c : RefCommand) : Prop :=
  c.new.isNull = false ∧ Allowed db (some push.actor) owner repository .maintain

/-- When the references of a push move in the next step, no command on the branch that is the
default branch by now deletes it, or comes from an account that is no maintainer. -/
def CommitsLawfully (w : World graph) : Prop :=
  ∀ push, w.server.push = .committing push →
    (∃ w', step w (.operations .pushNext) = some w' ∧ w'.server.push = .completing push) →
      ∃ owner repository, w.context = some (owner, repository) ∧
        ∀ c ∈ push.commands.list, defaultOf w.server.disk.db push.repository = some c.name →
          Lawful w.server.disk.db owner repository push c

/-- The default branch of the repository exists. -/
def DefaultExists (w : World graph) (repositoryId : Identifier) : Prop :=
  ∃ name git, defaultOf w.server.disk.db repositoryId = some name ∧
    w.server.disk.git (.managed repositoryId) = some git ∧ (git.refs name).isSome = true

/-- No step makes a default branch disappear. -/
def KeepsDefault (w : World graph) : Prop :=
  ∀ action w', step w action = some w' → ∀ id, DefaultExists w id → DefaultExists w' id

def Protected (w : World graph) : Prop := CommitsLawfully w ∧ KeepsDefault w

/-! ## When it holds -/

/-- The push of the lane whose references have not moved. -/
def policed : PushStage → Option Push
  | .validated push | .indexing push | .marking push _ | .committing push => some push
  | _ => none

/-- The new default branch is not one that the push under way deletes, or moves without being
a maintainer, by a command that the policy has already allowed. -/
def SparesPush (w : World graph) : Action graph → Prop
  | .updateDefaultBranch request _ =>
      ∀ push owner repository access, policed w.server.push = some push →
        w.context = some (owner, repository) →
        w.server.disk.db.repositoryIssueAccess request.owner request.repository
          (some request.actor) = .ok access →
        access.repository.id = push.repository →
        ∀ c ∈ push.commands.list, c ∉ w.unchecked → c.name = branchBytes request.defaultBranch →
          Lawful w.server.disk.db owner repository push c
  | _ => True

/-! ## What decides the policy -/

/-- The tables that roles are computed from. -/
structure SameDirectory (db db' : Database) : Prop where
  accounts : db'.accounts = db.accounts
  namespaces : db'.namespaces = db.namespaces
  repositories : db'.repositories = db.repositories
  members : db'.organizationMembers = db.organizationMembers
  collaborators : db'.repositoryCollaborators = db.repositoryCollaborators

structure SamePolicy (db db' : Database) : Prop extends SameDirectory db db' where
  branches : db'.repositoryDefaultBranches = db.repositoryDefaultBranches

theorem SamePolicy.refl (db : Database) : SamePolicy db db := ⟨⟨rfl, rfl, rfl, rfl, rfl⟩, rfl⟩

section Directory

variable {db db' : Database} {owner repository : String} {push : Push} {c : RefCommand}

theorem SameDirectory.named (same : SameDirectory db db') :
    db'.repositoryNamed owner repository = db.repositoryNamed owner repository := by
  unfold Database.repositoryNamed
  rw [same.namespaces, same.repositories]

theorem SameDirectory.authorization {actor : Option String} (same : SameDirectory db db') :
    db'.repositoryAuthorization owner repository actor =
      db.repositoryAuthorization owner repository actor := by
  unfold Database.repositoryAuthorization
  rw [same.named, same.accounts, same.members, same.collaborators]

theorem SameDirectory.lawful (same : SameDirectory db db') :
    Lawful db' owner repository push c ↔ Lawful db owner repository push c := by
  unfold Lawful Allowed authorize
  rw [same.authorization]

theorem SamePolicy.defaultOf (same : SamePolicy db db') (id : Identifier) :
    defaultOf db' id = defaultOf db id := by
  unfold Pushes.defaultOf
  rw [same.branches]

/-- A command that the policy allows is lawful on the default branch. -/
theorem lawful_of_authorized {git : GitRepository} {record : RepositoryRecord} {n : Namespace}
    {r : Repository} (found : db.repositoryNamed owner repository = some (n, r))
    (ok : authorizeRefChange db push.actor owner repository c.name (refChange graph git push c) =
      .ok record) (chosen : defaultOf db r.id = some c.name) :
    Lawful db owner repository push c := by
  unfold authorizeRefChange at ok
  simp only [bind_eq_ok, fromStore_eq_ok, ensure_eq_ok, pure_eq_ok, Except.ok.injEq] at ok
  obtain ⟨record, authorized, _, -, branch, stored, _, allowed, -⟩ := ok
  have isDefault : c.name = branchBytes branch := by
    unfold Database.repositoryDefaultBranch at stored
    simp only [found, required_some, ok_bind, bind_eq_ok, required_eq_ok, pure_eq_ok,
      Except.ok.injEq] at stored
    obtain ⟨d, stored, rfl⟩ := stored
    unfold Pushes.defaultOf at chosen
    rw [stored, Option.map_some, Option.some.injEq] at chosen
    exact chosen.symm
  have named : decide (c.name = branch.toByteArray.data.toList) = true := decide_eq_true isDefault
  simp only [named, true_and, not_or, not_not] at allowed
  refine ⟨?_, allowed_iff.mpr ⟨record, authorized, allowed.2.2⟩⟩
  cases null : c.new.isNull with
  | false => rfl
  | true =>
      have delete : refChange graph git push c = .delete := by
        unfold refChange
        rw [if_pos null]
      exact absurd delete allowed.2.1

end Directory

/-! ## The steps of the server -/

section Server

variable {w w' : Operations.World graph} {a : Operations.Action graph}

theorem beginGitIntent_samePolicy {db db' : Database} {intent : NewGitOperationIntent}
    (ok : db.beginGitIntent intent = .ok db') : SamePolicy db db' := by
  unfold Database.beginGitIntent at ok
  simp only [bind_eq_ok, pure_eq_ok, Except.ok.injEq] at ok
  obtain ⟨_, -, rfl⟩ := ok
  exact ⟨⟨rfl, rfl, rfl, rfl, rfl⟩, rfl⟩

theorem markGitObjectsPromoted_samePolicy {db db' : Database} {id : Identifier}
    {packName : Option PackName} (ok : db.markGitObjectsPromoted id packName = .ok db') :
    SamePolicy db db' := by
  obtain ⟨_, -, -, -, _, -, rfl⟩ := Database.markGitObjectsPromoted_eq_ok ok
  exact ⟨⟨rfl, rfl, rfl, rfl, rfl⟩, rfl⟩

theorem completeGitIntent_samePolicy {db db' : Database} {id : Identifier}
    (ok : db.completeGitIntent id = .ok db') : SamePolicy db db' := by
  obtain ⟨_, -, -, -, -, _, _, _, _, _, -, -, -, -, rfl⟩ := Database.completeGitIntent_eq_ok ok
  exact ⟨⟨rfl, rfl, rfl, rfl, rfl⟩, rfl⟩

theorem abandonGitIntent_samePolicy {db db' : Database} {id : Identifier}
    (ok : db.abandonGitIntent id = .ok db') : SamePolicy db db' := by
  obtain ⟨_, -, -, -, _, -, rfl⟩ := Database.abandonGitIntent_eq_ok ok
  exact ⟨⟨rfl, rfl, rfl, rfl, rfl⟩, rfl⟩

theorem beginPullRequestMerge_samePolicy {db db' : Database} {merge : NewPullRequestMerge}
    {intent : NewGitOperationIntent} (ok : db.beginPullRequestMerge merge intent = .ok db') :
    SamePolicy db db' := by
  unfold Database.beginPullRequestMerge at ok
  simp only [bind_eq_ok, pure_eq_ok, Except.ok.injEq] at ok
  obtain ⟨_, -, _, -, _, -, _, -, _, -, _, -, _, -, _, -, _, -, _, -, _, -, rfl⟩ := ok
  exact ⟨⟨rfl, rfl, rfl, rfl, rfl⟩, rfl⟩

theorem setPullRequestState_samePolicy {db db' : Database} {owner repository actor : String}
    {number : Nat} {state : PullRequestState} {changedAt : Int}
    (ok : db.setPullRequestState owner repository number actor state changedAt = .ok db') :
    SamePolicy db db' := by
  obtain ⟨_, -, _, _, -, -, rfl⟩ := Database.setPullRequestState_eq_ok ok
  exact ⟨⟨rfl, rfl, rfl, rfl, rfl⟩, rfl⟩

/-- Pushes and merges leave the roles and the default branches alone. -/
theorem Transition.samePolicy (next : Transition w a w') :
    SamePolicy w.disk.db w'.disk.db := by
  cases next with
  | beginPush _ ok => exact beginGitIntent_samePolicy ok
  | markPush _ ok => exact markGitObjectsPromoted_samePolicy ok
  | markMerge _ ok => exact markGitObjectsPromoted_samePolicy ok
  | completePush _ ok => exact completeGitIntent_samePolicy ok
  | completeMerge _ ok => exact completeGitIntent_samePolicy ok
  | abandonMerge _ ok => exact abandonGitIntent_samePolicy ok
  | beginMerge _ ok => exact beginPullRequestMerge_samePolicy ok
  | setState ok => exact setPullRequestState_samePolicy ok
  | @settle i completes _ _ _ _ _ ok =>
      cases completes with
      | true => exact completeGitIntent_samePolicy ok
      | false => exact abandonGitIntent_samePolicy ok
  | place | placeFails =>
      rw [Disk.place_db]
      exact .refl _
  | write =>
      rw [writeObjects_db]
      exact .refl _
  | _ => exact .refl _

/-- A push or a merge moves its references. -/
inductive Moves : Operations.World graph → Operations.World graph → Prop where
  | push {w w' : Operations.World graph} {push : Push} {git : GitRepository}
      (stage : w.push = .committing push) (opened : w.disk.git push.path = some git)
      (moved : w'.disk = w.disk.setGit push.path (git.applied push.commands)) : Moves w w'
  | merge {w w' : Operations.World graph} {m : Merge graph} {git : GitRepository}
      (stage : w.merge = .committing m) (opened : w.disk.git m.path = some git)
      (moved : w'.disk = w.disk.setGit m.path (git.applied m.commands)) : Moves w w'

theorem Transition.moves (next : Transition w a w') : RefsKept w.disk w'.disk ∨ Moves w w' := by
  cases next with
  | movePush stage opened initial => exact Or.inr (.push stage opened rfl)
  | moveMerge stage opened initial => exact Or.inr (.merge stage opened rfl)
  | place | placeFails => exact Or.inl (Disk.place_sameRefs _ _ _).refs
  | remove => exact Or.inl (Disk.removePack_sameRefs _ _ _).refs
  | write => exact Or.inl (writeObjects_refsKept _ _)
  | _ => exact Or.inl fun _ => rfl

/-- The push lane goes on with its push, or ends it. -/
theorem Transition.policed (next : Transition w a w') (other : ∀ push, a ≠ .startPush push) :
    policed w'.push = policed w.push ∨ policed w'.push = none := by
  cases next with
  | startPush => exact absurd rfl (other _)
  | stopPush stops => rcases stops with rfl | rfl <;> exact Or.inr rfl
  | beginPush stage | place stage | markPush stage =>
      rw [stage]
      exact Or.inl rfl
  | settle _ _ next => rcases next with rfl | ⟨rfl, -⟩ <;> exact Or.inr rfl
  | movePush | completePush | placeFails | list | look | remove | crash | boot => exact Or.inr rfl
  | _ => exact Or.inl rfl

/-- The pack of the push is in its place. -/
def placed : PushStage → Bool
  | .marking _ _ | .committing _ => true
  | _ => false

theorem Transition.placed (next : Transition w a w') (after : placed w'.push = true) :
    placed w.push = true ∨ (a = .pushNext ∧ ∃ push, w.push = .indexing push) := by
  cases next with
  | place stage => exact Or.inr ⟨rfl, _, stage⟩
  | markPush stage =>
      rw [stage]
      exact Or.inl rfl
  | stopPush stops => rcases stops with rfl | rfl <;> cases after
  | settle _ _ next => rcases next with rfl | ⟨rfl, -⟩ <;> cases after
  | startPush | beginPush | movePush | completePush | placeFails | list | look | remove | crash
  | boot => cases after
  | _ => exact Or.inl after

/-- The merge of the lane. -/
def underway : MergeStage graph → Option (Merge graph)
  | .idle => none
  | .read m | .writing m | .marking m | .committing m | .refused m | .completing m _
  | .abandoning m => some m

theorem Transition.underway (next : Transition w a w') {m : Merge graph}
    (after : underway w'.merge = some m) : underway w.merge = some m ∨ a = .startMerge m := by
  cases next with
  | startMerge =>
      cases after
      exact Or.inr rfl
  | beginMerge stage _ next =>
      rw [stage]
      rcases next with ⟨-, rfl⟩ | ⟨-, rfl⟩ <;> exact Or.inl after
  | giveUp stage => rcases stage with stage | stage <;> (rw [stage]; exact Or.inl after)
  | write stage | markMerge stage | moveMerge stage | refuse stage | refusedAtTarget stage =>
      rw [stage]
      exact Or.inl after
  | completeMerge | abandonMerge | storeFails | mergeFails | crash => cases after
  | _ => exact Or.inl after

end Server

/-! ## A change of the default branch -/

theorem defaultOf_update {db : Database} {branches : Table RepositoryDefaultBranch}
    {repositoryId : Identifier} {branch : String}
    (updated : db.repositoryDefaultBranches.update (fun d => decide (d.repositoryId = repositoryId))
      (fun d => { d with refName := branch }) = .ok branches) (id : Identifier) :
    (branches.get id).map (fun d => branchBytes d.refName) =
      if id = repositoryId then (defaultOf db id).map fun _ => branchBytes branch
      else defaultOf db id := by
  rw [Table.get_update updated fun _ => rfl]
  unfold Pushes.defaultOf
  cases stored : db.repositoryDefaultBranches.get id with
  | none => split <;> rfl
  | some d =>
      have key : d.repositoryId = id := (Table.get_eq_some.mp stored).2
      rw [Option.map_some, Option.map_some, Option.map_some, Option.map_some, key]
      by_cases here : id = repositoryId
      · rw [if_pos here, if_pos (decide_eq_true here)]
      · rw [if_neg here, if_neg (by simpa using here)]

/-- A run changes no role, and at most one default branch, to a branch that was found. -/
theorem updateDefaultBranch_spec (w : DefaultBranch.World) (request : DefaultBranch.Request)
    (found : Bool) :
    SameDirectory w.db (updateDefaultBranch w request found).db ∧
      ((updateDefaultBranch w request found).db.repositoryDefaultBranches =
          w.db.repositoryDefaultBranches ∨
        ∃ access, w.db.repositoryIssueAccess request.owner request.repository
            (some request.actor) = .ok access ∧ found = true ∧
          ∀ id, defaultOf (updateDefaultBranch w request found).db id =
            if id = access.repository.id then
              (defaultOf w.db id).map fun _ => branchBytes request.defaultBranch
            else defaultOf w.db id) := by
  unfold updateDefaultBranch
  split
  · exact ⟨⟨rfl, rfl, rfl, rfl, rfl⟩, Or.inl rfl⟩
  · rename_i begun ok
    unfold DefaultBranch.beginUpdate at ok
    simp only [bind_eq_ok, DefaultBranch.fromStore_eq_ok, required_eq_ok, ensure_eq_ok, pure_eq_ok,
      Except.ok.injEq] at ok
    obtain ⟨_, -, _, -, _, -, ⟨repositoryId, previous⟩, settings, head, -, _, resolves, _, -, db,
      begins, rfl⟩ := ok
    unfold Database.beginRepositoryDefaultBranch at begins
    simp only [bind_eq_ok, ensure_eq_ok, required_eq_ok, sqlite_eq_ok, pure_eq_ok,
      Except.ok.injEq] at begins
    obtain ⟨access, accessed, _, -, stored, -, _, -, intents, inserted, rfl⟩ := begins
    have isFound : found = true := by
      unfold DefaultBranch.resolveBranch at resolves
      exact (Bool.and_eq_true _ _ ▸ resolves).2
    -- `HEAD` is moved, and what is left is the completion of the intent.
    simp only [run, DefaultBranch.step, DefaultBranch.World.callAt, Option.filter_some, decide_true,
      if_true, Option.map_some, DefaultBranch.setHead, resolves, Option.getD_some]
    rcases committed_eq_or { w.db with repositoryDefaultBranchIntents := intents }
      (Database.completeRepositoryDefaultBranch
        { w.db with repositoryDefaultBranchIntents := intents } request.intentId) with same | ok
    · rw [same]
      exact ⟨⟨rfl, rfl, rfl, rfl, rfl⟩, Or.inl rfl⟩
    · obtain ⟨intent, row, owner, branches, auditEvents, foundIntent, foundRow, -, updated, -,
        equal⟩ := Database.completeRepositoryDefaultBranch_eq_ok ok
      rw [equal]
      refine ⟨⟨rfl, rfl, rfl, rfl, rfl⟩, Or.inr ⟨access, accessed, isFound, fun id => ?_⟩⟩
      have isNew := Table.get_of_mem ((Table.mem_insert inserted).mpr (Or.inr rfl))
      obtain rfl := Option.some.inj (foundIntent.symm.trans isNew)
      have here : row.id = access.repository.id := (Table.get_eq_some.mp foundRow).2
      rw [here] at updated
      exact defaultOf_update updated id

/-! ## The invariant -/

/-- What the policy has allowed so far is lawful for the stored default branch. -/
structure Policed (w : World graph) : Prop where
  asked : ∀ push, policed w.server.push = some push →
    ∃ owner repository n r done, w.context = some (owner, repository) ∧
      w.server.disk.db.repositoryNamed owner repository = some (n, r) ∧ r.id = push.repository ∧
      push.commands.list = done ++ w.unchecked ∧
      ∀ c ∈ done, defaultOf w.server.disk.db push.repository = some c.name →
        Lawful w.server.disk.db owner repository push c
  finished : placed w.server.push = true → w.unchecked = []
  merges : ∀ m, underway w.server.merge = some m → m.request.newTarget.isNull = false

theorem Quiet.policed (quiet : Quiet graph) : Policed quiet.toWorld where
  asked push stage := by
    rw [quiet.idlePush] at stage
    cases stage
  finished after := by
    rw [quiet.idlePush] at after
    cases after
  merges m stage := by
    rw [quiet.idleMerge] at stage
    cases stage

section Steps

variable {w w' : World graph}

/-- A step of the server. -/
theorem Policed.operations (inv : Policed w) {server : Operations.World graph}
    {a : Operations.Action graph} (permits : permitted w a = true)
    (next : Transition w.server a server) : Policed { w with server } := by
  have same := Transition.samePolicy next
  have other : ∀ push, a ≠ .startPush push := by
    rintro push rfl
    cases permits
  refine ⟨?_, ?_, ?_⟩
  · intro push stage
    rcases Transition.policed next other with kept | ended
    · obtain ⟨owner, repository, n, r, done, context, found, id, split, lawful⟩ :=
        inv.asked push (kept ▸ stage)
      refine ⟨owner, repository, n, r, done, context, same.named.trans found, id, split, ?_⟩
      intro c hc chosen
      exact same.lawful.mpr (lawful c hc (same.defaultOf _ ▸ chosen))
    · rw [ended] at stage
      cases stage
  · intro after
    rcases Transition.placed next after with before | ⟨rfl, push, stage⟩
    · exact inv.finished before
    · unfold permitted at permits
      simp only [stage] at permits
      exact List.isEmpty_iff.mp permits
  · intro m stage
    rcases Transition.underway next stage with before | rfl
    · exact inv.merges m before
    · simpa [permitted] using permits

theorem Policed.beginPush {owner repository : String} {push : Push} (inv : Policed w)
    (next : beginPush w owner repository push = some w') : Policed w' := by
  unfold Pushes.beginPush at next
  split at next
  · cases next
  · rename_i record authorized
    split at next
    · rename_i id
      obtain ⟨server, started, rfl⟩ := Option.map_eq_some_iff.mp next
      simp only [Operations.step] at started
      split at started
      · split at started
        · cases started
          refine ⟨?_, fun after => (by cases after), inv.merges⟩
          intro push' same
          cases same
          obtain ⟨record', found, -⟩ := allowed_iff.mp ⟨record, authorized⟩
          unfold authorize at authorized
          simp only [found, fromStore_eq_ok, bind_eq_ok, ensure_eq_ok, pure_eq_ok,
            Except.ok.injEq] at authorized
          obtain ⟨_, rfl, _, -, rfl⟩ := authorized
          unfold Database.repositoryAuthorization at found
          simp only [bind_eq_ok, required_eq_ok, pure_eq_ok, Except.ok.injEq] at found
          obtain ⟨⟨n, r⟩, named, rfl⟩ := found
          exact ⟨owner, repository, n, r, [], rfl, named, id, rfl, fun x inside =>
            absurd inside List.not_mem_nil⟩
        · cases started
      · cases started
    · cases next

theorem Policed.checkPolicy (inv : Policed w) (next : checkPolicy w = some w') : Policed w' := by
  unfold Pushes.checkPolicy at next
  split at next
  · rename_i push owner repository c rest stage context unchecked
    split at next
    · cases next
    · rename_i git opened
      split at next
      · rename_i record ok
        cases next
        have before := inv.asked push (by rw [stage]; rfl)
        refine ⟨?_, fun after => ?_, inv.merges⟩
        swap
        · rw [stage] at after
          cases after
        intro push' same
        rw [stage] at same
        cases same
        obtain ⟨owner', repository', n, r, done, context', found, id, split, lawful⟩ := before
        obtain ⟨rfl, rfl⟩ := Prod.mk.injEq .. ▸ Option.some.inj (context'.symm.trans context)
        rw [unchecked] at split
        refine ⟨_, _, n, r, done ++ [c], context, found, id, by simp [split], ?_⟩
        intro d hd chosen
        rcases List.mem_append.mp hd with old | new
        · exact lawful d old chosen
        · obtain rfl := List.mem_singleton.mp new
          exact lawful_of_authorized found ok (id ▸ chosen)
      · cases next
        exact ⟨nofun, nofun, inv.merges⟩
  · cases next

theorem Policed.update {request : DefaultBranch.Request} {commit : Bool} (inv : Policed w)
    (spares : SparesPush w (.updateDefaultBranch request commit))
    (next : step w (.updateDefaultBranch request commit) = some w') : Policed w' := by
  simp only [step] at next
  split at next
  · cases next
    obtain ⟨same, changes⟩ := updateDefaultBranch_spec ⟨w.server.disk.db, w.head, none⟩ request
      (commit && branchFound w.server.disk request)
    refine ⟨?_, inv.finished, inv.merges⟩
    intro push stage
    obtain ⟨owner, repository, n, r, done, context, found, id, split, lawful⟩ :=
      inv.asked push stage
    refine ⟨owner, repository, n, r, done, context, same.named.trans found, id, split, ?_⟩
    intro c hc chosen
    refine same.lawful.mpr ?_
    rcases changes with branches | ⟨access, accessed, -, changed⟩
    · exact lawful c hc ((SamePolicy.mk same branches).defaultOf _ ▸ chosen)
    · rw [changed] at chosen
      by_cases here : push.repository = access.repository.id
      · rw [if_pos here] at chosen
        obtain ⟨old, -, name⟩ := Option.map_eq_some_iff.mp chosen
        refine spares push owner repository access stage context accessed here.symm c
          (split ▸ List.mem_append_left _ hc) ?_ name.symm
        intro later
        have distinct := push.commands.distinct
        rw [split] at distinct
        exact (List.pairwise_append.mp distinct).2.2 c hc c later rfl
      · rw [if_neg here] at chosen
        exact lawful c hc chosen
  · cases next

/-- **One step**: the policy holds on what it has allowed, unless the default branch is moved
onto it. -/
theorem step_policed (inv : Policed w) {a : Action graph} (spares : SparesPush w a)
    (next : step w a = some w') : Policed w' := by
  cases a with
  | operations action =>
      simp only [step] at next
      split at next
      · obtain ⟨server, stepped, rfl⟩ := Option.map_eq_some_iff.mp next
        exact inv.operations ‹_› (step_transition stepped)
      · cases next
  | beginPush owner repository push => exact inv.beginPush next
  | checkPolicy => exact inv.checkPolicy next
  | updateDefaultBranch request commit => exact inv.update spares next

end Steps

/-! ## The default branch stays -/

section Keeps

variable {w w' : World graph}

/-- A transaction that deletes no default branch leaves it there. -/
theorem applied_isSome {git : GitRepository} {commands : Commands} {name : RefName}
    (exists' : (git.refs name).isSome = true)
    (spares : ∀ c ∈ commands.list, c.name = name → c.new.isNull = false) :
    ((git.applied commands).refs name).isSome = true := by
  by_cases named : ∃ c ∈ commands.list, c.name = name
  · obtain ⟨c, hc, rfl⟩ := named
    rw [GitRepository.applied_of_mem git hc, Database.target, spares c hc rfl]
    rfl
  · rw [GitRepository.applied_of_not_mem git fun c hc same => named ⟨c, hc, same⟩]
    exact exists'

theorem DefaultExists.moved {server : Operations.World graph} {path : RepositoryPath}
    {git : GitRepository} {commands : Commands} {id : Identifier}
    (found : DefaultExists w id) (same : SamePolicy w.server.disk.db server.disk.db)
    (opened : w.server.disk.git path = some git)
    (moved : server.disk = w.server.disk.setGit path (git.applied commands))
    (spares : ∀ c ∈ commands.list, path = .managed id →
      defaultOf w.server.disk.db id = some c.name → c.new.isNull = false) :
    DefaultExists { w with server } id := by
  obtain ⟨name, git', chosen, opened', isThere⟩ := found
  by_cases here : path = .managed id
  · obtain rfl : git = git' := by
      rw [here, opened'] at opened
      exact (Option.some.inj opened).symm
    refine ⟨name, git.applied commands, (same.defaultOf id).trans chosen, ?_, ?_⟩
    · rw [moved, here, Disk.setGit_same]
    · exact applied_isSome isThere fun c hc named => spares c hc here (named ▸ chosen)
  · refine ⟨name, git', (same.defaultOf id).trans chosen, ?_, isThere⟩
    rw [moved, Disk.setGit_other _ fun other => here other.symm]
    exact opened'

theorem DefaultExists.kept {server : Operations.World graph} {id : Identifier}
    (found : DefaultExists w id) (same : SamePolicy w.server.disk.db server.disk.db)
    (kept : RefsKept w.server.disk server.disk) : DefaultExists { w with server } id := by
  obtain ⟨name, git, chosen, opened, isThere⟩ := found
  have refs := kept (.managed id)
  rw [opened, Option.map_some] at refs
  obtain ⟨git', opened', equal⟩ := Option.map_eq_some_iff.mp refs
  exact ⟨name, git', (same.defaultOf id).trans chosen, opened', equal ▸ isThere⟩

theorem Policed.keeps_operations (inv : Policed w) {server : Operations.World graph}
    {a : Operations.Action graph} (next : Transition w.server a server) {id : Identifier}
    (found : DefaultExists w id) : DefaultExists { w with server } id := by
  have same := Transition.samePolicy next
  rcases Transition.moves next with kept | moves
  · exact found.kept same kept
  · cases moves with
    | @push push git stage opened moved =>
        refine found.moved same opened moved fun c hc here chosen => ?_
        obtain ⟨owner, repository, n, r, done, -, -, -, split, lawful⟩ :=
          inv.asked push (by rw [stage]; rfl)
        rw [inv.finished (by rw [stage]; rfl), List.append_nil] at split
        obtain rfl : push.repository = id := by
          unfold Push.path at here
          injection here
        exact (lawful c (split ▸ hc) chosen).1
    | @merge m git stage opened moved =>
        refine found.moved same opened moved fun c hc _ _ => ?_
        obtain rfl := List.mem_singleton.mp hc
        exact inv.merges m (by rw [stage]; rfl)

theorem keeps_update {request : DefaultBranch.Request} {commit : Bool} {id : Identifier}
    (next : step w (.updateDefaultBranch request commit) = some w') (found : DefaultExists w id) :
    DefaultExists w' id := by
  simp only [step] at next
  split at next
  · cases next
    obtain ⟨-, changes⟩ := updateDefaultBranch_spec ⟨w.server.disk.db, w.head, none⟩ request
      (commit && branchFound w.server.disk request)
    obtain ⟨name, git, chosen, opened, isThere⟩ := found
    rcases changes with branches | ⟨access, accessed, resolved, changed⟩
    · refine ⟨name, git, ?_, opened, isThere⟩
      unfold defaultOf at chosen ⊢
      rw [branches]
      exact chosen
    · by_cases here : id = access.repository.id
      · have found := (Bool.and_eq_true _ _ ▸ resolved).2
        unfold branchFound at found
        simp only [accessed, ← here, opened, Option.any_some] at found
        refine ⟨branchBytes request.defaultBranch, git, ?_, opened, found⟩
        rw [changed, if_pos here, chosen, Option.map_some]
      · refine ⟨name, git, ?_, opened, isThere⟩
        rw [changed, if_neg here]
        exact chosen
  · cases next

theorem Policed.keeps (inv : Policed w) : KeepsDefault w := by
  intro a w' next id found
  cases a with
  | operations action =>
      simp only [step] at next
      split at next
      · obtain ⟨server, stepped, rfl⟩ := Option.map_eq_some_iff.mp next
        exact inv.keeps_operations (step_transition stepped) found
      · cases next
  | beginPush owner repository push =>
      simp only [step, Pushes.beginPush] at next
      split at next
      · cases next
      · split at next
        · obtain ⟨server, started, rfl⟩ := Option.map_eq_some_iff.mp next
          have started := step_transition started
          exact found.kept (Transition.samePolicy started) (by cases started <;> exact fun _ => rfl)
        · cases next
  | checkPolicy =>
      simp only [step, Pushes.checkPolicy] at next
      split at next
      · split at next
        · cases next
        · split at next <;> (cases next; exact found)
      · cases next
  | updateDefaultBranch request commit => exact keeps_update next found

theorem Policed.commitsLawfully (inv : Policed w) : CommitsLawfully w := by
  intro push stage _
  obtain ⟨owner, repository, n, r, done, context, -, -, split, lawful⟩ :=
    inv.asked push (by rw [stage]; rfl)
  rw [inv.finished (by rw [stage]; rfl), List.append_nil] at split
  exact ⟨owner, repository, context, fun c hc => lawful c (split ▸ hc)⟩

end Keeps

/-- **Every run whose changes of the default branch spare the push under way protects it.** -/
theorem protected_of_spares (start : Quiet graph) (actions : List (Action graph))
    (meets : Meets step SparesPush start.toWorld actions) :
    Always step Protected start.toWorld actions :=
  (always_of_meets (fun _ _ _ inv spares next => step_policed inv spares next) start.policed
    meets).mono fun _ inv => ⟨inv.commitsLawfully, inv.keeps⟩

/-! Pole: `alice` owns a repository with the branches `main`, its default, and `topic`. -/

def nothingLinked : ObjectGraph := ⟨fun _ => [], fun _ => []⟩

def twoBranches : GitRepository where
  refs name :=
    if name = branchBytes "refs/heads/main" then some ⟨1⟩
    else if name = branchBytes "refs/heads/topic" then some ⟨2⟩
    else none
  packs := []
  loose := [⟨1⟩, ⟨2⟩]

def quiet : Quiet nothingLinked where
  server :=
    { disk := ⟨Database.oneRepository, fun path => if path = .managed 1 then some twoBranches else none⟩
      mode := .up, push := .idle, merge := .idle, committed := [], returned := [] }
  head _ := some (some "refs/heads/main")
  context := none
  unchecked := []
  idlePush := rfl
  idleMerge := rfl

def deleteTopic : Push where
  id := 1
  repository := 1
  actor := "alice"
  commands :=
    { list := [{ old := ⟨2⟩, new := .null, name := branchBytes "refs/heads/topic" }]
      nonempty := by decide
      count := by decide
      changes := by decide
      named := by decide
      distinct := by decide }
  pack := none
  createdAt := 1

def chooseTopic : Action nothingLinked :=
  .updateDefaultBranch
    { intentId := 2, owner := "alice", repository := "tit", actor := "alice"
      defaultBranch := "refs/heads/topic", changedAt := 2 } true

/-- The push as far as its next step moves its references. -/
def deletion : List (Action nothingLinked) :=
  [.beginPush "alice" "tit" deleteTopic, .operations .pushNext, .checkPolicy,
    .operations .pushNext, .operations .pushNext]

/-- Whether the default branch of the repository exists. -/
def defaultThere (w : World graph) (repositoryId : Identifier) : Bool :=
  match defaultOf w.server.disk.db repositoryId, w.server.disk.git (.managed repositoryId) with
  | some name, some git => (git.refs name).isSome
  | _, _ => false

theorem defaultThere_iff {w : World graph} {id : Identifier} :
    defaultThere w id = true ↔ DefaultExists w id := by
  unfold defaultThere DefaultExists
  cases defaultOf w.server.disk.db id with
  | none => simp
  | some name =>
      cases w.server.disk.git (.managed id) with
      | none => simp
      | some git => simp

/-- Once `topic` is the default branch, the policy refuses the push. -/
theorem chooseTopic_after :
    Always step Protected quiet.toWorld (chooseTopic :: deletion) := by
  refine protected_of_spares quiet _ ?_
  refine fun _ _ => ⟨fun push owner repository access stage => ?_, ?_⟩
  · cases stage
  · exact fun _ _ => ⟨trivial, fun _ _ => ⟨trivial, fun _ _ => ⟨trivial, fun _ _ => ⟨trivial,
      fun _ _ => ⟨trivial, trivial⟩⟩⟩⟩⟩

/-- The push was allowed to delete `topic`, and does so when it is the default branch. -/
theorem chooseTopic_between :
    ¬Always step Protected quiet.toWorld (deletion ++ [chooseTopic]) := by
  intro always
  have ran : (run step quiet.toWorld (deletion ++ [chooseTopic])).any (fun w =>
      defaultThere w 1 && (step w (.operations .pushNext)).any fun w' => !defaultThere w' 1) =
      true := by decide
  obtain ⟨w, reached, lost⟩ := (Option.any_eq_true _ _).mp ran
  obtain ⟨isThere, gone⟩ := (Bool.and_eq_true _ _ ▸ lost)
  obtain ⟨w', next, absent⟩ := (Option.any_eq_true _ _).mp gone
  have stays := (always.final reached).2 _ w' next 1 (defaultThere_iff.mp isThere)
  rw [defaultThere_iff.mpr stays] at absent
  cases absent

end Tit.Policy.Pushes
