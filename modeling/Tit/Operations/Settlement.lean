/-
# Operations.Settlement -- which intents recovery can still tell apart

Recovery sees the state of an intent and the references of its repository.  An intent
whose references were not moved is `Recognisable` while they are at their old values, or
while its one reference is not at its new value; one whose references were moved, while
they are at their new values and the store can record it.  `Settleable` says this of every
incomplete intent, and that a recovery under way has read nothing that contradicts it.

`Allowed` is a condition on each step that keeps it, read in the state before the step.
-/
import Tit.Operations.WellFormed

namespace Tit.Operations

open Tit.Theory Tit.Store Tit.Store.Database Tit.Git

set_option autoImplicit false

variable {graph : ObjectGraph}

/-! ## The references of an intent -/

def atRefs (disk : Disk) (path : RepositoryPath) (snapshot : RefSnapshot) : Bool :=
  (disk.git path).any (·.refsMatch snapshot)

def Untold (disk : Disk) (path : RepositoryPath) (initial proposed : RefSnapshot) : Prop :=
  atRefs disk path initial = true ∨
    (initial.length = 1 ∧ atRefs disk path proposed = false)

/-- Recovery will settle the intent as it should be. -/
def Recognisable (disk : Disk) (committed : List Identifier) (i : GitOperationIntent) : Prop :=
  (i.id ∈ committed → i.state = .promoted ∧ atRefs disk i.repositoryPath i.proposedRefs = true ∧
    Mergeable disk.db i) ∧
  (i.id ∉ committed → Untold disk i.repositoryPath i.initialRefs i.proposedRefs)

/-- The row of the intent is not settled yet. -/
def Unsettled (db : Database) (id : Identifier) : Prop :=
  ∀ j ∈ db.gitOperationIntents, j.id = id → j.incomplete = true

/-- What a recovery under way has read of its intent agrees with what was committed. -/
def Recovery.Agrees (db : Database) (committed : List Identifier) : Recovery → Prop
  | .listed _ => True
  | .initial i left _ => Unsettled db i.id → i.id ∈ committed → left = i.initialRefs
  | .proposed i atInitial left _ => Unsettled db i.id →
      (i.id ∈ committed → atInitial = false) ∧ (i.id ∉ committed → left = i.proposedRefs)
  | .removing i _ => Unsettled db i.id → i.id ∉ committed
  | .settling i completes _ => Unsettled db i.id → (completes = true ↔ i.id ∈ committed)

structure Settleable (w : World graph) : Prop where
  wellFormed : WellFormed w
  recognisable : ∀ i ∈ w.disk.db.gitOperationIntents, i.incomplete = true →
    Recognisable w.disk w.committed i
  completed : ∀ i ∈ w.disk.db.gitOperationIntents, i.state = .completed → i.id ∈ w.committed
  abandoned : ∀ i ∈ w.disk.db.gitOperationIntents, i.state = .abandoned → i.id ∉ w.committed
  recovery : ∀ at', w.push = .recovering at' → at'.Agrees w.disk.db w.committed
  /-- A refused merge is completed only when it was settled before. -/
  refused : ∀ m, w.merge = .completing m false →
    ∀ i ∈ w.disk.db.gitOperationIntents, i.id = m.id → i.incomplete = false
  /-- A push has no merge. -/
  plain : ∀ push, w.push.begun = some push →
    ∀ pm ∈ w.disk.db.pullRequestMergeIntents, pm.intentId ≠ push.id

/-! ## The promise -/

/-- Recovery, run alone, succeeds and tells the committed intents from the others. -/
def Recovers (w : World graph) : Prop :=
  ∃ disk', w.disk.recoverIncompletePushes = (disk', none) ∧
    ∀ i ∈ disk'.db.gitOperationIntents,
      (i.state = .completed ∧ i.id ∈ w.committed) ∨ (i.state = .abandoned ∧ i.id ∉ w.committed)

theorem atRefs_of_some {disk : Disk} {path : RepositoryPath} {git : GitRepository}
    (found : disk.git path = some git) (snapshot : RefSnapshot) :
    atRefs disk path snapshot = git.refsMatch snapshot := by
  unfold atRefs
  rw [found]
  rfl

/-- A repository is not at the old and at the new values of one intent. -/
theorem WellFormed.not_initial {w : World graph} (wf : WellFormed w) {i : GitOperationIntent}
    (member : i ∈ w.disk.db.gitOperationIntents)
    (proposed : atRefs w.disk i.repositoryPath i.proposedRefs = true) :
    atRefs w.disk i.repositoryPath i.initialRefs = false := by
  obtain ⟨commands, initial, new⟩ := wf.consistent.commands i member
  obtain ⟨git, found⟩ := Option.isSome_iff_exists.mp (wf.opens i member)
  rw [atRefs_of_some found] at proposed ⊢
  rw [new] at proposed
  rw [initial]
  exact GitRepository.not_initial_of_proposed proposed

/-- The arm that recovery takes for a recognisable intent. -/
theorem Recognisable.arm {w : World graph} (wf : WellFormed w) {i : GitOperationIntent}
    (member : i ∈ w.disk.db.gitOperationIntents) (incomplete : i.incomplete = true)
    (recognisable : Recognisable w.disk w.committed i) :
    ∃ arm, w.disk.arm i = some arm ∧ (arm = .complete ↔ i.id ∈ w.committed) := by
  obtain ⟨git, found⟩ := Option.isSome_iff_exists.mp (wf.opens i member)
  have taken : w.disk.arm i = settlement i (git.refsMatch i.initialRefs)
      (git.refsMatch i.proposedRefs) := by
    unfold Disk.arm
    rw [found, Option.bind_some]
  rw [taken]
  by_cases moved : i.id ∈ w.committed
  · obtain ⟨promoted, proposed, -⟩ := recognisable.1 moved
    have initial := wf.not_initial member proposed
    rw [atRefs_of_some found] at initial proposed
    rw [initial, proposed]
    exact ⟨.complete, by simp [settlement, promoted], iff_of_true rfl moved⟩
  · have untold := recognisable.2 moved
    unfold Untold at untold
    rw [atRefs_of_some found, atRefs_of_some found] at untold
    have abandons : ∀ arm : Settlement, arm ≠ .complete → (arm = .complete ↔ i.id ∈ w.committed) :=
      fun arm other => iff_of_false other moved
    cases initial : git.refsMatch i.initialRefs with
    | true =>
        rcases incomplete_iff.mp incomplete with pending | promoted
        · exact ⟨.abandon, by simp [settlement, pending], abandons _ nofun⟩
        · exact ⟨.removeAndAbandon, by simp [settlement, promoted], abandons _ nofun⟩
    | false =>
        rw [initial] at untold
        obtain ⟨single, proposed⟩ := untold.resolve_left nofun
        rw [proposed]
        rcases incomplete_iff.mp incomplete with pending | promoted
        · exact ⟨.abandon, by simp [settlement, pending, single], abandons _ nofun⟩
        · exact ⟨.removeAndAbandon, by simp [settlement, promoted, single], abandons _ nofun⟩

/-- **The invariant is what recovery needs.** -/
theorem Settleable.recovers {w : World graph} (settleable : Settleable w) : Recovers w := by
  have wf := settleable.wellFormed
  have arms : ∀ i ∈ w.disk.db.gitOperationIntents, i.incomplete = true →
      ∃ arm, w.disk.arm i = some arm ∧ (arm = .complete ↔ i.id ∈ w.committed) :=
    fun i hi incomplete => (settleable.recognisable i hi incomplete).arm wf hi incomplete
  obtain ⟨disk', recovers, all⟩ := Disk.recoverIncompletePushes_succeeds wf.consistent (by
    intro i hi incomplete
    obtain ⟨arm, taken, exact'⟩ := arms i hi incomplete
    refine ⟨arm, taken, fun same => ?_⟩
    exact ((settleable.recognisable i hi incomplete).1 (exact'.mp same)).2.2)
  refine ⟨disk', recovers, fun i hi => ?_⟩
  rcases all.origin i hi with ⟨before, unnamed⟩ | ⟨j, hj, arm, taken, rfl⟩
  · have settled : ¬i.incomplete = true := fun incomplete =>
      unnamed i (mem_incompleteGitIntents.mpr ⟨before, incomplete⟩) rfl
    cases state : i.state with
    | pending => exact absurd (incomplete_iff.mpr (Or.inl state)) settled
    | promoted => exact absurd (incomplete_iff.mpr (Or.inr state)) settled
    | completed => exact Or.inl ⟨rfl, settleable.completed i before state⟩
    | abandoned => exact Or.inr ⟨rfl, settleable.abandoned i before state⟩
  · obtain ⟨member, incomplete⟩ := mem_incompleteGitIntents.mp hj
    obtain ⟨arm', taken', exact'⟩ := arms j member incomplete
    obtain rfl : arm = arm' := Option.some.inj (taken.symm.trans taken')
    cases arm with
    | complete => exact Or.inl ⟨rfl, exact'.mp rfl⟩
    | abandon => exact Or.inr ⟨rfl, fun moved => nomatch exact'.mpr moved⟩
    | removeAndAbandon => exact Or.inr ⟨rfl, fun moved => nomatch exact'.mpr moved⟩

/-! ## The condition on the steps -/

/-- The references that an intent names. -/
def names (i : GitOperationIntent) : List RefName := i.initialRefs.map Prod.fst

/-- The commands leave every other incomplete intent of the repository recognisable: they
do not touch the references of a committed one, nor those of one with several references,
and they do not move a single reference to where its own intent would. -/
def Leaves (w : World graph) (path : RepositoryPath) (id : Identifier) (commands : Commands) :
    Prop :=
  ∀ j ∈ w.disk.db.gitOperationIntents, j.id ≠ id → j.incomplete = true →
    j.repositoryPath = path → ∀ c ∈ commands.list, c.name ∈ names j →
      j.id ∉ w.committed ∧ j.initialRefs.length = 1 ∧ (c.name, c.new) ∉ j.proposedRefs

/-- A recovery under way has read no reference of the intent. -/
def Unread (w : World graph) (id : Identifier) : Prop :=
  match w.push with
  | .recovering (.initial i left _) => i.id = id → left = i.initialRefs
  | .recovering (.proposed i _ _ _) | .recovering (.removing i _)
  | .recovering (.settling i _ _) => i.id ≠ id
  | _ => True

/-- The pull request of the merge is open, and no younger than the merge. -/
def Recordable (w : World graph) (m : Merge graph) : Prop :=
  ∀ pm ∈ w.disk.db.pullRequestMergeIntents, pm.intentId = m.id →
    ∀ p ∈ w.disk.db.pullRequests, p.id = pm.pullRequestId →
      p.state = .open ∧ p.createdAt ≤ m.request.createdAt

/-- The step, if it moves the references of the merge. -/
def MayMove (w : World graph) (m : Merge graph) : Prop :=
  (∃ i ∈ w.disk.db.gitOperationIntents, i.id = m.id ∧ i.state = .promoted) ∧
    Unread w m.id ∧ Recordable w m ∧ Leaves w m.path m.id m.commands

/-- The request closes no pull request whose merge has moved its branch and is not
recorded yet. -/
def SparesMoved (w : World graph) (request : PullRequests.SetState) : Prop :=
  ∀ pm ∈ w.disk.db.pullRequestMergeIntents, pm.intentId ∈ w.committed →
    Unsettled w.disk.db pm.intentId → ∀ p ∈ w.disk.db.pullRequests, p.id = pm.pullRequestId →
      ¬w.disk.db.ChangesState request.owner request.repository request.number request.actor
        request.state request.changedAt p

def Allowed (w : World graph) : Action graph → Prop
  | .pushNext =>
      match w.push with
      | .validated push => Untold w.disk push.path push.commands.initial push.commands.proposed
      | .committing push =>
          atRefs w.disk push.path push.commands.initial = true →
            Leaves w push.path push.id push.commands
      | _ => True
  | .mergeNext =>
      match w.merge with
      | .read m => Untold w.disk m.path m.commands.initial m.commands.proposed
      | .committing m => atRefs w.disk m.path m.commands.initial = true → MayMove w m
      -- no reference has the null identifier
      | .refused m => ∀ git, w.disk.git m.path = some git →
          git.refs m.request.baseRef = some m.request.newTarget →
            m.request.newTarget.isNull = false
      | _ => True
  | .setState request => SparesMoved w request
  | _ => True

/-! ## Changes of the store -/

/-- A transaction on the intent `id`: the rows and merges of the others stay, and none goes
back from its settlement. -/
structure Touches (db db' : Database) (id : Identifier) : Prop where
  others : ∀ j, j.id ≠ id → (j ∈ db'.gitOperationIntents ↔ j ∈ db.gitOperationIntents)
  mergeable : ∀ j : GitOperationIntent, j.id ≠ id → (Mergeable db' j ↔ Mergeable db j)
  forward : ∀ j ∈ db.gitOperationIntents, ∃ k ∈ db'.gitOperationIntents, k.id = j.id ∧
    (k.incomplete = true → j.incomplete = true)

theorem Touches.unsettled {db db' : Database} {id id' : Identifier} (touches : Touches db db' id)
    (unsettled : Unsettled db' id') : Unsettled db id' := by
  intro j hj same
  obtain ⟨k, hk, own, back⟩ := touches.forward j hj
  exact back (unsettled k hk (own.trans same))

theorem Touches.agrees {db db' : Database} {id : Identifier} (touches : Touches db db' id)
    {committed : List Identifier} {at' : Recovery} (agrees : at'.Agrees db committed) :
    at'.Agrees db' committed := by
  cases at' with
  | listed rest => trivial
  | initial i left rest => exact fun unsettled => agrees (touches.unsettled unsettled)
  | proposed i atInitial left rest => exact fun unsettled => agrees (touches.unsettled unsettled)
  | removing i rest => exact fun unsettled => agrees (touches.unsettled unsettled)
  | settling i completes rest => exact fun unsettled => agrees (touches.unsettled unsettled)

theorem touches_begin {db db' : Database} {intent : NewGitOperationIntent}
    (ok : db.beginGitIntent intent = .ok db') : Touches db db' intent.id := by
  have kept := kept_begin ok
  obtain ⟨intents, rfl, rows, fresh⟩ := beginGitIntent_rows ok
  exact ⟨kept.others, fun _ _ => Iff.rfl, fun j hj => ⟨j, (rows j).mpr (Or.inl hj), rfl, id⟩⟩

theorem touches_beginMerge {db db' : Database} {merge : NewPullRequestMerge}
    {intent : NewGitOperationIntent} (agrees : Operations.Agrees db)
    (ok : db.beginPullRequestMerge merge intent = .ok db') : Touches db db' intent.id := by
  have kept := kept_beginMerge agrees ok
  obtain ⟨repositoryId, p, r, intents, merges, -, -, -, -, -, inserted, added, rfl⟩ :=
    beginPullRequestMerge_eq_ok ok
  refine ⟨kept.others, fun j other => ?_, fun j hj =>
    ⟨j, (Table.mem_insert inserted).mpr (Or.inl hj), rfl, id⟩⟩
  have merge : ∀ t, ({ db with
      gitOperationIntents := intents, pullRequestMergeIntents := merges } : Database).mergeOf j.id =
      some t ↔ db.mergeOf j.id = some t := by
    rintro ⟨m, q, s⟩
    rw [mergeOf_eq_some, mergeOf_eq_some]
    refine and_congr_left fun _ => and_congr_left fun own => ?_
    rw [Table.mem_insert added, or_iff_left]
    rintro rfl
    exact other own.symm
  unfold Mergeable
  exact forall_congr' fun m => forall_congr' fun q => forall_congr' fun s =>
    imp_congr_left (merge (m, q, s))

theorem touches_mark {db db' : Database} {id : Identifier} {packName : Option PackName}
    (ok : db.markGitObjectsPromoted id packName = .ok db') : Touches db db' id := by
  have kept := kept_mark ok
  obtain ⟨i, hi, rfl, pending, intents, rfl, rows⟩ := markGitObjectsPromoted_rows ok
  refine ⟨kept.others, fun _ _ => Iff.rfl, fun j hj => ?_⟩
  by_cases own : j.id = i.id
  · obtain rfl := eq_of_id hj hi own
    exact ⟨_, (rows _).mpr (Or.inr rfl), rfl, fun _ => incomplete_iff.mpr (Or.inl pending)⟩
  · exact ⟨j, (kept.others j own).mpr hj, rfl, fun same => same⟩

theorem touches_settled {db db' : Database} {i : GitOperationIntent} {state : IntentState}
    (member : i ∈ db.gitOperationIntents) (incomplete : i.incomplete = true)
    (settled : Settled db db' i state)
    (merges : ∀ m ∈ db'.pullRequestMergeIntents, m ∈ db.pullRequestMergeIntents) :
    Touches db db' i.id := by
  have kept := kept_settled member settled merges
  refine ⟨kept.others, fun j other => settled.mergeable other, fun j hj => ?_⟩
  by_cases own : j.id = i.id
  · obtain rfl := eq_of_id hj member own
    exact ⟨_, (settled.rows _).mpr (Or.inr rfl), rfl, fun _ => incomplete⟩
  · exact ⟨j, (kept.others j own).mpr hj, rfl, fun same => same⟩

/-! ## Changes of the references -/

def RefsKept (disk disk' : Disk) : Prop :=
  ∀ path, (disk'.git path).map (·.refs) = (disk.git path).map (·.refs)

theorem RefsKept.atRefs {disk disk' : Disk} (same : RefsKept disk disk') (path : RepositoryPath)
    (snapshot : RefSnapshot) : atRefs disk' path snapshot = atRefs disk path snapshot := by
  have refs := same path
  unfold Operations.atRefs
  cases before : disk.git path with
  | none =>
      rw [before, Option.map_none, Option.map_eq_none_iff] at refs
      rw [refs]
  | some git =>
      rw [before, Option.map_some] at refs
      obtain ⟨git', after, equal⟩ := Option.map_eq_some_iff.mp refs
      rw [after, Option.any_some, Option.any_some, GitRepository.refsMatch_congr equal]

theorem RefsKept.recognisable {disk disk' : Disk} (same : RefsKept disk disk')
    {committed : List Identifier} {i : GitOperationIntent}
    (mergeable : Mergeable disk'.db i ↔ Mergeable disk.db i)
    (recognisable : Recognisable disk committed i) : Recognisable disk' committed i := by
  unfold Recognisable Untold at *
  rw [same.atRefs, same.atRefs, mergeable]
  exact recognisable

theorem writeObjects_refsKept (disk : Disk) (m : Merge graph) :
    RefsKept disk (writeObjects disk m) := by
  intro path
  unfold writeObjects
  split
  · rfl
  · rename_i git found
    by_cases here : path = m.path
    · rw [here, Disk.setGit_same, found]
      rfl
    · rw [Disk.setGit_other _ here]

end Tit.Operations
