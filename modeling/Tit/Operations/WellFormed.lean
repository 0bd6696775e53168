/-
# Operations.WellFormed -- what holds whatever fails

`WellFormed` is kept by every step of the system, with every failure and crash: the rows
of the intents are consistent and name repositories that open, a merge row repeats its
pull request, and each lane has the row that its stage says.  A push finds its row as it
left it, since nothing else settles it while it runs; a merge finds its row with the same
data, but recovery may have settled it.

A transaction changes the row of one intent at most (`Kept`), so a lane is concerned only
by the transactions on its own intent.
-/
import Tit.Operations.Transition

namespace Tit.Operations

open Tit.Theory Tit.Store Tit.Store.Database Tit.Git

set_option autoImplicit false

variable {graph : ObjectGraph}

/-! ## The lanes and their rows -/

def PushStage.begun : PushStage → Option Push
  | .indexing push | .marking push _ | .committing push | .completing push => some push
  | _ => none

def MergeStage.begun : MergeStage graph → Option (Merge graph)
  | .writing m | .marking m | .committing m | .refused m | .completing m _ | .abandoning m =>
      some m
  | .idle | .read _ => none

/-- The row of a merge; it never has a pack. -/
def Merge.row (m : Merge graph) (state : IntentState) : GitOperationIntent :=
  { gitIntentRow m.intent with state, packName := none }

/-- A row that recovery has listed: the store has it, perhaps in a later state. -/
def Snapshot (db : Database) (i : GitOperationIntent) : Prop :=
  i.incomplete = true ∧
    ∃ j ∈ db.gitOperationIntents, i = { j with state := i.state, packName := i.packName }

def Recovery.Fits (db : Database) : Recovery → Prop
  | .listed rest => ∀ i ∈ rest, Snapshot db i
  | .initial i left rest =>
      Snapshot db i ∧ (∀ e ∈ left, e ∈ i.initialRefs) ∧ ∀ i ∈ rest, Snapshot db i
  | .proposed i _ left rest =>
      Snapshot db i ∧ (∀ e ∈ left, e ∈ i.proposedRefs) ∧ ∀ i ∈ rest, Snapshot db i
  | .removing i rest | .settling i _ rest => Snapshot db i ∧ ∀ i ∈ rest, Snapshot db i

def PushStage.Fits (db : Database) (committed : List Identifier) : PushStage → Prop
  | .indexing push | .marking push _ =>
      push.row .pending none ∈ db.gitOperationIntents ∧ push.id ∉ committed
  | .committing push =>
      (∃ packName, push.row .promoted packName ∈ db.gitOperationIntents) ∧ push.id ∉ committed
  | .completing push =>
      (∃ packName, push.row .promoted packName ∈ db.gitOperationIntents) ∧ push.id ∈ committed
  | .recovering at' => at'.Fits db
  | .idle | .validated _ | .failing => True

def MergeStage.Fits (db : Database) (committed : List Identifier) : MergeStage graph → Prop
  | .writing m | .marking m | .committing m | .refused m | .abandoning m | .completing m false =>
      (∃ state, m.row state ∈ db.gitOperationIntents) ∧ m.id ∉ committed
  | .completing m true =>
      (∃ state, m.row state ∈ db.gitOperationIntents) ∧ m.id ∈ committed
  | .idle | .read _ => True

/-! ## The pull requests of the merges -/

/-- The row of a pull request repeats its latest revision. -/
def Agrees (db : Database) : Prop :=
  ∀ p ∈ db.pullRequests, ∀ r ∈ db.pullRequestRevisions, r.pullRequestId = p.id →
    r.number + 1 = db.nextRevisionNumber p.id →
    r.headObjectId = p.headObjectId ∧ r.baseObjectId = p.baseObjectId

/-- The pull request still is what the merge was begun for, except that it may be closed. -/
def Pinned (db : Database) (m : PullRequestMergeIntent) : Prop :=
  ∃ p ∈ db.pullRequests, p.id = m.pullRequestId ∧
    ∃ r ∈ db.pullRequestRevisions, r.id = m.revisionId ∧
      p.baseRef = m.baseRef ∧ p.baseObjectId = m.oldTarget ∧ p.headObjectId = r.headObjectId ∧
      r.baseObjectId = m.oldTarget ∧ db.nextRevisionNumber p.id = m.revisionNumber + 1

structure WellFormed (w : World graph) : Prop where
  consistent : Consistent w.disk.db
  opens : ∀ i ∈ w.disk.db.gitOperationIntents, (w.disk.git i.repositoryPath).isSome = true
  agrees : Agrees w.disk.db
  pinned : ∀ m ∈ w.disk.db.pullRequestMergeIntents, Pinned w.disk.db m
  stored : ∀ id ∈ w.committed, ∃ i ∈ w.disk.db.gitOperationIntents, i.id = id
  push : w.push.Fits w.disk.db w.committed
  merge : w.merge.Fits w.disk.db w.committed
  validated : ∀ push, w.push = .validated push → (w.disk.git push.path).isSome = true
  read : ∀ m, w.merge = .read m → (w.disk.git m.path).isSome = true
  apart : ∀ push m, w.push.begun = some push → w.merge.begun = some m → push.id ≠ m.id

/-! ## What a transaction leaves alone -/

/-- Only the row of `id` changes, and it keeps its data. -/
structure Kept (db db' : Database) (id : Identifier) : Prop where
  others : ∀ j, j.id ≠ id → (j ∈ db'.gitOperationIntents ↔ j ∈ db.gitOperationIntents)
  own : ∀ j ∈ db.gitOperationIntents, j.id = id → ∃ state packName,
    { j with state, packName } ∈ db'.gitOperationIntents
  pullRequests : SamePullRequests db db'
  merges : ∀ m ∈ db'.pullRequestMergeIntents, m ∈ db.pullRequestMergeIntents ∨ Pinned db m

theorem Kept.row {db db' : Database} {id : Identifier} (kept : Kept db db' id)
    {j : GitOperationIntent} (member : j ∈ db.gitOperationIntents) :
    ∃ state packName, { j with state, packName } ∈ db'.gitOperationIntents := by
  by_cases own : j.id = id
  · exact kept.own j member own
  · exact ⟨j.state, j.packName, (kept.others j own).mpr member⟩

theorem Kept.snapshot {db db' : Database} {id : Identifier} (kept : Kept db db' id)
    {i : GitOperationIntent} (snapshot : Snapshot db i) : Snapshot db' i := by
  obtain ⟨incomplete, j, hj, same⟩ := snapshot
  obtain ⟨state, packName, member⟩ := kept.row hj
  exact ⟨incomplete, _, member, same⟩

theorem Kept.recovery {db db' : Database} {id : Identifier} (kept : Kept db db' id)
    {at' : Recovery} (fits : at'.Fits db) : at'.Fits db' := by
  cases at' with
  | listed rest => exact fun i hi => kept.snapshot (fits i hi)
  | initial i left rest =>
      exact ⟨kept.snapshot fits.1, fits.2.1, fun i hi => kept.snapshot (fits.2.2 i hi)⟩
  | proposed i atInitial left rest =>
      exact ⟨kept.snapshot fits.1, fits.2.1, fun i hi => kept.snapshot (fits.2.2 i hi)⟩
  | removing i rest => exact ⟨kept.snapshot fits.1, fun i hi => kept.snapshot (fits.2 i hi)⟩
  | settling i completes rest =>
      exact ⟨kept.snapshot fits.1, fun i hi => kept.snapshot (fits.2 i hi)⟩

/-- The push lane is not concerned by a transaction on another intent. -/
theorem Kept.push {db db' : Database} {id : Identifier} (kept : Kept db db' id)
    {committed committed' : List Identifier} {stage : PushStage}
    (other : ∀ push, stage.begun = some push → push.id ≠ id)
    (same : ∀ push, stage.begun = some push → (push.id ∈ committed' ↔ push.id ∈ committed))
    (fits : stage.Fits db committed) : stage.Fits db' committed' := by
  have stays : ∀ {push state packName}, stage.begun = some push →
      push.row state packName ∈ db.gitOperationIntents →
      push.row state packName ∈ db'.gitOperationIntents := fun begun member =>
    (kept.others _ (other _ begun)).mpr member
  cases stage with
  | indexing push => exact ⟨stays rfl fits.1, (not_congr (same push rfl)).mpr fits.2⟩
  | marking push packName => exact ⟨stays rfl fits.1, (not_congr (same push rfl)).mpr fits.2⟩
  | committing push =>
      obtain ⟨⟨packName, member⟩, uncommitted⟩ := fits
      exact ⟨⟨packName, stays rfl member⟩, (not_congr (same push rfl)).mpr uncommitted⟩
  | completing push =>
      obtain ⟨⟨packName, member⟩, moved⟩ := fits
      exact ⟨⟨packName, stays rfl member⟩, (same push rfl).mpr moved⟩
  | recovering at' => exact kept.recovery fits
  | idle => trivial
  | validated push => trivial
  | failing => trivial

/-- The merge lane asks for the data of its row only. -/
theorem MergeStage.Fits.kept {db db' : Database} {committed committed' : List Identifier}
    {stage : MergeStage graph} (fits : stage.Fits db committed)
    (rows : ∀ m state, stage.begun = some m → m.row state ∈ db.gitOperationIntents →
      ∃ state', m.row state' ∈ db'.gitOperationIntents)
    (same : ∀ m, stage.begun = some m → (m.id ∈ committed' ↔ m.id ∈ committed)) :
    stage.Fits db' committed' := by
  cases stage with
  | idle => trivial
  | read m => trivial
  | completing m moved =>
      cases moved with
      | false =>
          obtain ⟨⟨state, member⟩, uncommitted⟩ := fits
          exact ⟨rows m state rfl member, (not_congr (same m rfl)).mpr uncommitted⟩
      | true =>
          obtain ⟨⟨state, member⟩, moved⟩ := fits
          exact ⟨rows m state rfl member, (same m rfl).mpr moved⟩
  | writing m =>
      obtain ⟨⟨state, member⟩, uncommitted⟩ := fits
      exact ⟨rows m state rfl member, (not_congr (same m rfl)).mpr uncommitted⟩
  | marking m =>
      obtain ⟨⟨state, member⟩, uncommitted⟩ := fits
      exact ⟨rows m state rfl member, (not_congr (same m rfl)).mpr uncommitted⟩
  | committing m =>
      obtain ⟨⟨state, member⟩, uncommitted⟩ := fits
      exact ⟨rows m state rfl member, (not_congr (same m rfl)).mpr uncommitted⟩
  | refused m =>
      obtain ⟨⟨state, member⟩, uncommitted⟩ := fits
      exact ⟨rows m state rfl member, (not_congr (same m rfl)).mpr uncommitted⟩
  | abandoning m =>
      obtain ⟨⟨state, member⟩, uncommitted⟩ := fits
      exact ⟨rows m state rfl member, (not_congr (same m rfl)).mpr uncommitted⟩

theorem Kept.merge {db db' : Database} {id : Identifier} (kept : Kept db db' id)
    {committed committed' : List Identifier} {stage : MergeStage graph}
    (other : ∀ m, stage.begun = some m → m.id ≠ id)
    (same : ∀ m, stage.begun = some m → (m.id ∈ committed' ↔ m.id ∈ committed))
    (fits : stage.Fits db committed) : stage.Fits db' committed' := by
  refine fits.kept (fun m state begun member => ⟨state, ?_⟩) same
  exact (kept.others _ (other m begun)).mpr member

theorem Kept.refl (db : Database) (id : Identifier) : Kept db db id :=
  ⟨fun _ _ => Iff.rfl, fun j hj _ => ⟨j.state, j.packName, hj⟩, SamePullRequests.of_eq rfl rfl,
    fun _ hm => Or.inl hm⟩

theorem kept_begin {db db' : Database} {intent : NewGitOperationIntent}
    (ok : db.beginGitIntent intent = .ok db') : Kept db db' intent.id := by
  obtain ⟨intents, rfl, rows, fresh⟩ := beginGitIntent_rows ok
  refine ⟨fun j other => ?_, fun j hj own => absurd own (fresh j hj),
    SamePullRequests.of_eq rfl rfl, fun _ hm => Or.inl hm⟩
  rw [rows j, or_iff_left]
  rintro rfl
  exact other rfl

theorem kept_beginMerge {db db' : Database} {merge : NewPullRequestMerge}
    {intent : NewGitOperationIntent} (agrees : Agrees db)
    (ok : db.beginPullRequestMerge merge intent = .ok db') : Kept db db' intent.id := by
  obtain ⟨repositoryId, p, r, intents, merges, -, of, -, -, -, inserted, added, rfl⟩ :=
    beginPullRequestMerge_eq_ok ok
  have fresh : ∀ j ∈ db.gitOperationIntents, j.id ≠ intent.id := fun j hj same =>
    Table.insert_fresh inserted j hj (Schema.clash_of_key _ _ same)
  refine ⟨fun j other => ?_, fun j hj own => absurd own (fresh j hj),
    SamePullRequests.of_eq rfl rfl, fun m hm => ?_⟩
  · rw [Table.mem_insert inserted, or_iff_left]
    rintro rfl
    exact other rfl
  · refine ((Table.mem_insert added).mp hm).imp_right ?_
    rintro rfl
    obtain ⟨head, base⟩ := agrees p of.pullRequest r of.revision of.ofPullRequest of.latest
    refine ⟨p, of.pullRequest, rfl, r, of.revision, rfl, of.baseRef, of.base, head.symm,
      base.trans of.base, ?_⟩
    rw [← of.latest, of.revisionNumber]
    rfl

theorem kept_mark {db db' : Database} {id : Identifier} {packName : Option PackName}
    (ok : db.markGitObjectsPromoted id packName = .ok db') : Kept db db' id := by
  obtain ⟨i, hi, rfl, -, intents, rfl, rows⟩ := markGitObjectsPromoted_rows ok
  refine ⟨fun j other => ?_, fun j hj own => ?_, SamePullRequests.of_eq rfl rfl,
    fun _ hm => Or.inl hm⟩
  · rw [rows j]
    refine ⟨?_, fun member => Or.inl ⟨member, other⟩⟩
    rintro (⟨member, -⟩ | rfl)
    · exact member
    · exact absurd rfl other
  · obtain rfl := eq_of_id hj hi own
    exact ⟨_, _, (rows _).mpr (Or.inr rfl)⟩

theorem kept_settled {db db' : Database} {i : GitOperationIntent} {state : IntentState}
    (member : i ∈ db.gitOperationIntents) (settled : Settled db db' i state)
    (merges : ∀ m ∈ db'.pullRequestMergeIntents, m ∈ db.pullRequestMergeIntents) :
    Kept db db' i.id := by
  refine ⟨fun j other => ?_, fun j hj own => ?_, settled.pullRequests,
    fun m hm => Or.inl (merges m hm)⟩
  · rw [settled.rows j]
    refine ⟨?_, fun member => Or.inl ⟨member, other⟩⟩
    rintro (⟨member, -⟩ | rfl)
    · exact member
    · exact absurd rfl other
  · obtain rfl := eq_of_id hj member own
    exact ⟨_, j.packName, (settled.rows _).mpr (Or.inr rfl)⟩

/-- A change of state as a change of rows. -/
theorem setPullRequestState_rows {db db' : Database} {owner repository : String} {number : Nat}
    {actor : String} {state : PullRequestState} {changedAt : Int}
    (ok : db.setPullRequestState owner repository number actor state changedAt = .ok db') :
    ∃ current ∈ db.pullRequests, current.state ≠ .merged ∧
      ∃ pullRequests repositoryEvents, db' = { db with pullRequests, repositoryEvents } ∧
        (∀ q, q ∈ pullRequests ↔ (q ∈ db.pullRequests ∧ q.id ≠ current.id) ∨
          q = { current with state, updatedAt := changedAt }) ∧
        ∀ id, eventsOf repositoryEvents id = eventsOf db.repositoryEvents id := by
  obtain ⟨current, member, pullRequests, events, changes, updated, rfl⟩ :=
    setPullRequestState_eq_ok ok
  refine ⟨current, member, changes.changes.1, pullRequests, events, rfl, fun q => ?_,
    setPullRequestState_unsourced ok⟩
  exact Table.mem_update_one updated member (decide_eq_true rfl) fun _ _ chosen =>
    of_decide_eq_true chosen

theorem setPullRequestState_samePullRequests {db db' : Database} {owner repository : String}
    {number : Nat} {actor : String} {state : PullRequestState} {changedAt : Int}
    (ok : db.setPullRequestState owner repository number actor state changedAt = .ok db') :
    SamePullRequests db db' := by
  obtain ⟨current, member, -, pullRequests, events, rfl, rows, -⟩ := setPullRequestState_rows ok
  refine ⟨fun q hq => ?_, fun p hp => ?_, rfl⟩
  · rcases (rows q).mp hq with ⟨before, -⟩ | rfl
    · exact ⟨q, before, rfl⟩
    · exact ⟨current, member, rfl⟩
  · by_cases own : p.id = current.id
    · obtain rfl : p = current := Table.eq_of_key hp member own
      exact ⟨_, (rows _).mpr (Or.inr rfl), rfl⟩
    · exact ⟨p, (rows p).mpr (Or.inl ⟨hp, own⟩), rfl⟩

theorem kept_setState {db db' : Database} {owner repository : String} {number : Nat}
    {actor : String} {state : PullRequestState} {changedAt : Int}
    (ok : db.setPullRequestState owner repository number actor state changedAt = .ok db')
    (id : Identifier) : Kept db db' id := by
  have same := setPullRequestState_samePullRequests ok
  obtain ⟨current, -, -, pullRequests, events, rfl, -, -⟩ := setPullRequestState_rows ok
  exact ⟨fun _ _ => Iff.rfl, fun j hj _ => ⟨j.state, j.packName, hj⟩, same,
    fun _ hm => Or.inl hm⟩

theorem consistent_setState {db db' : Database} (consistent : Consistent db)
    {owner repository : String} {number : Nat} {actor : String} {state : PullRequestState}
    {changedAt : Int}
    (ok : db.setPullRequestState owner repository number actor state changedAt = .ok db') :
    Consistent db' := by
  obtain ⟨current, -, -, pullRequests, events, rfl, -, logs⟩ := setPullRequestState_rows ok
  refine ⟨consistent.commands, consistent.quarantine, consistent.recorded, fun id some => ?_,
    consistent.merges⟩
  rw [logs id] at some
  exact consistent.logged id some

/-! ## The pull requests under a transaction -/

theorem nextRevisionNumber_congr {db db' : Database}
    (same : db'.pullRequestRevisions = db.pullRequestRevisions) (id : Identifier) :
    db'.nextRevisionNumber id = db.nextRevisionNumber id := by
  unfold nextRevisionNumber
  rw [same]

theorem Agrees.kept {db db' : Database} (agrees : Agrees db) (same : SamePullRequests db db') :
    Agrees db' := by
  intro q hq r hr own latest
  obtain ⟨p, hp, equal⟩ := same.back q hq
  rw [same.revisions] at hr
  rw [nextRevisionNumber_congr same.revisions] at latest
  rw [equal] at own latest ⊢
  exact agrees p hp r hr own latest

theorem Pinned.kept {db db' : Database} {m : PullRequestMergeIntent} (pinned : Pinned db m)
    (same : SamePullRequests db db') : Pinned db' m := by
  obtain ⟨p, hp, id, r, hr, rid, baseRef, base, head, rbase, number⟩ := pinned
  obtain ⟨q, hq, equal⟩ := same.forth p hp
  refine ⟨q, hq, ?_, r, same.revisions ▸ hr, rid, ?_, ?_, ?_, rbase, ?_⟩
  · rw [equal]
    exact id
  · rw [equal]
    exact baseRef
  · rw [equal]
    exact base
  · rw [equal]
    exact head
  · rw [nextRevisionNumber_congr same.revisions, equal]
    exact number

/-! ## The invariant is kept -/

/-- What a step has to show: the change of the rows, and the lanes it leaves. -/
theorem WellFormed.next {w w' : World graph} {id : Identifier} (wf : WellFormed w)
    (kept : Kept w.disk.db w'.disk.db id) (consistent : Consistent w'.disk.db)
    (opens : ∀ path, (w.disk.git path).isSome = true → (w'.disk.git path).isSome = true)
    (rows : ∀ i ∈ w'.disk.db.gitOperationIntents, (w.disk.git i.repositoryPath).isSome = true)
    (committed : ∀ id ∈ w'.committed, id ∈ w.committed ∨
      ∃ i ∈ w.disk.db.gitOperationIntents, i.id = id)
    (push : w'.push.Fits w'.disk.db w'.committed) (merge : w'.merge.Fits w'.disk.db w'.committed)
    (validated : ∀ push, w'.push = .validated push → (w.disk.git push.path).isSome = true)
    (read : ∀ m, w'.merge = .read m → (w.disk.git m.path).isSome = true)
    (apart : ∀ push m, w'.push.begun = some push → w'.merge.begun = some m → push.id ≠ m.id) :
    WellFormed w' where
  consistent := consistent
  opens i hi := opens _ (rows i hi)
  agrees := wf.agrees.kept kept.pullRequests
  pinned m hm := (kept.merges m hm).elim (fun before => (wf.pinned m before).kept kept.pullRequests)
    fun new => new.kept kept.pullRequests
  stored id' hid := by
    obtain ⟨i, hi, rfl⟩ := (committed id' hid).elim (wf.stored id') fun exists' => exists'
    obtain ⟨state, packName, member⟩ := kept.row hi
    exact ⟨_, member, rfl⟩
  push := push
  merge := merge
  validated push stage := opens _ (validated push stage)
  read m stage := opens _ (read m stage)
  apart := apart

/-- A step that changes a lane, and neither the store nor what was committed. -/
theorem WellFormed.lanes {w w' : World graph} (wf : WellFormed w)
    (db : w'.disk.db = w.disk.db)
    (opens : ∀ path, (w.disk.git path).isSome = true → (w'.disk.git path).isSome = true)
    (committed : w'.committed = w.committed)
    (push : w'.push.Fits w.disk.db w.committed) (merge : w'.merge.Fits w.disk.db w.committed)
    (validated : ∀ push, w'.push = .validated push → (w.disk.git push.path).isSome = true)
    (read : ∀ m, w'.merge = .read m → (w.disk.git m.path).isSome = true)
    (apart : ∀ push m, w'.push.begun = some push → w'.merge.begun = some m → push.id ≠ m.id) :
    WellFormed w' := by
  have same : Kept w.disk.db w'.disk.db 0 := by
    rw [db]
    exact Kept.refl _ _
  refine wf.next same ?_ opens ?_ ?_ ?_ ?_ validated read apart
  · rw [db]
    exact wf.consistent
  · rw [db]
    exact wf.opens
  · rw [committed]
    exact fun id hid => Or.inl hid
  · rw [db, committed]
    exact push
  · rw [db, committed]
    exact merge

theorem isSome_of_sameRefs {disk disk' : Disk} (same : Disk.SameRefs disk disk')
    {path : RepositoryPath} (opens : (disk.git path).isSome = true) :
    (disk'.git path).isSome = true := by
  obtain ⟨git, found⟩ := Option.isSome_iff_exists.mp opens
  obtain ⟨git', after, -⟩ := same.forth found
  rw [after]
  rfl

theorem isSome_setGit {disk : Disk} {path : RepositoryPath} (git : GitRepository)
    {path' : RepositoryPath} (opens : (disk.git path').isSome = true) :
    ((disk.setGit path git).git path').isSome = true := by
  by_cases here : path' = path
  · rw [here, Disk.setGit_same]
    rfl
  · rw [Disk.setGit_other git here]
    exact opens

/-- A merge that has begun has its row. -/
theorem MergeStage.Fits.row {db : Database} {committed : List Identifier}
    {stage : MergeStage graph} {m : Merge graph} (fits : stage.Fits db committed)
    (begun : stage.begun = some m) : ∃ state, m.row state ∈ db.gitOperationIntents := by
  cases stage with
  | idle | read => cases begun
  | completing m' moved =>
      cases begun
      cases moved with
      | false => exact fits.1
      | true => exact fits.1
  | writing | marking | committing | refused | abandoning =>
      cases begun
      exact fits.1

theorem PushStage.Fits.row {db : Database} {committed : List Identifier} {stage : PushStage}
    {push : Push} (fits : stage.Fits db committed) (begun : stage.begun = some push) :
    ∃ state packName, push.row state packName ∈ db.gitOperationIntents := by
  cases stage with
  | idle | validated | failing | recovering => cases begun
  | indexing | marking =>
      cases begun
      exact ⟨_, _, fits.1⟩
  | committing | completing =>
      cases begun
      obtain ⟨packName, member⟩ := fits.1
      exact ⟨_, packName, member⟩

theorem Looks.fits {disk : Disk} {db : Database} {at' next : Recovery} (looks : Looks disk at' next)
    (fits : at'.Fits db) : next.Fits db := by
  have decides : ∀ {i atInitial atProposed rest next},
      decided i atInitial atProposed rest = .continues next → Snapshot db i →
      (∀ i ∈ rest, Snapshot db i) → next.Fits db := by
    intro i atInitial atProposed rest next same snapshot later
    unfold decided at same
    split at same
    · cases same
    all_goals
      cases same
      exact ⟨snapshot, later⟩
  cases looks with
  | take => exact ⟨fits _ List.mem_cons_self, fun _ he => he, fun i hi =>
      fits i (List.mem_cons_of_mem _ hi)⟩
  | initialSame => exact ⟨fits.1, fun e he => fits.2.1 e (List.mem_cons_of_mem _ he), fits.2.2⟩
  | initialOther => exact ⟨fits.1, fun _ he => he, fits.2.2⟩
  | initialEnd => exact ⟨fits.1, fun _ he => he, fits.2.2⟩
  | proposedSame => exact ⟨fits.1, fun e he => fits.2.1 e (List.mem_cons_of_mem _ he), fits.2.2⟩
  | proposedOther _ same => exact decides same fits.1 fits.2.2
  | proposedEnd same => exact decides same fits.1 fits.2.2

/-- Settling an intent, by recovery or by its own lane. -/
structure Settles (db db' : Database) (id : Identifier) : Prop where
  kept : Kept db db' id
  consistent : Consistent db'
  paths : ∀ j ∈ db'.gitOperationIntents, ∃ k ∈ db.gitOperationIntents,
    k.repositoryPath = j.repositoryPath
  rows : ∀ j ∈ db.gitOperationIntents, ∃ state, { j with state } ∈ db'.gitOperationIntents

theorem settles_of_settled {db db' : Database} {i : GitOperationIntent} {state : IntentState}
    (settled : Settled db db' i state) (member : i ∈ db.gitOperationIntents)
    (merges : ∀ m ∈ db'.pullRequestMergeIntents, m ∈ db.pullRequestMergeIntents)
    (consistent : Consistent db') : Settles db db' i.id := by
  obtain ⟨back, forth⟩ := settled.keeps member
  refine ⟨kept_settled member settled merges, consistent, fun j hj => ?_, fun j hj => ?_⟩
  · obtain ⟨k, hk, same⟩ := back j hj
    exact ⟨k, hk, by rw [same]⟩
  · obtain ⟨k, hk, same, -⟩ := forth j hj
    exact ⟨k.state, same ▸ hk⟩

theorem settles_complete {db db' : Database} {id : Identifier} (consistent : Consistent db)
    (ok : db.completeGitIntent id = .ok db') : Settles db db' id := by
  obtain ⟨i, hi, rfl, -, -, settled, -, -, -, merges⟩ := complete_settled ok
  exact settles_of_settled settled hi (fun m hm => merges ▸ hm) (consistent.complete ok)

theorem settles_abandon {db db' : Database} {id : Identifier} (consistent : Consistent db)
    (ok : db.abandonGitIntent id = .ok db') : Settles db db' id := by
  obtain ⟨i, hi, rfl, -, settled, -, -, -, merges⟩ := abandon_settled ok
  exact settles_of_settled settled hi (fun m hm => ((merges m).mp hm).1) (consistent.abandon ok)

section Push

variable {w : World graph} {push : Push} {db : Database}

theorem wellFormed_beginPush (wf : WellFormed w) (stage : w.push = .validated push)
    (ok : w.disk.db.beginGitIntent push.intent = .ok db) :
    WellFormed { w with disk := { w.disk with db }, push := .indexing push } := by
  have kept := kept_begin ok
  have consistent := wf.consistent.begin ok rfl rfl rfl
  obtain ⟨intents, rfl, rows, fresh⟩ := beginGitIntent_rows ok
  have other : ∀ m, w.merge.begun = some m → m.id ≠ push.id := by
    intro m begun clash
    obtain ⟨state, member⟩ := wf.merge.row begun
    exact fresh _ member clash
  refine wf.next kept consistent (fun _ opens => opens) ?_ (fun _ hid => Or.inl hid) ?_
    (kept.merge other (fun _ _ => Iff.rfl) wf.merge) nofun wf.read ?_
  · intro i hi
    rcases (rows i).mp hi with before | rfl
    · exact wf.opens i before
    · exact wf.validated push stage
  · refine ⟨(rows _).mpr (Or.inr rfl), fun moved => ?_⟩
    obtain ⟨i, hi, id⟩ := wf.stored _ moved
    exact fresh i hi id
  · rintro push' m ⟨⟩ begun clash
    exact other m begun clash.symm

/-- A push puts its pack into the repository, or fails after it. -/
theorem wellFormed_place (wf : WellFormed w) (stage : w.push = .indexing push)
    {stage' : PushStage}
    (next : stage' = .failing ∨ ∃ packName, stage' = .marking push packName) :
    WellFormed { w with disk := (w.disk.place push.path push.pack).1, push := stage' } := by
  have fits := wf.push
  have apart := wf.apart push
  rw [stage] at fits apart
  have opens : ∀ path, (w.disk.git path).isSome = true →
      ((w.disk.place push.path push.pack).1.git path).isSome = true := fun path =>
    isSome_of_sameRefs (w.disk.place_sameRefs push.path push.pack)
  rcases next with rfl | ⟨packName, rfl⟩
  · exact wf.lanes (w.disk.place_db _ _) opens rfl trivial wf.merge nofun wf.read nofun
  · refine wf.lanes (w.disk.place_db _ _) opens rfl fits wf.merge nofun wf.read ?_
    rintro push' m ⟨⟩ begun
    exact apart m rfl begun

theorem wellFormed_markPush (wf : WellFormed w) {packName : Option PackName}
    (stage : w.push = .marking push packName)
    (ok : w.disk.db.markGitObjectsPromoted push.id packName = .ok db) :
    WellFormed { w with disk := { w.disk with db }, push := .committing push } := by
  have kept := kept_mark ok
  have consistent := wf.consistent.mark ok
  have fits := wf.push
  have apart := wf.apart push
  rw [stage] at fits apart
  obtain ⟨i, hi, same, -, intents, rfl, rows⟩ := markGitObjectsPromoted_rows ok
  obtain rfl := eq_of_id hi fits.1 same
  refine wf.next kept consistent (fun _ opens => opens) ?_ (fun _ hid => Or.inl hid)
    ⟨⟨packName, (rows _).mpr (Or.inr rfl)⟩, fits.2⟩
    (kept.merge (fun m begun clash => apart m rfl begun clash.symm) (fun _ _ => Iff.rfl) wf.merge)
    nofun wf.read ?_
  · intro j hj
    rcases (rows j).mp hj with ⟨before, -⟩ | rfl
    · exact wf.opens j before
    · exact wf.opens (push.row .pending none) fits.1
  · rintro push' m ⟨⟩ begun
    exact apart m rfl begun

theorem wellFormed_movePush (wf : WellFormed w) (stage : w.push = .committing push)
    (git : GitRepository) :
    WellFormed { w with
      disk := w.disk.setGit push.path git
      push := .completing push, committed := push.id :: w.committed } := by
  have fits := wf.push
  have apart := wf.apart push
  rw [stage] at fits apart
  obtain ⟨⟨packName, member⟩, -⟩ := fits
  refine wf.next (Kept.refl _ push.id) wf.consistent (fun _ => isSome_setGit git) wf.opens ?_
    ⟨⟨packName, member⟩, List.mem_cons_self⟩ ?_ nofun wf.read ?_
  · intro id hid
    rcases List.mem_cons.mp hid with rfl | before
    · exact Or.inr ⟨_, member, rfl⟩
    · exact Or.inl before
  · refine (Kept.refl _ push.id).merge (fun m begun clash => apart m rfl begun clash.symm) ?_
      wf.merge
    intro m begun
    rw [List.mem_cons, or_iff_right fun clash => apart m rfl begun clash.symm]
  · rintro push' m ⟨⟩ begun
    exact apart m rfl begun

theorem wellFormed_completePush (wf : WellFormed w) (stage : w.push = .completing push)
    (ok : w.disk.db.completeGitIntent push.id = .ok db) :
    WellFormed { w with disk := { w.disk with db }, push := .idle } := by
  have settles := settles_complete wf.consistent ok
  have apart := wf.apart push
  rw [stage] at apart
  refine wf.next settles.kept settles.consistent (fun _ opens => opens) ?_
    (fun _ hid => Or.inl hid) trivial
    (settles.kept.merge (fun m begun clash => apart m rfl begun clash.symm) (fun _ _ => Iff.rfl)
      wf.merge) nofun wf.read nofun
  intro j hj
  obtain ⟨k, hk, path⟩ := settles.paths j hj
  exact path ▸ wf.opens k hk

/-- Recovery settles an intent, perhaps the one of the running merge. -/
theorem wellFormed_settle (wf : WellFormed w) {i : GitOperationIntent} {completes : Bool}
    {rest : List GitOperationIntent} {stage' : PushStage} {mode : Mode}
    (stage : w.push = .recovering (.settling i completes rest))
    (ok : (if completes then w.disk.db.completeGitIntent i.id
      else w.disk.db.abandonGitIntent i.id) = .ok db)
    (next : stage' = .recovering (.listed rest) ∨ stage' = .idle) :
    WellFormed { w with disk := { w.disk with db }, push := stage', mode } := by
  have fits := wf.push
  rw [stage] at fits
  have settles : Settles w.disk.db db i.id := by
    cases completes with
    | true => exact settles_complete wf.consistent ok
    | false => exact settles_abandon wf.consistent ok
  have merge : w.merge.Fits db w.committed :=
    wf.merge.kept (fun m state _ member => settles.rows (m.row state) member) fun _ _ => Iff.rfl
  have rows : ∀ j ∈ db.gitOperationIntents, (w.disk.git j.repositoryPath).isSome = true := by
    intro j hj
    obtain ⟨k, hk, path⟩ := settles.paths j hj
    exact path ▸ wf.opens k hk
  have later : (Recovery.listed rest).Fits w.disk.db := fits.2
  rcases next with rfl | rfl
  · exact wf.next settles.kept settles.consistent (fun _ opens => opens) rows
      (fun _ hid => Or.inl hid) (settles.kept.recovery later) merge nofun wf.read nofun
  · exact wf.next settles.kept settles.consistent (fun _ opens => opens) rows
      (fun _ hid => Or.inl hid) trivial merge nofun wf.read nofun

end Push

section Merge

variable {w : World graph} {m : Merge graph} {db : Database}

theorem wellFormed_beginMerge (wf : WellFormed w) {stage' : MergeStage graph}
    (stage : w.merge = .read m) (ok : w.disk.db.beginPullRequestMerge m.request m.intent = .ok db)
    (next : stage' = .writing m ∨ stage' = .marking m) :
    WellFormed { w with disk := { w.disk with db }, merge := stage' } := by
  have kept := kept_beginMerge wf.agrees ok
  have consistent := wf.consistent.beginMerge ok rfl rfl rfl
  have opens := wf.read m stage
  obtain ⟨repositoryId, p, r, intents, merges, -, -, -, -, -, inserted, added, rfl⟩ :=
    beginPullRequestMerge_eq_ok ok
  have rows : ∀ j, j ∈ intents ↔ j ∈ w.disk.db.gitOperationIntents ∨ j = gitIntentRow m.intent :=
    fun j => Table.mem_insert inserted
  have fresh : ∀ j ∈ w.disk.db.gitOperationIntents, j.id ≠ m.id := fun j hj same =>
    Table.insert_fresh inserted j hj (Schema.clash_of_key _ _ same)
  have other : ∀ push, w.push.begun = some push → push.id ≠ m.id := by
    intro push begun clash
    obtain ⟨state, packName, member⟩ := wf.push.row begun
    exact fresh _ member clash
  have row : (∃ state, m.row state ∈ intents) ∧ m.id ∉ w.committed := by
    refine ⟨⟨.pending, (rows _).mpr (Or.inr rfl)⟩, fun moved => ?_⟩
    obtain ⟨i, hi, id⟩ := wf.stored _ moved
    exact fresh i hi id
  have paths : ∀ i ∈ intents, (w.disk.git i.repositoryPath).isSome = true := by
    intro i hi
    rcases (rows i).mp hi with before | rfl
    · exact wf.opens i before
    · exact opens
  have push := kept.push other (fun _ _ => Iff.rfl) wf.push
  rcases next with rfl | rfl
  · refine wf.next kept consistent (fun _ opens => opens) paths (fun _ hid => Or.inl hid) push row
      wf.validated nofun ?_
    rintro push m' begun ⟨⟩
    exact other push begun
  · refine wf.next kept consistent (fun _ opens => opens) paths (fun _ hid => Or.inl hid) push row
      wf.validated nofun ?_
    rintro push m' begun ⟨⟩
    exact other push begun

theorem wellFormed_markMerge (wf : WellFormed w) (stage : w.merge = .marking m)
    (ok : w.disk.db.markGitObjectsPromoted m.id none = .ok db) :
    WellFormed { w with disk := { w.disk with db }, merge := .committing m } := by
  have kept := kept_mark ok
  have consistent := wf.consistent.mark ok
  have fits := wf.merge
  have apart := fun push => wf.apart push m
  rw [stage] at fits apart
  obtain ⟨⟨state, member⟩, uncommitted⟩ := fits
  obtain ⟨i, hi, same, -, intents, rfl, rows⟩ := markGitObjectsPromoted_rows ok
  obtain rfl := eq_of_id hi member same
  refine wf.next kept consistent (fun _ opens => opens) ?_ (fun _ hid => Or.inl hid)
    (kept.push (fun push begun => apart push begun rfl) (fun _ _ => Iff.rfl) wf.push)
    ⟨⟨.promoted, (rows _).mpr (Or.inr rfl)⟩, uncommitted⟩ wf.validated nofun ?_
  · intro j hj
    rcases (rows j).mp hj with ⟨before, -⟩ | rfl
    · exact wf.opens j before
    · exact wf.opens (m.row state) member
  · rintro push m' begun ⟨⟩
    exact apart push begun rfl

theorem wellFormed_moveMerge (wf : WellFormed w) (stage : w.merge = .committing m)
    (git : GitRepository) :
    WellFormed { w with
      disk := w.disk.setGit m.path git
      merge := .completing m true, committed := m.id :: w.committed } := by
  have fits := wf.merge
  have apart := fun push => wf.apart push m
  rw [stage] at fits apart
  obtain ⟨⟨state, member⟩, -⟩ := fits
  refine wf.next (Kept.refl _ m.id) wf.consistent (fun _ => isSome_setGit git) wf.opens ?_ ?_
    ⟨⟨state, member⟩, List.mem_cons_self⟩ wf.validated nofun ?_
  · intro id hid
    rcases List.mem_cons.mp hid with rfl | before
    · exact Or.inr ⟨_, member, rfl⟩
    · exact Or.inl before
  · refine (Kept.refl _ m.id).push (fun push begun => apart push begun rfl) ?_ wf.push
    intro push begun
    rw [List.mem_cons, or_iff_right (apart push begun rfl)]
  · rintro push m' begun ⟨⟩
    exact apart push begun rfl

/-- The merge settles its intent and returns. -/
theorem wellFormed_return (wf : WellFormed w) (begun : w.merge.begun = some m)
    (settles : Settles w.disk.db db m.id) (ok : Bool) :
    WellFormed (returns { w with disk := { w.disk with db } } m ok) := by
  refine wf.next settles.kept settles.consistent (fun _ opens => opens) ?_
    (fun _ hid => Or.inl hid)
    (settles.kept.push (fun push begun' => wf.apart push m begun' begun) (fun _ _ => Iff.rfl)
      wf.push) trivial wf.validated nofun nofun
  intro j hj
  obtain ⟨k, hk, path⟩ := settles.paths j hj
  exact path ▸ wf.opens k hk

end Merge

@[simp] theorem writeObjects_db (disk : Disk) (m : Merge graph) :
    (writeObjects disk m).db = disk.db := by
  unfold writeObjects
  split <;> rfl

theorem writeObjects_isSome {disk : Disk} {m : Merge graph} {path : RepositoryPath}
    (opens : (disk.git path).isSome = true) :
    ((writeObjects disk m).git path).isSome = true := by
  unfold writeObjects
  split
  · exact opens
  · exact isSome_setGit _ opens

/-- **Every step keeps the invariant**, with whatever failure. -/
theorem step_wellFormed {w w' : World graph} {a : Action graph} (wf : WellFormed w)
    (transition : Transition w a w') : WellFormed w' := by
  have stays : ∀ path, (w.disk.git path).isSome = true → (w.disk.git path).isSome = true :=
    fun _ opens => opens
  cases transition with
  | @startPush push up idle initial =>
      refine wf.lanes rfl stays rfl trivial wf.merge ?_ wf.read (by rintro _ _ ⟨⟩)
      rintro push' ⟨⟩
      obtain ⟨git, found, -⟩ := (Option.any_eq_true _ _).mp initial
      rw [found]
      rfl
  | beginPush stage ok => exact wellFormed_beginPush wf stage ok
  | place stage opened valid => exact wellFormed_place wf stage (Or.inr ⟨_, rfl⟩)
  | placeFails stage => exact wellFormed_place wf stage (Or.inl rfl)
  | markPush stage ok => exact wellFormed_markPush wf stage ok
  | movePush stage opened initial => exact wellFormed_movePush wf stage _
  | completePush stage ok => exact wellFormed_completePush wf stage ok
  | stopPush stops after =>
      rcases stops with rfl | rfl
      · exact wf.lanes rfl stays rfl trivial wf.merge (by rintro _ ⟨⟩) wf.read (by rintro _ _ ⟨⟩)
      · exact wf.lanes rfl stays rfl trivial wf.merge (by rintro _ ⟨⟩) wf.read (by rintro _ _ ⟨⟩)
  | list stage =>
      refine wf.lanes rfl stays rfl ?_ wf.merge (by rintro _ ⟨⟩) wf.read (by rintro _ _ ⟨⟩)
      intro i hi
      obtain ⟨member, incomplete⟩ := mem_incompleteGitIntents.mp hi
      exact ⟨incomplete, i, member, rfl⟩
  | look stage looks =>
      have fits := wf.push
      rw [stage] at fits
      exact wf.lanes rfl stays rfl (looks.fits fits) wf.merge (by rintro _ ⟨⟩) wf.read (by rintro _ _ ⟨⟩)
  | @remove i rest stage =>
      have fits := wf.push
      rw [stage] at fits
      exact wf.lanes rfl (fun _ => isSome_of_sameRefs (w.disk.removePack_sameRefs _ _)) rfl fits
        wf.merge (by rintro _ ⟨⟩) wf.read (by rintro _ _ ⟨⟩)
  | settle stage ok next after =>
      exact wellFormed_settle wf stage ok (next.imp_right And.left)
  | @startMerge m up idle read =>
      refine wf.lanes rfl stays rfl wf.push trivial wf.validated ?_ (by rintro _ _ _ ⟨⟩)
      rintro m' ⟨⟩
      unfold readsMerge at read
      split at read
      · rename_i found
        rw [found]
        rfl
      · cases read
  | beginMerge stage ok next =>
      exact wellFormed_beginMerge wf stage ok (next.imp And.right And.right)
  | @write m stage =>
      have fits := wf.merge
      have apart := fun push => wf.apart push m
      rw [stage] at fits apart
      refine wf.lanes ?_ ?_ rfl wf.push fits wf.validated (by rintro _ ⟨⟩) ?_
      · exact writeObjects_db w.disk m
      · exact fun path => writeObjects_isSome
      · rintro push m' begun ⟨⟩
        exact apart push begun rfl
  | markMerge stage ok => exact wellFormed_markMerge wf stage ok
  | moveMerge stage opened initial => exact wellFormed_moveMerge wf stage _
  | @refuse _ m stage =>
      have fits := wf.merge
      have apart := fun push => wf.apart push m
      rw [stage] at fits apart
      refine wf.lanes rfl stays rfl wf.push fits wf.validated (by rintro _ ⟨⟩) ?_
      rintro push m' begun ⟨⟩
      exact apart push begun rfl
  | @refusedAtTarget m git stage opened same =>
      have fits := wf.merge
      have apart := fun push => wf.apart push m
      rw [stage] at fits apart
      refine wf.lanes rfl stays rfl wf.push fits wf.validated (by rintro _ ⟨⟩) ?_
      rintro push m' begun ⟨⟩
      exact apart push begun rfl
  | @giveUp _ m stage =>
      have fits := wf.merge
      have apart := fun push => wf.apart push m
      rcases stage with stage | stage
      all_goals
        rw [stage] at fits apart
        refine wf.lanes rfl stays rfl wf.push fits wf.validated (by rintro _ ⟨⟩) ?_
        rintro push m' begun ⟨⟩
        exact apart push begun rfl
  | completeMerge stage ok =>
      exact wellFormed_return wf (by rw [stage]; rfl) (settles_complete wf.consistent ok) _
  | abandonMerge stage ok =>
      exact wellFormed_return wf (by rw [stage]; rfl) (settles_abandon wf.consistent ok) _
  | storeFails stage =>
      exact wf.lanes rfl stays rfl wf.push trivial wf.validated (by rintro _ ⟨⟩)
        (by rintro _ _ _ ⟨⟩)
  | mergeFails =>
      exact wf.lanes rfl stays rfl wf.push trivial wf.validated (by rintro _ ⟨⟩)
        (by rintro _ _ _ ⟨⟩)
  | setState ok unmerged =>
      have kept := kept_setState ok 0
      have consistent := consistent_setState wf.consistent ok
      obtain ⟨current, -, -, pullRequests, events, rfl, -, -⟩ := setPullRequestState_rows ok
      refine wf.next kept consistent stays wf.opens (fun _ hid => Or.inl hid) ?_ wf.merge
        wf.validated wf.read wf.apart
      exact wf.push
  | unchanged => exact wf
  | crash =>
      exact wf.lanes rfl stays rfl trivial trivial (by rintro _ ⟨⟩) (by rintro _ ⟨⟩)
        (by rintro _ _ ⟨⟩)
  | boot down => exact wf.lanes rfl stays rfl trivial wf.merge (by rintro _ ⟨⟩) wf.read (by rintro _ _ ⟨⟩)

theorem Fresh.wellFormed (fresh : Fresh graph) : WellFormed fresh.toWorld where
  consistent := consistent_of_empty fresh.noIntent fresh.noMerge fresh.noGitEvent fresh.noSource
  opens i hi := absurd hi (fresh.noIntent i)
  agrees := fresh.agrees
  pinned m hm := absurd hm (fresh.noMerge m)
  stored id hid := by
    rw [fresh.noCommit] at hid
    cases hid
  push := by
    rw [fresh.idlePush]
    trivial
  merge := by
    rw [fresh.idleMerge]
    trivial
  validated push stage := by
    rw [fresh.idlePush] at stage
    cases stage
  read m stage := by
    rw [fresh.idleMerge] at stage
    cases stage
  apart push m begun := by
    rw [fresh.idlePush] at begun
    cases begun

end Tit.Operations
