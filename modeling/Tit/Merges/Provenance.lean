/-
# Merges.Provenance -- where a merged pull request comes from

Every merge row belongs to one merge that was begun, and every merged pull request was merged by
the completion of the intent of such a merge, after its reference transaction or after the base
reference was found at the new target (`Sound`).  The transactions on pull requests keep the
rows that this is about (`Keeps`), whoever runs them and in whatever order.
-/
import Tit.Merges.System

namespace Tit.Merges

open Tit.Theory Tit.Store Tit.Git Tit.Operations

set_option autoImplicit false

variable {library : Library} {graph : ObjectGraph}

/-! ## What transactions keep -/

/-- The intents are the same but for how far they have come. -/
structure SameIntent (i j : GitOperationIntent) : Prop where
  id : i.id = j.id
  path : i.repositoryPath = j.repositoryPath
  proposed : i.proposedRefs = j.proposedRefs

theorem SameIntent.refl (i : GitOperationIntent) : SameIntent i i := ⟨rfl, rfl, rfl⟩

theorem SameIntent.trans {i j k : GitOperationIntent} (first : SameIntent i j)
    (second : SameIntent j k) : SameIntent i k :=
  ⟨first.id.trans second.id, first.path.trans second.path, first.proposed.trans second.proposed⟩

/-- The pull requests keep their places and their branches, and the revisions and the intents
stay. -/
structure Keeps (db db' : Database) : Prop where
  rows : ∀ p ∈ db.pullRequests, ∃ p' ∈ db'.pullRequests, p'.id = p.id ∧
    p'.repositoryId = p.repositoryId ∧ p'.number = p.number ∧ p'.headRef = p.headRef
  revisions : ∀ r ∈ db.pullRequestRevisions, r ∈ db'.pullRequestRevisions
  intents : ∀ i ∈ db.gitOperationIntents, ∃ i' ∈ db'.gitOperationIntents, SameIntent i' i

section Keeps

variable {db db' : Database}

theorem Keeps.of_eq (pullRequests : db'.pullRequests = db.pullRequests)
    (revisions : db'.pullRequestRevisions = db.pullRequestRevisions)
    (intents : db'.gitOperationIntents = db.gitOperationIntents) : Keeps db db' where
  rows p hp := ⟨p, pullRequests ▸ hp, rfl, rfl, rfl, rfl⟩
  revisions _ hr := revisions ▸ hr
  intents i hi := ⟨i, intents ▸ hi, .refl i⟩

theorem Keeps.refl (db : Database) : Keeps db db := .of_eq rfl rfl rfl

/-- An update that keeps places and branches. -/
theorem rows_of_update {t t' : Table PullRequest} {chosen : PullRequest → Bool}
    {f : PullRequest → PullRequest} (updated : t.update chosen f = .ok t')
    (same : ∀ p, (f p).id = p.id ∧ (f p).repositoryId = p.repositoryId ∧
      (f p).number = p.number ∧ (f p).headRef = p.headRef) :
    ∀ p ∈ t, ∃ p' ∈ t', p'.id = p.id ∧ p'.repositoryId = p.repositoryId ∧
      p'.number = p.number ∧ p'.headRef = p.headRef := by
  intro p hp
  refine ⟨_, (Table.mem_update updated).mpr ⟨p, hp, rfl⟩, ?_⟩
  split
  · exact same p
  · exact ⟨rfl, rfl, rfl, rfl⟩

theorem intents_of_update {t t' : Table GitOperationIntent} {chosen : GitOperationIntent → Bool}
    {f : GitOperationIntent → GitOperationIntent} (updated : t.update chosen f = .ok t')
    (same : ∀ i, SameIntent (f i) i) : ∀ i ∈ t, ∃ i' ∈ t', SameIntent i' i := by
  intro i hi
  refine ⟨_, (Table.mem_update updated).mpr ⟨i, hi, rfl⟩, ?_⟩
  split
  · exact same i
  · exact .refl i

theorem intents_of_insert {t t' : Table GitOperationIntent} {row : GitOperationIntent}
    (inserted : t.insert row = .ok t') :
    ∀ i ∈ t, ∃ i' ∈ t', SameIntent i' i := fun i hi =>
  ⟨i, (Table.mem_insert inserted).mpr (Or.inl hi), .refl i⟩

theorem rows_of_store {intent : PullRequestRefIntent} {pullRequests : Table PullRequest}
    (stored : db.storePullRequest intent = .ok pullRequests) :
    ∀ p ∈ db.pullRequests, ∃ p' ∈ pullRequests, p'.id = p.id ∧ p'.repositoryId = p.repositoryId ∧
      p'.number = p.number ∧ p'.headRef = p.headRef := by
  unfold Database.storePullRequest at stored
  split at stored
  · intro p hp
    rw [sqlite_eq_ok] at stored
    exact ⟨p, (Table.mem_insert stored).mpr (Or.inl hp), rfl, rfl, rfl, rfl⟩
  · simp only [bind_eq_ok, ensure_eq_ok, sqlite_eq_ok, pure_eq_ok, Except.ok.injEq] at stored
    obtain ⟨pullRequests, updated, _, -, rfl⟩ := stored
    exact rows_of_update updated fun p => ⟨rfl, rfl, rfl, rfl⟩

theorem rows_of_merged {i : GitOperationIntent} {pullRequests : Table PullRequest}
    (rows : ∀ q, q ∈ pullRequests ↔ ∃ p ∈ db.pullRequests, q = db.mergedRow i p) :
    ∀ p ∈ db.pullRequests, ∃ p' ∈ pullRequests, p'.id = p.id ∧ p'.repositoryId = p.repositoryId ∧
      p'.number = p.number ∧ p'.headRef = p.headRef := by
  intro p hp
  refine ⟨db.mergedRow i p, (rows _).mpr ⟨p, hp, rfl⟩, ?_⟩
  rw [mergedRow_same]
  exact ⟨rfl, rfl, rfl, rfl⟩

theorem transact_keeps (operation : PullRequests.Operation)
    (ok : operation.transact db = .ok db') : Keeps db db' := by
  cases operation with
  | beginOpen intent =>
      obtain ⟨⟨after, row⟩, began, rfl⟩ := map_eq_ok.mp ok
      obtain ⟨-, counters, intents, -, -, rfl, -⟩ := Database.beginPullRequestOpen_eq_ok began
      exact .of_eq rfl rfl rfl
  | beginRevision number intent =>
      obtain ⟨⟨after, row⟩, began, rfl⟩ := map_eq_ok.mp ok
      obtain ⟨-, intents, p, -, -, -, rfl, -⟩ := Database.beginPullRequestRevision_eq_ok began
      exact .of_eq rfl rfl rfl
  | completeRefIntent id =>
      obtain ⟨intent, pullRequests, revisions, events, intents, -, -, stored, added, -, rfl⟩ :=
        Database.completePullRequestRefIntent_eq_ok ok
      exact ⟨rows_of_store stored, fun r hr => (Table.mem_insert added).mpr (Or.inl hr),
        fun i hi => ⟨i, hi, .refl i⟩⟩
  | abandonRefIntent id =>
      obtain ⟨intents, -, rfl⟩ := Database.abandonPullRequestRefIntent_eq_ok ok
      exact .of_eq rfl rfl rfl
  | edit request =>
      obtain ⟨current, -, pullRequests, events, -, updated, rfl⟩ :=
        Database.editPullRequest_eq_ok ok
      exact ⟨rows_of_update updated fun p => ⟨rfl, rfl, rfl, rfl⟩, fun r hr => hr,
        fun i hi => ⟨i, hi, .refl i⟩⟩
  | review request =>
      obtain ⟨⟨after, id⟩, reviewed, rfl⟩ := map_eq_ok.mp ok
      obtain ⟨p, -, r, -, actorId, reviews, pullRequests, events, -, -, -, -, -, updated, rfl⟩ :=
        Database.createPullRequestReview_eq_ok reviewed
      exact ⟨rows_of_update updated fun p => ⟨rfl, rfl, rfl, rfl⟩, fun r hr => hr,
        fun i hi => ⟨i, hi, .refl i⟩⟩
  | setState owner repository number actor closed changedAt =>
      obtain ⟨current, -, pullRequests, events, -, updated, rfl⟩ :=
        Database.setPullRequestState_eq_ok ok
      exact ⟨rows_of_update updated fun p => ⟨rfl, rfl, rfl, rfl⟩, fun r hr => hr,
        fun i hi => ⟨i, hi, .refl i⟩⟩
  | beginMerge merge intent =>
      obtain ⟨-, p, r, intents, merges, -, -, -, -, -, inserted, -, rfl⟩ :=
        Database.beginPullRequestMerge_eq_ok ok
      exact ⟨fun p hp => ⟨p, hp, rfl, rfl, rfl, rfl⟩, fun r hr => hr, intents_of_insert inserted⟩
  | beginGitIntent intent =>
      obtain ⟨intents, inserted, rfl⟩ := Database.beginGitIntent_eq_ok ok
      exact ⟨fun p hp => ⟨p, hp, rfl, rfl, rfl, rfl⟩, fun r hr => hr, intents_of_insert inserted⟩
  | markObjectsPromoted id packName =>
      obtain ⟨i, -, -, -, intents, updated, rfl⟩ := Database.markGitObjectsPromoted_eq_ok ok
      exact ⟨fun p hp => ⟨p, hp, rfl, rfl, rfl, rfl⟩, fun r hr => hr,
        intents_of_update updated fun i => ⟨rfl, rfl, rfl⟩⟩
  | completeGitIntent id =>
      obtain ⟨i, -, -, -, -, intents, gitEvents, events, audit, pullRequests, updated, -, -, rows,
        rfl⟩ := Database.completeGitIntent_eq_ok ok
      exact ⟨rows_of_merged rows, fun r hr => hr, intents_of_update updated fun i => ⟨rfl, rfl, rfl⟩⟩
  | abandonGitIntent id =>
      obtain ⟨i, -, -, -, intents, updated, rfl⟩ := Database.abandonGitIntent_eq_ok ok
      exact ⟨fun p hp => ⟨p, hp, rfl, rfl, rfl, rfl⟩, fun r hr => hr,
        intents_of_update updated fun i => ⟨rfl, rfl, rfl⟩⟩
  | elsewhere others =>
      cases ok
      exact .of_eq rfl rfl rfl

/-- Only the beginning of a merge adds a merge row. -/
theorem transact_merges (operation : PullRequests.Operation)
    (other : ∀ merge intent, operation ≠ .beginMerge merge intent)
    (ok : operation.transact db = .ok db') :
    ∀ m ∈ db'.pullRequestMergeIntents, m ∈ db.pullRequestMergeIntents := by
  intro m hm
  cases operation with
  | beginOpen intent =>
      obtain ⟨⟨after, row⟩, began, rfl⟩ := map_eq_ok.mp ok
      obtain ⟨-, counters, intents, -, -, rfl, -⟩ := Database.beginPullRequestOpen_eq_ok began
      exact hm
  | beginRevision number intent =>
      obtain ⟨⟨after, row⟩, began, rfl⟩ := map_eq_ok.mp ok
      obtain ⟨-, intents, p, -, -, -, rfl, -⟩ := Database.beginPullRequestRevision_eq_ok began
      exact hm
  | completeRefIntent id =>
      obtain ⟨intent, pullRequests, revisions, events, intents, -, -, -, -, -, rfl⟩ :=
        Database.completePullRequestRefIntent_eq_ok ok
      exact hm
  | abandonRefIntent id =>
      obtain ⟨intents, -, rfl⟩ := Database.abandonPullRequestRefIntent_eq_ok ok
      exact hm
  | edit request =>
      obtain ⟨current, -, pullRequests, events, -, -, rfl⟩ := Database.editPullRequest_eq_ok ok
      exact hm
  | review request =>
      obtain ⟨⟨after, id⟩, reviewed, rfl⟩ := map_eq_ok.mp ok
      obtain ⟨p, -, r, -, actorId, reviews, pullRequests, events, -, -, -, -, -, -, rfl⟩ :=
        Database.createPullRequestReview_eq_ok reviewed
      exact hm
  | setState owner repository number actor closed changedAt =>
      obtain ⟨current, -, pullRequests, events, -, -, rfl⟩ :=
        Database.setPullRequestState_eq_ok ok
      exact hm
  | beginMerge merge intent => exact absurd rfl (other merge intent)
  | beginGitIntent intent =>
      obtain ⟨intents, -, rfl⟩ := Database.beginGitIntent_eq_ok ok
      exact hm
  | markObjectsPromoted id packName =>
      obtain ⟨i, -, -, -, intents, -, rfl⟩ := Database.markGitObjectsPromoted_eq_ok ok
      exact hm
  | completeGitIntent id =>
      obtain ⟨i, -, -, -, -, intents, gitEvents, events, audit, pullRequests, -, -, -, -, rfl⟩ :=
        Database.completeGitIntent_eq_ok ok
      exact hm
  | abandonGitIntent id =>
      obtain ⟨i, -, -, -, intents, -, rfl⟩ := Database.abandonGitIntent_eq_ok ok
      exact (Table.mem_delete.mp hm).1
  | elsewhere others =>
      cases ok
      exact hm

end Keeps

/-! ## The merges of the store -/

/-- The merge row is the one that this merge stored. -/
structure RowOf (db : Database) (b : Begun library graph) (m : PullRequestMergeIntent) : Prop where
  id : m.intentId = b.merge.id
  baseRef : m.baseRef = b.merge.request.baseRef
  base : m.oldTarget = b.merge.request.oldTarget
  pullRequest : ∃ p ∈ db.pullRequests, p.id = m.pullRequestId ∧
    p.repositoryId = b.merge.repositoryId ∧ p.headRef = b.headRef
  revision : ∃ r ∈ db.pullRequestRevisions, r.id = m.revisionId ∧
    r.headObjectId = b.merge.request.headTarget

/-- The pull request has the branches and the commits of the merge. -/
structure MergedBy (p : PullRequest) (b : Begun library graph) : Prop where
  repository : p.repositoryId = b.merge.repositoryId
  baseRef : p.baseRef = b.merge.request.baseRef
  headRef : p.headRef = b.headRef
  base : p.baseObjectId = b.merge.request.oldTarget
  head : p.headObjectId = b.merge.request.headTarget

/-- The intent of the merge. -/
structure IntentOf (i : GitOperationIntent) (b : Begun library graph) : Prop where
  id : i.id = b.merge.id
  path : i.repositoryPath = b.merge.path
  proposed : i.proposedRefs = b.merge.commands.proposed

/-- The merges of the store are merges that were begun, and those that are recorded were done. -/
structure Sound (db : Database) (begun : List (Begun library graph))
    (done : Begun library graph → Prop) : Prop where
  recorded : PullRequests.Recorded db
  stored : ∀ b ∈ begun, ∃ i ∈ db.gitOperationIntents, IntentOf i b
  distinct : ∀ b ∈ begun, ∀ b' ∈ begun, b.merge.id = b'.merge.id → b = b'
  rows : ∀ m ∈ db.pullRequestMergeIntents, ∃ b ∈ begun, RowOf db b m
  merged : ∀ p ∈ db.pullRequests, p.state = .merged → ∃ b ∈ begun, MergedBy p b ∧ done b

section Sound

variable {db db' : Database} {begun : List (Begun library graph)}
  {done done' : Begun library graph → Prop}

theorem RowOf.keeps {b : Begun library graph} {m : PullRequestMergeIntent} (row : RowOf db b m)
    (keeps : Keeps db db') : RowOf db' b m := by
  obtain ⟨p, hp, id, repository, headRef⟩ := row.pullRequest
  obtain ⟨r, hr, revision⟩ := row.revision
  obtain ⟨p', hp', id', repository', -, headRef'⟩ := keeps.rows p hp
  exact ⟨row.id, row.baseRef, row.base,
    ⟨p', hp', id'.trans id, repository'.trans repository, headRef'.trans headRef⟩,
    r, keeps.revisions r hr, revision⟩

theorem Sound.mono (sound : Sound db begun done) (weaker : ∀ b ∈ begun, done b → done' b) :
    Sound db begun done' where
  recorded := sound.recorded
  stored := sound.stored
  distinct := sound.distinct
  rows := sound.rows
  merged p hp merged := by
    obtain ⟨b, hb, by', ended⟩ := sound.merged p hp merged
    exact ⟨b, hb, by', weaker b hb ended⟩

theorem stored_keeps (keeps : Keeps db db')
    (stored : ∀ b ∈ begun, ∃ i ∈ db.gitOperationIntents, IntentOf i b) :
    ∀ b ∈ begun, ∃ i ∈ db'.gitOperationIntents, IntentOf i b := by
  intro b hb
  obtain ⟨i, hi, of⟩ := stored b hb
  obtain ⟨i', hi', same⟩ := keeps.intents i hi
  exact ⟨i', hi', same.id.trans of.id, same.path.trans of.path, same.proposed.trans of.proposed⟩

/-- A pull request that is merged now was merged before, or is merged by this transaction. -/
theorem merged_before (recorded : PullRequests.Recorded db) (operation : PullRequests.Operation)
    (ok : operation.transact db = .ok db') {p : PullRequest} (hp : p ∈ db'.pullRequests)
    (merged : p.state = .merged) :
    (p ∈ db.pullRequests) ∨ ∃ q ∈ db.pullRequests, q.id = p.id ∧
      PullRequests.MergedBy db q operation := by
  have follows := (PullRequests.transact_step recorded operation ok).2
  rcases follows.opened p hp with isOpen | ⟨q, hq, id⟩
  · rw [isOpen] at merged
    cases merged
  · obtain ⟨q', hq', row⟩ := follows.rows q hq
    obtain rfl : q' = p := Table.eq_of_key hq' hp (row.same.1.trans id)
    rcases row.merges merged with before | by'
    · have stays := follows.merged q hq before
      obtain rfl : q = q' := Table.eq_of_key stays hp id
      exact Or.inl hq
    · exact Or.inr ⟨q, hq, id, by'⟩

/-- A transaction that neither begins a merge nor completes an intent. -/
theorem Sound.transact (sound : Sound db begun done) (operation : PullRequests.Operation)
    (other : ∀ merge intent, operation ≠ .beginMerge merge intent)
    (other' : ∀ id, operation ≠ .completeGitIntent id) (ok : operation.transact db = .ok db') :
    Sound db' begun done := by
  have keeps := transact_keeps operation ok
  refine ⟨(PullRequests.transact_step sound.recorded operation ok).1,
    stored_keeps keeps sound.stored, sound.distinct, fun m hm => ?_, fun p hp merged => ?_⟩
  · obtain ⟨b, hb, row⟩ := sound.rows m (transact_merges operation other ok m hm)
    exact ⟨b, hb, row.keeps keeps⟩
  · rcases merged_before sound.recorded operation ok hp merged with before | ⟨q, -, -, by'⟩
    · exact sound.merged p before merged
    · cases operation with
      | completeGitIntent id => exact absurd rfl (other' id)
      | _ => exact by'.elim

/-- The completion of an intent whose merge, if it has one, was done. -/
theorem Sound.complete (sound : Sound db begun done) {id : Identifier}
    (ok : db.completeGitIntent id = .ok db')
    (ended : ∀ b ∈ begun, b.merge.id = id → done b) : Sound db' begun done := by
  have ok' : (PullRequests.Operation.completeGitIntent id).transact db = .ok db' := ok
  have keeps := transact_keeps _ ok'
  refine ⟨(PullRequests.transact_step sound.recorded _ ok').1,
    stored_keeps keeps sound.stored, sound.distinct, fun m hm => ?_, fun p hp merged => ?_⟩
  · obtain ⟨b, hb, row⟩ := sound.rows m (transact_merges _ (fun _ _ h => by cases h) ok' m hm)
    exact ⟨b, hb, row.keeps keeps⟩
  · rcases merged_before sound.recorded _ ok' hp merged with before | ⟨q, hq, same, m, r, found, -⟩
    · exact sound.merged p before merged
    · -- The row of the merge says what was merged, and the completion has compared it.
      obtain ⟨i, hi, own, -, mergeable, _, _, _, _, pullRequests, -, -, -, rows, rfl⟩ :=
        Database.completeGitIntent_eq_ok ok
      obtain ⟨⟨hm, intent⟩, ⟨-, named⟩, hr, revised⟩ := Database.mergeOf_eq_some.mp found
      obtain ⟨still, -⟩ := mergeable m q r (own ▸ found)
      obtain ⟨-, baseRef, base, head, -, -⟩ := of_decide_eq_true still
      obtain ⟨b, hb, row⟩ := sound.rows m hm
      obtain ⟨p₀, hp₀, id₀, repository, headRef⟩ := row.pullRequest
      obtain ⟨r₀, hr₀, revised₀, headId⟩ := row.revision
      obtain rfl : p₀ = q := Table.eq_of_key hp₀ hq (id₀.trans named.symm)
      obtain rfl : r₀ = r := Table.eq_of_key hr₀ hr (revised₀.trans revised.symm)
      obtain ⟨q', hq', after⟩ := (rows p).mp hp
      have here : q' = p₀ := by
        refine Table.eq_of_key hq' hp₀ ?_
        have kept := mergedRow_id db i q'
        rw [← after] at kept
        exact kept.symm.trans same.symm
      rw [here, mergedRow_same] at after
      refine ⟨b, hb, ?_, ended b hb (row.id.symm.trans intent)⟩
      rw [after]
      exact ⟨repository, baseRef.trans row.baseRef, headRef, base.trans row.base,
        head.trans headId⟩

/-- The pull request that the plan was made for. -/
def Planned (db : Database) (merge : Merge graph) (headRef : RefName) : Prop :=
  ∃ p ∈ db.pullRequests, p.repositoryId = merge.repositoryId ∧ p.number = merge.request.number ∧
    p.headRef = headRef

theorem Planned.keeps {merge : Merge graph} {headRef : RefName}
    (planned : Planned db merge headRef) (keeps : Keeps db db') : Planned db' merge headRef := by
  obtain ⟨p, hp, repository, number, head⟩ := planned
  obtain ⟨p', hp', -, repository', number', head'⟩ := keeps.rows p hp
  exact ⟨p', hp', repository'.trans repository, number'.trans number, head'.trans head⟩

/-- A merge that is begun has a row of its own. -/
theorem Sound.begin (sound : Sound db begun done) (b : Begun library graph)
    (planned : Planned db b.merge b.headRef)
    (ok : db.beginPullRequestMerge b.merge.request b.merge.intent = .ok db') :
    Sound db' (b :: begun) done ∧ ∀ i ∈ db.gitOperationIntents, i.id ≠ b.merge.id := by
  have ok' : (PullRequests.Operation.beginMerge b.merge.request b.merge.intent).transact db =
      .ok db' := ok
  have keeps := transact_keeps _ ok'
  obtain ⟨repositoryId, p, r, intents, merges, managed, of, -, proposed, -, inserted, added, rfl⟩ :=
    Database.beginPullRequestMerge_eq_ok ok
  have fresh : ∀ i ∈ db.gitOperationIntents, i.id ≠ b.merge.id := fun i hi same =>
    Table.insert_fresh inserted i hi (Schema.clash_of_key _ _ same)
  have apart : ∀ c ∈ begun, c.merge.id ≠ b.merge.id := by
    intro c hc same
    obtain ⟨i, hi, of⟩ := sound.stored c hc
    exact fresh i hi (of.id.trans same)
  refine ⟨⟨(PullRequests.transact_step sound.recorded _ ok').1, ?_, ?_, ?_, ?_⟩, fresh⟩
  · intro c hc
    rcases List.mem_cons.mp hc with rfl | old
    · exact ⟨_, (Table.mem_insert inserted).mpr (Or.inr rfl), rfl, rfl, rfl⟩
    · exact stored_keeps keeps sound.stored c old
  · intro c hc d hd same
    rcases List.mem_cons.mp hc with rfl | old
    · rcases List.mem_cons.mp hd with rfl | old'
      · rfl
      · exact absurd same.symm (apart d old')
    · rcases List.mem_cons.mp hd with rfl | old'
      · exact absurd same (apart c old)
      · exact sound.distinct c old d old' same
  · intro m hm
    rcases (Table.mem_insert added).mp hm with old | rfl
    · obtain ⟨c, hc, row⟩ := sound.rows m old
      exact ⟨c, List.mem_cons_of_mem _ hc, row.keeps keeps⟩
    · refine ⟨b, List.mem_cons_self, rfl, rfl, rfl, ⟨p, of.pullRequest, rfl, ?_, ?_⟩,
        r, of.revision, rfl, ?_⟩
      · have same : b.merge.repositoryId = repositoryId := Option.some.inj managed
        rw [of.repositoryId, same]
      · obtain ⟨q, hq, repository, number, head⟩ := planned
        have same : b.merge.repositoryId = repositoryId := Option.some.inj managed
        obtain rfl : q = p := Table.eq_of_clash hq of.pullRequest (decide_eq_true
          (Or.inr ⟨by rw [repository, of.repositoryId, same], number.trans of.number.symm⟩))
        exact head
      · obtain ⟨last, latest⟩ := sound.recorded.history.revisions p of.pullRequest
        have next := latest.next
        obtain rfl : r = last := by
          refine Table.eq_of_clash of.revision latest.member (decide_eq_true (Or.inr ⟨?_, ?_⟩))
          · rw [of.ofPullRequest, latest.ofPullRequest]
          · have number := of.latest
            omega
        exact latest.head.symm.trans of.head
  · intro p hp merged
    obtain ⟨c, hc, by', ended⟩ := sound.merged p hp merged
    exact ⟨c, List.mem_cons_of_mem _ hc, by', ended⟩

end Sound

end Tit.Merges
