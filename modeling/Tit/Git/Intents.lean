/-
# Git.Intents -- the intents of the database as one invariant

`Consistent` holds in every database that the transactions of `Store.GitIntent` reach
from one without intents: each intent stands for an accepted list of commands, only a
completed intent has events, and the row of a merge belongs to an intent of its one
reference.  With it a promoted push can always be completed, and a promoted merge
whenever its pull request still is what it was (`Consistent.completes`).

`Settled db db' i state` is what the completion and the abandonment of `i` have in
common: the row of `i` gets its state, and the other intents, their events and their
merges are left alone.
-/
import Tit.Git.Repository

namespace Tit.Git

open Tit.Theory Tit.Store Tit.Store.Database

set_option autoImplicit false

structure Consistent (db : Database) : Prop where
  commands : ∀ i ∈ db.gitOperationIntents, ∃ commands : Commands,
    i.initialRefs = commands.initial ∧ i.proposedRefs = commands.proposed
  quarantine : ∀ i ∈ db.gitOperationIntents, i.quarantinePath = ⟨i.repositoryPath, i.id⟩
  recorded : ∀ e ∈ db.gitOperationEvents, ∃ i ∈ db.gitOperationIntents,
    i.id = e.intentId ∧ i.state = .completed
  logged : ∀ id, eventsOf db.repositoryEvents id ≠ [] → ∃ i ∈ db.gitOperationIntents,
    i.id = id ∧ i.state = .completed
  merges : ∀ m ∈ db.pullRequestMergeIntents, ∃ i ∈ db.gitOperationIntents,
    i.id = m.intentId ∧ i.initialRefs = [(m.baseRef, m.oldTarget)]

/-- Two rows of one intent are one row. -/
theorem eq_of_id {db : Database} {i j : GitOperationIntent} (hi : i ∈ db.gitOperationIntents)
    (hj : j ∈ db.gitOperationIntents) (same : i.id = j.id) : i = j :=
  Table.eq_of_key hi hj same

/-! ## Completing -/

theorem pairs_fit (commands : Commands) :
    ∀ pair ∈ commands.initial.zip commands.proposed, PairFits pair := by
  intro pair member
  unfold Commands.initial Commands.proposed at member
  rw [List.zip_map'] at member
  obtain ⟨c, hc, rfl⟩ := List.mem_map.mp member
  refine ⟨rfl, ?_, commands.named c hc⟩
  rintro ⟨old, new⟩
  have same := (ObjectId.isNull_iff.mp old).trans (ObjectId.isNull_iff.mp new).symm
  exact commands.changes c hc same

theorem Consistent.shaped {db : Database} (consistent : Consistent db) {i : GitOperationIntent}
    (member : i ∈ db.gitOperationIntents) : Shaped i := by
  obtain ⟨commands, initial, proposed⟩ := consistent.commands i member
  refine ⟨?_, ?_⟩
  · rw [initial, proposed, Commands.initial, Commands.proposed, List.length_map, List.length_map]
  · rw [initial, proposed]
    exact pairs_fit commands

/-- An intent that is not completed has no events. -/
theorem Consistent.unlogged {db : Database} (consistent : Consistent db) {i : GitOperationIntent}
    (member : i ∈ db.gitOperationIntents) (open' : i.state ≠ .completed) :
    eventsOf db.repositoryEvents i.id = [] := by
  by_contra logged
  obtain ⟨j, hj, same, completed⟩ := consistent.logged i.id logged
  rw [eq_of_id hj member same] at completed
  exact open' completed

theorem Consistent.completes {db : Database} (consistent : Consistent db) {i : GitOperationIntent}
    (member : i ∈ db.gitOperationIntents) (promoted : i.state = .promoted)
    (mergeable : Mergeable db i) : ∃ db', db.completeGitIntent i.id = .ok db' := by
  have open' : i.state ≠ .completed := by rw [promoted]; decide
  refine completeGitIntent_succeeds member promoted (consistent.shaped member) ?_
    (consistent.unlogged member open') mergeable ?_
  · intro e he same
    obtain ⟨j, hj, id, completed⟩ := consistent.recorded e he
    rw [eq_of_id hj member (id.trans same)] at completed
    exact open' completed
  · intro m p r found
    obtain ⟨⟨hm, id⟩, -⟩ := mergeOf_eq_some.mp found
    obtain ⟨j, hj, own, single⟩ := consistent.merges m hm
    rw [← eq_of_id hj member (own.trans id), single]
    rfl

/-- A push, which has no merge, can be recorded. -/
theorem mergeable_of_none {db : Database} {i : GitOperationIntent}
    (push : ∀ m ∈ db.pullRequestMergeIntents, m.intentId ≠ i.id) : Mergeable db i := by
  intro m p r found
  obtain ⟨⟨hm, id⟩, -⟩ := mergeOf_eq_some.mp found
  exact absurd id (push m hm)

/-! ## What settling an intent leaves alone -/

/-- The pull requests differ at most in their states. -/
structure SamePullRequests (db db' : Database) : Prop where
  back : ∀ q ∈ db'.pullRequests, ∃ p ∈ db.pullRequests,
    q = { p with state := q.state, updatedAt := q.updatedAt }
  forth : ∀ p ∈ db.pullRequests, ∃ q ∈ db'.pullRequests,
    q = { p with state := q.state, updatedAt := q.updatedAt }
  revisions : db'.pullRequestRevisions = db.pullRequestRevisions

theorem SamePullRequests.of_eq {db db' : Database}
    (pullRequests : db'.pullRequests = db.pullRequests)
    (revisions : db'.pullRequestRevisions = db.pullRequestRevisions) : SamePullRequests db db' :=
  ⟨fun q hq => ⟨q, pullRequests ▸ hq, rfl⟩, fun p hp => ⟨p, pullRequests ▸ hp, rfl⟩, revisions⟩

structure Settled (db db' : Database) (i : GitOperationIntent) (state : IntentState) : Prop where
  rows : ∀ j, j ∈ db'.gitOperationIntents ↔
    (j ∈ db.gitOperationIntents ∧ j.id ≠ i.id) ∨ j = { i with state }
  events : ∀ id, id ≠ i.id →
    eventsOf db'.repositoryEvents id = eventsOf db.repositoryEvents id
  merges : ∀ m, m.intentId ≠ i.id →
    (m ∈ db'.pullRequestMergeIntents ↔ m ∈ db.pullRequestMergeIntents)
  mergeOf : ∀ id, id ≠ i.id → db'.mergeOf id = db.mergeOf id
  pullRequests : SamePullRequests db db'
  mergedStay : ∀ p ∈ db.pullRequests, p.state = .merged → p ∈ db'.pullRequests
  onlyMerged : ∀ q ∈ db'.pullRequests, q ∈ db.pullRequests ∨ q.state = .merged
  repositories : db'.repositories = db.repositories

theorem mergedRow_id (db : Database) (i : GitOperationIntent) (p : PullRequest) :
    (db.mergedRow i p).id = p.id := by
  unfold mergedRow
  split
  · rfl
  · split <;> rfl

/-- The completion of `i` leaves the pull request of another merge alone. -/
theorem mergedRow_other {db : Database} {i : GitOperationIntent} {m : PullRequestMergeIntent}
    {p : PullRequest} (hm : m ∈ db.pullRequestMergeIntents) (other : m.intentId ≠ i.id)
    (own : p.id = m.pullRequestId) : db.mergedRow i p = p := by
  unfold mergedRow
  split
  · rfl
  · rename_i m' p' r' found
    obtain ⟨⟨hm', id⟩, -⟩ := mergeOf_eq_some.mp found
    rw [if_neg]
    intro chosen
    have same := own.symm.trans (openPullRequest_iff.mp chosen).1
    obtain rfl : m = m' := Table.eq_of_clash hm hm' (decide_eq_true (Or.inr same))
    exact other id

theorem mergedRow_same (db : Database) (i : GitOperationIntent) (p : PullRequest) :
    db.mergedRow i p =
      { p with state := (db.mergedRow i p).state, updatedAt := (db.mergedRow i p).updatedAt } := by
  unfold mergedRow
  split
  · rfl
  · split <;> rfl

theorem mergedRow_cases (db : Database) (i : GitOperationIntent) (p : PullRequest) :
    db.mergedRow i p = p ∨ (db.mergedRow i p).state = .merged := by
  unfold mergedRow
  split
  · exact Or.inl rfl
  · split
    · exact Or.inr rfl
    · exact Or.inl rfl

theorem mergedRow_merged {db : Database} {i : GitOperationIntent} {p : PullRequest}
    (merged : p.state = .merged) : db.mergedRow i p = p := by
  unfold mergedRow
  split
  · rfl
  · rw [if_neg]
    intro chosen
    have isOpen := (openPullRequest_iff.mp chosen).2
    rw [merged] at isOpen
    cases isOpen

/-- Whether another intent can be recorded does not change. -/
theorem Settled.mergeable {db db' : Database} {i j : GitOperationIntent} {state : IntentState}
    (settled : Settled db db' i state) (other : j.id ≠ i.id) :
    Mergeable db' j ↔ Mergeable db j := by
  unfold Mergeable stillMergeable nextRevisionNumber
  rw [settled.mergeOf j.id other, settled.pullRequests.revisions]

/-- The completion of an intent, read through the invariant. -/
theorem complete_settled {db db' : Database} {id : Identifier}
    (ok : db.completeGitIntent id = .ok db') :
    ∃ i ∈ db.gitOperationIntents, i.id = id ∧ i.state = .promoted ∧ Mergeable db i ∧
      Settled db db' i .completed ∧
      eventsOf db'.repositoryEvents id =
        eventsOf db.repositoryEvents id ++ (db.pushViews i ++ db.mergeViews i) ∧
      (∀ e ∈ db'.gitOperationEvents, e ∈ db.gitOperationEvents ∨ e.intentId = id) ∧
      (∀ q, q ∈ db'.pullRequests ↔ ∃ p ∈ db.pullRequests, q = db.mergedRow i p) ∧
      db'.pullRequestMergeIntents = db.pullRequestMergeIntents := by
  obtain ⟨i, hi, rfl, promoted, mergeable, intents, gitEvents, events, auditEvents, pullRequests,
    updated, added, logs, rows, rfl⟩ := completeGitIntent_eq_ok ok
  refine ⟨i, hi, rfl, promoted, mergeable, ⟨?_, logs.others, fun _ _ => Iff.rfl, ?_,
    ⟨?_, ?_, rfl⟩, ?_, ?_, rfl⟩, logs.own, ?_, rows, rfl⟩
  · intro j
    exact Table.mem_update_one updated hi (inState_iff.mpr ⟨rfl, promoted⟩)
      fun q _ chosen => (inState_iff.mp chosen).1
  · intro id other
    refine Option.ext fun ⟨m, q, r⟩ => ?_
    rw [mergeOf_eq_some, mergeOf_eq_some]
    refine and_congr_right fun ⟨hm, own⟩ => and_congr_left fun _ => ?_
    have apart : m.intentId ≠ i.id := own ▸ other
    constructor
    · rintro ⟨hq, same⟩
      obtain ⟨p, hp, rfl⟩ := (rows q).mp hq
      rw [mergedRow_id] at same
      have before : m ∈ db.pullRequestMergeIntents := hm
      have left : db.mergedRow i p = p := mergedRow_other before apart same
      rw [left]
      exact ⟨hp, same⟩
    · rintro ⟨hq, same⟩
      have before : m ∈ db.pullRequestMergeIntents := hm
      have left : db.mergedRow i q = q := mergedRow_other before apart same
      exact ⟨(rows q).mpr ⟨q, hq, left.symm⟩, same⟩
  · intro q hq
    obtain ⟨p, hp, rfl⟩ := (rows q).mp hq
    exact ⟨p, hp, mergedRow_same _ _ _⟩
  · intro p hp
    exact ⟨_, (rows _).mpr ⟨p, hp, rfl⟩, mergedRow_same _ _ _⟩
  · intro p hp merged
    exact (rows p).mpr ⟨p, hp, (mergedRow_merged merged).symm⟩
  · intro q hq
    obtain ⟨p, hp, rfl⟩ := (rows q).mp hq
    refine (mergedRow_cases db i p).imp_left fun same => ?_
    rw [same]
    exact hp
  · intro e he
    rcases (Table.mem_insert added).mp he with before | rfl
    · exact Or.inl before
    · exact Or.inr rfl

theorem abandon_settled {db db' : Database} {id : Identifier}
    (ok : db.abandonGitIntent id = .ok db') :
    ∃ i ∈ db.gitOperationIntents, i.id = id ∧ i.incomplete = true ∧
      Settled db db' i .abandoned ∧ db'.repositoryEvents = db.repositoryEvents ∧
      db'.gitOperationEvents = db.gitOperationEvents ∧ db'.pullRequests = db.pullRequests ∧
      ∀ m, m ∈ db'.pullRequestMergeIntents ↔ m ∈ db.pullRequestMergeIntents ∧ m.intentId ≠ id := by
  obtain ⟨i, hi, rfl, incomplete, intents, updated, rfl⟩ := abandonGitIntent_eq_ok ok
  have merges : ∀ m, m ∈ db.pullRequestMergeIntents.delete (fun m => decide (m.intentId = i.id)) ↔
      m ∈ db.pullRequestMergeIntents ∧ m.intentId ≠ i.id := by
    intro m
    rw [Table.mem_delete, decide_eq_true_eq]
  refine ⟨i, hi, rfl, incomplete, ⟨?_, fun _ _ => rfl, ?_, ?_, SamePullRequests.of_eq rfl rfl,
    fun _ hp _ => hp, fun _ hq => Or.inl hq, rfl⟩, rfl, rfl, rfl, merges⟩
  · intro j
    exact Table.mem_update_one updated hi (unsettled_iff.mpr ⟨rfl, incomplete⟩)
      fun q _ chosen => (unsettled_iff.mp chosen).1
  · intro m other
    rw [merges m]
    exact ⟨And.left, fun hm => ⟨hm, other⟩⟩
  · intro id other
    refine Option.ext fun ⟨m, p, r⟩ => ?_
    rw [mergeOf_eq_some, mergeOf_eq_some]
    refine and_congr_left fun _ => ?_
    constructor
    · rintro ⟨hm, own⟩
      exact ⟨((merges m).mp hm).1, own⟩
    · rintro ⟨hm, own⟩
      exact ⟨(merges m).mpr ⟨hm, own ▸ other⟩, own⟩

/-! ## The invariant is kept -/

/-- A change of the rows that keeps the recorded references, and no completed row less. -/
theorem Settled.keeps {db db' : Database} {i : GitOperationIntent} {state : IntentState}
    (settled : Settled db db' i state) (member : i ∈ db.gitOperationIntents) :
    (∀ j ∈ db'.gitOperationIntents, ∃ k ∈ db.gitOperationIntents, j = { k with state := j.state }) ∧
      ∀ k ∈ db.gitOperationIntents, ∃ j ∈ db'.gitOperationIntents, j = { k with state := j.state } ∧
        (k.id ≠ i.id → j = k) := by
  refine ⟨?_, ?_⟩
  · intro j hj
    rcases (settled.rows j).mp hj with ⟨before, -⟩ | rfl
    · exact ⟨j, before, rfl⟩
    · exact ⟨i, member, rfl⟩
  · intro k hk
    by_cases same : k.id = i.id
    · obtain rfl := eq_of_id hk member same
      exact ⟨_, (settled.rows _).mpr (Or.inr rfl), rfl, fun other => absurd rfl other⟩
    · exact ⟨k, (settled.rows k).mpr (Or.inl ⟨hk, same⟩), rfl, fun _ => rfl⟩

theorem Settled.consistent {db db' : Database} {i : GitOperationIntent} {state : IntentState}
    (settled : Settled db db' i state) (consistent : Consistent db)
    (member : i ∈ db.gitOperationIntents) (open' : i.state ≠ .completed)
    (recorded : ∀ e ∈ db'.gitOperationEvents, e ∈ db.gitOperationEvents ∨
      (e.intentId = i.id ∧ state = .completed))
    (logged : eventsOf db'.repositoryEvents i.id ≠ [] → state = .completed)
    (merges : ∀ m ∈ db'.pullRequestMergeIntents, m ∈ db.pullRequestMergeIntents) :
    Consistent db' := by
  obtain ⟨back, forth⟩ := settled.keeps member
  have stays : ∀ k ∈ db.gitOperationIntents, k.state = .completed → k ∈ db'.gitOperationIntents := by
    intro k hk completed
    refine (settled.rows k).mpr (Or.inl ⟨hk, fun same => ?_⟩)
    rw [eq_of_id hk member same] at completed
    exact open' completed
  have own : ({ i with state } : GitOperationIntent) ∈ db'.gitOperationIntents :=
    (settled.rows _).mpr (Or.inr rfl)
  refine ⟨?_, ?_, ?_, ?_, ?_⟩
  · intro j hj
    obtain ⟨k, hk, same⟩ := back j hj
    rw [same]
    exact consistent.commands k hk
  · intro j hj
    obtain ⟨k, hk, same⟩ := back j hj
    rw [same]
    exact consistent.quarantine k hk
  · intro e he
    rcases recorded e he with before | ⟨same, completed⟩
    · obtain ⟨k, hk, id, completed⟩ := consistent.recorded e before
      exact ⟨k, stays k hk completed, id, completed⟩
    · exact ⟨_, own, same.symm, completed⟩
  · intro id some
    by_cases same : id = i.id
    · rw [same] at some
      exact ⟨_, own, same.symm, logged some⟩
    · rw [settled.events id same] at some
      obtain ⟨k, hk, id', completed⟩ := consistent.logged id some
      exact ⟨k, stays k hk completed, id', completed⟩
  · intro m hm
    obtain ⟨k, hk, id, single⟩ := consistent.merges m (merges m hm)
    obtain ⟨j, hj, same, -⟩ := forth k hk
    exact ⟨j, hj, by rw [same]; exact id, by rw [same]; exact single⟩

theorem Consistent.complete {db db' : Database} (consistent : Consistent db) {id : Identifier}
    (ok : db.completeGitIntent id = .ok db') : Consistent db' := by
  obtain ⟨i, hi, rfl, promoted, -, settled, -, recorded, -, merges⟩ := complete_settled ok
  refine settled.consistent consistent hi (by rw [promoted]; decide) ?_ (fun _ => rfl) ?_
  · exact fun e he => (recorded e he).imp_right fun same => ⟨same, rfl⟩
  · exact fun m hm => merges ▸ hm

theorem not_completed_of_incomplete {i : GitOperationIntent} (incomplete : i.incomplete = true) :
    i.state ≠ .completed := by
  rcases incomplete_iff.mp incomplete with pending | promoted
  · rw [pending]; decide
  · rw [promoted]; decide

theorem Consistent.abandon {db db' : Database} (consistent : Consistent db) {id : Identifier}
    (ok : db.abandonGitIntent id = .ok db') : Consistent db' := by
  obtain ⟨i, hi, rfl, incomplete, settled, events, gitEvents, -, merges⟩ := abandon_settled ok
  have open' := not_completed_of_incomplete incomplete
  refine settled.consistent consistent hi open' ?_ ?_ fun m hm => ((merges m).mp hm).1
  · intro e he
    rw [gitEvents] at he
    exact Or.inl he
  · intro some
    rw [events] at some
    exact absurd (consistent.unlogged hi open') some

/-! ## Beginning and promoting -/

/-- A new row keeps the invariant. -/
theorem Consistent.insert {db : Database} (consistent : Consistent db)
    {gitOperationIntents : Table GitOperationIntent}
    {pullRequestMergeIntents : Table PullRequestMergeIntent} {row : GitOperationIntent}
    (rows : ∀ j, j ∈ gitOperationIntents ↔ j ∈ db.gitOperationIntents ∨ j = row)
    (commands : ∃ commands : Commands, row.initialRefs = commands.initial ∧
      row.proposedRefs = commands.proposed)
    (quarantine : row.quarantinePath = ⟨row.repositoryPath, row.id⟩)
    (merges : ∀ m ∈ pullRequestMergeIntents, m ∈ db.pullRequestMergeIntents ∨
      (row.id = m.intentId ∧ row.initialRefs = [(m.baseRef, m.oldTarget)])) :
    Consistent { db with gitOperationIntents, pullRequestMergeIntents } := by
  have stays : ∀ j ∈ db.gitOperationIntents, j ∈ gitOperationIntents := fun j hj =>
    (rows j).mpr (Or.inl hj)
  refine ⟨?_, ?_, ?_, ?_, ?_⟩
  · intro j hj
    rcases (rows j).mp hj with before | rfl
    · exact consistent.commands j before
    · exact commands
  · intro j hj
    rcases (rows j).mp hj with before | rfl
    · exact consistent.quarantine j before
    · exact quarantine
  · intro e he
    obtain ⟨j, hj, done⟩ := consistent.recorded e he
    exact ⟨j, stays j hj, done⟩
  · intro id some
    obtain ⟨j, hj, done⟩ := consistent.logged id some
    exact ⟨j, stays j hj, done⟩
  · intro m hm
    rcases merges m hm with before | new
    · obtain ⟨j, hj, single⟩ := consistent.merges m before
      exact ⟨j, stays j hj, single⟩
    · exact ⟨row, (rows row).mpr (Or.inr rfl), new⟩

theorem beginGitIntent_rows {db db' : Database} {intent : NewGitOperationIntent}
    (ok : db.beginGitIntent intent = .ok db') :
    ∃ gitOperationIntents, db' = { db with gitOperationIntents } ∧
      (∀ j, j ∈ gitOperationIntents ↔ j ∈ db.gitOperationIntents ∨ j = gitIntentRow intent) ∧
      ∀ j ∈ db.gitOperationIntents, j.id ≠ intent.id := by
  obtain ⟨intents, inserted, rfl⟩ := beginGitIntent_eq_ok ok
  refine ⟨intents, rfl, fun j => Table.mem_insert inserted, fun j hj same => ?_⟩
  exact Table.insert_fresh inserted j hj (Schema.clash_of_key _ _ same)

theorem Consistent.begin {db db' : Database} (consistent : Consistent db)
    {intent : NewGitOperationIntent} (ok : db.beginGitIntent intent = .ok db')
    {commands : Commands} (initial : intent.initialRefs = commands.initial)
    (proposed : intent.proposedRefs = commands.proposed)
    (quarantine : intent.quarantinePath = ⟨intent.repositoryPath, intent.id⟩) :
    Consistent db' := by
  obtain ⟨intents, rfl, rows, -⟩ := beginGitIntent_rows ok
  exact consistent.insert rows ⟨commands, initial, proposed⟩ quarantine fun m hm => Or.inl hm

theorem Consistent.beginMerge {db db' : Database} (consistent : Consistent db)
    {merge : NewPullRequestMerge} {intent : NewGitOperationIntent}
    (ok : db.beginPullRequestMerge merge intent = .ok db') {commands : Commands}
    (initial : intent.initialRefs = commands.initial)
    (proposed : intent.proposedRefs = commands.proposed)
    (quarantine : intent.quarantinePath = ⟨intent.repositoryPath, intent.id⟩) :
    Consistent db' := by
  obtain ⟨repositoryId, p, r, intents, merges, -, -, single, -, -, inserted, added, rfl⟩ :=
    beginPullRequestMerge_eq_ok ok
  refine consistent.insert (fun j => Table.mem_insert inserted) ⟨commands, initial, proposed⟩
    quarantine fun m hm => ?_
  rcases (Table.mem_insert added).mp hm with before | rfl
  · exact Or.inl before
  · exact Or.inr ⟨rfl, single⟩

theorem markGitObjectsPromoted_rows {db db' : Database} {id : Identifier}
    {packName : Option PackName} (ok : db.markGitObjectsPromoted id packName = .ok db') :
    ∃ i ∈ db.gitOperationIntents, i.id = id ∧ i.state = .pending ∧
      ∃ gitOperationIntents, db' = { db with gitOperationIntents } ∧
        ∀ j, j ∈ gitOperationIntents ↔
          (j ∈ db.gitOperationIntents ∧ j.id ≠ i.id) ∨
            j = { i with state := .promoted, packName } := by
  obtain ⟨i, hi, rfl, pending, intents, updated, rfl⟩ := markGitObjectsPromoted_eq_ok ok
  refine ⟨i, hi, rfl, pending, intents, rfl, fun j => ?_⟩
  exact Table.mem_update_one updated hi (inState_iff.mpr ⟨rfl, pending⟩)
    fun q _ chosen => (inState_iff.mp chosen).1

theorem Consistent.mark {db db' : Database} (consistent : Consistent db) {id : Identifier}
    {packName : Option PackName} (ok : db.markGitObjectsPromoted id packName = .ok db') :
    Consistent db' := by
  obtain ⟨i, hi, rfl, pending, intents, rfl, rows⟩ := markGitObjectsPromoted_rows ok
  have own : ({ i with state := .promoted, packName } : GitOperationIntent) ∈ intents :=
    (rows _).mpr (Or.inr rfl)
  have stays : ∀ k ∈ db.gitOperationIntents, k.state = .completed → k ∈ intents := by
    intro k hk completed
    refine (rows k).mpr (Or.inl ⟨hk, fun same => ?_⟩)
    rw [eq_of_id hk hi same, pending] at completed
    cases completed
  refine ⟨?_, ?_, ?_, ?_, ?_⟩
  · intro j hj
    rcases (rows j).mp hj with ⟨before, -⟩ | rfl
    · exact consistent.commands j before
    · exact consistent.commands i hi
  · intro j hj
    rcases (rows j).mp hj with ⟨before, -⟩ | rfl
    · exact consistent.quarantine j before
    · exact consistent.quarantine i hi
  · intro e he
    obtain ⟨k, hk, id, completed⟩ := consistent.recorded e he
    exact ⟨k, stays k hk completed, id, completed⟩
  · intro id some
    obtain ⟨k, hk, id, completed⟩ := consistent.logged id some
    exact ⟨k, stays k hk completed, id, completed⟩
  · intro m hm
    obtain ⟨k, hk, id, single⟩ := consistent.merges m hm
    by_cases same : k.id = i.id
    · obtain rfl := eq_of_id hk hi same
      exact ⟨_, own, id, single⟩
    · exact ⟨k, (rows k).mpr (Or.inl ⟨hk, same⟩), id, single⟩

end Tit.Git
