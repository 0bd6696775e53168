/-
# Events.Log -- what the event log records of the Git intents

`Recorded db managed` is the invariant behind the log: sequences without a gap, sourced events only
of completed intents, and the events of every intent that was completed in a managed repository
(`managed`) as `Complete` says: the push, one event for each reference in the order of the commands,
and for a merge one event more.  Transactions without sourced events keep it (`Recorded.of_plain`),
so do those that move intents between states short of completion (`Recorded.of_intents`), and the
completion establishes `Complete` for its intent (`Recorded.complete_intent`).
-/
import Tit.Store.EventLog
import Tit.Git.Intents

namespace Tit.Events

open Tit.Theory Tit.Store Tit.Store.Database

set_option autoImplicit false

/-! ## The events of a completed intent -/

/-- The event of a merge, for an intent that has a row of the merges. -/
def mergeEvents (merges : Table PullRequestMergeIntent) (id : Identifier) : List EventView :=
  match merges.get id with
  | none => []
  | some _ => [mergeView]

/-- The kind says which of the two targets there are, and whether the name is of a tag. -/
def KindMatches (v : EventView) : Prop :=
  ∃ name tag, v.refName = some name ∧ isTag name = some tag ∧
    match v.oldTarget, v.newTarget with
    | none, some _ => v.kind = if tag then .tagCreated else .refCreated
    | some _, some _ => v.kind = if tag then .tagUpdated else .refUpdated
    | some _, none => v.kind = if tag then .tagDeleted else .refDeleted
    | none, none => False

theorem refViews_match {pairs : List ((RefName × ObjectId) × (RefName × ObjectId))}
    (fits : ∀ pair ∈ pairs, PairFits pair) {ordinal : Nat} {v : EventView}
    (member : v ∈ refViews ordinal pairs) : KindMatches v := by
  induction pairs generalizing ordinal with
  | nil => cases member
  | cons pair rest ih =>
      obtain ⟨⟨name, old⟩, newName, new⟩ := pair
      rcases List.mem_cons.mp member with rfl | later
      · obtain ⟨-, valued, named⟩ := fits _ List.mem_cons_self
        obtain ⟨tag, tagged⟩ := Option.isSome_iff_exists.mp named
        have tagged : isTag name = some tag := tagged
        refine ⟨name, tag, rfl, tagged, ?_⟩
        simp only [refView, target, refEventKind, tagged, Option.getD_some]
        by_cases created : old.isNull = true
        · have kept : ¬new.isNull = true := fun deleted => valued ⟨created, deleted⟩
          simp [created, kept]
        · by_cases deleted : new.isNull = true
          · simp [created, deleted]
          · simp [created, deleted]
      · exact ih (fun pair inside => fits pair (List.mem_cons_of_mem _ inside)) later

/-- Numbers `ordinal, ordinal + 1, …`, and the names of the commands in their order. -/
theorem refViews_ordinals (pairs : List ((RefName × ObjectId) × (RefName × ObjectId)))
    (ordinal : Nat) :
    (refViews ordinal pairs).map (fun v => (v.ordinal, v.refName)) =
      pairs.mapIdx fun k pair => (some (ordinal + k), some pair.1.1) := by
  induction pairs generalizing ordinal with
  | nil => rfl
  | cons pair rest ih =>
      obtain ⟨⟨name, old⟩, newName, new⟩ := pair
      have shifted : (fun k (pair : (RefName × ObjectId) × (RefName × ObjectId)) =>
          (some (ordinal + 1 + k), some pair.1.1)) =
            fun k pair => (some (ordinal + (k + 1)), some pair.1.1) := by
        funext k pair
        rw [Nat.add_assoc, Nat.add_comm 1 k]
      rw [List.mapIdx_cons, refViews, List.map_cons, ih, shifted]
      rfl

/-- **What the log holds of a completed intent.** -/
structure Complete (events : Table RepositoryEvent) (merges : Table PullRequestMergeIntent)
    (i : GitOperationIntent) : Prop where
  shaped : Shaped i
  events : eventsOf events i.id =
    pushView :: refViews 1 (i.initialRefs.zip i.proposedRefs) ++ mergeEvents merges i.id

theorem Complete.kinds {events : Table RepositoryEvent} {merges : Table PullRequestMergeIntent}
    {i : GitOperationIntent} (complete : Complete events merges i) :
    ∀ v ∈ refViews 1 (i.initialRefs.zip i.proposedRefs), KindMatches v :=
  fun _ member => refViews_match complete.shaped.pairs member

/-! ## The invariant -/

/-- A row of the merges stands for an intent, a pull request and a revision. -/
structure MergeFits (db : Database) (m : PullRequestMergeIntent) : Prop where
  intent : ∃ i ∈ db.gitOperationIntents, i.id = m.intentId ∧
    managedRepositoryId i.repositoryPath = some m.repositoryId
  pullRequest : ∃ p ∈ db.pullRequests, p.id = m.pullRequestId
  revision : ∃ r ∈ db.pullRequestRevisions, r.id = m.revisionId

structure Recorded (db : Database) (managed : List Identifier) : Prop where
  contiguous : Contiguous db.repositoryEvents
  sources : ∀ e ∈ db.repositoryEvents, ∀ id, e.sourceIntentId = some id →
    ∃ i ∈ db.gitOperationIntents, i.id = id ∧ i.state = .completed ∧
      managedRepositoryId i.repositoryPath = some e.repositoryId
  complete : ∀ i ∈ db.gitOperationIntents, i.state = .completed → i.id ∈ managed →
    Complete db.repositoryEvents db.pullRequestMergeIntents i
  managed : ∀ id ∈ managed, ∃ i ∈ db.gitOperationIntents, i.id = id ∧ i.state = .completed
  merges : ∀ m ∈ db.pullRequestMergeIntents, MergeFits db m

namespace Recorded

variable {db db' : Database} {managed : List Identifier}

theorem initial : Recorded .initial [] := by
  refine ⟨fun _ => rfl, ?_, ?_, ?_, ?_⟩
  · exact fun e he => absurd he (Table.not_mem_empty e)
  · exact fun i hi => absurd hi (Table.not_mem_empty i)
  · exact fun id member => absurd member List.not_mem_nil
  · exact fun m hm => absurd hm (Table.not_mem_empty m)

/-- The counters are no part of the log. -/
theorem of_counters (recorded : Recorded db managed)
    (repositoryCounters : Table RepositoryCounter) :
    Recorded { db with repositoryCounters } managed := by
  refine ⟨recorded.contiguous, recorded.sources, recorded.complete, recorded.managed, ?_⟩
  intro m hm
  obtain ⟨intent, pullRequest, revision⟩ := recorded.merges m hm
  exact ⟨intent, pullRequest, revision⟩

/-- An intent that is not completed has no events. -/
theorem unlogged (recorded : Recorded db managed) {i : GitOperationIntent}
    (member : i ∈ db.gitOperationIntents) (incomplete : i.state ≠ .completed) :
    eventsOf db.repositoryEvents i.id = [] := by
  unfold eventsOf
  rw [List.map_eq_nil_iff, List.filter_eq_nil_iff]
  intro e he sourced
  obtain ⟨j, hj, same, completed, -⟩ := recorded.sources e he i.id (of_decide_eq_true sourced)
  rw [Git.eq_of_id hj member same] at completed
  exact incomplete completed

/-- **A transaction without sourced events.** -/
theorem of_plain (recorded : Recorded db managed) (plain : Plain db db') :
    Recorded db' managed := by
  refine ⟨plain.log.contiguous recorded.contiguous, ?_, ?_, ?_, ?_⟩
  · intro e he id source
    rw [plain.intents]
    rcases plain.log.member he with before | unsourced
    · exact recorded.sources e before id source
    · rw [unsourced] at source
      cases source
  · intro i hi completed inside
    rw [plain.intents] at hi
    obtain ⟨shaped, events⟩ := recorded.complete i hi completed inside
    exact ⟨shaped, by rw [plain.log.unsourced, plain.merges]; exact events⟩
  · rw [plain.intents]
    exact recorded.managed
  · intro m hm
    rw [plain.merges] at hm
    obtain ⟨intent, ⟨p, hp, ofMerge⟩, r, hr, latest⟩ := recorded.merges m hm
    obtain ⟨p', hp', same⟩ := plain.pullRequests p hp
    obtain ⟨r', hr', same'⟩ := plain.revisions r hr
    exact ⟨by rw [plain.intents]; exact intent, ⟨p', hp', same.trans ofMerge⟩,
      r', hr', same'.trans latest⟩

/-- **Intents move between states, short of completion.** -/
theorem of_intents (recorded : Recorded db managed)
    (log : db'.repositoryEvents = db.repositoryEvents)
    (pullRequests : db'.pullRequests = db.pullRequests)
    (revisions : db'.pullRequestRevisions = db.pullRequestRevisions)
    (completed : ∀ i, i.state = .completed →
      (i ∈ db'.gitOperationIntents ↔ i ∈ db.gitOperationIntents))
    (kept : ∀ i ∈ db.gitOperationIntents, ∃ j ∈ db'.gitOperationIntents,
      j.id = i.id ∧ j.repositoryPath = i.repositoryPath)
    (merges : ∀ m ∈ db'.pullRequestMergeIntents,
      m ∈ db.pullRequestMergeIntents ∨ MergeFits db' m)
    (mergesOf : ∀ i ∈ db.gitOperationIntents, i.state = .completed →
      db'.pullRequestMergeIntents.get i.id = db.pullRequestMergeIntents.get i.id) :
    Recorded db' managed := by
  refine ⟨by rw [log]; exact recorded.contiguous, ?_, ?_, ?_, ?_⟩
  · intro e he id source
    rw [log] at he
    obtain ⟨i, hi, same, done, inRepository⟩ := recorded.sources e he id source
    exact ⟨i, (completed i done).mpr hi, same, done, inRepository⟩
  · intro i hi done inside
    have before := (completed i done).mp hi
    obtain ⟨shaped, events⟩ := recorded.complete i before done inside
    refine ⟨shaped, ?_⟩
    rw [log, events, mergeEvents, mergeEvents, mergesOf i before done]
  · intro id inside
    obtain ⟨i, hi, same, done⟩ := recorded.managed id inside
    exact ⟨i, (completed i done).mpr hi, same, done⟩
  · intro m hm
    rcases merges m hm with before | fits
    · obtain ⟨⟨i, hi, same, inRepository⟩, pullRequest, revision⟩ := recorded.merges m before
      obtain ⟨j, hj, id, path⟩ := kept i hi
      exact ⟨⟨j, hj, id.trans same, by rw [path]; exact inRepository⟩,
        by rw [pullRequests]; exact pullRequest, by rw [revisions]; exact revision⟩
    · exact fits

/-! ## The transactions on the intents -/

theorem begin_intent (recorded : Recorded db managed) {intent : NewGitOperationIntent}
    (ok : db.beginGitIntent intent = .ok db') : Recorded db' managed := by
  obtain ⟨intents, rfl, rows, -⟩ := Git.beginGitIntent_rows ok
  refine recorded.of_intents rfl rfl rfl ?_ ?_ (fun m hm => Or.inl hm) fun _ _ _ => rfl
  · intro i done
    refine (rows i).trans (or_iff_left fun new => ?_)
    rw [new] at done
    cases done
  · exact fun i hi => ⟨i, (rows i).mpr (Or.inl hi), rfl, rfl⟩

theorem begin_merge (recorded : Recorded db managed) {merge : NewPullRequestMerge}
    {intent : NewGitOperationIntent} (ok : db.beginPullRequestMerge merge intent = .ok db') :
    Recorded db' managed := by
  obtain ⟨repositoryId, p, r, intents, merges, inRepository, of, -, -, -, inserted, added, rfl⟩ :=
    beginPullRequestMerge_eq_ok ok
  have rows : ∀ j, j ∈ intents ↔ j ∈ db.gitOperationIntents ∨ j = gitIntentRow intent :=
    fun j => Table.mem_insert inserted
  refine recorded.of_intents rfl rfl rfl ?_ ?_ ?_ ?_
  · intro i done
    refine (rows i).trans (or_iff_left fun new => ?_)
    rw [new] at done
    cases done
  · exact fun i hi => ⟨i, (rows i).mpr (Or.inl hi), rfl, rfl⟩
  · intro m hm
    refine ((Table.mem_insert added).mp hm).imp_right fun new => ?_
    subst new
    exact ⟨⟨_, (rows _).mpr (Or.inr rfl), rfl, inRepository⟩, ⟨p, of.pullRequest, rfl⟩,
      r, of.revision, rfl⟩
  · intro i hi _
    have apart : i.id ≠ intent.id := fun same =>
      Table.insert_fresh inserted i hi (Schema.clash_of_key _ _ same)
    exact (Table.get_insert added i.id).trans (if_neg fun same => apart same.symm)

theorem mark_promoted (recorded : Recorded db managed) {id : Identifier}
    {packName : Option PackName} (ok : db.markGitObjectsPromoted id packName = .ok db') :
    Recorded db' managed := by
  obtain ⟨i, hi, rfl, pending, intents, rfl, rows⟩ := Git.markGitObjectsPromoted_rows ok
  refine recorded.of_intents rfl rfl rfl ?_ ?_ (fun m hm => Or.inl hm) fun _ _ _ => rfl
  · intro j done
    refine (rows j).trans ⟨?_, fun before => Or.inl ⟨before, fun same => ?_⟩⟩
    · rintro (⟨before, -⟩ | rfl)
      · exact before
      · cases done
    · rw [Git.eq_of_id before hi same, pending] at done
      cases done
  · intro j hj
    by_cases same : j.id = i.id
    · obtain rfl := Git.eq_of_id hj hi same
      exact ⟨_, (rows _).mpr (Or.inr rfl), rfl, rfl⟩
    · exact ⟨j, (rows j).mpr (Or.inl ⟨hj, same⟩), rfl, rfl⟩

theorem abandon_intent (recorded : Recorded db managed) {id : Identifier}
    (ok : db.abandonGitIntent id = .ok db') : Recorded db' managed := by
  obtain ⟨i, hi, rfl, incomplete, settled, log, -, pullRequests, merges⟩ := Git.abandon_settled ok
  have apart : ∀ j ∈ db.gitOperationIntents, j.state = .completed → j.id ≠ i.id := by
    intro j hj done same
    rw [Git.eq_of_id hj hi same] at done
    exact Git.not_completed_of_incomplete incomplete done
  refine recorded.of_intents log pullRequests settled.pullRequests.revisions ?_ ?_
    (fun m hm => Or.inl ((merges m).mp hm).1) ?_
  · intro j done
    refine (settled.rows j).trans ⟨?_, fun before => Or.inl ⟨before, apart j before done⟩⟩
    rintro (⟨before, -⟩ | rfl)
    · exact before
    · cases done
  · intro j hj
    obtain ⟨k, hk, same, -⟩ := (settled.keeps hi).2 j hj
    exact ⟨k, hk, by rw [same], by rw [same]⟩
  · intro j hj done
    refine Option.ext fun m => ?_
    rw [Table.get_eq_some, Table.get_eq_some, merges m]
    refine and_congr_left fun own => and_iff_left fun same => ?_
    exact apart j hj done (own.symm.trans same)

/-! ## Completing -/

theorem mergeViews_eq (recorded : Recorded db managed) (i : GitOperationIntent) :
    db.mergeViews i = mergeEvents db.pullRequestMergeIntents i.id := by
  unfold mergeViews mergeEvents
  cases found : db.pullRequestMergeIntents.get i.id with
  | none =>
      have none : db.mergeOf i.id = none := by
        unfold mergeOf
        rw [found]
        rfl
      rw [none]
  | some m =>
      obtain ⟨hm, own⟩ := Table.get_eq_some.mp found
      obtain ⟨-, ⟨p, hp, ofMerge⟩, r, hr, latest⟩ := recorded.merges m hm
      rw [mergeOf_eq_some.mpr ⟨⟨hm, own⟩, ⟨hp, ofMerge⟩, hr, latest⟩]

end Recorded

/-- The intent, when it is completed in a repository of the store. -/
def completedIn (db : Database) (id : Identifier) : List Identifier :=
  match (db.gitOperationIntents.get id).bind fun i => db.managedRepository i.repositoryPath with
  | none => []
  | some _ => [id]

theorem mem_completedIn {db : Database} {i : GitOperationIntent}
    (member : i ∈ db.gitOperationIntents) {id : Identifier} :
    id ∈ completedIn db i.id ↔ id = i.id ∧ db.managedRepository i.repositoryPath ≠ none := by
  have found : db.gitOperationIntents.get i.id = some i := Table.get_of_mem member
  unfold completedIn
  rw [found, Option.bind_some]
  cases db.managedRepository i.repositoryPath with
  | none => simp
  | some repositoryId => simp

/-- **The completion logs its intent as a whole.** -/
theorem Recorded.complete_intent {db db' : Database} {managed : List Identifier}
    (recorded : Recorded db managed) {id : Identifier} (ok : db.completeGitIntent id = .ok db') :
    Recorded db' (completedIn db id ++ managed) := by
  obtain ⟨i, hi, rfl, promoted, -, settled, events, -, -, merges⟩ := Git.complete_settled ok
  obtain ⟨i', hi', same, appended, shaped, -⟩ := completeGitIntent_appended ok (by
    intro m hm j hj own
    obtain ⟨⟨k, hk, same, inRepository⟩, -⟩ := recorded.merges m hm
    rw [← Git.eq_of_id hk hj (same.trans own)]
    exact inRepository)
  obtain rfl := Git.eq_of_id hi' hi same
  have incomplete : i'.state ≠ .completed := by rw [promoted]; decide
  have apart : ∀ j ∈ db.gitOperationIntents, j.state = .completed → j.id ≠ i'.id := by
    intro j hj done same
    rw [Git.eq_of_id hj hi same] at done
    exact incomplete done
  have stays : ∀ j ∈ db.gitOperationIntents, j.state = .completed → j ∈ db'.gitOperationIntents :=
    fun j hj done => (settled.rows j).mpr (Or.inl ⟨hj, apart j hj done⟩)
  have own : ({ i' with state := .completed } : GitOperationIntent) ∈ db'.gitOperationIntents :=
    (settled.rows _).mpr (Or.inr rfl)
  refine ⟨appended.contiguous recorded.contiguous, ?_, ?_, ?_, ?_⟩
  · intro e he id source
    rcases appended.member he with before | ⟨source', inRepository⟩
    · obtain ⟨j, hj, same, done, inRepository⟩ := recorded.sources e before id source
      exact ⟨j, stays j hj done, same, done, inRepository⟩
    · rw [source', Option.some.injEq] at source
      exact ⟨_, own, source, rfl, inRepository⟩
  · intro j hj done inside
    rw [List.mem_append, mem_completedIn hi] at inside
    rcases (settled.rows j).mp hj with ⟨before, other⟩ | rfl
    · -- an intent that was completed before
      have earlier : j.id ∈ managed := inside.resolve_left fun now => other now.1
      obtain ⟨shaped, logged⟩ := recorded.complete j before done earlier
      exact ⟨shaped, by rw [settled.events j.id other, merges]; exact logged⟩
    · -- the intent itself
      have inStore : db.managedRepository i'.repositoryPath ≠ none := by
        rcases inside with now | earlier
        · exact now.2
        · obtain ⟨k, hk, same, done⟩ := recorded.managed _ earlier
          exact absurd same (apart k hk done)
      obtain ⟨repositoryId, named⟩ := Option.ne_none_iff_exists'.mp inStore
      obtain ⟨lengths, pairs⟩ := shaped inStore
      refine ⟨⟨lengths, pairs⟩, ?_⟩
      show eventsOf db'.repositoryEvents i'.id = _
      rw [events, recorded.unlogged hi incomplete, List.nil_append, recorded.mergeViews_eq, merges,
        pushViews, named]
  · intro id inside
    rw [List.mem_append, mem_completedIn hi] at inside
    rcases inside with ⟨rfl, -⟩ | earlier
    · exact ⟨_, own, rfl, rfl⟩
    · obtain ⟨j, hj, same, done⟩ := recorded.managed id earlier
      exact ⟨j, stays j hj done, same, done⟩
  · intro m hm
    rw [merges] at hm
    obtain ⟨⟨j, hj, same, inRepository⟩, ⟨p, hp, ofMerge⟩, r, hr, latest⟩ := recorded.merges m hm
    obtain ⟨k, hk, kept, -⟩ := (settled.keeps hi).2 j hj
    obtain ⟨q, hq, row⟩ := settled.pullRequests.forth p hp
    exact ⟨⟨k, hk, by rw [kept]; exact same, by rw [kept]; exact inRepository⟩,
      ⟨q, hq, by rw [row]; exact ofMerge⟩, r, by rw [settled.pullRequests.revisions]; exact hr,
      latest⟩

end Tit.Events
