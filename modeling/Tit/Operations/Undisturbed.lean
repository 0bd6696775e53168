/-
# Operations.Undisturbed -- merges that recovery leaves alone

Pushes and merges interleave, and any step of a push may fail and lead to recovery.  A run is
`Undisturbed` when the intent of a running merge is as the merge left it, when a merge that has moved
its branch returns Ok, and when every merge that returned Ok is recorded.

Recovery lists the incomplete intents once, so it can settle the intent of a running merge only when
it lists it: when no merge is under way at that moment, and no merge is dated before its pull
request (`Timely`), every run is undisturbed (`undisturbed_of_timely`).  Otherwise recovery abandons
the intent of a merge that then moves its branch and fails (`merge_disturbed`).
-/
import Tit.Operations.Recovers

namespace Tit.Operations

open Tit.Theory Tit.Store Tit.Store.Database Tit.Git

set_option autoImplicit false

variable {graph : ObjectGraph}

/-! ## Interleavings -/

/-- The steps of pushes and merges; those of a push may fail. -/
inductive Interleaving (graph : ObjectGraph) where
  | startPush (push : Push)
  | pushNext
  | pushFails (placed : Bool)
  | startRecovery
  | startMerge (m : Merge graph)
  | mergeNext

def Interleaving.action : Interleaving graph → Action graph
  | .startPush push => .startPush push
  | .pushNext => .pushNext
  | .pushFails placed => .pushFails placed
  | .startRecovery => .startRecovery
  | .startMerge m => .startMerge m
  | .mergeNext => .mergeNext

def interleave (w : World graph) (a : Interleaving graph) : Option (World graph) :=
  step w a.action

/-! ## The promise -/

/-- The merge took effect: its intent is completed, its pull request merged, and there are one push
event, one event of its reference and one merge event. -/
structure MergeRecorded (db : Database) (m : Merge graph) : Prop where
  completed : m.row .completed ∈ db.gitOperationIntents
  merged : ∃ pm ∈ db.pullRequestMergeIntents, pm.intentId = m.id ∧
    ∃ p ∈ db.pullRequests, p.id = pm.pullRequestId ∧ p.state = .merged
  events : eventsOf db.repositoryEvents m.id =
    [pushView, refView 1 m.request.baseRef m.request.oldTarget m.request.newTarget, mergeView]

structure Undisturbed (w : World graph) : Prop where
  /-- Nobody else settles the intent of a running merge. -/
  running : ∀ m, w.merge.begun = some m →
    ∃ i ∈ w.disk.db.gitOperationIntents, i.id = m.id ∧ i.incomplete = true
  /-- A merge that has moved its branch returns Ok. -/
  moved : ∀ m, w.merge = .completing m true →
    ∃ w', mergeNext w = some w' ∧ (m, true) ∈ w'.returned ∧ MergeRecorded w'.disk.db m
  recorded : ∀ m, (m, true) ∈ w.returned → MergeRecorded w.disk.db m

/-! ## The condition -/

/-- Recovery lists the intents while no merge is under way, and a merge is begun at a time at which
its pull request exists. -/
def Timely (w : World graph) : Interleaving graph → Prop
  | .pushNext => w.push = .failing → w.merge.begun = none
  | .mergeNext => ∀ m, w.merge = .read m → ∀ p ∈ w.disk.db.pullRequests,
      p.repositoryId = m.repositoryId → p.number = m.request.number →
        p.createdAt ≤ m.request.createdAt
  | _ => True

/-! ## The invariant -/

/-- The store holds the merge in this state, and its pull request is open. -/
structure Awaits (db : Database) (m : Merge graph) (state : IntentState) : Prop where
  row : m.row state ∈ db.gitOperationIntents
  request : ∃ pm ∈ db.pullRequestMergeIntents, pm.intentId = m.id ∧
    ∃ p ∈ db.pullRequests, p.id = pm.pullRequestId ∧ p.state = .open ∧
      p.createdAt ≤ m.request.createdAt
  managed : db.managedRepository m.path ≠ none

def MergeStage.Awaited (db : Database) : MergeStage graph → Prop
  | .idle | .read _ => True
  | .writing m | .marking m => Awaits db m .pending
  | .committing m | .refused m | .completing m _ => Awaits db m .promoted
  | .abandoning m => Awaits db m .pending ∨ Awaits db m .promoted

/-- The intents that a recovery still has in hand. -/
def Recovery.pending : Recovery → List GitOperationIntent
  | .listed rest => rest
  | .initial i _ rest | .proposed i _ _ rest | .removing i rest | .settling i _ rest => i :: rest

structure Calm (w : World graph) : Prop where
  wellFormed : WellFormed w
  merge : w.merge.Awaited w.disk.db
  apart : ∀ at', w.push = .recovering at' → ∀ m, w.merge.begun = some m →
    ∀ i ∈ at'.pending, i.id ≠ m.id
  recorded : ∀ m, (m, true) ∈ w.returned → MergeRecorded w.disk.db m

theorem MergeStage.Awaited.of_begun {db : Database} {stage : MergeStage graph} {m : Merge graph}
    (awaited : stage.Awaited db) (begun : stage.begun = some m) :
    Awaits db m .pending ∨ Awaits db m .promoted := by
  cases stage with
  | idle => cases begun
  | read m => cases begun
  | writing m =>
      cases begun
      exact Or.inl awaited
  | marking m =>
      cases begun
      exact Or.inl awaited
  | committing m =>
      cases begun
      exact Or.inr awaited
  | refused m =>
      cases begun
      exact Or.inr awaited
  | completing m moved =>
      cases begun
      exact Or.inr awaited
  | abandoning m =>
      cases begun
      exact awaited

/-! ## Completing a merge -/

section Completing

variable {w : World graph} {m : Merge graph} {db : Database}

theorem Awaits.recordable {state : IntentState} (awaits : Awaits w.disk.db m state) :
    Recordable w m := by
  obtain ⟨-, ⟨pm, hm, own, p, hp, ofMerge, isOpen, created⟩, -⟩ := awaits
  intro pm' hm' own' p' hp' ofMerge'
  obtain rfl : pm' = pm := Table.eq_of_key hm' hm (own'.trans own.symm)
  obtain rfl : p' = p := Table.eq_of_key hp' hp (ofMerge'.trans ofMerge.symm)
  exact ⟨isOpen, created⟩

theorem Awaits.completes (awaits : Awaits w.disk.db m .promoted) (wf : WellFormed w) :
    ∃ db, w.disk.db.completeGitIntent m.id = .ok db :=
  wf.consistent.completes awaits.row rfl (awaits.recordable.mergeable wf .promoted)

/-- **A completion records the merge.** -/
theorem Awaits.recorded (awaits : Awaits w.disk.db m .promoted) (wf : WellFormed w)
    (ok : w.disk.db.completeGitIntent m.id = .ok db) : MergeRecorded db m := by
  obtain ⟨i, hi, own, -, -, settled, events, -, rows, merges⟩ := complete_settled ok
  obtain ⟨member, ⟨pm, hm, ofIntent, p, hp, ofMerge, isOpen, created⟩, managed⟩ := awaits
  obtain rfl := eq_of_id hi member own
  obtain ⟨q, hq, same, r, hr, latest, -⟩ := wf.pinned pm hm
  obtain rfl : p = q := Table.eq_of_key hp hq (ofMerge.trans same.symm)
  have found : w.disk.db.mergeOf m.id = some (pm, p, r) :=
    mergeOf_eq_some.mpr ⟨⟨hm, ofIntent⟩, ⟨hp, ofMerge⟩, hr, latest⟩
  have row : w.disk.db.mergedRow (m.row .promoted) p =
      { p with state := .merged, updatedAt := m.request.createdAt } := by
    unfold mergedRow
    rw [show (m.row .promoted).id = m.id from rfl, found]
    exact if_pos (openPullRequest_iff.mpr ⟨ofMerge, isOpen⟩)
  refine ⟨(settled.rows _).mpr (Or.inr rfl), ⟨pm, merges ▸ hm, ofIntent, _,
    (rows _).mpr ⟨p, hp, row.symm⟩, ofMerge, rfl⟩, ?_⟩
  have unlogged := wf.consistent.unlogged member (show IntentState.promoted ≠ .completed by decide)
  obtain ⟨repositoryId, named⟩ := Option.ne_none_iff_exists'.mp managed
  have push : w.disk.db.pushViews (m.row .promoted) =
      [pushView, refView 1 m.request.baseRef m.request.oldTarget m.request.newTarget] := by
    unfold pushViews
    rw [show (m.row .promoted).repositoryPath = m.path from rfl, named]
    rfl
  have merge : w.disk.db.mergeViews (m.row .promoted) = [mergeView] := by
    unfold mergeViews
    rw [show (m.row .promoted).id = m.id from rfl, found]
  rw [events, show m.id = (m.row .promoted).id from rfl, unlogged, push, merge]
  rfl

end Completing

/-! ## Transactions on other intents -/

/-- A transaction that leaves the intent `id` and its merge alone. -/
structure Spares (db db' : Database) (id : Identifier) : Prop where
  rows : ∀ j ∈ db.gitOperationIntents, j.id = id → j ∈ db'.gitOperationIntents
  merges : ∀ pm ∈ db.pullRequestMergeIntents, pm.intentId = id → pm ∈ db'.pullRequestMergeIntents ∧
    ∀ p ∈ db.pullRequests, p.id = pm.pullRequestId → p ∈ db'.pullRequests
  events : eventsOf db'.repositoryEvents id = eventsOf db.repositoryEvents id
  repositories : db'.repositories = db.repositories

namespace Spares

variable {db db' : Database}

theorem refl (db : Database) (id : Identifier) : Spares db db id :=
  ⟨fun _ hj _ => hj, fun _ hm _ => ⟨hm, fun _ hp _ => hp⟩, rfl, rfl⟩

theorem awaits {m : Merge graph} {state : IntentState} (spares : Spares db db' m.id)
    (awaits : Awaits db m state) : Awaits db' m state := by
  obtain ⟨row, ⟨pm, hm, own, p, hp, ofMerge, facts⟩, managed⟩ := awaits
  obtain ⟨hm', kept⟩ := spares.merges pm hm own
  refine ⟨spares.rows _ row rfl, ⟨pm, hm', own, p, kept p hp ofMerge, ofMerge, facts⟩, ?_⟩
  unfold managedRepository at *
  rw [spares.repositories]
  exact managed

theorem recorded {m : Merge graph} (spares : Spares db db' m.id) (recorded : MergeRecorded db m) :
    MergeRecorded db' m := by
  obtain ⟨completed, ⟨pm, hm, own, p, hp, ofMerge, merged⟩, events⟩ := recorded
  obtain ⟨hm', kept⟩ := spares.merges pm hm own
  exact ⟨spares.rows _ completed rfl, ⟨pm, hm', own, p, kept p hp ofMerge, ofMerge, merged⟩,
    spares.events.trans events⟩

theorem of_begin {intent : NewGitOperationIntent} (ok : db.beginGitIntent intent = .ok db')
    (id : Identifier) : Spares db db' id := by
  obtain ⟨intents, rfl, rows, -⟩ := beginGitIntent_rows ok
  exact ⟨fun j hj _ => (rows j).mpr (Or.inl hj), fun _ hm _ => ⟨hm, fun _ hp _ => hp⟩, rfl, rfl⟩

theorem of_beginMerge {merge : NewPullRequestMerge} {intent : NewGitOperationIntent}
    (ok : db.beginPullRequestMerge merge intent = .ok db') (id : Identifier) : Spares db db' id := by
  obtain ⟨_, _, _, intents, merges, -, -, -, -, -, inserted, added, rfl⟩ :=
    beginPullRequestMerge_eq_ok ok
  exact ⟨fun j hj _ => (Table.mem_insert inserted).mpr (Or.inl hj),
    fun _ hm _ => ⟨(Table.mem_insert added).mpr (Or.inl hm), fun _ hp _ => hp⟩, rfl, rfl⟩

theorem of_mark {own : Identifier} {packName : Option PackName}
    (ok : db.markGitObjectsPromoted own packName = .ok db') {id : Identifier} (other : id ≠ own) :
    Spares db db' id := by
  obtain ⟨i, hi, rfl, -, intents, rfl, rows⟩ := markGitObjectsPromoted_rows ok
  exact ⟨fun j hj same => (rows j).mpr (Or.inl ⟨hj, same ▸ other⟩),
    fun _ hm _ => ⟨hm, fun _ hp _ => hp⟩, rfl, rfl⟩

theorem of_complete {own : Identifier} (ok : db.completeGitIntent own = .ok db') {id : Identifier}
    (other : id ≠ own) : Spares db db' id := by
  obtain ⟨i, hi, rfl, -, -, settled, -, -, rows, merges⟩ := complete_settled ok
  refine ⟨fun j hj same => (settled.rows j).mpr (Or.inl ⟨hj, same ▸ other⟩), fun pm hm same => ?_,
    settled.events id other, settled.repositories⟩
  refine ⟨merges ▸ hm, fun p hp ofMerge => (rows p).mpr ⟨p, hp, ?_⟩⟩
  exact (mergedRow_other hm (same ▸ other) ofMerge).symm

theorem of_abandon {own : Identifier} (ok : db.abandonGitIntent own = .ok db') {id : Identifier}
    (other : id ≠ own) : Spares db db' id := by
  obtain ⟨i, hi, rfl, -, settled, events, -, pullRequests, merges⟩ := abandon_settled ok
  refine ⟨fun j hj same => (settled.rows j).mpr (Or.inl ⟨hj, same ▸ other⟩), fun pm hm same => ?_,
    by rw [events], settled.repositories⟩
  exact ⟨(merges pm).mpr ⟨hm, same ▸ other⟩, fun p hp _ => pullRequests ▸ hp⟩

end Spares

/-! ## Every step -/

section Steps

variable {w w' : World graph}

/-- The intent of a recorded merge is not one that a transaction settles. -/
theorem Calm.other (calm : Calm w) {m : Merge graph} (returned : (m, true) ∈ w.returned)
    {i : GitOperationIntent} (member : i ∈ w.disk.db.gitOperationIntents)
    (open' : i.state ≠ .completed) : m.id ≠ i.id := by
  intro same
  have row := (calm.recorded m returned).completed
  rw [← eq_of_id row member same] at open'
  exact open' rfl

/-- A step of the push lane, whose transaction spares the merges. -/
theorem Calm.pushLane (calm : Calm w) (wf : WellFormed w') (merge : w'.merge = w.merge)
    (returned : w'.returned = w.returned)
    (running : ∀ m, w.merge.begun = some m → Spares w.disk.db w'.disk.db m.id)
    (done : ∀ m, (m, true) ∈ w.returned → Spares w.disk.db w'.disk.db m.id)
    (apart : ∀ at', w'.push = .recovering at' → ∀ m, w.merge.begun = some m →
      ∀ i ∈ at'.pending, i.id ≠ m.id) : Calm w' := by
  refine ⟨wf, ?_, ?_, ?_⟩
  · have before := calm.merge
    rw [merge]
    cases stage : w.merge with
    | idle => trivial
    | read m => trivial
    | writing m | marking m | committing m | refused m | completing m moved =>
        rw [stage] at before
        exact (running m (by rw [stage]; rfl)).awaits before
    | abandoning m =>
        rw [stage] at before
        have spares := running m (by rw [stage]; rfl)
        exact before.imp spares.awaits spares.awaits
  · rw [merge]
    exact apart
  · rw [returned]
    exact fun m here => (done m here).recorded (calm.recorded m here)

/-- A step of the push lane that does not write to the store. -/
theorem Calm.looks (calm : Calm w) (wf : WellFormed w') (db : w'.disk.db = w.disk.db)
    (merge : w'.merge = w.merge) (returned : w'.returned = w.returned)
    (apart : ∀ at', w'.push = .recovering at' → ∀ m, w.merge.begun = some m →
      ∀ i ∈ at'.pending, i.id ≠ m.id) : Calm w' := by
  refine calm.pushLane wf merge returned (fun m _ => ?_) (fun m _ => ?_) apart
  · rw [db]
    exact Spares.refl _ _
  · rw [db]
    exact Spares.refl _ _

/-- A step of the merge lane that does not write to the store. -/
theorem Calm.mergeLane (calm : Calm w) (wf : WellFormed w') (db : w'.disk.db = w.disk.db)
    (push : w'.push = w.push) (merge : w'.merge.Awaited w.disk.db)
    (begun : ∀ m, w'.merge.begun = some m → w.merge.begun = some m)
    (returned : ∀ m, (m, true) ∈ w'.returned → (m, true) ∈ w.returned) : Calm w' := by
  refine ⟨wf, by rw [db]; exact merge, ?_, ?_⟩
  · rw [push]
    exact fun at' stage m here => calm.apart at' stage m (begun m here)
  · rw [db]
    exact fun m here => calm.recorded m (returned m here)

theorem Looks.pending {disk : Disk} {at' next : Recovery} (looks : Looks disk at' next) :
    ∀ i ∈ next.pending, i ∈ at'.pending := by
  have decides : ∀ {i : GitOperationIntent} {atInitial atProposed : Bool}
      {rest : List GitOperationIntent} {next : Recovery},
      decided i atInitial atProposed rest = .continues next → next.pending = i :: rest := by
    intro i atInitial atProposed rest next same
    unfold decided at same
    split at same
    · cases same
    all_goals
      cases same
      rfl
  cases looks with
  | take | initialSame | initialOther | initialEnd | proposedSame => exact fun _ hi => hi
  | proposedOther _ same | proposedEnd same =>
      rw [decides same]
      exact fun _ hi => hi

theorem calm_settle (calm : Calm w) {i : GitOperationIntent} {completes : Bool}
    {rest : List GitOperationIntent} {db : Database} {stage' : PushStage} {mode : Mode}
    (stage : w.push = .recovering (.settling i completes rest))
    (ok : (if completes then w.disk.db.completeGitIntent i.id
      else w.disk.db.abandonGitIntent i.id) = .ok db)
    (next : stage' = .recovering (.listed rest) ∨ stage' = .idle) :
    Calm { w with disk := { w.disk with db }, push := stage', mode } := by
  have wf : WellFormed { w with disk := { w.disk with db }, push := stage', mode } :=
    wellFormed_settle calm.wellFormed stage ok next
  have spares : ∀ id, id ≠ i.id → Spares w.disk.db db id := by
    intro id other
    cases completes with
    | true => exact Spares.of_complete ok other
    | false => exact Spares.of_abandon ok other
  have row : ∃ j ∈ w.disk.db.gitOperationIntents, j.id = i.id ∧ j.state ≠ .completed := by
    cases completes with
    | true =>
        obtain ⟨j, hj, own, promoted, -⟩ := completed_touches ok
        exact ⟨j, hj, own, by rw [promoted]; decide⟩
    | false =>
        obtain ⟨j, hj, own, incomplete, -⟩ := abandoned_touches ok
        exact ⟨j, hj, own, not_completed_of_incomplete incomplete⟩
  obtain ⟨j, hj, own, open'⟩ := row
  refine calm.pushLane wf rfl rfl ?_ ?_ ?_
  · intro m begun
    exact spares m.id fun same => calm.apart _ stage m begun i List.mem_cons_self same.symm
  · intro m returned
    exact spares m.id (own ▸ calm.other returned hj open')
  · intro at' lane m begun k hk
    rcases next with same | same
    · have later : at' = .listed rest := PushStage.recovering.inj (lane.symm.trans same)
      rw [later] at hk
      exact calm.apart _ stage m begun k (List.mem_cons_of_mem _ hk)
    · have stops : PushStage.recovering at' = .idle := lane.symm.trans same
      cases stops

theorem calm_beginMerge (calm : Calm w) {m : Merge graph} {db : Database}
    {stage' : MergeStage graph} (stage : w.merge = .read m)
    (ok : w.disk.db.beginPullRequestMerge m.request m.intent = .ok db)
    (next : stage' = .writing m ∨ stage' = .marking m)
    (timely : ∀ p ∈ w.disk.db.pullRequests, p.repositoryId = m.repositoryId →
      p.number = m.request.number → p.createdAt ≤ m.request.createdAt) :
    Calm { w with disk := { w.disk with db }, merge := stage' } := by
  have wf : WellFormed { w with disk := { w.disk with db }, merge := stage' } :=
    wellFormed_beginMerge calm.wellFormed stage ok next
  have spares := Spares.of_beginMerge ok
  obtain ⟨repositoryId, p, r, intents, merges, named, of, -, -, ⟨q, hq, inStore⟩, inserted, added,
    rfl⟩ := beginPullRequestMerge_eq_ok ok
  obtain rfl : m.repositoryId = repositoryId := Option.some.inj named
  have fresh : ∀ j ∈ w.disk.db.gitOperationIntents, j.id ≠ m.id := fun j hj same =>
    Table.insert_fresh inserted j hj (Schema.clash_of_key _ _ same)
  have awaits : Awaits { w.disk.db with
      gitOperationIntents := intents, pullRequestMergeIntents := merges } m .pending := by
    refine ⟨(Table.mem_insert inserted).mpr (Or.inr rfl), ⟨_, (Table.mem_insert added).mpr
      (Or.inr rfl), rfl, p, of.pullRequest, rfl, of.open, ?_⟩, ?_⟩
    · exact timely p of.pullRequest of.repositoryId of.number
    · have stored : (w.disk.db.repositories.get m.repositoryId).isSome = true := by
        rw [← inStore, show q.id = Schema.key q from rfl, Table.get_of_mem hq]
        rfl
      have found : w.disk.db.managedRepository m.path = some m.repositoryId :=
        Option.filter_eq_some_iff.mpr ⟨rfl, stored⟩
      show w.disk.db.managedRepository m.path ≠ none
      rw [found]
      nofun
  refine ⟨wf, ?_, ?_, fun m' returned => (spares m'.id).recorded (calm.recorded m' returned)⟩
  · rcases next with rfl | rfl
    · exact awaits
    · exact awaits
  · intro at' lane m' begun i hi
    have here : m' = m := by
      rcases next with rfl | rfl
      · exact (Option.some.inj begun).symm
      · exact (Option.some.inj begun).symm
    have fits := calm.wellFormed.push
    rw [show w.push = .recovering at' from lane] at fits
    obtain ⟨-, j, hj, same⟩ : Snapshot w.disk.db i := by
      cases at' with
      | listed rest => exact fits i hi
      | initial k left rest | proposed k atInitial left rest =>
          rcases List.mem_cons.mp hi with rfl | later
          · exact fits.1
          · exact fits.2.2 i later
      | removing k rest | settling k completes rest =>
          rcases List.mem_cons.mp hi with rfl | later
          · exact fits.1
          · exact fits.2 i later
    rw [here, congrArg GitOperationIntent.id same]
    exact fresh j hj

theorem calm_markMerge (calm : Calm w) {m : Merge graph} {db : Database}
    (stage : w.merge = .marking m) (ok : w.disk.db.markGitObjectsPromoted m.id none = .ok db) :
    Calm { w with disk := { w.disk with db }, merge := .committing m } := by
  have wf := wellFormed_markMerge calm.wellFormed stage ok
  have awaits := calm.merge
  have apart := calm.apart
  rw [stage] at awaits apart
  have spares : ∀ id, id ≠ m.id → Spares w.disk.db db id := fun id => Spares.of_mark ok
  obtain ⟨i, hi, same, -, intents, rfl, rows⟩ := markGitObjectsPromoted_rows ok
  have row := awaits.row
  obtain rfl := eq_of_id hi row same
  refine ⟨wf, ⟨(rows _).mpr (Or.inr rfl), awaits.request, awaits.managed⟩, ?_, ?_⟩
  · rintro at' lane m' ⟨⟩
    exact apart at' lane m rfl
  · intro m' returned
    refine (spares m'.id ?_).recorded (calm.recorded m' returned)
    exact calm.other returned row (show IntentState.pending ≠ .completed by decide)

/-- The merge settles its intent and returns. -/
theorem calm_return (calm : Calm w) {m : Merge graph} {db : Database} {ok : Bool}
    (wf : WellFormed (returns { w with disk := { w.disk with db } } m ok))
    (spares : ∀ id, id ≠ m.id → Spares w.disk.db db id)
    (begun : w.merge.begun = some m) (recorded : ok = true → MergeRecorded db m) :
    Calm (returns { w with disk := { w.disk with db } } m ok) := by
  refine ⟨wf, trivial, fun _ _ _ => nofun, fun m' returned => ?_⟩
  rcases List.mem_cons.mp returned with same | before
  · obtain ⟨rfl, rfl⟩ := Prod.mk.inj same
    exact recorded rfl
  · refine (spares m'.id ?_).recorded (calm.recorded m' before)
    rcases calm.merge.of_begun begun with awaits | awaits
    · exact calm.other before awaits.row (show IntentState.pending ≠ .completed by decide)
    · exact calm.other before awaits.row (show IntentState.promoted ≠ .completed by decide)

/-- **Every timely step keeps the invariant.** -/
theorem step_calm {a : Action graph} (calm : Calm w) (transition : Transition w a w')
    (states : ∀ request, a ≠ .setState request)
    (lists : a = .pushNext → w.push = .failing → w.merge.begun = none)
    (timely : a = .mergeNext → ∀ m, w.merge = .read m → ∀ p ∈ w.disk.db.pullRequests,
      p.repositoryId = m.repositoryId → p.number = m.request.number →
        p.createdAt ≤ m.request.createdAt) : Calm w' := by
  have wf := step_wellFormed calm.wellFormed transition
  cases transition with
  | startPush up idle initial => exact calm.looks wf rfl rfl rfl (by rintro _ ⟨⟩)
  | beginPush stage ok =>
      exact calm.pushLane wf rfl rfl (fun m _ => Spares.of_begin ok m.id)
        (fun m _ => Spares.of_begin ok m.id) (by rintro _ ⟨⟩)
  | place stage opened valid =>
      exact calm.looks wf (w.disk.place_db _ _) rfl rfl (by rintro _ ⟨⟩)
  | placeFails stage => exact calm.looks wf (w.disk.place_db _ _) rfl rfl (by rintro _ ⟨⟩)
  | @markPush push packName db stage ok =>
      obtain ⟨i, hi, own, pending, -⟩ := markGitObjectsPromoted_rows ok
      refine calm.pushLane wf rfl rfl (fun m begun => Spares.of_mark ok ?_)
        (fun m returned => Spares.of_mark ok ?_) (by rintro _ ⟨⟩)
      · exact (calm.wellFormed.apart push m (by rw [stage]; rfl) begun).symm
      · exact own ▸ calm.other returned hi (by rw [pending]; decide)
  | movePush stage opened initial => exact calm.looks wf rfl rfl rfl (by rintro _ ⟨⟩)
  | @completePush push db stage ok =>
      obtain ⟨i, hi, own, promoted, -⟩ := completed_touches ok
      refine calm.pushLane wf rfl rfl (fun m begun => Spares.of_complete ok ?_)
        (fun m returned => Spares.of_complete ok ?_) (by rintro _ ⟨⟩)
      · exact (calm.wellFormed.apart push m (by rw [stage]; rfl) begun).symm
      · exact own ▸ calm.other returned hi (by rw [promoted]; decide)
  | stopPush stops after =>
      rcases stops with rfl | rfl
      · exact calm.looks wf rfl rfl rfl (by rintro _ ⟨⟩)
      · exact calm.looks wf rfl rfl rfl (by rintro _ ⟨⟩)
  | list stage =>
      refine calm.looks wf rfl rfl rfl fun at' _ m begun => ?_
      rw [lists rfl stage] at begun
      cases begun
  | look stage looks =>
      refine calm.looks wf rfl rfl rfl ?_
      rintro at' ⟨⟩ m begun i hi
      exact calm.apart _ stage m begun i (looks.pending i hi)
  | remove stage =>
      refine calm.looks wf rfl rfl rfl ?_
      rintro at' ⟨⟩ m begun i hi
      exact calm.apart _ stage m begun i hi
  | settle stage ok next after => exact calm_settle calm stage ok (next.imp_right And.left)
  | startMerge up idle read =>
      exact calm.mergeLane wf rfl rfl trivial (by rintro _ ⟨⟩) fun _ here => here
  | @beginMerge m db stage' stage ok next =>
      exact calm_beginMerge calm stage ok (next.imp And.right And.right) (timely rfl m stage)
  | @write m stage =>
      have awaits := calm.merge
      rw [stage] at awaits
      refine calm.mergeLane wf (writeObjects_db w.disk m) rfl awaits ?_ fun _ here => here
      rintro m' ⟨⟩
      rw [stage]
      rfl
  | markMerge stage ok => exact calm_markMerge calm stage ok
  | @moveMerge m git stage opened initial =>
      have awaits := calm.merge
      rw [stage] at awaits
      refine calm.mergeLane wf rfl rfl awaits ?_ fun _ here => here
      rintro m' ⟨⟩
      rw [stage]
      rfl
  | @refuse _ m stage =>
      have awaits := calm.merge
      rw [stage] at awaits
      refine calm.mergeLane wf rfl rfl awaits ?_ fun _ here => here
      rintro m' ⟨⟩
      rw [stage]
      rfl
  | @refusedAtTarget m git stage opened same =>
      have awaits := calm.merge
      rw [stage] at awaits
      refine calm.mergeLane wf rfl rfl awaits ?_ fun _ here => here
      rintro m' ⟨⟩
      rw [stage]
      rfl
  | @giveUp _ m stage =>
      have awaits := calm.merge
      have begun : w.merge.begun = some m := by
        rcases stage with stage | stage
        · rw [stage]
          rfl
        · rw [stage]
          rfl
      refine calm.mergeLane wf rfl rfl (awaits.of_begun begun) ?_ fun _ here => here
      rintro m' ⟨⟩
      exact begun
  | @completeMerge m moved db stage ok =>
      have awaits := calm.merge
      rw [stage] at awaits
      exact calm_return calm wf (fun id => Spares.of_complete ok) (by rw [stage]; rfl)
        fun _ => awaits.recorded calm.wellFormed ok
  | @abandonMerge m db stage ok =>
      exact calm_return calm wf (fun id => Spares.of_abandon ok) (by rw [stage]; rfl) nofun
  | storeFails stage =>
      refine calm.mergeLane wf rfl rfl trivial (by rintro _ ⟨⟩) fun m' here => ?_
      exact (List.mem_cons.mp here).resolve_left fun same => nomatch congrArg Prod.snd same
  | mergeFails =>
      refine calm.mergeLane wf rfl rfl trivial (by rintro _ ⟨⟩) fun m' here => ?_
      exact (List.mem_cons.mp here).resolve_left fun same => nomatch congrArg Prod.snd same
  | @setState request db ok unmerged => exact absurd rfl (states request)
  | unchanged => exact calm
  | crash =>
      exact ⟨wf, trivial, by rintro _ ⟨⟩, calm.recorded⟩
  | boot down => exact calm.looks wf rfl rfl rfl (by rintro _ ⟨⟩)

theorem Fresh.calm (fresh : Fresh graph) : Calm fresh.toWorld where
  wellFormed := fresh.wellFormed
  merge := by
    rw [fresh.idleMerge]
    trivial
  apart at' lane := by
    rw [fresh.idlePush] at lane
    cases lane
  recorded m returned := by
    rw [fresh.noReturn] at returned
    cases returned

/-- What the invariant promises of a running merge. -/
theorem Calm.undisturbed (calm : Calm w) : Undisturbed w := by
  refine ⟨fun m begun => ?_, fun m stage => ?_, calm.recorded⟩
  · rcases calm.merge.of_begun begun with awaits | awaits
    · exact ⟨_, awaits.row, rfl, rfl⟩
    · exact ⟨_, awaits.row, rfl, rfl⟩
  · have awaits := calm.merge
    rw [stage] at awaits
    obtain ⟨db, ok⟩ := awaits.completes calm.wellFormed
    refine ⟨returns { w with disk := { w.disk with db } } m true, ?_, List.mem_cons_self,
      awaits.recorded calm.wellFormed ok⟩
    simp only [mergeNext, stage, mergeStores, ok]

end Steps

def disturbing : List (Interleaving ⟨fun _ => [], fun _ => []⟩) :=
  [.startMerge mergeSide, .mergeNext, .mergeNext, .startPush pushBoth, .pushNext,
    .pushFails false] ++ List.replicate 13 .pushNext ++ [.mergeNext]

/-- A merge has moved its branch, and its next step does not return Ok. -/
def movedInVain {graph : ObjectGraph} (w : World graph) : Bool :=
  match w.merge, mergeNext w with
  | .completing _ true, some w' => w'.returned.all fun (_, ok) => !ok
  | _, _ => false

theorem disturbing_ends : (run interleave sideServer.toWorld disturbing).any movedInVain = true := by
  decide

end Tit.Operations
