/-
# Operations.Recovers -- recovery after every allowed run

Every step that `Allowed` permits keeps `Settleable` (`step_settleable`), so recovery succeeds from
every state of such a run and completes just the intents that were committed
(`recovers_of_allowed`).  Without the condition one push of two references and one merge are enough
to stop recovery for good (`mixed_for_good`).
-/
import Tit.Operations.Settlement

namespace Tit.Operations

open Tit.Theory Tit.Store Tit.Store.Database Tit.Git

set_option autoImplicit false

variable {graph : ObjectGraph}

/-! ## What recovery reads -/

theorem reads_eq {disk : Disk} {i : GitOperationIntent} {e : RefName × ObjectId} {b : Bool}
    (read : reads disk i e = some b) : atRefs disk i.repositoryPath [e] = b := by
  obtain ⟨git, found, rfl⟩ := Option.map_eq_some_iff.mp read
  rw [atRefs_of_some found]

theorem atRefs_of_mem {disk : Disk} {path : RepositoryPath} {snapshot : RefSnapshot}
    {e : RefName × ObjectId} (matches' : atRefs disk path snapshot = true) (member : e ∈ snapshot) :
    atRefs disk path [e] = true := by
  obtain ⟨git, found, same⟩ := (Option.any_eq_true _ _).mp matches'
  rw [atRefs_of_some found, GitRepository.refsMatch_iff]
  intro e' he'
  obtain rfl := List.mem_singleton.mp he'
  exact GitRepository.refsMatch_iff.mp same _ member

/-- A reference is not at its old and at its new value. -/
theorem Commands.not_both {disk : Disk} {path : RepositoryPath} {commands : Commands}
    {c : RefCommand} (member : c ∈ commands.list)
    (old : atRefs disk path [(c.name, c.old)] = true)
    (new : atRefs disk path [(c.name, c.new)] = true) : False := by
  obtain ⟨git, found, atOld⟩ := (Option.any_eq_true _ _).mp old
  rw [atRefs_of_some found] at new
  have first := GitRepository.refsMatch_iff.mp atOld _ List.mem_cons_self
  have second := GitRepository.refsMatch_iff.mp new _ List.mem_cons_self
  exact commands.changes c member (GitRepository.target_injective (first.symm.trans second))

/-- The old value of a reference is not read where the new ones are. -/
theorem WellFormed.old_elsewhere {w : World graph} (wf : WellFormed w) {i : GitOperationIntent}
    (member : i ∈ w.disk.db.gitOperationIntents) {e : RefName × ObjectId}
    (named : e ∈ i.initialRefs) (read : atRefs w.disk i.repositoryPath [e] = true)
    (proposed : atRefs w.disk i.repositoryPath i.proposedRefs = true) : False := by
  obtain ⟨commands, initial, new⟩ := wf.consistent.commands i member
  rw [initial] at named
  obtain ⟨c, hc, rfl⟩ := List.mem_map.mp named
  rw [new] at proposed
  exact Commands.not_both hc read (atRefs_of_mem proposed (List.mem_map_of_mem hc))

theorem WellFormed.new_elsewhere {w : World graph} (wf : WellFormed w) {i : GitOperationIntent}
    (member : i ∈ w.disk.db.gitOperationIntents) {e : RefName × ObjectId}
    (named : e ∈ i.proposedRefs) (read : atRefs w.disk i.repositoryPath [e] = true)
    (initial : atRefs w.disk i.repositoryPath i.initialRefs = true) : False := by
  obtain ⟨commands, old, new⟩ := wf.consistent.commands i member
  rw [new] at named
  obtain ⟨c, hc, rfl⟩ := List.mem_map.mp named
  rw [old] at initial
  exact Commands.not_both hc (atRefs_of_mem initial (List.mem_map_of_mem hc)) read

/-- The data of a row that recovery has listed. -/
theorem Snapshot.data {db : Database} {i : GitOperationIntent} (snapshot : Snapshot db i) :
    ∃ j ∈ db.gitOperationIntents, j.id = i.id ∧ j.repositoryPath = i.repositoryPath ∧
      j.initialRefs = i.initialRefs ∧ j.proposedRefs = i.proposedRefs := by
  obtain ⟨-, j, hj, same⟩ := snapshot
  exact ⟨j, hj, (congrArg GitOperationIntent.id same).symm,
    (congrArg GitOperationIntent.repositoryPath same).symm,
    (congrArg GitOperationIntent.initialRefs same).symm,
    (congrArg GitOperationIntent.proposedRefs same).symm⟩

/-- What the invariant says of an intent that recovery has taken up. -/
structure Told (w : World graph) (i : GitOperationIntent) : Prop where
  moved : i.id ∈ w.committed → atRefs w.disk i.repositoryPath i.proposedRefs = true
  unmoved : i.id ∉ w.committed → Untold w.disk i.repositoryPath i.initialRefs i.proposedRefs
  old : ∀ e ∈ i.initialRefs, atRefs w.disk i.repositoryPath [e] = true →
    atRefs w.disk i.repositoryPath i.proposedRefs = true → False
  new : ∀ e ∈ i.proposedRefs, atRefs w.disk i.repositoryPath [e] = true →
    atRefs w.disk i.repositoryPath i.initialRefs = true → False
  initial : i.initialRefs ≠ []
  proposed : i.proposedRefs.length = i.initialRefs.length

theorem Settleable.told {w : World graph} (settleable : Settleable w) {i : GitOperationIntent}
    (snapshot : Snapshot w.disk.db i) (unsettled : Unsettled w.disk.db i.id) : Told w i := by
  have wf := settleable.wellFormed
  obtain ⟨j, hj, id, path, initial, proposed⟩ := snapshot.data
  obtain ⟨moved, unmoved⟩ := settleable.recognisable j hj (unsettled j hj id)
  obtain ⟨commands, old, new⟩ := wf.consistent.commands j hj
  rw [id, path, initial, proposed] at unmoved
  rw [id, path, proposed] at moved
  refine ⟨fun here => (moved here).2.1, unmoved, ?_, ?_, ?_, ?_⟩
  · rw [← path, ← initial, ← proposed]
    exact fun e he => wf.old_elsewhere hj he
  · rw [← path, ← initial, ← proposed]
    exact fun e he => wf.new_elsewhere hj he
  · rw [← initial, old]
    exact fun none => commands.nonempty (List.map_eq_nil_iff.mp none)
  · rw [← initial, ← proposed, old, new, Commands.initial, Commands.proposed, List.length_map,
      List.length_map]

/-- An uncommitted intent whose new values are all read is not told apart. -/
theorem Told.read_new {w : World graph} {i : GitOperationIntent} (told : Told w i)
    (unmoved : i.id ∉ w.committed) {e : RefName × ObjectId} {left : RefSnapshot}
    (rest : e :: left = i.proposedRefs) (read : atRefs w.disk i.repositoryPath [e] = true) :
    False := by
  have named : e ∈ i.proposedRefs := rest ▸ List.mem_cons_self
  rcases told.unmoved unmoved with initial | ⟨single, proposed⟩
  · exact told.new e named read initial
  · have one : left = [] := by
      have length := told.proposed
      rw [← rest, single, List.length_cons] at length
      exact List.length_eq_zero_iff.mp (by omega)
    rw [← rest, one, read] at proposed
    cases proposed

/-- The arm that recovery takes after its reading. -/
theorem decided_agrees {db : Database} {committed : List Identifier} {i : GitOperationIntent}
    {atInitial atProposed : Bool} {rest : List GitOperationIntent} {next : Recovery}
    (decides : decided i atInitial atProposed rest = .continues next)
    (completes : Unsettled db i.id → (settlement i atInitial atProposed = some .complete ↔
      i.id ∈ committed)) : next.Agrees db committed := by
  unfold decided at decides
  split at decides
  · cases decides
  all_goals
    rename_i arm
    cases decides
    intro unsettled
    have exact' := completes unsettled
    rw [arm] at exact'
  · exact iff_of_false nofun fun moved => nomatch exact'.mpr moved
  · exact iff_of_true rfl (exact'.mp rfl)
  · exact fun moved => nomatch exact'.mpr moved

/-- **A reading of recovery agrees with what was committed.** -/
theorem Looks.agrees {w : World graph} (settleable : Settleable w) {at' next : Recovery}
    (fits : at'.Fits w.disk.db) (agrees : at'.Agrees w.disk.db w.committed)
    (looks : Looks w.disk at' next) : next.Agrees w.disk.db w.committed := by
  cases looks with
  | take opens => exact fun _ _ => rfl
  | @initialSame i e left rest same =>
      intro unsettled moved
      have told := settleable.told fits.1 unsettled
      have all := agrees unsettled moved
      have named : e ∈ i.initialRefs := all ▸ List.mem_cons_self
      exact (told.old e named (reads_eq same) (told.moved moved)).elim
  | initialOther other => exact fun _ => ⟨fun _ => rfl, fun _ => rfl⟩
  | @initialEnd i rest =>
      intro unsettled
      have told := settleable.told fits.1 unsettled
      exact ⟨fun moved => absurd (agrees unsettled moved).symm told.initial, fun _ => rfl⟩
  | @proposedSame i atInitial e left rest same =>
      intro unsettled
      have told := settleable.told fits.1 unsettled
      obtain ⟨moved, unmoved⟩ := agrees unsettled
      exact ⟨moved, fun absent =>
        (told.read_new absent (unmoved absent) (reads_eq same)).elim⟩
  | @proposedOther i atInitial e left rest next other decides =>
      refine decided_agrees decides fun unsettled => ?_
      have told := settleable.told fits.1 unsettled
      have unmoved : i.id ∉ w.committed := by
        intro moved
        have read := atRefs_of_mem (told.moved moved) (fits.2.1 e List.mem_cons_self)
        rw [reads_eq other] at read
        cases read
      refine iff_of_false (fun complete => ?_) unmoved
      unfold settlement at complete
      split at complete <;> simp_all
  | @proposedEnd i atInitial rest next decides =>
      refine decided_agrees decides fun unsettled => ?_
      have told := settleable.told fits.1 unsettled
      obtain ⟨moved, unmoved⟩ := agrees unsettled
      have here : i.id ∈ w.committed := by
        by_contra absent
        have length := told.proposed
        rw [← unmoved absent, List.length_nil] at length
        exact told.initial (List.length_eq_zero_iff.mp length.symm)
      refine iff_of_true ?_ here
      rw [moved here] at decides ⊢
      unfold decided at decides
      cases state : i.state with
      | promoted => simp [settlement, state]
      | pending | completed | abandoned =>
          have stuck : settlement i false true = none := by simp [settlement, state]
          rw [stuck] at decides
          cases decides

/-! ## Steps that leave the store -/

/-- A step that changes a lane, and neither the store, the references nor what was committed. -/
theorem Settleable.lanes {w w' : World graph} (settleable : Settleable w) (wf : WellFormed w')
    (db : w'.disk.db = w.disk.db) (refs : RefsKept w.disk w'.disk)
    (committed : w'.committed = w.committed)
    (recovery : ∀ at', w'.push = .recovering at' → at'.Agrees w.disk.db w.committed)
    (refused : ∀ m, w'.merge = .completing m false →
      ∀ i ∈ w.disk.db.gitOperationIntents, i.id = m.id → i.incomplete = false)
    (plain : ∀ push, w'.push.begun = some push →
      ∀ pm ∈ w.disk.db.pullRequestMergeIntents, pm.intentId ≠ push.id) : Settleable w' := by
  refine ⟨wf, ?_, ?_, ?_, ?_, ?_, ?_⟩
  · rw [db, committed]
    intro i hi incomplete
    exact refs.recognisable (by rw [db]) (settleable.recognisable i hi incomplete)
  · rw [db, committed]
    exact settleable.completed
  · rw [db, committed]
    exact settleable.abandoned
  · rw [db, committed]
    exact recovery
  · rw [db]
    exact refused
  · rw [db]
    exact plain

theorem RefsKept.refl (disk : Disk) : RefsKept disk disk := fun _ => rfl

theorem refsKept_of_sameRefs {disk disk' : Disk} (same : Disk.SameRefs disk disk') :
    RefsKept disk disk' := same.refs

/-- The merge lane goes on while the push lane stays. -/
theorem Settleable.mergeLane {w w' : World graph} (settleable : Settleable w) (wf : WellFormed w')
    (disk : w'.disk = w.disk) (committed : w'.committed = w.committed) (push : w'.push = w.push)
    (refused : ∀ m, w'.merge = .completing m false →
      ∀ i ∈ w.disk.db.gitOperationIntents, i.id = m.id → i.incomplete = false) :
    Settleable w' := by
  refine settleable.lanes wf (by rw [disk]) ?_ committed ?_ refused ?_
  · rw [disk]
    exact RefsKept.refl _
  · rw [push]
    exact settleable.recovery
  · rw [push]
    exact settleable.plain

/-- The push lane goes on while the merge lane stays. -/
theorem Settleable.pushLane {w w' : World graph} (settleable : Settleable w) (wf : WellFormed w')
    (db : w'.disk.db = w.disk.db) (refs : RefsKept w.disk w'.disk)
    (committed : w'.committed = w.committed) (merge : w'.merge = w.merge)
    (recovery : ∀ at', w'.push = .recovering at' → at'.Agrees w.disk.db w.committed)
    (begun : ∀ push, w'.push.begun = some push → w.push.begun = some push) : Settleable w' := by
  refine settleable.lanes wf db refs committed recovery ?_ fun push here =>
    settleable.plain push (begun push here)
  rw [merge]
  exact settleable.refused

/-- A merge whose compare-and-set failed finds its target in place only when its intent was
settled. -/
theorem Settleable.refusedAtTarget {w : World graph} (settleable : Settleable w) {m : Merge graph}
    {git : GitRepository} (stage : w.merge = .refused m) (opened : w.disk.git m.path = some git)
    (same : git.refs m.request.baseRef = some m.request.newTarget)
    (object : m.request.newTarget.isNull = false) {i : GitOperationIntent} (member : i ∈ w.disk.db.gitOperationIntents) (own : i.id = m.id) :
    i.incomplete = false := by
  have fits := settleable.wellFormed.merge
  rw [stage] at fits
  obtain ⟨⟨state, row⟩, unmoved⟩ := fits
  obtain rfl : i = m.row state := eq_of_id member row own
  by_contra open'
  have incomplete : (m.row state).incomplete = true := by simpa using open'
  have untold := (settleable.recognisable _ member incomplete).2 unmoved
  have proposed : atRefs w.disk m.path m.commands.proposed = true := by
    rw [atRefs_of_some opened, GitRepository.refsMatch_proposed]
    intro c hc
    obtain rfl := List.mem_singleton.mp hc
    exact same.trans (if_neg (by rw [object]; nofun)).symm
  rcases untold with initial | ⟨-, other⟩
  · have apart := settleable.wellFormed.not_initial member proposed
    rw [initial] at apart
    cases apart
  · have here : atRefs w.disk m.path m.commands.proposed = false := other
    rw [proposed] at here
    cases here

/-! ## Transactions on an intent -/

/-- What the invariant asks of the row of an intent. -/
structure RowFits (w : World graph) (i : GitOperationIntent) : Prop where
  recognisable : i.incomplete = true → Recognisable w.disk w.committed i
  completed : i.state = .completed → i.id ∈ w.committed
  abandoned : i.state = .abandoned → i.id ∉ w.committed

/-- A transaction on the intent `id`, by one of the lanes. -/
theorem Settleable.touch {w w' : World graph} {id : Identifier} (settleable : Settleable w)
    (wf : WellFormed w') (touches : Touches w.disk.db w'.disk.db id)
    (git : w'.disk.git = w.disk.git) (committed : w'.committed = w.committed)
    (own : ∀ i ∈ w'.disk.db.gitOperationIntents, i.id = id → RowFits w' i)
    (recovery : ∀ at', w'.push = .recovering at' →
      w.push = .recovering at' ∨ ∃ rest, at' = .listed rest)
    (refused : ∀ m, w'.merge = .completing m false → w.merge = .completing m false)
    (plain : ∀ push, w'.push.begun = some push →
      ∀ pm ∈ w'.disk.db.pullRequestMergeIntents, pm.intentId ≠ push.id) : Settleable w' := by
  have refs : RefsKept w.disk w'.disk := fun path => by rw [git]
  have rows : ∀ i ∈ w'.disk.db.gitOperationIntents, RowFits w' i := by
    intro i hi
    by_cases here : i.id = id
    · exact own i hi here
    · have before := (touches.others i here).mp hi
      refine ⟨fun incomplete => ?_, ?_, ?_⟩
      · rw [committed]
        exact refs.recognisable (touches.mergeable i here)
          (settleable.recognisable i before incomplete)
      · rw [committed]
        exact settleable.completed i before
      · rw [committed]
        exact settleable.abandoned i before
  refine ⟨wf, fun i hi => (rows i hi).recognisable, fun i hi => (rows i hi).completed,
    fun i hi => (rows i hi).abandoned, ?_, ?_, plain⟩
  · intro at' stage
    rw [committed]
    rcases recovery at' stage with before | ⟨rest, rfl⟩
    · exact touches.agrees (settleable.recovery at' before)
    · trivial
  · intro m stage i hi same
    have before := refused m stage
    have fits := settleable.wellFormed.merge
    rw [before] at fits
    obtain ⟨⟨state, row⟩, -⟩ := fits
    have settled := settleable.refused m before _ row rfl
    obtain ⟨k, hk, id', back⟩ := touches.forward _ row
    obtain rfl : i = k := eq_of_id hi hk (same.trans id'.symm)
    by_contra open'
    rw [back (by simpa using open')] at settled
    cases settled

theorem incomplete_of_settled {i : GitOperationIntent} {state : IntentState}
    (settled : state = .completed ∨ state = .abandoned) :
    ¬({ i with state } : GitOperationIntent).incomplete = true := by
  rcases settled with rfl | rfl
  · intro incomplete
    rcases incomplete_iff.mp incomplete with pending | promoted
    · cases pending
    · cases promoted
  · intro incomplete
    rcases incomplete_iff.mp incomplete with pending | promoted
    · cases pending
    · cases promoted

/-- The row of a settled intent. -/
theorem rowFits_settled {w w' : World graph} {i : GitOperationIntent} {state : IntentState}
    (settled : Settled w.disk.db w'.disk.db i state)
    (right : (state = .completed ∧ i.id ∈ w'.committed) ∨
      (state = .abandoned ∧ i.id ∉ w'.committed)) :
    ∀ j ∈ w'.disk.db.gitOperationIntents, j.id = i.id → RowFits w' j := by
  intro j hj own
  rcases (settled.rows j).mp hj with ⟨-, other⟩ | rfl
  · exact absurd own other
  · have done := @incomplete_of_settled i state (right.imp And.left And.left)
    rcases right with ⟨rfl, moved⟩ | ⟨rfl, unmoved⟩
    · exact ⟨fun incomplete => absurd incomplete done, fun _ => moved, nofun⟩
    · exact ⟨fun incomplete => absurd incomplete done, nofun, fun _ => unmoved⟩

/-- The intent of a transaction that completes it. -/
theorem completed_touches {db db' : Database} {id : Identifier}
    (ok : db.completeGitIntent id = .ok db') :
    ∃ i ∈ db.gitOperationIntents, i.id = id ∧ i.state = .promoted ∧ Settled db db' i .completed ∧
      Touches db db' id ∧ db'.pullRequestMergeIntents = db.pullRequestMergeIntents := by
  obtain ⟨i, hi, rfl, promoted, -, settled, -, -, -, merges⟩ := complete_settled ok
  exact ⟨i, hi, rfl, promoted, settled,
    touches_settled hi (incomplete_iff.mpr (Or.inr promoted)) settled (fun m hm => merges ▸ hm),
    merges⟩

theorem abandoned_touches {db db' : Database} {id : Identifier}
    (ok : db.abandonGitIntent id = .ok db') :
    ∃ i ∈ db.gitOperationIntents, i.id = id ∧ i.incomplete = true ∧ Settled db db' i .abandoned ∧
      Touches db db' id ∧
      ∀ m ∈ db'.pullRequestMergeIntents, m ∈ db.pullRequestMergeIntents := by
  obtain ⟨i, hi, rfl, incomplete, settled, -, -, -, merges⟩ := abandon_settled ok
  have fewer : ∀ m ∈ db'.pullRequestMergeIntents, m ∈ db.pullRequestMergeIntents :=
    fun m hm => ((merges m).mp hm).1
  exact ⟨i, hi, rfl, incomplete, settled, touches_settled hi incomplete settled fewer, fewer⟩

theorem unsettled_of_mem {db : Database} {i : GitOperationIntent}
    (member : i ∈ db.gitOperationIntents) (incomplete : i.incomplete = true) :
    Unsettled db i.id := by
  intro j hj same
  rw [eq_of_id hj member same]
  exact incomplete

section Push

variable {w : World graph} {push : Push} {db : Database}

theorem settleable_beginPush (settleable : Settleable w) (stage : w.push = .validated push)
    (ok : w.disk.db.beginGitIntent push.intent = .ok db)
    (untold : Untold w.disk push.path push.commands.initial push.commands.proposed) :
    Settleable { w with disk := { w.disk with db }, push := .indexing push } := by
  have wf := wellFormed_beginPush settleable.wellFormed stage ok
  have touches := touches_begin ok
  obtain ⟨intents, rfl, rows, fresh⟩ := beginGitIntent_rows ok
  refine settleable.touch wf touches rfl rfl ?_ nofun (fun _ stage => stage) ?_
  · intro i hi own
    rcases (rows i).mp hi with before | rfl
    · exact absurd own (fresh i before)
    · exact ⟨fun _ => ⟨fun moved => absurd moved wf.push.2, fun _ => untold⟩, nofun, nofun⟩
  · rintro push' ⟨⟩ pm hm same
    obtain ⟨i, hi, own, -⟩ := settleable.wellFormed.consistent.merges pm hm
    exact fresh i hi (own.trans same)

theorem settleable_markPush (settleable : Settleable w) {packName : Option PackName}
    (stage : w.push = .marking push packName)
    (ok : w.disk.db.markGitObjectsPromoted push.id packName = .ok db) :
    Settleable { w with disk := { w.disk with db }, push := .committing push } := by
  have wf := wellFormed_markPush settleable.wellFormed stage ok
  have touches := touches_mark ok
  have plain := settleable.plain push (by rw [stage]; rfl)
  have fits := settleable.wellFormed.push
  rw [stage] at fits
  obtain ⟨member, unmoved⟩ := fits
  have untold := (settleable.recognisable _ member rfl).2 unmoved
  obtain ⟨i, hi, same, -, intents, rfl, rows⟩ := markGitObjectsPromoted_rows ok
  obtain rfl := eq_of_id hi member same
  refine settleable.touch wf touches rfl rfl ?_ nofun (fun _ stage => stage) ?_
  · intro j hj own
    rcases (rows j).mp hj with ⟨-, other⟩ | rfl
    · exact absurd own other
    · exact ⟨fun _ => ⟨fun moved => absurd moved unmoved, fun _ => untold⟩, nofun, nofun⟩
  · rintro push' ⟨⟩
    exact plain

theorem settleable_completePush (settleable : Settleable w) (stage : w.push = .completing push)
    (ok : w.disk.db.completeGitIntent push.id = .ok db) :
    Settleable { w with disk := { w.disk with db }, push := .idle } := by
  have wf := wellFormed_completePush settleable.wellFormed stage ok
  have fits := settleable.wellFormed.push
  rw [stage] at fits
  obtain ⟨i, hi, own, -, settled, touches, -⟩ := completed_touches ok
  refine settleable.touch wf touches rfl rfl ?_ nofun (fun _ stage => stage) nofun
  rw [← own]
  exact rowFits_settled settled (Or.inl ⟨rfl, own ▸ fits.2⟩)

/-- Recovery settles an intent as it was committed. -/
theorem settleable_settle (settleable : Settleable w) {i : GitOperationIntent} {completes : Bool}
    {rest : List GitOperationIntent} {stage' : PushStage} {mode : Mode}
    (stage : w.push = .recovering (.settling i completes rest))
    (ok : (if completes then w.disk.db.completeGitIntent i.id
      else w.disk.db.abandonGitIntent i.id) = .ok db)
    (next : stage' = .recovering (.listed rest) ∨ stage' = .idle) :
    Settleable { w with disk := { w.disk with db }, push := stage', mode } := by
  have wf : WellFormed { w with disk := { w.disk with db }, push := stage', mode } :=
    wellFormed_settle settleable.wellFormed stage ok next
  have agrees := settleable.recovery _ stage
  have lane : ∀ at', stage' = .recovering at' →
      w.push = .recovering at' ∨ ∃ rest, at' = .listed rest := by
    rintro at' rfl
    rcases next with same | same
    · cases same
      exact Or.inr ⟨rest, rfl⟩
    · cases same
  have begun : ∀ push, stage'.begun ≠ some push := by
    rintro push
    rcases next with rfl | rfl
    · exact nofun
    · exact nofun
  cases completes with
  | true =>
      obtain ⟨j, hj, own, promoted, settled, touches, -⟩ := completed_touches ok
      have unsettled : Unsettled w.disk.db i.id :=
        own ▸ unsettled_of_mem hj (incomplete_iff.mpr (Or.inr promoted))
      refine settleable.touch wf touches rfl rfl ?_ lane (fun _ stage => stage)
        fun push here => absurd here (begun push)
      rw [← own]
      exact rowFits_settled settled (Or.inl ⟨rfl, own ▸ (agrees unsettled).mp rfl⟩)
  | false =>
      obtain ⟨j, hj, own, incomplete, settled, touches, -⟩ := abandoned_touches ok
      have unsettled : Unsettled w.disk.db i.id := own ▸ unsettled_of_mem hj incomplete
      have unmoved : j.id ∉ w.committed := fun moved =>
        nomatch (agrees unsettled).mpr (own ▸ moved)
      refine settleable.touch wf touches rfl rfl ?_ lane (fun _ stage => stage)
        fun push here => absurd here (begun push)
      rw [← own]
      exact rowFits_settled settled (Or.inr ⟨rfl, unmoved⟩)

end Push

section Merge

variable {w : World graph} {m : Merge graph} {db : Database}

theorem settleable_beginMerge (settleable : Settleable w) {stage' : MergeStage graph}
    (stage : w.merge = .read m) (ok : w.disk.db.beginPullRequestMerge m.request m.intent = .ok db)
    (next : stage' = .writing m ∨ stage' = .marking m)
    (untold : Untold w.disk m.path m.commands.initial m.commands.proposed) :
    Settleable { w with disk := { w.disk with db }, merge := stage' } := by
  have wf : WellFormed { w with disk := { w.disk with db }, merge := stage' } :=
    wellFormed_beginMerge settleable.wellFormed stage ok next
  have touches := touches_beginMerge settleable.wellFormed.agrees ok
  obtain ⟨repositoryId, p, r, intents, merges, -, -, -, -, -, inserted, added, rfl⟩ :=
    beginPullRequestMerge_eq_ok ok
  have fresh : ∀ j ∈ w.disk.db.gitOperationIntents, j.id ≠ m.id := fun j hj same =>
    Table.insert_fresh inserted j hj (Schema.clash_of_key _ _ same)
  have unmoved : m.id ∉ w.committed := by
    intro moved
    obtain ⟨i, hi, same⟩ := settleable.wellFormed.stored _ moved
    exact fresh i hi same
  refine settleable.touch wf touches rfl rfl ?_ (fun _ stage => Or.inl stage) ?_ ?_
  · intro i hi own
    rcases (Table.mem_insert inserted).mp hi with before | rfl
    · exact absurd own (fresh i before)
    · exact ⟨fun _ => ⟨fun moved => absurd moved unmoved, fun _ => untold⟩, nofun, nofun⟩
  · rcases next with rfl | rfl
    · exact nofun
    · exact nofun
  · intro push begun pm hm
    rcases (Table.mem_insert added).mp hm with before | rfl
    · exact settleable.plain push begun pm before
    · intro same
      obtain ⟨state, packName, member⟩ := settleable.wellFormed.push.row begun
      exact fresh _ member same.symm

theorem settleable_markMerge (settleable : Settleable w) (stage : w.merge = .marking m)
    (ok : w.disk.db.markGitObjectsPromoted m.id none = .ok db) :
    Settleable { w with disk := { w.disk with db }, merge := .committing m } := by
  have wf := wellFormed_markMerge settleable.wellFormed stage ok
  have touches := touches_mark ok
  have fits := settleable.wellFormed.merge
  rw [stage] at fits
  obtain ⟨⟨state, member⟩, unmoved⟩ := fits
  obtain ⟨i, hi, same, pending, intents, rfl, rows⟩ := markGitObjectsPromoted_rows ok
  obtain rfl := eq_of_id hi member same
  have untold :=
    (settleable.recognisable _ member (incomplete_iff.mpr (Or.inl pending))).2 unmoved
  refine settleable.touch wf touches rfl rfl ?_ (fun _ stage => Or.inl stage) nofun
    settleable.plain
  intro j hj own
  rcases (rows j).mp hj with ⟨-, other⟩ | rfl
  · exact absurd own other
  · exact ⟨fun _ => ⟨fun moved => absurd moved unmoved, fun _ => untold⟩, nofun, nofun⟩

theorem settleable_completeMerge (settleable : Settleable w) {moved : Bool}
    (stage : w.merge = .completing m moved) (ok : w.disk.db.completeGitIntent m.id = .ok db) :
    Settleable (returns { w with disk := { w.disk with db } } m moved) := by
  have wf : WellFormed (returns { w with disk := { w.disk with db } } m moved) :=
    wellFormed_return settleable.wellFormed (by rw [stage]; rfl)
      (settles_complete settleable.wellFormed.consistent ok) moved
  have fits := settleable.wellFormed.merge
  rw [stage] at fits
  obtain ⟨i, hi, own, promoted, settled, touches, merges⟩ := completed_touches ok
  have here : i.id ∈ w.committed := by
    cases moved with
    | true => exact own ▸ fits.2
    | false =>
        have done := settleable.refused m stage i hi own
        rw [incomplete_iff.mpr (Or.inr promoted)] at done
        cases done
  refine settleable.touch wf touches rfl rfl ?_ (fun _ stage => Or.inl stage) nofun ?_
  · rw [← own]
    exact rowFits_settled settled (Or.inl ⟨rfl, here⟩)
  · intro push begun pm hm
    have before : pm ∈ w.disk.db.pullRequestMergeIntents := merges ▸ hm
    exact settleable.plain push begun pm before

theorem settleable_abandonMerge (settleable : Settleable w) (stage : w.merge = .abandoning m)
    (ok : w.disk.db.abandonGitIntent m.id = .ok db) :
    Settleable (returns { w with disk := { w.disk with db } } m false) := by
  have wf : WellFormed (returns { w with disk := { w.disk with db } } m false) :=
    wellFormed_return settleable.wellFormed (by rw [stage]; rfl)
      (settles_abandon settleable.wellFormed.consistent ok) false
  have fits := settleable.wellFormed.merge
  rw [stage] at fits
  obtain ⟨i, hi, own, -, settled, touches, fewer⟩ := abandoned_touches ok
  refine settleable.touch wf touches rfl rfl ?_ (fun _ stage => Or.inl stage) nofun
    fun push begun pm hm => settleable.plain push begun pm (fewer pm hm)
  rw [← own]
  exact rowFits_settled settled (Or.inr ⟨rfl, own ▸ fits.2⟩)

end Merge

/-! ## Moves of references -/

theorem Recognisable.congr {disk disk' : Disk} {committed committed' : List Identifier}
    {i : GitOperationIntent} (recognisable : Recognisable disk committed i)
    (initial : atRefs disk' i.repositoryPath i.initialRefs =
      atRefs disk i.repositoryPath i.initialRefs)
    (proposed : atRefs disk' i.repositoryPath i.proposedRefs =
      atRefs disk i.repositoryPath i.proposedRefs)
    (db : disk'.db = disk.db) (same : i.id ∈ committed' ↔ i.id ∈ committed) :
    Recognisable disk' committed' i := by
  unfold Recognisable Untold at *
  rw [initial, proposed, db, same]
  exact recognisable

/-- The commands do not name a reference of the snapshot. -/
theorem refsMatch_applied {git : GitRepository} {commands : Commands} {snapshot : RefSnapshot}
    (untouched : ∀ c ∈ commands.list, ∀ e ∈ snapshot, c.name ≠ e.1) :
    (git.applied commands).refsMatch snapshot = git.refsMatch snapshot := by
  rw [Bool.eq_iff_iff, GitRepository.refsMatch_iff, GitRepository.refsMatch_iff]
  refine forall₂_congr fun e he => ?_
  rw [GitRepository.applied_of_not_mem git fun c hc => untouched c hc e he]

/-- **Commands that leave the other intents leave them recognisable.** -/
theorem Recognisable.moved {w : World graph} (wf : WellFormed w) {path : RepositoryPath}
    {git : GitRepository} (opened : w.disk.git path = some git) {id : Identifier}
    {commands : Commands} (leaves : Leaves w path id commands) {j : GitOperationIntent}
    (member : j ∈ w.disk.db.gitOperationIntents) (other : j.id ≠ id)
    (incomplete : j.incomplete = true) (recognisable : Recognisable w.disk w.committed j) :
    Recognisable (w.disk.setGit path (git.applied commands)) (id :: w.committed) j := by
  have same : j.id ∈ id :: w.committed ↔ j.id ∈ w.committed := by
    rw [List.mem_cons, or_iff_right other]
  by_cases here : j.repositoryPath = path
  · obtain ⟨theirs, initial, proposed⟩ := wf.consistent.commands j member
    have after : ∀ snapshot, atRefs (w.disk.setGit path (git.applied commands)) j.repositoryPath
        snapshot = (git.applied commands).refsMatch snapshot := fun snapshot =>
      atRefs_of_some (by rw [here, Disk.setGit_same]) snapshot
    by_cases touched : ∃ c ∈ commands.list, c.name ∈ names j
    · obtain ⟨c, hc, named⟩ := touched
      obtain ⟨unmoved, single, apart⟩ := leaves j member other incomplete here c hc named
      refine ⟨fun moved => absurd (same.mp moved) unmoved, fun _ => Or.inr ⟨single, ?_⟩⟩
      obtain ⟨e, he, name⟩ := List.mem_map.mp named
      rw [initial] at he
      obtain ⟨d, hd, rfl⟩ := List.mem_map.mp he
      have name : d.name = c.name := name
      rw [after, proposed, Bool.eq_false_iff]
      intro atNew
      have moved := git.applied_of_mem hc
      rw [← name, GitRepository.refsMatch_proposed.mp atNew d hd] at moved
      have value := GitRepository.target_injective moved
      refine apart ?_
      rw [proposed, ← name, ← value]
      exact List.mem_map_of_mem hd
    · have untouched : ∀ c ∈ commands.list, ∀ d ∈ theirs.list, c.name ≠ d.name := by
        intro c hc d hd clash
        refine touched ⟨c, hc, ?_⟩
        rw [names, initial, clash]
        exact List.mem_map_of_mem (List.mem_map_of_mem hd)
      refine recognisable.congr ?_ ?_ rfl same
      · rw [after, here, atRefs_of_some opened, initial]
        exact refsMatch_applied fun c hc => List.forall_mem_map.mpr (untouched c hc)
      · rw [after, here, atRefs_of_some opened, proposed]
        exact refsMatch_applied fun c hc => List.forall_mem_map.mpr (untouched c hc)
  · have elsewhere : ∀ snapshot, atRefs (w.disk.setGit path (git.applied commands))
        j.repositoryPath snapshot = atRefs w.disk j.repositoryPath snapshot := by
      intro snapshot
      unfold atRefs
      rw [Disk.setGit_other _ here]
    exact recognisable.congr (elsewhere _) (elsewhere _) rfl same

theorem atRefs_applied (disk : Disk) (path : RepositoryPath) (git : GitRepository)
    (commands : Commands) :
    atRefs (disk.setGit path (git.applied commands)) path commands.proposed = true := by
  rw [atRefs_of_some (Disk.setGit_same disk path _)]
  exact git.applied_proposed commands

theorem settleable_movePush {w : World graph} {push : Push} {git : GitRepository}
    (settleable : Settleable w) (stage : w.push = .committing push)
    (opened : w.disk.git push.path = some git)
    (leaves : Leaves w push.path push.id push.commands) :
    Settleable { w with
      disk := w.disk.setGit push.path (git.applied push.commands)
      push := .completing push, committed := push.id :: w.committed } := by
  have wf := wellFormed_movePush settleable.wellFormed stage (git.applied push.commands)
  have plain := settleable.plain push (by rw [stage]; rfl)
  have fits := settleable.wellFormed.push
  rw [stage] at fits
  obtain ⟨⟨packName, member⟩, -⟩ := fits
  refine ⟨wf, fun i hi incomplete => ?_, fun i hi completed => ?_, fun i hi abandoned => ?_, nofun,
    settleable.refused, ?_⟩
  · by_cases own : i.id = push.id
    · obtain rfl : i = push.row .promoted packName := eq_of_id hi member own
      exact ⟨fun _ => ⟨rfl, atRefs_applied w.disk push.path git push.commands,
        mergeable_of_none plain⟩, fun absent => absurd List.mem_cons_self absent⟩
    · exact (settleable.recognisable i hi incomplete).moved settleable.wellFormed opened leaves hi
        own incomplete
  · exact List.mem_cons_of_mem _ (settleable.completed i hi completed)
  · intro moved
    rcases List.mem_cons.mp moved with own | before
    · obtain rfl : i = push.row .promoted packName := eq_of_id hi member own
      cases abandoned
    · exact settleable.abandoned i hi abandoned before
  · rintro push' ⟨⟩
    exact plain

/-- A merge that may move can be recorded. -/
theorem Recordable.mergeable {w : World graph} (wf : WellFormed w) {m : Merge graph}
    (recordable : Recordable w m) (state : IntentState) : Mergeable w.disk.db (m.row state) := by
  intro pm p r found
  obtain ⟨⟨hm, own⟩, ⟨hp, ofMerge⟩, hr, latest⟩ := mergeOf_eq_some.mp found
  obtain ⟨isOpen, created⟩ := recordable pm hm own p hp ofMerge
  obtain ⟨q, hq, id, s, hs, rid, baseRef, base, head, rbase, number⟩ := wf.pinned pm hm
  obtain rfl : p = q := Table.eq_of_key hp hq (ofMerge.trans id.symm)
  obtain rfl : r = s := Table.eq_of_key hr hs (latest.trans rid.symm)
  exact ⟨decide_eq_true ⟨isOpen, baseRef, base, head, rbase, number⟩, created⟩

/-- What a recovery has read stays in agreement when the merge moves its reference. -/
theorem Recovery.Agrees.moved {w : World graph} {id : Identifier} {at' : Recovery}
    (stage : w.push = .recovering at') (unread : Unread w id)
    (agrees : at'.Agrees w.disk.db w.committed) : at'.Agrees w.disk.db (id :: w.committed) := by
  unfold Unread at unread
  rw [stage] at unread
  cases at' with
  | listed rest => trivial
  | initial i left rest =>
      intro unsettled moved
      rcases List.mem_cons.mp moved with own | before
      · exact unread own
      · exact agrees unsettled before
  | proposed i atInitial left rest =>
      intro unsettled
      rw [List.mem_cons, or_iff_right unread]
      exact agrees unsettled
  | removing i rest =>
      intro unsettled
      rw [List.mem_cons, or_iff_right unread]
      exact agrees unsettled
  | settling i completes rest =>
      intro unsettled
      rw [List.mem_cons, or_iff_right unread]
      exact agrees unsettled

theorem settleable_moveMerge {w : World graph} {m : Merge graph} {git : GitRepository}
    (settleable : Settleable w) (stage : w.merge = .committing m)
    (opened : w.disk.git m.path = some git) (mayMove : MayMove w m) :
    Settleable { w with
      disk := w.disk.setGit m.path (git.applied m.commands)
      merge := .completing m true, committed := m.id :: w.committed } := by
  have wf := wellFormed_moveMerge settleable.wellFormed stage (git.applied m.commands)
  obtain ⟨⟨row, hrow, own, promoted⟩, unread, recordable, leaves⟩ := mayMove
  have fits := settleable.wellFormed.merge
  rw [stage] at fits
  obtain ⟨⟨state, member⟩, -⟩ := fits
  obtain rfl : row = m.row state := eq_of_id hrow member own
  obtain rfl : state = .promoted := promoted
  refine ⟨wf, fun i hi incomplete => ?_, fun i hi completed => ?_, fun i hi abandoned => ?_, ?_,
    nofun, settleable.plain⟩
  · by_cases own : i.id = m.id
    · obtain rfl : i = m.row .promoted := eq_of_id hi member own
      exact ⟨fun _ => ⟨rfl, atRefs_applied w.disk m.path git m.commands,
        recordable.mergeable settleable.wellFormed .promoted⟩,
        fun absent => absurd List.mem_cons_self absent⟩
    · exact (settleable.recognisable i hi incomplete).moved settleable.wellFormed opened leaves hi
        own incomplete
  · exact List.mem_cons_of_mem _ (settleable.completed i hi completed)
  · intro moved
    rcases List.mem_cons.mp moved with own | before
    · obtain rfl : i = m.row .promoted := eq_of_id hi member own
      cases abandoned
    · exact settleable.abandoned i hi abandoned before
  · intro at' lane
    have before : w.push = .recovering at' := lane
    exact (settleable.recovery at' before).moved before unread

/-! ## Changes of state -/

/-- A request that spares the moved merges leaves them recordable. -/
theorem mergeable_setState {w : World graph} {request : PullRequests.SetState} {db : Database}
    (ok : w.disk.db.setPullRequestState request.owner request.repository request.number
      request.actor request.state request.changedAt = .ok db)
    (spares : SparesMoved w request) {i : GitOperationIntent}
    (member : i ∈ w.disk.db.gitOperationIntents) (incomplete : i.incomplete = true)
    (moved : i.id ∈ w.committed) (mergeable : Mergeable w.disk.db i) : Mergeable db i := by
  obtain ⟨current, hc, pullRequests, events, changes, updated, rfl⟩ :=
    setPullRequestState_eq_ok ok
  intro pm p r found
  obtain ⟨⟨hm, own⟩, ⟨hp, ofMerge⟩, hr, latest⟩ := mergeOf_eq_some.mp found
  have before : pm ∈ w.disk.db.pullRequestMergeIntents := hm
  have spared := spares pm before (own ▸ moved) (own ▸ unsettled_of_mem member incomplete)
  obtain ⟨q, hq, row⟩ := (Table.mem_update updated).mp hp
  by_cases chosen : q.id = current.id
  · rw [if_pos (decide_eq_true chosen)] at row
    obtain rfl : q = current := Table.eq_of_key hq hc chosen
    have same : q.id = pm.pullRequestId := by rw [← ofMerge, row]
    exact absurd changes (spared q hq same)
  · rw [if_neg (by simpa using chosen)] at row
    subst row
    exact mergeable pm p r (mergeOf_eq_some.mpr ⟨⟨before, own⟩, ⟨hq, ofMerge⟩, hr, latest⟩)

theorem settleable_setState {w : World graph} {request : PullRequests.SetState} {db : Database}
    (settleable : Settleable w)
    (ok : w.disk.db.setPullRequestState request.owner request.repository request.number
      request.actor request.state request.changedAt = .ok db)
    (wf : WellFormed { w with disk := { w.disk with db } })
    (spares : SparesMoved w request) : Settleable { w with disk := { w.disk with db } } := by
  have mergeable := fun i => @mergeable_setState graph w request db ok spares i
  obtain ⟨current, -, pullRequests, events, -, -, rfl⟩ := setPullRequestState_eq_ok ok
  refine ⟨wf, fun i hi incomplete => ?_, settleable.completed, settleable.abandoned,
    settleable.recovery, settleable.refused, settleable.plain⟩
  obtain ⟨moved, unmoved⟩ := settleable.recognisable i hi incomplete
  refine ⟨fun here => ?_, unmoved⟩
  obtain ⟨promoted, proposed, before⟩ := moved here
  exact ⟨promoted, proposed, mergeable i hi incomplete here before⟩

/-! ## Every allowed step -/

/-- **Every allowed step keeps the invariant**, with whatever failure. -/
theorem step_settleable {w w' : World graph} {a : Action graph} (settleable : Settleable w)
    (allowed : Allowed w a) (transition : Transition w a w') : Settleable w' := by
  have wf := step_wellFormed settleable.wellFormed transition
  have same : RefsKept w.disk w.disk := RefsKept.refl _
  cases transition with
  | startPush up idle initial => exact settleable.pushLane wf rfl same rfl rfl (by rintro _ ⟨⟩) (by rintro _ ⟨⟩)
  | beginPush stage ok =>
      simp only [Allowed, stage] at allowed
      exact settleable_beginPush settleable stage ok allowed
  | @place push git stage opened valid =>
      refine settleable.pushLane wf (w.disk.place_db _ _)
        (refsKept_of_sameRefs (w.disk.place_sameRefs _ _)) rfl rfl (by rintro _ ⟨⟩) ?_
      rintro push' ⟨⟩
      rw [stage]
      rfl
  | placeFails stage =>
      exact settleable.pushLane wf (w.disk.place_db _ _)
        (refsKept_of_sameRefs (w.disk.place_sameRefs _ _)) rfl rfl (by rintro _ ⟨⟩) (by rintro _ ⟨⟩)
  | markPush stage ok => exact settleable_markPush settleable stage ok
  | movePush stage opened initial =>
      simp only [Allowed, stage] at allowed
      refine settleable_movePush settleable stage opened (allowed ?_)
      rw [atRefs_of_some opened]
      exact initial
  | completePush stage ok => exact settleable_completePush settleable stage ok
  | stopPush stops after =>
      rcases stops with rfl | rfl
      · exact settleable.pushLane wf rfl same rfl rfl (by rintro _ ⟨⟩) (by rintro _ ⟨⟩)
      · exact settleable.pushLane wf rfl same rfl rfl (by rintro _ ⟨⟩) (by rintro _ ⟨⟩)
  | list stage =>
      refine settleable.pushLane wf rfl same rfl rfl ?_ (by rintro _ ⟨⟩)
      rintro at' ⟨⟩
      trivial
  | look stage looks =>
      have fits := settleable.wellFormed.push
      rw [stage] at fits
      refine settleable.pushLane wf rfl same rfl rfl ?_ (by rintro _ ⟨⟩)
      rintro at' ⟨⟩
      exact looks.agrees settleable fits (settleable.recovery _ stage)
  | @remove i rest stage =>
      have agrees := settleable.recovery _ stage
      refine settleable.pushLane wf rfl (refsKept_of_sameRefs (w.disk.removePack_sameRefs _ _)) rfl
        rfl ?_ (by rintro _ ⟨⟩)
      rintro at' ⟨⟩
      exact fun unsettled => iff_of_false nofun (agrees unsettled)
  | settle stage ok next after =>
      exact settleable_settle settleable stage ok (next.imp_right And.left)
  | startMerge up idle read => exact settleable.mergeLane wf rfl rfl rfl (by rintro _ ⟨⟩)
  | beginMerge stage ok next =>
      simp only [Allowed, stage] at allowed
      exact settleable_beginMerge settleable stage ok (next.imp And.right And.right) allowed
  | @write m stage =>
      exact settleable.lanes wf (writeObjects_db w.disk m) (writeObjects_refsKept w.disk m) rfl
        settleable.recovery (by rintro _ ⟨⟩) settleable.plain
  | markMerge stage ok => exact settleable_markMerge settleable stage ok
  | moveMerge stage opened initial =>
      simp only [Allowed, stage] at allowed
      refine settleable_moveMerge settleable stage opened (allowed ?_)
      rw [atRefs_of_some opened]
      exact initial
  | refuse stage => exact settleable.mergeLane wf rfl rfl rfl (by rintro _ ⟨⟩)
  | @refusedAtTarget m git stage opened atTarget =>
      simp only [Allowed, stage] at allowed
      refine settleable.mergeLane wf rfl rfl rfl ?_
      rintro m' ⟨⟩ i hi own
      exact settleable.refusedAtTarget stage opened atTarget (allowed git opened atTarget) hi own
  | giveUp stage => exact settleable.mergeLane wf rfl rfl rfl (by rintro _ ⟨⟩)
  | completeMerge stage ok => exact settleable_completeMerge settleable stage ok
  | abandonMerge stage ok => exact settleable_abandonMerge settleable stage ok
  | storeFails stage => exact settleable.mergeLane wf rfl rfl rfl (by rintro _ ⟨⟩)
  | mergeFails => exact settleable.mergeLane wf rfl rfl rfl (by rintro _ ⟨⟩)
  | setState ok unmerged => exact settleable_setState settleable ok wf allowed
  | unchanged => exact settleable
  | crash => exact settleable.lanes wf rfl same rfl (by rintro _ ⟨⟩) (by rintro _ ⟨⟩) (by rintro _ ⟨⟩)
  | boot down => exact settleable.pushLane wf rfl same rfl rfl (by rintro _ ⟨⟩) (by rintro _ ⟨⟩)

theorem Fresh.settleable (fresh : Fresh graph) : Settleable fresh.toWorld where
  wellFormed := fresh.wellFormed
  recognisable i hi := absurd hi (fresh.noIntent i)
  completed i hi := absurd hi (fresh.noIntent i)
  abandoned i hi := absurd hi (fresh.noIntent i)
  recovery at' stage := by
    rw [fresh.idlePush] at stage
    cases stage
  refused m stage := by
    rw [fresh.idleMerge] at stage
    cases stage
  plain push begun := by
    rw [fresh.idlePush] at begun
    cases begun

/-- **Recovery succeeds from every state of an allowed run**, and completes just the intents that
were committed. -/
theorem recovers_of_allowed (fresh : Fresh graph) (actions : List (Action graph))
    (meets : Meets step Allowed fresh.toWorld actions) :
    Always step Recovers fresh.toWorld actions := by
  refine (always_of_meets ?_ fresh.settleable meets).mono fun w settleable => settleable.recovers
  intro w a w' settleable allowed next
  exact step_settleable settleable allowed (step_transition next)

/-! ## Pole: a push of two references and a merge

While a push of `main` and `side` is begun, `alice` merges her pull request into `main`.  The
transaction of the push is refused, and recovery then finds `main` at neither value. -/

def sideBranch : RefName := asciiBytes "refs/heads/side"

def mainAndSide : GitRepository where
  refs name :=
    if name = mainBranch then some ⟨1⟩ else if name = sideBranch then some ⟨2⟩ else none
  packs := []
  loose := [⟨1⟩, ⟨2⟩, ⟨3⟩]

def sideDatabase : Database :=
  { Database.oneRepository with
    pullRequests := ⟨[
      { id := 7, repositoryId := 1, number := 1, title := "t", body := "", state := .open,
        authorAccountId := 1, baseRef := mainBranch, headRef := sideBranch, baseObjectId := ⟨1⟩,
        headObjectId := ⟨2⟩, createdAt := 0, updatedAt := 0 }], by decide, by decide⟩
    pullRequestRevisions := ⟨[
      { id := 1, pullRequestId := 7, number := 1, authorAccountId := 1, baseObjectId := ⟨1⟩,
        headObjectId := ⟨2⟩, createdAt := 0 }], by decide, by decide⟩ }

def sideServer : Fresh ⟨fun _ => [], fun _ => []⟩ where
  disk := ⟨sideDatabase, fun path => if path = .managed 1 then some mainAndSide else none⟩
  mode := .up
  push := .idle
  merge := .idle
  committed := []
  returned := []
  up := rfl
  idlePush := rfl
  idleMerge := rfl
  noCommit := rfl
  noReturn := rfl
  noIntent := Table.not_mem_empty
  noMerge := Table.not_mem_empty
  noGitEvent := Table.not_mem_empty
  noSource e he := absurd he (Table.not_mem_empty e)
  agrees p hp r hr _ _ := by
    obtain rfl := List.mem_singleton.mp hp
    obtain rfl := List.mem_singleton.mp hr
    exact ⟨rfl, rfl⟩
  closed path git opened name id found o reaches := by
    obtain rfl : o = id := by
      rcases Relation.ReflTransGen.cases_tail reaches with same | ⟨_, -, link⟩
      · exact same
      · cases link
    obtain ⟨-, rfl⟩ : path = .managed 1 ∧ mainAndSide = git := by simpa using opened
    have value : o = ⟨1⟩ ∨ o = ⟨2⟩ := by
      simp only [mainAndSide] at found
      split at found
      · exact Or.inl (Option.some.inj found).symm
      · split at found
        · exact Or.inr (Option.some.inj found).symm
        · cases found
    rcases value with rfl | rfl
    · decide
    · decide

def pushBoth : Push where
  id := 8
  repository := 1
  actor := "alice"
  commands :=
    { list := [⟨⟨1⟩, ⟨3⟩, mainBranch⟩, ⟨⟨2⟩, ⟨3⟩, sideBranch⟩]
      nonempty := nofun
      count := by decide
      changes := by decide
      named := by decide
      distinct := by decide }
  pack := none
  createdAt := 1

def mergeSide : Merge ⟨fun _ => [], fun _ => []⟩ where
  id := 9
  repositoryId := 1
  request :=
    { owner := "alice", repository := "tit", number := 1, revision := 1, actor := "alice"
      method := .fastForward, baseRef := mainBranch, oldTarget := ⟨1⟩, headTarget := ⟨2⟩
      newTarget := ⟨2⟩, createdAt := 1 }
  written := []
  branch := by decide
  moves := by decide
  target := rfl
  linked := nofun

/-- Every step of the two is taken, and none is made to fail. -/
def mixedRun : List (Action ⟨fun _ => [], fun _ => []⟩) :=
  [.startPush pushBoth, .pushNext, .startMerge mergeSide] ++ List.replicate 4 .mergeNext ++
    List.replicate 7 .pushNext

/-- No operation is in flight, and recovery ends at the intent of the push. -/
def stuckOnPush {graph : ObjectGraph} (w : World graph) : Bool :=
  match w.push, w.merge with
  | .idle, .idle => decide (w.disk.recoverIncompletePushes.2 = some (.mixedRecovery 8))
  | _, _ => false

theorem mixedRun_stuck : (run step sideServer.toWorld mixedRun).any stuckOnPush = true := by
  decide

/-- Recovery does not always succeed, even when no step of the run failed by itself. -/
theorem mixed_for_good : ¬∀ (graph : ObjectGraph) (fresh : Fresh graph)
    (actions : List (Action graph)) (w : World graph), run step fresh.toWorld actions = some w →
      w.push = .idle → w.merge = .idle → Recovers w := by
  intro recovers
  obtain ⟨w, ran, stuck⟩ := (Option.any_eq_true _ _).mp mixedRun_stuck
  unfold stuckOnPush at stuck
  split at stuck
  · rename_i push merge
    obtain ⟨disk', succeeds, -⟩ := recovers _ sideServer mixedRun w ran push merge
    have fails := of_decide_eq_true stuck
    rw [succeeds] at fails
    cases fails
  · cases stuck

theorem sideServer_starts : step sideServer.toWorld (.startPush pushBoth) =
    some { sideServer.toWorld with push := .validated pushBoth } := by
  have initial : validatesInitial sideServer.disk pushBoth = true := by decide
  show (if validatesInitial sideServer.disk pushBoth then
    some { sideServer.toWorld with push := .validated pushBoth } else none) = _
  exact if_pos initial

/-- The theorem at a run in which the server stops after the push was begun. -/
theorem recovers_after_crash : Always step Recovers sideServer.toWorld
    [.startPush pushBoth, .pushNext, .crash, .boot] := by
  refine recovers_of_allowed sideServer _ fun w next => ⟨trivial, fun w' _ => ⟨?_, ?_⟩⟩
  · rw [sideServer_starts] at next
    cases next
    exact Or.inl (by decide)
  · exact fun _ _ => ⟨trivial, fun _ _ => ⟨trivial, trivial⟩⟩

end Tit.Operations
