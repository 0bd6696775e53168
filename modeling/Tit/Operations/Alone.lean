/-
# Operations.Alone -- merges beside changes of state, without pushes

Merges run one after another, requests to close and reopen pull requests come at any moment, and the
process may stop and recover.  A run `Finishes` when `complete_git_intent` succeeds and merges the
pull request of every merge that has moved its branch, called by the merge or by a later recovery.

It does when no pull request is closed between the move of its merge and the completion, when none is
closed at the move, and when recovery lists the intents while no merge is under way
(`finishes_of_unclosed`).  A request that closes the pull request just after the move leaves the
intent promoted with `main` at its new value, and recovery fails (`merge_stranded`).
-/
import Tit.Operations.Undisturbed

namespace Tit.Operations

open Tit.Theory Tit.Store Tit.Store.Database Tit.Git

set_option autoImplicit false

variable {graph : ObjectGraph}

/-! ## Merges and changes of state -/

/-- The steps of merges, of requests and of recoveries; `crash` stops the process at any of them. -/
inductive Solo (graph : ObjectGraph) where
  | startMerge (m : Merge graph)
  | mergeNext
  | setState (request : PullRequests.SetState)
  | startRecovery
  | recoverNext
  | crash
  | boot

def Solo.action : Solo graph → Action graph
  | .startMerge m => .startMerge m
  | .mergeNext => .mergeNext
  | .setState request => .setState request
  | .startRecovery => .startRecovery
  | .recoverNext => .pushNext
  | .crash => .crash
  | .boot => .boot

def mergesOnly (w : World graph) (a : Solo graph) : Option (World graph) :=
  step w a.action

/-! ## The promise -/

/-- The pull request of the merge `id` is merged. -/
def Merged (db : Database) (id : Identifier) : Prop :=
  ∃ m p r, db.mergeOf id = some (m, p, r) ∧ p.state = .merged

structure Finishes (w : World graph) : Prop where
  /-- The merge that has moved its branch is completed by itself. -/
  running : ∀ m, w.merge = .completing m true →
    ∃ db, w.disk.db.completeGitIntent m.id = .ok db ∧ Merged db m.id
  /-- The merges that have moved their branch are completed, or can be. -/
  completes : ∀ id ∈ w.committed, Merged w.disk.db id ∨
    ∃ db, w.disk.db.completeGitIntent id = .ok db ∧ Merged db id
  /-- Recovery succeeds and completes them. -/
  recovers : ∃ disk, w.disk.recoverIncompletePushes = (disk, none) ∧
    ∀ id ∈ w.committed, Merged disk.db id

/-! ## The condition -/

/-- The pull request is open when the branch moves, no request closes it before the completion, and
recovery lists the intents while no merge is under way. -/
def Unclosed (w : World graph) : Solo graph → Prop
  | .mergeNext => ∀ m, w.merge = .committing m →
      atRefs w.disk m.path m.commands.initial = true → Recordable w m
  | .setState request => SparesMoved w request
  | .recoverNext => w.push = .failing → w.merge.begun = none
  | _ => True

/-! ## The merges of the store -/

/-- Every intent that is not abandoned is that of a merge, which is merged when it is completed. -/
structure Noted (db : Database) : Prop where
  incomplete : ∀ i ∈ db.gitOperationIntents, i.incomplete = true → ∃ t, db.mergeOf i.id = some t
  completed : ∀ i ∈ db.gitOperationIntents, i.state = .completed → Merged db i.id

namespace Noted

variable {db db' : Database}

/-- Settling an intent leaves the other merges alone. -/
theorem settled {i : GitOperationIntent} {state : IntentState} (noted : Noted db)
    (settled : Settled db db' i state) (ends : state = .completed ∨ state = .abandoned)
    (merged : state = .completed → Merged db' i.id) : Noted db' := by
  have ended := @incomplete_of_settled i state ends
  refine ⟨fun j hj incomplete => ?_, fun j hj completed => ?_⟩
  · rcases (settled.rows j).mp hj with ⟨before, other⟩ | rfl
    · rw [settled.mergeOf j.id other]
      exact noted.incomplete j before incomplete
    · exact absurd incomplete ended
  · rcases (settled.rows j).mp hj with ⟨before, other⟩ | rfl
    · unfold Merged
      rw [settled.mergeOf j.id other]
      exact noted.completed j before completed
    · exact merged completed

/-- **A completion merges the pull request.** -/
theorem merged {id : Identifier} (noted : Noted db) (ok : db.completeGitIntent id = .ok db') :
    Merged db' id := by
  obtain ⟨i, hi, rfl, promoted, mergeable, settled, -, -, rows, merges⟩ := complete_settled ok
  obtain ⟨⟨m, p, r⟩, found⟩ := noted.incomplete i hi (incomplete_iff.mpr (Or.inr promoted))
  have isOpen := stillMergeable_open (mergeable m p r found).1
  obtain ⟨⟨hm, own⟩, ⟨hp, ofMerge⟩, hr, latest⟩ := mergeOf_eq_some.mp found
  have row : db.mergedRow i p = { p with state := .merged, updatedAt := i.createdAt } := by
    unfold mergedRow
    rw [found]
    exact if_pos (openPullRequest_iff.mpr ⟨ofMerge, isOpen⟩)
  refine ⟨m, { p with state := .merged, updatedAt := i.createdAt }, r, ?_, rfl⟩
  refine mergeOf_eq_some.mpr ⟨⟨merges ▸ hm, own⟩, ⟨(rows _).mpr ⟨p, hp, row.symm⟩, ofMerge⟩, ?_,
    latest⟩
  rw [settled.pullRequests.revisions]
  exact hr

theorem complete {id : Identifier} (noted : Noted db) (ok : db.completeGitIntent id = .ok db') :
    Noted db' := by
  have merged := noted.merged ok
  obtain ⟨i, hi, rfl, -, -, settled, -⟩ := complete_settled ok
  exact noted.settled settled (Or.inl rfl) fun _ => merged

theorem abandon {id : Identifier} (noted : Noted db) (ok : db.abandonGitIntent id = .ok db') :
    Noted db' := by
  obtain ⟨i, hi, rfl, -, settled, -⟩ := abandon_settled ok
  exact noted.settled settled (Or.inr rfl) nofun

theorem mark {id : Identifier} {packName : Option PackName} (noted : Noted db)
    (ok : db.markGitObjectsPromoted id packName = .ok db') : Noted db' := by
  obtain ⟨i, hi, rfl, pending, intents, rfl, rows⟩ := markGitObjectsPromoted_rows ok
  refine ⟨fun j hj incomplete => ?_, fun j hj completed => ?_⟩
  · rcases (rows j).mp hj with ⟨before, -⟩ | rfl
    · exact noted.incomplete j before incomplete
    · exact noted.incomplete i hi (incomplete_iff.mpr (Or.inl pending))
  · rcases (rows j).mp hj with ⟨before, -⟩ | rfl
    · exact noted.completed j before completed
    · cases completed

theorem beginMerge {merge : NewPullRequestMerge} {intent : NewGitOperationIntent}
    (noted : Noted db) (ok : db.beginPullRequestMerge merge intent = .ok db') : Noted db' := by
  obtain ⟨repositoryId, p, r, intents, merges, -, of, -, -, -, inserted, added, rfl⟩ :=
    beginPullRequestMerge_eq_ok ok
  have kept : ∀ id t, db.mergeOf id = some t → ({ db with
      gitOperationIntents := intents, pullRequestMergeIntents := merges } : Database).mergeOf id =
      some t := by
    rintro id ⟨m, q, s⟩ found
    obtain ⟨⟨hm, own⟩, facts⟩ := mergeOf_eq_some.mp found
    exact mergeOf_eq_some.mpr ⟨⟨(Table.mem_insert added).mpr (Or.inl hm), own⟩, facts⟩
  refine ⟨fun j hj incomplete => ?_, fun j hj completed => ?_⟩
  · rcases (Table.mem_insert inserted).mp hj with before | rfl
    · obtain ⟨t, found⟩ := noted.incomplete j before incomplete
      exact ⟨t, kept _ t found⟩
    · exact ⟨(_, p, r), mergeOf_eq_some.mpr ⟨⟨(Table.mem_insert added).mpr (Or.inr rfl), rfl⟩,
        ⟨of.pullRequest, rfl⟩, of.revision, rfl⟩⟩
  · rcases (Table.mem_insert inserted).mp hj with before | rfl
    · obtain ⟨m, q, s, found, merged⟩ := noted.completed j before completed
      exact ⟨m, q, s, kept _ _ found, merged⟩
    · cases completed

/-- A change of state leaves the merged pull requests alone. -/
theorem setState {owner repository : String} {number : Nat} {actor : String}
    {state : PullRequestState} {changedAt : Int} (noted : Noted db)
    (ok : db.setPullRequestState owner repository number actor state changedAt = .ok db') :
    Noted db' := by
  obtain ⟨current, hc, pullRequests, events, changes, updated, rfl⟩ :=
    setPullRequestState_eq_ok ok
  refine ⟨fun j hj incomplete => ?_, fun j hj completed => ?_⟩
  · obtain ⟨⟨m, p, r⟩, found⟩ := noted.incomplete j hj incomplete
    obtain ⟨row, ⟨hp, ofMerge⟩, facts⟩ := mergeOf_eq_some.mp found
    refine ⟨(m, _, r), mergeOf_eq_some.mpr ⟨row, ⟨(Table.mem_update updated).mpr ⟨p, hp, rfl⟩, ?_⟩,
      facts⟩⟩
    split
    · exact ofMerge
    · exact ofMerge
  · obtain ⟨m, p, r, found, merged⟩ := noted.completed j hj completed
    obtain ⟨row, ⟨hp, ofMerge⟩, facts⟩ := mergeOf_eq_some.mp found
    refine ⟨m, p, r, mergeOf_eq_some.mpr ⟨row, ⟨(Table.mem_update updated).mpr ⟨p, hp, ?_⟩,
      ofMerge⟩, facts⟩, merged⟩
    rw [if_neg]
    intro chosen
    obtain rfl : p = current := Table.eq_of_key hp hc (of_decide_eq_true chosen)
    exact changes.changes.1 merged

end Noted

/-- The store keeps its rows and notes what recovery settles. -/
structure Onward (db db' : Database) : Prop where
  noted : Noted db'
  rows : ∀ i ∈ db.gitOperationIntents, ∃ j ∈ db'.gitOperationIntents, j.id = i.id

namespace Onward

variable {db db' : Database}

theorem refl (noted : Noted db) : Onward db db := ⟨noted, fun i hi => ⟨i, hi, rfl⟩⟩

theorem trans {db'' : Database} (first : Onward db db') (second : Onward db' db'') :
    Onward db db'' := by
  refine ⟨second.noted, fun i hi => ?_⟩
  obtain ⟨j, hj, own⟩ := first.rows i hi
  obtain ⟨k, hk, same⟩ := second.rows j hj
  exact ⟨k, hk, same.trans own⟩

theorem of_settled {i : GitOperationIntent} {state : IntentState} (noted : Noted db')
    (settled : Settled db db' i state) : Onward db db' := by
  refine ⟨noted, fun j hj => ?_⟩
  by_cases own : j.id = i.id
  · exact ⟨_, (settled.rows _).mpr (Or.inr rfl), own.symm⟩
  · exact ⟨j, (settled.rows j).mpr (Or.inl ⟨hj, own⟩), rfl⟩

theorem of_complete {id : Identifier} (noted : Noted db) (ok : db.completeGitIntent id = .ok db') :
    Onward db db' := by
  obtain ⟨i, -, -, -, -, settled, -⟩ := complete_settled ok
  exact of_settled (noted.complete ok) settled

theorem of_abandon {id : Identifier} (noted : Noted db) (ok : db.abandonGitIntent id = .ok db') :
    Onward db db' := by
  obtain ⟨i, -, -, -, settled, -⟩ := abandon_settled ok
  exact of_settled (noted.abandon ok) settled

theorem inStore {disk : Disk} {result : Except StoreError Database} (noted : Noted disk.db)
    (ok : ∀ db, result = .ok db → Onward disk.db db) :
    Onward disk.db (disk.inStore result).1.db := by
  cases result with
  | ok db => exact ok db rfl
  | error error => exact refl noted

theorem settle {disk : Disk} (noted : Noted disk.db) (i : GitOperationIntent) (arm : Settlement) :
    Onward disk.db (disk.settle i arm).1.db := by
  cases arm with
  | abandon => exact inStore noted fun _ ok => of_abandon noted ok
  | complete => exact inStore noted fun _ ok => of_complete noted ok
  | removeAndAbandon =>
      exact @inStore (disk.removePack i.repositoryPath i.packName) _ noted
        fun _ ok => of_abandon noted ok

theorem recoverIntent {disk : Disk} (noted : Noted disk.db) (i : GitOperationIntent) :
    Onward disk.db (disk.recoverIntent i).1.db := by
  unfold Disk.recoverIntent
  split
  · exact refl noted
  · split
    · exact refl noted
    · rename_i arm _
      have onward := settle noted i arm
      split
      · rename_i same
        rw [same] at onward
        exact onward
      · rename_i same
        rw [same] at onward
        split
        · exact onward
        · exact onward

/-- Recovery notes what it settles, also when it ends at an intent. -/
theorem recoverIntents (rows : List GitOperationIntent) {disk : Disk} (noted : Noted disk.db) :
    Onward disk.db (disk.recoverIntents rows).1.db := by
  induction rows generalizing disk with
  | nil => exact refl noted
  | cons i rest ih =>
      have first := recoverIntent noted i
      rw [Disk.recoverIntents]
      split
      · rename_i same
        rw [same] at first
        exact first.trans (ih first.noted)
      · rename_i same
        rw [same] at first
        exact first

end Onward

/-! ## The invariant -/

/-- The base branch is where the merge has read it. -/
def AtOld (disk : Disk) (m : Merge graph) : Prop :=
  ∃ git, disk.git m.path = some git ∧ git.refs m.request.baseRef = some m.request.oldTarget

def MergeStage.Held (disk : Disk) : MergeStage graph → Prop
  | .idle => True
  | .read m => AtOld disk m
  | .writing m | .marking m => AtOld disk m ∧ m.row .pending ∈ disk.db.gitOperationIntents
  | .committing m | .refused m | .abandoning m =>
      AtOld disk m ∧ m.row .promoted ∈ disk.db.gitOperationIntents
  | .completing m moved => moved = true ∧ m.row .promoted ∈ disk.db.gitOperationIntents

/-- Where the lanes can be.  While the server starts, recovery has every incomplete intent in hand;
while it is up, the only one is that of the running merge, and a recovery has none in hand. -/
inductive Lanes (w : World graph) : Prop where
  | down (mode : w.mode = .down) (push : w.push = .idle) (merge : w.merge = .idle)
  | starting (mode : w.mode = .starting) (merge : w.merge = .idle)
      (push : w.push = .failing ∨ ∃ at', w.push = .recovering at' ∧
        ∀ i ∈ w.disk.db.gitOperationIntents, i.incomplete = true → ∃ j ∈ at'.pending, j.id = i.id)
  | up (mode : w.mode = .up)
      (push : w.push = .idle ∨ w.push = .failing ∨ w.push = .recovering (.listed []))
      (only : ∀ i ∈ w.disk.db.gitOperationIntents, i.incomplete = true →
        ∃ m, w.merge.begun = some m ∧ i.id = m.id)

structure Alone (w : World graph) : Prop where
  settleable : Settleable w
  noted : Noted w.disk.db
  lanes : Lanes w
  held : w.merge.Held w.disk

/-- What the invariant promises. -/
theorem Alone.finishes {w : World graph} (alone : Alone w) : Finishes w := by
  have settleable := alone.settleable
  have wf := settleable.wellFormed
  have completes : ∀ i ∈ w.disk.db.gitOperationIntents, i.incomplete = true → i.id ∈ w.committed →
      ∃ db, w.disk.db.completeGitIntent i.id = .ok db ∧ Merged db i.id := by
    intro i hi incomplete moved
    obtain ⟨promoted, -, mergeable⟩ := (settleable.recognisable i hi incomplete).1 moved
    obtain ⟨db, ok⟩ := wf.consistent.completes hi promoted mergeable
    exact ⟨db, ok, alone.noted.merged ok⟩
  refine ⟨fun m stage => ?_, fun id moved => ?_, ?_⟩
  · have held := alone.held
    have fits := wf.merge
    rw [stage] at held fits
    exact completes (m.row .promoted) held.2 (incomplete_iff.mpr (Or.inr rfl)) fits.2
  · obtain ⟨i, hi, rfl⟩ := wf.stored id moved
    cases state : i.state with
    | pending => exact Or.inr (completes i hi (incomplete_iff.mpr (Or.inl state)) moved)
    | promoted => exact Or.inr (completes i hi (incomplete_iff.mpr (Or.inr state)) moved)
    | completed => exact Or.inl (alone.noted.completed i hi state)
    | abandoned => exact absurd moved (settleable.abandoned i hi state)
  · obtain ⟨disk, recovers, all⟩ := settleable.recovers
    have onward : Onward w.disk.db disk.db := by
      have keeps := Onward.recoverIntents w.disk.db.incompleteGitIntents alone.noted
      rw [show w.disk.recoverIntents w.disk.db.incompleteGitIntents = (disk, none) from recovers]
        at keeps
      exact keeps
    refine ⟨disk, recovers, fun id moved => ?_⟩
    obtain ⟨i, hi, rfl⟩ := wf.stored id moved
    obtain ⟨j, hj, own⟩ := onward.rows i hi
    rcases all j hj with ⟨completed, -⟩ | ⟨-, unmoved⟩
    · exact own ▸ onward.noted.completed j hj completed
    · exact absurd (own ▸ moved) unmoved

/-! ## The steps of a merge -/

section Merging

variable {w w' : World graph} {m : Merge graph}

theorem AtOld.not_new (atOld : AtOld w.disk m) : atRefs w.disk m.path m.commands.proposed = false := by
  obtain ⟨git, opened, old⟩ := atOld
  rw [atRefs_of_some opened, Bool.eq_false_iff]
  intro proposed
  have at' := GitRepository.refsMatch_proposed.mp proposed _ List.mem_cons_self
  rw [old] at at'
  unfold target at at'
  split at at'
  · cases at'
  · exact m.moves (Option.some.inj at')

theorem AtOld.untold (atOld : AtOld w.disk m) :
    Untold w.disk m.path m.commands.initial m.commands.proposed :=
  Or.inr ⟨rfl, atOld.not_new⟩

theorem AtOld.congr {disk disk' : Disk} (atOld : AtOld disk m) (same : RefsKept disk disk') :
    AtOld disk' m := by
  obtain ⟨git, opened, old⟩ := atOld
  have refs := same m.path
  rw [opened] at refs
  obtain ⟨git', opened', equal⟩ := Option.map_eq_some_iff.mp refs
  refine ⟨git', opened', ?_⟩
  rw [equal]
  exact old

theorem atOld_of_reads (read : readsMerge w.disk m = true) : AtOld w.disk m := by
  unfold readsMerge at read
  split at read
  · rename_i access git accessed opened
    simp only [Bool.and_eq_true] at read
    obtain ⟨-, found⟩ := read
    split at found
    · cases found
    · split at found
      · cases found
      · obtain ⟨-, base, -, old, -⟩ := of_decide_eq_true found
        exact ⟨git, opened, base ▸ old⟩
  · cases read

/-- While a merge runs the server is up. -/
theorem Lanes.running (lanes : Lanes w) (running : w.merge ≠ .idle) : w.mode = .up := by
  cases lanes with
  | down mode push idle => exact absurd idle running
  | starting mode idle push => exact absurd idle running
  | up mode push only => exact mode

theorem Lanes.only (lanes : Lanes w) (up : w.mode = .up) {i : GitOperationIntent}
    (member : i ∈ w.disk.db.gitOperationIntents) (incomplete : i.incomplete = true) :
    ∃ m, w.merge.begun = some m ∧ i.id = m.id := by
  cases lanes with
  | down mode push idle => exact nomatch up.symm.trans mode
  | starting mode idle push => exact nomatch up.symm.trans mode
  | up mode push only => exact only i member incomplete

/-- Recovery has no intent in hand while the server is up. -/
theorem Lanes.empty (lanes : Lanes w) (up : w.mode = .up) :
    w.push = .idle ∨ w.push = .failing ∨ w.push = .recovering (.listed []) := by
  cases lanes with
  | down mode push idle => exact nomatch up.symm.trans mode
  | starting mode idle push => exact nomatch up.symm.trans mode
  | up mode push only => exact push

/-- No push runs. -/
theorem Lanes.pushless (lanes : Lanes w) :
    w.push = .idle ∨ w.push = .failing ∨ ∃ at', w.push = .recovering at' := by
  cases lanes with
  | down mode push idle => exact Or.inl push
  | starting mode idle push =>
      exact Or.inr (push.imp_right fun ⟨at', stage, _⟩ => ⟨at', stage⟩)
  | up mode push only => exact push.imp_right (Or.imp_right fun stage => ⟨_, stage⟩)

/-- The only incomplete intent is that of the merge, so the merge may move its branch. -/
theorem Alone.mayMove (alone : Alone w) (stage : w.merge = .committing m)
    (recordable : Recordable w m) : MayMove w m := by
  have up := alone.lanes.running (by rw [stage]; intro same; cases same)
  have held := alone.held
  rw [stage] at held
  refine ⟨⟨_, held.2, rfl, rfl⟩, ?_, recordable, ?_⟩
  · unfold Unread
    rcases alone.lanes.empty up with push | push | push
    all_goals
      rw [push]
      trivial
  · intro j hj other incomplete
    obtain ⟨m', begun, own⟩ := alone.lanes.only up hj incomplete
    rw [stage] at begun
    cases begun
    exact absurd own other

/-- **The condition on a step is enough for recovery to tell the intents apart.** -/
theorem Alone.allowed (alone : Alone w) {a : Solo graph} (unclosed : Unclosed w a) :
    Allowed w a.action := by
  cases a with
  | startMerge m | startRecovery | crash | boot => trivial
  | setState request => exact unclosed
  | recoverNext =>
      unfold Solo.action Allowed
      rcases alone.lanes.pushless with push | push | ⟨at', push⟩
      all_goals
        dsimp only
        rw [push]
        trivial
  | mergeNext =>
      have held := alone.held
      unfold Solo.action Allowed
      dsimp only
      cases stage : w.merge with
      | read m =>
          rw [stage] at held
          exact held.untold
      | committing m => exact fun initial => alone.mayMove stage (unclosed m stage initial)
      | refused m =>
          rw [stage] at held
          obtain ⟨⟨git, opened, old⟩, -⟩ := held
          intro git' opened' new
          obtain rfl : git = git' := Option.some.inj (opened.symm.trans opened')
          exact absurd (Option.some.inj (old.symm.trans new)) m.moves
      | idle | writing m | marking m | completing m moved | abandoning m => trivial

/-- A step of the merge lane, after which the only incomplete intent is that of the merge. -/
theorem Alone.mergeLane (alone : Alone w) (settleable : Settleable w') (noted : Noted w'.disk.db)
    (running : w.merge ≠ .idle) (mode : w'.mode = w.mode) (push : w'.push = w.push)
    (only : ∀ i ∈ w'.disk.db.gitOperationIntents, i.incomplete = true →
      ∃ m, w'.merge.begun = some m ∧ i.id = m.id) (held : w'.merge.Held w'.disk) : Alone w' := by
  have up := alone.lanes.running running
  refine ⟨settleable, noted, .up (mode.trans up) ?_ only, held⟩
  rw [push]
  exact alone.lanes.empty up

theorem Alone.noneBegun (alone : Alone w) (running : w.merge ≠ .idle)
    (none : w.merge.begun = none) {i : GitOperationIntent}
    (member : i ∈ w.disk.db.gitOperationIntents) : ¬i.incomplete = true := by
  intro incomplete
  obtain ⟨m, begun, -⟩ := alone.lanes.only (alone.lanes.running running) member incomplete
  rw [none] at begun
  cases begun

theorem alone_begins (alone : Alone w) (stage : w.merge = .read m) (settleable : Settleable w')
    (next : mergeNext w = some w') : Alone w' := by
  have running : w.merge ≠ .idle := by rw [stage]; nofun
  have closed := @Alone.noneBegun graph w alone running (by rw [stage]; rfl)
  have held := alone.held
  rw [stage] at held
  simp only [mergeNext, stage] at next
  cases next
  unfold mergeStores at settleable ⊢
  split at settleable
  · rename_i db ok
    have noted := alone.noted.beginMerge ok
    obtain ⟨repositoryId, p, r, intents, merges, -, -, -, -, -, inserted, added, rfl⟩ :=
      beginPullRequestMerge_eq_ok ok
    have row : m.row .pending ∈ intents := (Table.mem_insert inserted).mpr (Or.inr rfl)
    refine alone.mergeLane settleable noted running rfl rfl (fun i hi incomplete => ⟨m, ?_, ?_⟩) ?_
    · dsimp only
      split
      · rfl
      · rfl
    · rcases (Table.mem_insert inserted).mp hi with before | rfl
      · exact absurd incomplete (closed before)
      · rfl
    · dsimp only
      split
      · exact ⟨held, row⟩
      · exact ⟨held, row⟩
  · exact alone.mergeLane settleable alone.noted running rfl rfl
      (fun i hi incomplete => absurd incomplete (closed hi)) trivial

theorem alone_marks (alone : Alone w) (stage : w.merge = .marking m) (settleable : Settleable w')
    (next : mergeNext w = some w') : Alone w' := by
  have running : w.merge ≠ .idle := by rw [stage]; nofun
  have held := alone.held
  rw [stage] at held
  obtain ⟨atOld, member⟩ := held
  obtain ⟨db, ok⟩ := markGitObjectsPromoted_succeeds member rfl none
  have marked : w.disk.db.markGitObjectsPromoted m.id none = .ok db := ok
  simp only [mergeNext, stage, mergeStores, marked] at next
  cases next
  have noted := alone.noted.mark marked
  obtain ⟨i, hi, same, -, intents, rfl, rows⟩ := markGitObjectsPromoted_rows marked
  obtain rfl : i = m.row .pending := eq_of_id hi member same
  refine alone.mergeLane settleable noted running rfl rfl (fun j hj incomplete => ⟨m, rfl, ?_⟩)
    ⟨atOld, (rows _).mpr (Or.inr rfl)⟩
  rcases (rows j).mp hj with ⟨before, -⟩ | rfl
  · obtain ⟨m', begun, own⟩ := alone.lanes.only (alone.lanes.running running) before incomplete
    rw [stage] at begun
    cases begun
    exact own
  · rfl

/-- The merge has settled its intent and returns. -/
theorem Alone.return (alone : Alone w) {i : GitOperationIntent} {state : IntentState}
    {db : Database} {ok : Bool} (begun : w.merge.begun = some m) (own : i.id = m.id)
    (settled : Settled w.disk.db db i state) (ends : state = .completed ∨ state = .abandoned)
    (noted : Noted db)
    (settleable : Settleable (returns { w with disk := { w.disk with db } } m ok)) :
    Alone (returns { w with disk := { w.disk with db } } m ok) := by
  have running : w.merge ≠ .idle := by
    intro idle
    rw [idle] at begun
    cases begun
  refine alone.mergeLane settleable noted running rfl rfl (fun j hj incomplete => ?_) trivial
  rcases (settled.rows j).mp hj with ⟨before, other⟩ | rfl
  · obtain ⟨m', begun', same⟩ := alone.lanes.only (alone.lanes.running running) before incomplete
    obtain rfl : m = m' := Option.some.inj (begun.symm.trans begun')
    exact absurd (same.trans own.symm) other
  · exact absurd incomplete (incomplete_of_settled ends)

/-- **Every step of a merge keeps the invariant.** -/
theorem alone_mergeNext (alone : Alone w) (settleable : Settleable w')
    (next : mergeNext w = some w') : Alone w' := by
  have held := alone.held
  have same : ∀ {m}, w.merge.begun = some m → ∀ i ∈ w.disk.db.gitOperationIntents,
      i.incomplete = true → ∃ m', some m = some m' ∧ i.id = m'.id := by
    intro m begun i hi incomplete
    have up := alone.lanes.running (by
      intro idle
      rw [idle] at begun
      cases begun)
    rw [← begun]
    exact alone.lanes.only up hi incomplete
  cases stage : w.merge with
  | idle =>
      simp only [mergeNext, stage] at next
      cases next
  | read m => exact alone_begins alone stage settleable next
  | writing m =>
      rw [stage] at held
      simp only [mergeNext, stage] at next
      cases next
      obtain ⟨atOld, row⟩ := held
      have db := writeObjects_db w.disk m
      refine alone.mergeLane settleable ?_ (by rw [stage]; intro same; cases same) rfl rfl ?_
        ⟨atOld.congr (writeObjects_refsKept w.disk m), ?_⟩
      · rw [db]
        exact alone.noted
      · rw [db]
        exact same (by rw [stage]; rfl)
      · rw [db]
        exact row
  | marking m => exact alone_marks alone stage settleable next
  | committing m =>
      rw [stage] at held
      simp only [mergeNext, stage] at next
      split at next
      · cases next
        exact alone.mergeLane settleable alone.noted (by rw [stage]; intro same; cases same) rfl rfl
          (same (by rw [stage]; rfl)) held
      · rename_i disk moves
        cases next
        obtain ⟨git, opened, initial, rfl⟩ := Disk.moveRefs_eq_some.mp moves
        exact alone.mergeLane settleable alone.noted (by rw [stage]; intro same; cases same) rfl rfl
          (same (by rw [stage]; rfl)) ⟨rfl, held.2⟩
  | refused m =>
      rw [stage] at held
      obtain ⟨⟨git, opened, old⟩, row⟩ := held
      have other : git.refs m.request.baseRef ≠ some m.request.newTarget := by
        rw [old]
        exact fun new => m.moves (Option.some.inj new)
      simp only [mergeNext, stage, opened, if_neg other] at next
      cases next
      exact alone.mergeLane settleable alone.noted (by rw [stage]; intro same; cases same) rfl rfl
        (same (by rw [stage]; rfl)) ⟨⟨git, opened, old⟩, row⟩
  | completing m moved =>
      rw [stage] at held
      obtain ⟨rfl, row⟩ := held
      obtain ⟨db, ok, -⟩ := alone.finishes.running m stage
      simp only [mergeNext, stage, mergeStores, ok] at next
      cases next
      have noted := alone.noted.complete ok
      obtain ⟨i, hi, own, -, -, settled, -⟩ := complete_settled ok
      exact alone.return (by rw [stage]; rfl) own settled (Or.inl rfl) noted settleable
  | abandoning m =>
      rw [stage] at held
      obtain ⟨-, row⟩ := held
      obtain ⟨db, abandons⟩ := abandonGitIntent_succeeds row (incomplete_iff.mpr (Or.inr rfl))
      have ok : w.disk.db.abandonGitIntent m.id = .ok db := abandons
      simp only [mergeNext, stage, mergeStores, ok] at next
      cases next
      have noted := alone.noted.abandon ok
      obtain ⟨i, hi, own, -, settled, -⟩ := abandon_settled ok
      exact alone.return (by rw [stage]; rfl) own settled (Or.inr rfl) noted settleable

end Merging

/-! ## The steps of a recovery -/

/-- A recovery that goes on has every incomplete intent in hand; one that succeeds leaves none. -/
def Outcome.Covers (db : Database) : Outcome → Prop
  | .continues at' =>
      ∀ i ∈ db.gitOperationIntents, i.incomplete = true → ∃ j ∈ at'.pending, j.id = i.id
  | .succeeded => ∀ i ∈ db.gitOperationIntents, ¬i.incomplete = true
  | .failed => True

theorem decided_covers {db : Database} {i : GitOperationIntent} {rest : List GitOperationIntent}
    (atInitial atProposed : Bool)
    (covers : ∀ k ∈ db.gitOperationIntents, k.incomplete = true → ∃ j ∈ i :: rest, j.id = k.id) :
    (decided i atInitial atProposed rest).Covers db := by
  unfold decided
  split
  · trivial
  all_goals exact covers

/-- What recovery writes when it settles an intent. -/
theorem settles_eq {disk disk' : Disk} {i : GitOperationIntent} {completes : Bool}
    (settled : settles disk i completes = (disk', none)) :
    ∃ db j state, disk' = { disk with db } ∧ j.id = i.id ∧ Settled disk.db db j state ∧
      (state = .completed ∨ state = .abandoned) ∧ (Noted disk.db → Noted db) := by
  unfold settles at settled
  cases completes with
  | true =>
      cases result : disk.db.completeGitIntent i.id with
      | error error =>
          rw [if_pos rfl, Disk.inStore_error result] at settled
          cases settled
      | ok db =>
          rw [if_pos rfl, Disk.inStore_ok result] at settled
          cases settled
          obtain ⟨j, -, own, -, -, rows, -⟩ := complete_settled result
          exact ⟨db, j, .completed, rfl, own, rows, Or.inl rfl, fun noted => noted.complete result⟩
  | false =>
      cases result : disk.db.abandonGitIntent i.id with
      | error error =>
          rw [if_neg nofun, Disk.inStore_error result] at settled
          cases settled
      | ok db =>
          rw [if_neg nofun, Disk.inStore_ok result] at settled
          cases settled
          obtain ⟨j, -, own, -, rows, -⟩ := abandon_settled result
          exact ⟨db, j, .abandoned, rfl, own, rows, Or.inr rfl, fun noted => noted.abandon result⟩

/-- An error of the store leaves the disk as it is. -/
theorem settles_failed {disk disk' : Disk} {i : GitOperationIntent} {completes : Bool}
    {error : ReceivePackError} (failed : settles disk i completes = (disk', some error)) :
    disk' = disk := by
  unfold settles Disk.inStore at failed
  split at failed
  · cases failed
  · exact (congrArg Prod.fst failed).symm

theorem recoveryStep_noted {disk : Disk} (at' : Recovery) (noted : Noted disk.db) :
    Noted (recoveryStep disk at').1.db := by
  cases at' with
  | listed rest =>
      cases rest with
      | nil => exact noted
      | cons i rest =>
          rw [recoveryStep]
          split <;> exact noted
  | initial i left rest =>
      cases left with
      | nil => exact noted
      | cons e left =>
          rw [recoveryStep]
          split <;> exact noted
  | proposed i atInitial left rest =>
      cases left with
      | nil => exact noted
      | cons e left =>
          rw [recoveryStep]
          split <;> exact noted
  | removing i rest => exact noted
  | settling i completes rest =>
      rw [recoveryStep]
      split
      · rename_i failed
        rw [settles_failed failed]
        exact noted
      · rename_i settled
        obtain ⟨db, j, state, rfl, -, -, -, keeps⟩ := settles_eq settled
        split
        · exact keeps noted
        · exact keeps noted

/-- One step of recovery lets no incomplete intent out of hand. -/
theorem recoveryStep_covers {disk : Disk} {at' : Recovery}
    (covers : (Outcome.continues at').Covers disk.db) :
    (recoveryStep disk at').2.Covers (recoveryStep disk at').1.db := by
  cases at' with
  | listed rest =>
      cases rest with
      | nil =>
          intro i hi incomplete
          obtain ⟨j, none, -⟩ := covers i hi incomplete
          cases none
      | cons i rest =>
          rw [recoveryStep]
          split
          · trivial
          · exact covers
  | initial i left rest =>
      cases left with
      | nil => exact covers
      | cons e left =>
          rw [recoveryStep]
          split
          · trivial
          · exact covers
          · exact covers
  | proposed i atInitial left rest =>
      cases left with
      | nil => exact decided_covers atInitial true covers
      | cons e left =>
          rw [recoveryStep]
          split
          · trivial
          · exact covers
          · exact decided_covers atInitial false covers
  | removing i rest => exact covers
  | settling i completes rest =>
      rw [recoveryStep]
      split
      · trivial
      · rename_i settled
        obtain ⟨db, k, state, rfl, own, rows, ends, -⟩ := settles_eq settled
        split
        · intro l hl incomplete
          rcases (rows.rows l).mp hl with ⟨before, other⟩ | rfl
          · obtain ⟨j, hj, same⟩ := covers l before incomplete
            rcases List.mem_cons.mp hj with rfl | later
            · exact absurd (same.symm.trans own.symm) other
            · exact ⟨j, later, same⟩
          · exact absurd incomplete (incomplete_of_settled ends)
        · trivial

section Recovering

variable {w w' : World graph}

/-- The recovery of the start-up goes on, or ends with the server up or down. -/
theorem alone_starting (alone : Alone w) (mode : w.mode = .starting) (idle : w.merge = .idle)
    {at' : Recovery} (covers : (Outcome.continues at').Covers w.disk.db)
    (settleable : Settleable (recoverNext w at')) : Alone (recoverNext w at') := by
  have noted := recoveryStep_noted at' alone.noted
  have after := recoveryStep_covers covers
  unfold recoverNext at settleable ⊢
  generalize (recoveryStep w.disk at').1 = disk at *
  generalize (recoveryStep w.disk at').2 = outcome at *
  have held : w.merge.Held disk := by
    rw [idle]
    trivial
  cases outcome with
  | continues next =>
      exact ⟨settleable, noted, .starting mode idle (Or.inr ⟨next, rfl, after⟩), held⟩
  | succeeded =>
      simp only [afterRecovery, endRecovery, mode] at settleable ⊢
      refine ⟨settleable, noted, .up rfl (Or.inl rfl) ?_, held⟩
      exact fun i hi incomplete => absurd incomplete (after i hi)
  | failed =>
      simp only [afterRecovery, endRecovery, mode] at settleable ⊢
      exact ⟨settleable, noted, .down rfl rfl idle, held⟩

/-- **Every step of a recovery keeps the invariant.** -/
theorem alone_recoverNext (alone : Alone w) (settleable : Settleable w')
    (lists : w.push = .failing → w.merge.begun = none) (next : pushNext w = some w') :
    Alone w' := by
  cases alone.lanes with
  | down mode push idle =>
      simp only [pushNext, push] at next
      cases next
  | starting mode idle push =>
      rcases push with push | ⟨at', push, covers⟩
      · simp only [pushNext, push] at next
        cases next
        refine ⟨settleable, alone.noted, .starting mode idle (Or.inr ⟨_, rfl, ?_⟩), alone.held⟩
        exact fun i hi incomplete => ⟨i, mem_incompleteGitIntents.mpr ⟨hi, incomplete⟩, rfl⟩
      · simp only [pushNext, push] at next
        cases next
        exact alone_starting alone mode idle covers settleable
  | up mode push only =>
      rcases push with push | push | push
      · simp only [pushNext, push] at next
        cases next
      · simp only [pushNext, push] at next
        cases next
        have none : w.disk.db.incompleteGitIntents = [] := by
          refine List.eq_nil_iff_forall_not_mem.mpr fun i hi => ?_
          obtain ⟨member, incomplete⟩ := mem_incompleteGitIntents.mp hi
          obtain ⟨m, begun, -⟩ := only i member incomplete
          rw [lists push] at begun
          cases begun
        rw [none] at settleable ⊢
        exact ⟨settleable, alone.noted, .up mode (Or.inr (Or.inr rfl)) only, alone.held⟩
      · have ends : recoverNext w (.listed []) = { w with push := .idle } := by
          simp only [recoverNext, recoveryStep, afterRecovery, endRecovery, mode]
        simp only [pushNext, push, ends] at next
        cases next
        exact ⟨settleable, alone.noted, .up mode (Or.inl rfl) only, alone.held⟩

end Recovering

/-! ## Every step -/

theorem alone_setState {w w' : World graph} {request : PullRequests.SetState} (alone : Alone w)
    (settleable : Settleable w') (next : step w (.setState request) = some w') : Alone w' := by
  simp only [step] at next
  split at next
  · rename_i mode
    split at next
    · cases next
      cases result : w.disk.db.setPullRequestState request.owner request.repository
          request.number request.actor request.state request.changedAt with
      | error error =>
          rw [result] at settleable
          exact ⟨settleable, alone.noted, alone.lanes, alone.held⟩
      | ok db =>
          rw [result] at settleable
          have noted := alone.noted.setState result
          have only := fun i => @Lanes.only graph w alone.lanes mode i
          have push := alone.lanes.empty mode
          have held := alone.held
          obtain ⟨current, -, pullRequests, events, -, -, rfl⟩ := setPullRequestState_eq_ok result
          refine ⟨settleable, noted, .up mode push fun i hi => only i hi, ?_⟩
          show w.merge.Held _
          cases stage : w.merge with
          | idle => trivial
          | read m | writing m | marking m | committing m | refused m | completing m moved
          | abandoning m =>
              rw [stage] at held
              exact held
    · cases next
  · cases next

/-- **Every step that the condition allows keeps the invariant.** -/
theorem step_alone {w w' : World graph} {a : Solo graph} (alone : Alone w) (unclosed : Unclosed w a)
    (next : mergesOnly w a = some w') : Alone w' := by
  have settleable : Settleable w' :=
    step_settleable alone.settleable (alone.allowed unclosed) (step_transition next)
  cases a with
  | startMerge m =>
      simp only [mergesOnly, Solo.action, step] at next
      split at next
      · rename_i mode idle
        split at next
        · rename_i read
          cases next
          refine ⟨settleable, alone.noted, .up mode (alone.lanes.empty mode) ?_,
            atOld_of_reads read⟩
          intro i hi incomplete
          obtain ⟨m', begun, -⟩ := alone.lanes.only mode hi incomplete
          rw [idle] at begun
          cases begun
        · cases next
      · cases next
  | mergeNext => exact alone_mergeNext alone settleable next
  | setState request => exact alone_setState alone settleable next
  | startRecovery =>
      simp only [mergesOnly, Solo.action, step] at next
      split at next
      · rename_i mode idle
        cases next
        have only := fun i => @Lanes.only graph w alone.lanes mode i
        exact ⟨settleable, alone.noted, .up mode (Or.inr (Or.inl rfl)) fun i hi => only i hi,
          alone.held⟩
      · cases next
  | recoverNext => exact alone_recoverNext alone settleable unclosed next
  | crash =>
      cases next
      exact ⟨settleable, alone.noted, .down rfl rfl rfl, trivial⟩
  | boot =>
      simp only [mergesOnly, Solo.action, step] at next
      split at next
      · rename_i mode
        cases next
        have idle : w.merge = .idle := by
          cases alone.lanes with
          | down mode' push idle => exact idle
          | starting mode' idle push => exact idle
          | up mode' push only => cases mode.symm.trans mode'
        exact ⟨settleable, alone.noted, .starting rfl idle (Or.inl rfl), alone.held⟩
      · cases next

theorem Fresh.alone (fresh : Fresh graph) : Alone fresh.toWorld where
  settleable := fresh.settleable
  noted := ⟨fun i hi => absurd hi (fresh.noIntent i), fun i hi => absurd hi (fresh.noIntent i)⟩
  lanes := .up fresh.up (Or.inl fresh.idlePush) fun i hi => absurd hi (fresh.noIntent i)
  held := by
    rw [fresh.idleMerge]
    trivial

def closeSide : PullRequests.SetState where
  owner := "alice"
  repository := "tit"
  number := 1
  actor := "alice"
  state := .closed
  changedAt := 1

def closedRun : List (Solo ⟨fun _ => [], fun _ => []⟩) :=
  [.startMerge mergeSide, .mergeNext, .mergeNext, .mergeNext, .setState closeSide, .crash]

/-- A promoted intent whose references are at their new values, which recovery does not settle. -/
def stranded {graph : ObjectGraph} (w : World graph) : Bool :=
  w.disk.recoverIncompletePushes.2.isSome &&
    w.disk.db.gitOperationIntents.rows.any fun i =>
      decide (i.state = .promoted) && atRefs w.disk i.repositoryPath i.proposedRefs

theorem closedRun_ends : (run mergesOnly sideServer.toWorld closedRun).any stranded = true := by
  decide

end Tit.Operations
