/-
# Operations.Objects -- what the references need is there

The pack of a push is in the repository before the intent of the push is settled, and recovery
removes it with the intent.  Meanwhile another operation may come to rely on it.  A run is
`Complete` when every reference has all the objects that it needs.

An object is `Available` to some intents when it is loose, or in a pack that no unsettled intent but
these names.  Every reference needs only what is available to nobody in particular, or it is where
an unsettled intent was to put it and needs what is available to that intent.  Each step keeps this
as long as no operation relies on the pack of an unsettled intent of another (`Independent`).
Otherwise recovery takes the objects of a reference away (`reference_broken`).
-/
import Tit.Operations.Undisturbed

namespace Tit.Operations

open Tit.Theory Tit.Store Tit.Store.Database Tit.Git

set_option autoImplicit false

variable {graph : ObjectGraph}

/-- Every reference has the objects that it needs. -/
def Complete (w : World graph) : Prop :=
  ∀ path git, w.disk.git path = some git → ∀ name id, git.refs name = some id →
    ∀ o, Reaches graph.links id o → graph.stored git o = true

/-! ## Packs and the intents that name them -/

/-- The unsettled intent names the pack, or the push that is about to name it. -/
def Names (w : World graph) (path : RepositoryPath) (p : PackName) (id : Identifier) : Prop :=
  (∃ i ∈ w.disk.db.gitOperationIntents, i.incomplete = true ∧ i.id = id ∧
    i.repositoryPath = path ∧ i.packName = some p) ∨
  ∃ push, w.push = .marking push (some p) ∧ push.id = id ∧ push.path = path

/-- The object is there without the packs of unsettled intents, except those of `own`. -/
def Available (w : World graph) (path : RepositoryPath) (git : GitRepository)
    (own : Identifier → Prop) (o : ObjectId) : Prop :=
  o ∈ git.loose ∨ ∃ p ∈ git.packs, o ∈ graph.packed p ∧ ∀ id, Names w path p id → own id

/-- So is all that the object needs. -/
def Safe (w : World graph) (path : RepositoryPath) (own : Identifier → Prop) (x : ObjectId) :
    Prop :=
  ∀ git, w.disk.git path = some git → ∀ o, Reaches graph.links x o → Available w path git own o

def nobody : Identifier → Prop := fun _ => False

def only (id : Identifier) : Identifier → Prop := fun other => other = id

/-- An unsettled intent that was to set the reference to this value, with its objects. -/
def Backed (w : World graph) (path : RepositoryPath) (name : RefName) (x : ObjectId)
    (others : Identifier → Prop) : Prop :=
  ∃ j ∈ w.disk.db.gitOperationIntents, j.incomplete = true ∧ j.repositoryPath = path ∧
    others j.id ∧ (name, x) ∈ j.proposedRefs ∧ x.isNull = false ∧ Safe w path (only j.id) x

/-- The value of the reference can stay, whatever becomes of the intents that are not `others`. -/
def Held (w : World graph) (path : RepositoryPath) (name : RefName) (x : ObjectId)
    (others : Identifier → Prop) : Prop :=
  Safe w path nobody x ∨ Backed w path name x others

/-- The reference does not need what the intent has brought. -/
def Unneeded (w : World graph) (i : GitOperationIntent) (name : RefName) : Prop :=
  ∀ git, w.disk.git i.repositoryPath = some git → ∀ x, git.refs name = some x →
    Held w i.repositoryPath name x fun id => id ≠ i.id

/-! ## The condition -/

/-- The object needs nothing that only the pack of an unsettled intent has. -/
def Unentangled (w : World graph) (path : RepositoryPath) (git : GitRepository) (x : ObjectId) :
    Prop :=
  ∀ o, Reaches graph.links x o → graph.stored git o = true → Available w path git nobody o

/-- Nor does what a push brings; the received pack may be used when no unsettled intent names it. -/
def UnentangledPush (w : World graph) (push : Push) (git : GitRepository) : Prop :=
  ∀ c ∈ push.commands.list, c.new.isNull = false → ∀ o, Reaches graph.links c.new o →
    graph.combined git push.pack o = true → Available w push.path git nobody o ∨
      ∃ p, push.pack = some p ∧ o ∈ graph.packed p ∧ ∀ id, ¬Names w push.path p id

/-- A push is validated, and a merge reads its branches, when what they go on from needs no pack of
an unsettled intent. -/
def Independent (w : World graph) : Action graph → Prop
  | .pushNext => ∀ push git, w.push = .indexing push → w.disk.git push.path = some git →
      UnentangledPush w push git
  | .startMerge m => ∀ git, w.disk.git m.path = some git →
      Unentangled w m.path git m.request.oldTarget ∧ Unentangled w m.path git m.request.headTarget
  | _ => True

/-! ## The invariant -/

def PushStage.Prepared (w : World graph) : PushStage → Prop
  | .marking push _ | .committing push => ∀ c ∈ push.commands.list, c.new.isNull = false →
      Safe w push.path (only push.id) c.new
  | _ => True

def MergeStage.Prepared (w : World graph) : MergeStage graph → Prop
  | .read m => Safe w m.path nobody m.request.oldTarget ∧ Safe w m.path nobody m.request.headTarget
  | .writing m => m.request.method = .mergeCommit ∧
      Safe w m.path nobody m.request.oldTarget ∧ Safe w m.path nobody m.request.headTarget
  | .marking m | .committing m => Safe w m.path nobody m.request.newTarget
  | _ => True

/-- What recovery has read of an intent whose pack it may remove. -/
def Recovery.Cleared (w : World graph) : Recovery → Prop
  | .listed _ | .settling _ _ _ | .proposed _ false _ _ => True
  | .initial i left _ => ∀ e ∈ i.initialRefs, e ∈ left ∨ Unneeded w i e.1
  | .proposed i true _ _ => ∀ e ∈ i.initialRefs, Unneeded w i e.1
  | .removing i _ => ∀ e ∈ i.initialRefs, Unneeded w i e.1

/-- The intents that recovery has in hand, each once, and those with a pack as they are stored. -/
structure Recovery.Current (db : Database) (at' : Recovery) : Prop where
  distinct : at'.pending.Pairwise fun i j => i.id ≠ j.id
  rows : ∀ i ∈ at'.pending, i.packName ≠ none → i ∈ db.gitOperationIntents

structure Entangled (w : World graph) : Prop where
  wellFormed : WellFormed w
  refs : ∀ path git, w.disk.git path = some git → ∀ name x, git.refs name = some x →
    Held w path name x fun _ => True
  push : w.push.Prepared w
  merge : w.merge.Prepared w
  recovery : ∀ at', w.push = .recovering at' → at'.Current w.disk.db ∧ at'.Cleared w

/-! ## Steps that take nothing away -/

section Progress

variable {w w' : World graph} {path : RepositoryPath} {own others : Identifier → Prop}
  {name : RefName} {x : ObjectId}

/-- No file is lost, no pack that is there gets a name, and an unsettled intent stays or has no
pack any more. -/
structure Progress (w w' : World graph) : Prop where
  files : ∀ path git', w'.disk.git path = some git' → ∃ git, w.disk.git path = some git ∧
    (∀ o ∈ git.loose, o ∈ git'.loose) ∧ ∀ p ∈ git.packs, p ∈ git'.packs
  names : ∀ path git p id, w.disk.git path = some git → p ∈ git.packs → Names w' path p id →
    Names w path p id
  rows : ∀ j ∈ w.disk.db.gitOperationIntents, j.incomplete = true →
    (∃ j' ∈ w'.disk.db.gitOperationIntents, j'.incomplete = true ∧ j'.id = j.id ∧
      j'.repositoryPath = j.repositoryPath ∧ j'.proposedRefs = j.proposedRefs) ∨
    ∀ path p, ¬Names w' path p j.id

theorem Progress.available (progress : Progress w w') {git git' : GitRepository} {o : ObjectId}
    (before : w.disk.git path = some git) (loose : ∀ o ∈ git.loose, o ∈ git'.loose)
    (packs : ∀ p ∈ git.packs, p ∈ git'.packs) (available : Available w path git own o) :
    Available w' path git' own o := by
  rcases available with here | ⟨p, hp, inside, alone⟩
  · exact .inl (loose o here)
  · exact .inr ⟨p, packs p hp, inside, fun id names =>
      alone id (progress.names path git p id before hp names)⟩

theorem Progress.safe (progress : Progress w w') (safe : Safe w path own x) :
    Safe w' path own x := by
  intro git' after o reached
  obtain ⟨git, before, loose, packs⟩ := progress.files path git' after
  exact progress.available before loose packs (safe git before o reached)

/-- What is safe with the pack of an intent is safe without it, once the intent names none. -/
theorem Safe.settled {id : Identifier} (safe : Safe w' path (only id) x)
    (none : ∀ path p, ¬Names w' path p id) : Safe w' path nobody x := by
  intro git after o reached
  rcases safe git after o reached with here | ⟨p, hp, inside, alone⟩
  · exact .inl here
  · refine .inr ⟨p, hp, inside, fun id' names => ?_⟩
    obtain rfl := alone id' names
    exact none path p names

theorem Progress.held (progress : Progress w w') (held : Held w path name x others) :
    Held w' path name x others := by
  rcases held with safe | ⟨j, hj, incomplete, at', other, proposed, some, safe⟩
  · exact .inl (progress.safe safe)
  · have kept := progress.safe safe
    rcases progress.rows j hj incomplete with ⟨j', hj', open', id, path', refs⟩ | none
    · refine .inr ⟨j', hj', open', path'.trans at', id ▸ other, refs ▸ proposed, some, ?_⟩
      rw [id]
      exact kept
    · exact .inl (kept.settled none)

theorem Held.weaken {others' : Identifier → Prop} (weaker : ∀ id, others id → others' id)
    (held : Held w path name x others) : Held w path name x others' := by
  refine held.imp_right ?_
  rintro ⟨j, hj, incomplete, at', other, rest⟩
  exact ⟨j, hj, incomplete, at', weaker _ other, rest⟩

/-- The references that are there are among those before, or safe. -/
def RefsSafe (w w' : World graph) : Prop :=
  ∀ path git', w'.disk.git path = some git' → ∃ git, w.disk.git path = some git ∧
    ∀ name x, git'.refs name = some x → git.refs name = some x ∨ Safe w' path nobody x

theorem Progress.unneeded (progress : Progress w w') (refs : RefsSafe w w')
    {i : GitOperationIntent} (unneeded : Unneeded w i name) : Unneeded w' i name := by
  intro git' after x value
  obtain ⟨git, before, values⟩ := refs _ git' after
  rcases values name x value with old | safe
  · exact progress.held (unneeded git before x old)
  · exact .inl safe

theorem Progress.cleared (progress : Progress w w') (refs : RefsSafe w w') {at' : Recovery}
    (cleared : at'.Cleared w) : at'.Cleared w' := by
  cases at' with
  | listed rest => trivial
  | settling i completes rest => trivial
  | initial i left rest => exact fun e he => (cleared e he).imp_right (progress.unneeded refs)
  | proposed i atInitial left rest =>
      cases atInitial with
      | true => exact fun e he => progress.unneeded refs (cleared e he)
      | false => trivial
  | removing i rest => exact fun e he => progress.unneeded refs (cleared e he)

theorem Progress.pushPrepared (progress : Progress w w') {stage : PushStage}
    (prepared : stage.Prepared w) : stage.Prepared w' := by
  cases stage with
  | marking push packName => exact fun c hc some => progress.safe (prepared c hc some)
  | committing push => exact fun c hc some => progress.safe (prepared c hc some)
  | _ => trivial

theorem Progress.mergePrepared (progress : Progress w w') {stage : MergeStage graph}
    (prepared : stage.Prepared w) : stage.Prepared w' := by
  cases stage with
  | read m => exact ⟨progress.safe prepared.1, progress.safe prepared.2⟩
  | writing m => exact ⟨prepared.1, progress.safe prepared.2.1, progress.safe prepared.2.2⟩
  | marking m => exact progress.safe prepared
  | committing m => exact progress.safe prepared
  | _ => trivial

/-- A step that takes nothing away and sets references to safe values only. -/
theorem Entangled.next (entangled : Entangled w) (wf : WellFormed w') (progress : Progress w w')
    (refs : RefsSafe w w') (push : w'.push.Prepared w') (merge : w'.merge.Prepared w')
    (recovery : ∀ at', w'.push = .recovering at' → at'.Current w'.disk.db ∧ at'.Cleared w') :
    Entangled w' := by
  refine ⟨wf, fun path git' after name x value => ?_, push, merge, recovery⟩
  obtain ⟨git, before, values⟩ := refs path git' after
  rcases values name x value with old | safe
  · exact progress.held (entangled.refs path git before name x old)
  · exact .inl safe

/-- The push lane takes such a step, to a stage without conditions. -/
theorem Entangled.pushLane (entangled : Entangled w) (wf : WellFormed w') (progress : Progress w w')
    (refs : RefsSafe w w') (merge : w'.merge = w.merge) (push : w'.push.Prepared w')
    (recovery : ∀ at', w'.push = .recovering at' → at'.Current w'.disk.db ∧ at'.Cleared w') :
    Entangled w' :=
  entangled.next wf progress refs push (merge ▸ progress.mergePrepared entangled.merge) recovery

/-- The merge lane does. -/
theorem Entangled.mergeLane (entangled : Entangled w) (wf : WellFormed w')
    (progress : Progress w w') (refs : RefsSafe w w') (push : w'.push = w.push)
    (merge : w'.merge.Prepared w')
    (rows : ∀ at', w.push = .recovering at' → ∀ i ∈ at'.pending, i.packName ≠ none →
      i ∈ w.disk.db.gitOperationIntents → i ∈ w'.disk.db.gitOperationIntents) :
    Entangled w' := by
  refine entangled.next wf progress refs (push ▸ progress.pushPrepared entangled.push) merge ?_
  intro at' stage
  rw [push] at stage
  obtain ⟨current, cleared⟩ := entangled.recovery at' stage
  refine ⟨⟨current.distinct, fun i hi pack => ?_⟩, progress.cleared refs cleared⟩
  exact rows at' stage i hi pack (current.rows i hi pack)

theorem RefsSafe.of_git (same : w'.disk.git = w.disk.git) : RefsSafe w w' := by
  intro path git' after
  rw [same] at after
  exact ⟨git', after, fun name x value => .inl value⟩

/-- Nothing but the lanes changes, and no push comes to be marking. -/
theorem Progress.lanes (disk : w'.disk = w.disk)
    (push : ∀ push p, w'.push = .marking push (some p) → w.push = .marking push (some p)) :
    Progress w w' := by
  have names : ∀ path p id, Names w' path p id → Names w path p id := by
    rintro path p id (row | ⟨marked, stage, rest⟩)
    · rw [disk] at row
      exact .inl row
    · exact .inr ⟨marked, push marked p stage, rest⟩
  refine ⟨fun path git' after => ?_, fun path _ p id _ _ => names path p id, fun j hj open' => ?_⟩
  · rw [disk] at after
    exact ⟨git', after, fun _ here => here, fun _ here => here⟩
  · rw [disk]
    exact .inl ⟨j, hj, open', rfl, rfl, rfl⟩

/-- A transaction on one intent.  Its row, when it stays unsettled, has the data it had and names
no other pack than before. -/
theorem Progress.transaction {id : Identifier} (git : w'.disk.git = w.disk.git)
    (kept : Kept w.disk.db w'.disk.db id)
    (push : ∀ push p, w'.push = .marking push (some p) → w.push = .marking push (some p))
    (named : ∀ j ∈ w'.disk.db.gitOperationIntents, j.id = id → j.incomplete = true →
      ∀ p, j.packName = some p → Names w j.repositoryPath p id)
    (own : ∀ j ∈ w.disk.db.gitOperationIntents, j.id = id → j.incomplete = true →
      (∃ j' ∈ w'.disk.db.gitOperationIntents, j'.incomplete = true ∧ j'.id = j.id ∧
        j'.repositoryPath = j.repositoryPath ∧ j'.proposedRefs = j.proposedRefs) ∨
      ∀ path p, ¬Names w' path p id) :
    Progress w w' := by
  refine ⟨fun path git' after => ?_, fun path _ p id' _ _ names => ?_, fun j hj open' => ?_⟩
  · rw [git] at after
    exact ⟨git', after, fun _ here => here, fun _ here => here⟩
  · rcases names with ⟨j, hj, open', same, at', pack⟩ | ⟨marked, stage, rest⟩
    · by_cases here : j.id = id
      · obtain rfl := same
        rw [here, ← at']
        exact named j hj here open' p pack
      · exact .inl ⟨j, (kept.others j here).mp hj, open', same, at', pack⟩
    · exact .inr ⟨marked, push marked p stage, rest⟩
  · by_cases here : j.id = id
    · rw [here]
      have row := own j hj here open'
      rwa [here] at row
    · exact .inl ⟨j, (kept.others j here).mpr hj, open', rfl, rfl, rfl⟩

end Progress

/-! ## What is held is there -/

section Steps

variable {w w' : World graph}

theorem stored_of_available {path : RepositoryPath} {git : GitRepository}
    {own : Identifier → Prop} {o : ObjectId} (available : Available w path git own o) :
    graph.stored git o = true := by
  unfold ObjectGraph.stored
  rw [Bool.or_eq_true, decide_eq_true_eq, List.any_eq_true]
  refine available.imp_right ?_
  rintro ⟨p, hp, inside, -⟩
  exact ⟨p, hp, decide_eq_true inside⟩

theorem Held.stored {path : RepositoryPath} {name : RefName} {x : ObjectId}
    {others : Identifier → Prop} (held : Held w path name x others) {git : GitRepository}
    (opened : w.disk.git path = some git) {o : ObjectId} (reached : Reaches graph.links x o) :
    graph.stored git o = true := by
  rcases held with safe | ⟨_, _, _, _, _, _, _, safe⟩
  · exact stored_of_available (safe git opened o reached)
  · exact stored_of_available (safe git opened o reached)

theorem Entangled.complete (entangled : Entangled w) : Complete w :=
  fun path git opened name x value _ reached =>
    (entangled.refs path git opened name x value).stored opened reached

/-! ## Transactions -/

theorem unmarked {stage : PushStage} (other : ∀ push p, stage ≠ .marking push (some p)) :
    ∀ push p, stage = .marking push (some p) → w.push = .marking push (some p) :=
  fun push p same => absurd same (other push p)

/-- A new row has no pack. -/
theorem progress_insert {intent : NewGitOperationIntent} (git : w'.disk.git = w.disk.git)
    (kept : Kept w.disk.db w'.disk.db intent.id)
    (rows : ∀ j, j ∈ w'.disk.db.gitOperationIntents ↔
      j ∈ w.disk.db.gitOperationIntents ∨ j = gitIntentRow intent)
    (fresh : ∀ j ∈ w.disk.db.gitOperationIntents, j.id ≠ intent.id)
    (push : ∀ push p, w'.push = .marking push (some p) → w.push = .marking push (some p)) :
    Progress w w' := by
  refine .transaction git kept push (fun j hj own _ p pack => ?_) fun j hj own => ?_
  · rcases (rows j).mp hj with old | rfl
    · exact absurd own (fresh j old)
    · cases pack
  · exact absurd own (fresh j hj)

/-- A row that is marked keeps its data; the pack it gets was named by the lane. -/
theorem progress_mark {id : Identifier} {packName : Option PackName} {db : Database}
    (ok : w.disk.db.markGitObjectsPromoted id packName = .ok db)
    (disk : w'.disk = { w.disk with db })
    (push : ∀ push p, w'.push = .marking push (some p) → w.push = .marking push (some p))
    (named : ∀ i ∈ w.disk.db.gitOperationIntents, i.id = id → ∀ p, packName = some p →
      Names w i.repositoryPath p id) : Progress w w' := by
  have kept : Kept w.disk.db w'.disk.db id := by
    rw [disk]
    exact kept_mark ok
  obtain ⟨i, hi, rfl, -, intents, rfl, rows⟩ := markGitObjectsPromoted_rows ok
  have rows' : ∀ j, j ∈ w'.disk.db.gitOperationIntents ↔
      (j ∈ w.disk.db.gitOperationIntents ∧ j.id ≠ i.id) ∨
        j = { i with state := .promoted, packName } := by
    rw [disk]
    exact rows
  refine .transaction (by rw [disk]) kept push (fun j hj own _ p pack => ?_) fun j hj own _ => ?_
  · rcases (rows' j).mp hj with ⟨-, other⟩ | rfl
    · exact absurd own other
    · exact named i hi rfl p pack
  · obtain rfl := eq_of_id hj hi own
    exact .inl ⟨_, (rows' _).mpr (.inr rfl), incomplete_iff.mpr (.inr rfl), rfl, rfl, rfl⟩

/-- An intent that is settled names no pack any more. -/
theorem progress_settled {i : GitOperationIntent} {state : IntentState}
    (member : i ∈ w.disk.db.gitOperationIntents) (git : w'.disk.git = w.disk.git)
    (settled : Settled w.disk.db w'.disk.db i state)
    (done : state = .completed ∨ state = .abandoned)
    (merges : ∀ m ∈ w'.disk.db.pullRequestMergeIntents, m ∈ w.disk.db.pullRequestMergeIntents)
    (push : ∀ push p, w'.push = .marking push (some p) → w.push = .marking push (some p))
    (apart : ∀ push p, w'.push = .marking push (some p) → push.id ≠ i.id) : Progress w w' := by
  have gone : ∀ j ∈ w'.disk.db.gitOperationIntents, j.id = i.id → ¬j.incomplete = true := by
    intro j hj own
    rcases (settled.rows j).mp hj with ⟨-, other⟩ | rfl
    · exact absurd own other
    · exact incomplete_of_settled done
  refine .transaction git (kept_settled member settled merges) push
    (fun j hj own open' => absurd open' (gone j hj own)) fun j _ own _ => .inr ?_
  rintro path p (⟨k, hk, open', id, -⟩ | ⟨marked, stage, id, -⟩)
  · exact gone k hk id open'
  · exact apart marked p stage id

theorem progress_completed {id : Identifier} {db : Database}
    (ok : w.disk.db.completeGitIntent id = .ok db) (disk : w'.disk = { w.disk with db })
    (push : ∀ push p, w'.push = .marking push (some p) → w.push = .marking push (some p))
    (apart : ∀ push p, w'.push = .marking push (some p) → push.id ≠ id) : Progress w w' := by
  obtain ⟨i, hi, rfl, -, settled, -, merges⟩ := completed_touches ok
  refine progress_settled hi (by rw [disk]) (by rw [disk]; exact settled) (.inl rfl) ?_ push apart
  rw [disk]
  exact fun m hm => merges ▸ hm

theorem progress_abandoned {id : Identifier} {db : Database}
    (ok : w.disk.db.abandonGitIntent id = .ok db) (disk : w'.disk = { w.disk with db })
    (push : ∀ push p, w'.push = .marking push (some p) → w.push = .marking push (some p))
    (apart : ∀ push p, w'.push = .marking push (some p) → push.id ≠ id) : Progress w w' := by
  obtain ⟨i, hi, rfl, -, settled, -, merges⟩ := abandoned_touches ok
  refine progress_settled hi (by rw [disk]) (by rw [disk]; exact settled) (.inr rfl) ?_ push apart
  rw [disk]
  exact merges

/-- The rows of the transactions of the merge lane that are not its own. -/
theorem WellFormed.unpacked (wf : WellFormed w) {m : Merge graph} (begun : w.merge.begun = some m)
    {i : GitOperationIntent} (member : i ∈ w.disk.db.gitOperationIntents)
    (pack : i.packName ≠ none) : i.id ≠ m.id := by
  intro same
  have row : ∃ state, m.row state ∈ w.disk.db.gitOperationIntents := by
    have fits := wf.merge
    cases stage : w.merge with
    | idle | read m' =>
        rw [stage] at begun
        cases begun
    | completing m' moved =>
        rw [stage] at begun fits
        cases begun
        cases moved with
        | true => exact fits.1
        | false => exact fits.1
    | writing m' | marking m' | committing m' | refused m' | abandoning m' =>
        rw [stage] at begun fits
        cases begun
        exact fits.1
  obtain ⟨state, row⟩ := row
  rw [eq_of_id member row same] at pack
  exact pack rfl

/-! ## The steps of a push -/

variable {push : Push} {git : GitRepository}

theorem place_progress (disk : w'.disk = (w.disk.place push.path push.pack).1)
    (marked : ∀ push' p, w'.push = .marking push' (some p) →
      (w.disk.place push.path push.pack).2 = some p ∧ push'.path = push.path) :
    Progress w w' ∧ RefsSafe w w' := by
  have db : w'.disk.db = w.disk.db := by rw [disk, Disk.place_db]
  rcases w.disk.place_cases push.path push.pack with same | ⟨git, q, opened, -, new, placed⟩
  · rw [same] at disk marked
    refine ⟨.lanes disk fun push' p stage => ?_, .of_git (by rw [disk])⟩
    cases (marked push' p stage).1
  · rw [placed] at disk marked
    have after : ∀ path git', w'.disk.git path = some git' → ∃ git, w.disk.git path = some git ∧
        git'.refs = git.refs ∧ git'.loose = git.loose ∧ ∀ p ∈ git.packs, p ∈ git'.packs := by
      intro path git' found
      rw [disk] at found
      by_cases here : path = push.path
      · rw [here, Disk.setGit_same] at found
        cases found
        exact ⟨git, here ▸ opened, rfl, rfl, fun p hp => List.mem_cons_of_mem _ hp⟩
      · rw [Disk.setGit_other _ here] at found
        exact ⟨git', found, rfl, rfl, fun p hp => hp⟩
    refine ⟨⟨fun path git' found => ?_, fun path git' p id before hp names => ?_,
      fun j hj open' => ?_⟩,
      fun path git' found => ?_⟩
    · obtain ⟨git, before, -, loose, packs⟩ := after path git' found
      exact ⟨git, before, fun o ho => loose ▸ ho, packs⟩
    · rcases names with row | ⟨push', stage, -, at'⟩
      · rw [db] at row
        exact .inl row
      · obtain ⟨same, path'⟩ := marked push' p stage
        cases same
        rw [← at', path', opened] at before
        cases before
        exact absurd hp new
    · rw [db]
      exact .inl ⟨j, hj, open', rfl, rfl, rfl⟩
    · obtain ⟨git, before, refs, -⟩ := after path git' found
      exact ⟨git, before, fun name x value => .inl (refs ▸ value)⟩

theorem mem_placed {p : PackName} (opened : w.disk.git push.path = some git)
    (pack : push.pack = some p) {git' : GitRepository}
    (after : (w.disk.place push.path push.pack).1.git push.path = some git') : p ∈ git'.packs := by
  unfold Disk.place at after
  rw [opened, pack] at after
  dsimp only at after
  split at after
  · rw [opened] at after
    cases after
    assumption
  · rw [Disk.setGit_same] at after
    cases after
    exact List.mem_cons_self

/-- The world after the pack of a push was placed. -/
def placedBy (w : World graph) (push : Push) : World graph :=
  { w with
    disk := (w.disk.place push.path push.pack).1
    push := .marking push (w.disk.place push.path push.pack).2 }

theorem placedBy_progress (w : World graph) (push : Push) :
    Progress w (placedBy w push) ∧ RefsSafe w (placedBy w push) := by
  refine place_progress rfl fun push' p stage => ?_
  obtain ⟨same, named⟩ := PushStage.marking.inj stage
  exact ⟨named, congrArg Push.path same.symm⟩

theorem place_prepared (opened : w.disk.git push.path = some git)
    (valid : graph.validates git push = true) (independent : UnentangledPush w push git) :
    (placedBy w push).push.Prepared (placedBy w push) := by
  have progress := (placedBy_progress w push).1
  intro c hc some git' after o reached
  have found : graph.combined git push.pack o = true := by
    have walked := List.all_eq_true.mp valid c hc
    rw [some, Bool.false_or, Option.isSome_iff_exists] at walked
    obtain ⟨visited, ends⟩ := walked
    exact walk_reaches ends reached
  rcases independent c hc some o reached found with available | ⟨p, pack, inside, unnamed⟩
  · obtain ⟨git₀, before, loose, packs⟩ := progress.files push.path git' after
    rw [opened] at before
    cases before
    rcases progress.available opened loose packs available with here | ⟨p, hp, inside, alone⟩
    · exact .inl here
    · exact .inr ⟨p, hp, inside, fun id names => (alone id names).elim⟩
  · refine .inr ⟨p, mem_placed opened pack after, inside, fun id names => ?_⟩
    rcases names with row | ⟨push', marked, own, -⟩
    · have db : (placedBy w push).disk.db = w.disk.db := w.disk.place_db _ _
      rw [db] at row
      exact absurd (.inl row) (unnamed id)
    · rw [← own, ← (PushStage.marking.inj marked).1]
      rfl

theorem entangled_place (entangled : Entangled w) (wf : WellFormed (placedBy w push))
    (opened : w.disk.git push.path = some git)
    (valid : graph.validates git push = true) (independent : UnentangledPush w push git) :
    Entangled (placedBy w push) := by
  obtain ⟨progress, refs⟩ := placedBy_progress w push
  exact entangled.pushLane wf progress refs rfl (place_prepared opened valid independent)
    fun _ lane => by cases lane

theorem entangled_markPush (entangled : Entangled w) {packName : Option PackName} {db : Database}
    (wf : WellFormed { w with disk := { w.disk with db }, push := .committing push })
    (stage : w.push = .marking push packName)
    (ok : w.disk.db.markGitObjectsPromoted push.id packName = .ok db) :
    Entangled { w with disk := { w.disk with db }, push := .committing push } := by
  have fits := entangled.wellFormed.push
  rw [stage] at fits
  have progress : Progress w { w with disk := { w.disk with db }, push := .committing push } := by
    refine progress_mark ok rfl (unmarked nofun) fun i hi own p pack => ?_
    obtain rfl := eq_of_id hi fits.1 own
    exact .inr ⟨push, by rw [stage, pack], rfl, rfl⟩
  refine entangled.pushLane wf progress (.of_git rfl) rfl ?_ fun _ lane => by cases lane
  have prepared := entangled.push
  rw [stage] at prepared
  exact fun c hc some => progress.safe (prepared c hc some)

/-- The references after a transaction. -/
theorem applied_cases {commands : Commands} {name : RefName} {x : ObjectId}
    (value : (git.applied commands).refs name = some x) :
    (∃ c ∈ commands.list, c.name = name ∧ c.new = x ∧ x.isNull = false) ∨
      git.refs name = some x := by
  by_cases named : ∃ c ∈ commands.list, c.name = name
  · obtain ⟨c, hc, rfl⟩ := named
    rw [GitRepository.applied_of_mem git hc] at value
    unfold target at value
    split at value
    · cases value
    · rename_i some
      cases value
      exact .inl ⟨c, hc, rfl, rfl, Bool.eq_false_iff.mpr some⟩
  · rw [GitRepository.applied_of_not_mem git fun c hc same => named ⟨c, hc, same⟩] at value
    exact .inr value

/-- The world after a reference transaction, whatever lane it is of. -/
theorem applied_progress {path : RepositoryPath} {commands : Commands}
    (opened : w.disk.git path = some git)
    (disk : w'.disk = w.disk.setGit path (git.applied commands))
    (push : ∀ push p, w'.push = .marking push (some p) → w.push = .marking push (some p)) :
    Progress w w' ∧ ∀ path' git', w'.disk.git path' = some git' →
      ∃ git, w.disk.git path' = some git ∧ ∀ name x, git'.refs name = some x →
        git.refs name = some x ∨ path' = path ∧
          ∃ c ∈ commands.list, c.name = name ∧ c.new = x ∧ x.isNull = false := by
  have db : w'.disk.db = w.disk.db := by rw [disk, Disk.setGit_db]
  have after : ∀ path' git', w'.disk.git path' = some git' → ∃ git, w.disk.git path' = some git ∧
      git'.loose = git.loose ∧ git'.packs = git.packs ∧ ∀ name x, git'.refs name = some x →
        git.refs name = some x ∨ path' = path ∧
          ∃ c ∈ commands.list, c.name = name ∧ c.new = x ∧ x.isNull = false := by
    intro path' git' found
    rw [disk] at found
    by_cases here : path' = path
    · rw [here, Disk.setGit_same] at found
      cases found
      exact ⟨git, here ▸ opened, rfl, rfl, fun name x value =>
        (applied_cases value).symm.imp_right fun moved => ⟨here, moved⟩⟩
    · rw [Disk.setGit_other _ here] at found
      exact ⟨git', found, rfl, rfl, fun name x value => .inl value⟩
  refine ⟨⟨fun path' git' found => ?_, fun path' git' p id before hp names => ?_,
    fun j hj open' => ?_⟩, fun path' git' found => ?_⟩
  · obtain ⟨git, before, loose, packs, -⟩ := after path' git' found
    exact ⟨git, before, fun o ho => loose ▸ ho, fun p hp => packs ▸ hp⟩
  · rcases names with row | ⟨push', stage, rest⟩
    · rw [db] at row
      exact .inl row
    · exact .inr ⟨push', push push' p stage, rest⟩
  · rw [db]
    exact .inl ⟨j, hj, open', rfl, rfl, rfl⟩
  · obtain ⟨git, before, -, -, refs⟩ := after path' git' found
    exact ⟨git, before, refs⟩

theorem entangled_movePush (entangled : Entangled w)
    (wf : WellFormed { w with
      disk := w.disk.setGit push.path (git.applied push.commands)
      push := .completing push, committed := push.id :: w.committed })
    (stage : w.push = .committing push) (opened : w.disk.git push.path = some git) :
    Entangled { w with
      disk := w.disk.setGit push.path (git.applied push.commands)
      push := .completing push, committed := push.id :: w.committed } := by
  obtain ⟨progress, refs⟩ := @applied_progress _ w { w with
    disk := w.disk.setGit push.path (git.applied push.commands)
    push := .completing push, committed := push.id :: w.committed } git push.path push.commands
    opened rfl (unmarked nofun)
  have fits := entangled.wellFormed.push
  have prepared := entangled.push
  rw [stage] at fits prepared
  obtain ⟨⟨packName, row⟩, -⟩ := fits
  refine ⟨wf, fun path git' after name x value => ?_, trivial,
    progress.mergePrepared entangled.merge, fun _ lane => by cases lane⟩
  obtain ⟨git₀, before, values⟩ := refs path git' after
  rcases values name x value with old | ⟨rfl, c, hc, rfl, rfl, some⟩
  · exact progress.held (entangled.refs path git₀ before name x old)
  · exact .inr ⟨_, row, incomplete_iff.mpr (.inr rfl), rfl, trivial,
      List.mem_map.mpr ⟨c, hc, rfl⟩, some, progress.safe (prepared c hc some)⟩

/-! ## The steps of recovery -/

variable {i : GitOperationIntent} {rest : List GitOperationIntent}

/-- A reference that is not at a new value of the intent does not need its pack. -/
theorem Entangled.unneeded (entangled : Entangled w) (snapshot : Snapshot w.disk.db i)
    {name : RefName} (elsewhere : ∀ git, w.disk.git i.repositoryPath = some git → ∀ x,
      git.refs name = some x → x.isNull = false → (name, x) ∉ i.proposedRefs) :
    Unneeded w i name := by
  intro git opened x value
  obtain ⟨k, hk, id, -, -, proposed⟩ := snapshot.data
  rcases entangled.refs _ git opened name x value with safe | ⟨j, hj, incomplete, at', -, new, rest⟩
  · exact .inl safe
  · refine .inr ⟨j, hj, incomplete, at', fun same => ?_, new, rest⟩
    obtain rfl := eq_of_id hj hk (same.trans id.symm)
    rw [proposed] at new
    exact elsewhere git opened x value rest.1 new

theorem Snapshot.commands (wf : WellFormed w) (snapshot : Snapshot w.disk.db i) :
    ∃ commands : Commands, i.initialRefs = commands.initial ∧
      i.proposedRefs = commands.proposed := by
  obtain ⟨j, hj, -, -, initial, proposed⟩ := snapshot.data
  obtain ⟨commands, old, new⟩ := wf.consistent.commands j hj
  exact ⟨commands, initial ▸ old, proposed ▸ new⟩

theorem read_initial (entangled : Entangled w) (snapshot : Snapshot w.disk.db i)
    {e : RefName × ObjectId} (member : e ∈ i.initialRefs) (same : reads w.disk i e = some true) :
    Unneeded w i e.1 := by
  obtain ⟨commands, initial, proposed⟩ := snapshot.commands entangled.wellFormed
  refine entangled.unneeded snapshot fun git opened x value _ new => ?_
  rw [initial] at member
  obtain ⟨c, hc, rfl⟩ := List.mem_map.mp member
  rw [proposed] at new
  obtain ⟨d, hd, equal⟩ := List.mem_map.mp new
  obtain ⟨names, rfl⟩ := Prod.mk.inj equal
  obtain rfl := commands.eq_of_name hd hc names
  have read := GitRepository.refsMatch_iff.mp
    (Option.some.inj ((congrArg (Option.map _) opened).symm.trans same)) _ List.mem_cons_self
  have old : d.old = d.new := by
    rw [value] at read
    unfold target at read
    split at read
    · cases read
    · exact (Option.some.inj read).symm
  exact commands.changes d hd old

theorem read_proposed (entangled : Entangled w) (snapshot : Snapshot w.disk.db i)
    (single : i.initialRefs.length = 1) {e : RefName × ObjectId} (member : e ∈ i.proposedRefs)
    (other : reads w.disk i e = some false) : ∀ e ∈ i.initialRefs, Unneeded w i e.1 := by
  obtain ⟨commands, initial, proposed⟩ := snapshot.commands entangled.wellFormed
  rw [initial, Commands.initial, List.length_map, List.length_eq_one_iff] at single
  obtain ⟨c, one⟩ := single
  rw [proposed, Commands.proposed, one, List.map_singleton, List.mem_singleton] at member
  subst member
  intro e' he'
  rw [initial, Commands.initial, one, List.map_singleton, List.mem_singleton] at he'
  subst he'
  refine entangled.unneeded snapshot fun git opened x value some new => ?_
  rw [proposed, Commands.proposed, one, List.map_singleton, List.mem_singleton] at new
  obtain ⟨-, rfl⟩ := Prod.mk.inj new
  have read : git.refsMatch [(c.name, c.new)] = false :=
    Option.some.inj ((congrArg (Option.map _) opened).symm.trans other)
  have matching : git.refsMatch [(c.name, c.new)] = true := by
    rw [GitRepository.refsMatch_iff]
    intro e he
    rw [List.mem_singleton] at he
    subst he
    rw [value, target, some]
    rfl
  rw [read] at matching
  cases matching

theorem decided_pending {atInitial atProposed : Bool} {next : Recovery}
    (decides : decided i atInitial atProposed rest = .continues next) :
    next.pending = i :: rest := by
  unfold decided at decides
  split at decides
  · cases decides
  all_goals
    cases decides
    rfl

theorem Looks.pending_eq {disk : Disk} {at' next : Recovery} (looks : Looks disk at' next) :
    next.pending = at'.pending := by
  cases looks with
  | take | initialSame | initialOther | initialEnd | proposedSame => rfl
  | proposedOther _ decides | proposedEnd decides => exact decided_pending decides

/-- What recovery has read when it decides to remove the pack. -/
theorem decided_cleared {atInitial atProposed : Bool} {next : Recovery}
    (decides : decided i atInitial atProposed rest = .continues next)
    (initial : atInitial = true → ∀ e ∈ i.initialRefs, Unneeded w i e.1)
    (single : atInitial = false → atProposed = false → i.initialRefs.length = 1 →
      ∀ e ∈ i.initialRefs, Unneeded w i e.1) : next.Cleared w := by
  unfold decided at decides
  split at decides
  · cases decides
  · cases decides
    trivial
  · cases decides
    trivial
  · rename_i removes
    cases decides
    unfold settlement at removes
    split at removes
    · cases removes
    · split at removes <;> cases removes
    · cases removes
    · exact initial rfl
    · split at removes
      · exact single rfl rfl ‹_›
      · cases removes
    · cases removes

theorem entangled_look (entangled : Entangled w) {at' next : Recovery}
    (wf : WellFormed { w with push := .recovering next }) (stage : w.push = .recovering at')
    (looks : Looks w.disk at' next) : Entangled { w with push := .recovering next } := by
  have progress : Progress w { w with push := .recovering next } := .lanes rfl (unmarked nofun)
  have refs : RefsSafe w { w with push := .recovering next } := .of_git rfl
  obtain ⟨current, cleared⟩ := entangled.recovery at' stage
  have fits := entangled.wellFormed.push
  rw [stage] at fits
  refine entangled.pushLane wf progress refs rfl trivial ?_
  rintro _ ⟨⟩
  refine ⟨⟨looks.pending_eq ▸ current.distinct, looks.pending_eq ▸ current.rows⟩,
    progress.cleared refs ?_⟩
  cases looks with
  | take => exact fun e he => .inl he
  | @initialSame i e left rest same =>
      intro e' he'
      rcases cleared e' he' with here | unneeded
      · rcases List.mem_cons.mp here with rfl | later
        · exact .inr (read_initial entangled fits.1 he' same)
        · exact .inl later
      · exact .inr unneeded
  | initialOther => trivial
  | initialEnd => exact fun e he => (cleared e he).resolve_left List.not_mem_nil
  | @proposedSame i atInitial e left rest same =>
      cases atInitial with
      | true => exact cleared
      | false => trivial
  | @proposedOther i atInitial e left rest _ other decides =>
      refine decided_cleared decides ?_ fun _ _ single => ?_
      · rintro rfl
        exact cleared
      · exact read_proposed entangled fits.1 single (fits.2.1 e List.mem_cons_self) other
  | @proposedEnd i atInitial rest _ decides =>
      refine decided_cleared decides ?_ fun _ contra => nomatch contra
      rintro rfl
      exact cleared

theorem entangled_list (entangled : Entangled w)
    (wf : WellFormed { w with push := .recovering (.listed w.disk.db.incompleteGitIntents) }) :
    Entangled { w with push := .recovering (.listed w.disk.db.incompleteGitIntents) } := by
  refine entangled.pushLane wf (.lanes rfl (unmarked nofun)) (.of_git rfl) rfl trivial ?_
  rintro _ ⟨⟩
  exact ⟨⟨incompleteGitIntents_distinct w.disk.db,
      fun i hi _ => (mem_incompleteGitIntents.mp hi).1⟩,
    trivial⟩

/-- **The removal of a pack**: what is held without the intent stays. -/
theorem entangled_remove (entangled : Entangled w)
    (wf : WellFormed { w with
      disk := w.disk.removePack i.repositoryPath i.packName
      push := .recovering (.settling i false rest) })
    (stage : w.push = .recovering (.removing i rest)) :
    Entangled { w with
      disk := w.disk.removePack i.repositoryPath i.packName
      push := .recovering (.settling i false rest) } := by
  let after : World graph := { w with
    disk := w.disk.removePack i.repositoryPath i.packName
    push := .recovering (.settling i false rest) }
  obtain ⟨current, cleared⟩ := entangled.recovery _ stage
  have fits := entangled.wellFormed.push
  rw [stage] at fits
  obtain ⟨incomplete, -⟩ := fits.1
  have names : ∀ path p id, Names after path p id → Names w path p id := by
    rintro path p id (row | ⟨push, marking, -⟩)
    · exact .inl row
    · cases marking
  -- the only pack that goes is named by the intent
  have safe : ∀ {path own x}, ¬own i.id → Safe w path own x → Safe after path own x := by
    intro path own x spared safe git' found o reached
    obtain ⟨git, before, packs⟩ := Disk.removePack_packs found
    have loose : git'.loose = git.loose := by
      obtain ⟨git₀, before₀, -, loose⟩ := (Disk.removePack_sameRefs w.disk _ _).back found
      rw [before] at before₀
      cases before₀
      exact loose
    rcases safe git before o reached with here | ⟨p, hp, inside, alone⟩
    · exact .inl (loose ▸ here)
    · refine .inr ⟨p, (packs p).mpr ⟨hp, ?_⟩, inside,
        fun id named => alone id (names path p id named)⟩
      rintro ⟨rfl, named⟩
      have row := current.rows i List.mem_cons_self (by rw [named]; nofun)
      exact spared (alone i.id (.inl ⟨i, row, incomplete, rfl, rfl, named⟩))
  have held : ∀ {path name x}, Held w path name x (fun id => id ≠ i.id) →
      Held after path name x fun _ => True := by
    rintro path name x (kept | ⟨j, hj, open', at', other, proposed, some, kept⟩)
    · exact .inl (safe id kept)
    · exact .inr ⟨j, hj, open', at', trivial, proposed, some,
        safe (fun same => other same.symm) kept⟩
  refine ⟨wf, fun path git' found name x value => ?_, trivial, ?_, ?_⟩
  · obtain ⟨git, before, refs, -⟩ := (Disk.removePack_sameRefs w.disk _ _).back found
    rw [refs] at value
    rcases entangled.refs path git before name x value with
      kept | ⟨j, hj, open', at', -, proposed, some, kept⟩
    · exact .inl (safe id kept)
    · by_cases own : j.id = i.id
      · obtain ⟨k, hk, id, path', -, new⟩ := fits.1.data
        obtain rfl := eq_of_id hj hk (own.trans id.symm)
        obtain ⟨commands, initial, same⟩ := fits.1.commands entangled.wellFormed
        rw [new, same] at proposed
        obtain ⟨c, hc, equal⟩ := List.mem_map.mp proposed
        obtain ⟨rfl, -⟩ := Prod.mk.inj equal
        have named : (c.name, c.old) ∈ i.initialRefs := initial ▸ List.mem_map.mpr ⟨c, hc, rfl⟩
        have unneeded := cleared _ named
        rw [path'] at at'
        subst at'
        exact held (unneeded git before x value)
      · exact held (.inr ⟨j, hj, open', at', own, proposed, some, kept⟩)
  · have prepared := entangled.merge
    show w.merge.Prepared after
    cases lane : w.merge with
    | read m =>
        rw [lane] at prepared
        exact ⟨safe id prepared.1, safe id prepared.2⟩
    | writing m =>
        rw [lane] at prepared
        exact ⟨prepared.1, safe id prepared.2.1, safe id prepared.2.2⟩
    | marking m | committing m =>
        rw [lane] at prepared
        exact safe id prepared
    | _ => trivial
  · rintro _ ⟨⟩
    exact ⟨⟨current.distinct, current.rows⟩, trivial⟩

theorem entangled_settle (entangled : Entangled w) {completes : Bool} {db : Database}
    {stage' : PushStage} {mode : Mode}
    (wf : WellFormed { w with disk := { w.disk with db }, push := stage', mode })
    (stage : w.push = .recovering (.settling i completes rest))
    (ok : (if completes then w.disk.db.completeGitIntent i.id
      else w.disk.db.abandonGitIntent i.id) = .ok db)
    (next : stage' = .recovering (.listed rest) ∨ stage' = .idle) :
    Entangled { w with disk := { w.disk with db }, push := stage', mode } := by
  obtain ⟨current, -⟩ := entangled.recovery _ stage
  have unmarking : ∀ push p, stage' ≠ .marking push (some p) := by
    rcases next with rfl | rfl
    · nofun
    · nofun
  have kept : Progress w { w with disk := { w.disk with db }, push := stage', mode } ∧
      ∀ j ∈ w.disk.db.gitOperationIntents, j.id ≠ i.id → j ∈ db.gitOperationIntents := by
    cases completes with
    | true =>
        obtain ⟨k, hk, own, -, settled, -⟩ := completed_touches ok
        refine ⟨progress_completed ok rfl (unmarked unmarking)
          (fun push p same => absurd same (unmarking push p)), fun j hj other => ?_⟩
        exact (settled.rows j).mpr (.inl ⟨hj, own ▸ other⟩)
    | false =>
        obtain ⟨k, hk, own, -, settled, -⟩ := abandoned_touches ok
        refine ⟨progress_abandoned ok rfl (unmarked unmarking)
          (fun push p same => absurd same (unmarking push p)), fun j hj other => ?_⟩
        exact (settled.rows j).mpr (.inl ⟨hj, own ▸ other⟩)
  obtain ⟨progress, others⟩ := kept
  have prepared : stage'.Prepared { w with disk := { w.disk with db }, push := stage', mode } := by
    rcases next with rfl | rfl
    · trivial
    · trivial
  refine entangled.pushLane wf progress (.of_git rfl) rfl prepared fun at' lane => ?_
  rcases next with rfl | rfl
  · cases lane
    obtain ⟨apart, distinct⟩ := List.pairwise_cons.mp current.distinct
    refine ⟨⟨distinct, fun j hj pack => ?_⟩, trivial⟩
    exact others j (current.rows j (List.mem_cons_of_mem _ hj) pack) (apart j hj).symm
  · cases lane

/-! ## The steps of a merge -/

variable {m : Merge graph}

theorem entangled_startMerge (entangled : Entangled w) (wf : WellFormed { w with merge := .read m })
    (read : readsMerge w.disk m = true) (independent : Independent w (.startMerge m)) :
    Entangled { w with merge := .read m } := by
  have progress : Progress w { w with merge := .read m } := .lanes rfl fun _ _ same => same
  refine entangled.mergeLane wf progress (.of_git rfl) rfl ?_ fun _ _ _ _ _ here => here
  unfold readsMerge at read
  split at read
  · rename_i access git _ opened
    simp only [Bool.and_eq_true] at read
    obtain ⟨-, read⟩ := read
    split at read
    · cases read
    · rename_i p _
      split at read
      · cases read
      · rw [decide_eq_true_eq] at read
        obtain ⟨-, -, -, base, head, -⟩ := read
        obtain ⟨fromBase, fromHead⟩ := independent git opened
        have safe : ∀ {name x}, git.refs name = some x → Unentangled w m.path git x →
            Safe w m.path nobody x := by
          intro name x value free git' found o reached
          rw [opened] at found
          cases found
          exact free o reached
            ((entangled.refs m.path git opened name x value).stored opened reached)
        exact ⟨progress.safe (safe base fromBase), progress.safe (safe head fromHead)⟩
  · cases read

theorem entangled_beginMerge (entangled : Entangled w) {db : Database} {stage' : MergeStage graph}
    (wf : WellFormed { w with disk := { w.disk with db }, merge := stage' })
    (stage : w.merge = .read m) (ok : w.disk.db.beginPullRequestMerge m.request m.intent = .ok db)
    (next : (m.request.method = .mergeCommit ∧ stage' = .writing m) ∨
      (m.request.method = .fastForward ∧ stage' = .marking m)) :
    Entangled { w with disk := { w.disk with db }, merge := stage' } := by
  have kept := kept_beginMerge entangled.wellFormed.agrees ok
  obtain ⟨repositoryId, p, r, intents, merges, -, of, -, -, -, inserted, added, rfl⟩ :=
    beginPullRequestMerge_eq_ok ok
  have fresh : ∀ j ∈ w.disk.db.gitOperationIntents, j.id ≠ m.intent.id := fun j hj same =>
    Table.insert_fresh inserted j hj (Schema.clash_of_key _ _ same)
  have progress : Progress w { w with disk := { w.disk with db := { w.disk.db with
      gitOperationIntents := intents, pullRequestMergeIntents := merges } }, merge := stage' } :=
    progress_insert rfl kept (fun j => Table.mem_insert inserted) fresh fun _ _ same => same
  refine entangled.mergeLane wf progress (.of_git rfl) rfl ?_ fun _ _ i _ _ here =>
    (Table.mem_insert inserted).mpr (.inl here)
  have prepared := entangled.merge
  rw [stage] at prepared
  rcases next with ⟨method, rfl⟩ | ⟨method, rfl⟩
  · exact ⟨method, progress.safe prepared.1, progress.safe prepared.2⟩
  · have target := m.target
    rw [method] at target
    show Safe _ m.path nobody m.request.newTarget
    rw [show m.request.newTarget = m.request.headTarget from target]
    exact progress.safe prepared.2

/-- What a merge has written needs what it has written, and what its two branches need. -/
theorem Merge.reaches (m : Merge graph) {x o : ObjectId} (written : x ∈ m.written)
    (path : Reaches graph.links x o) : o ∈ m.written ∨ Reaches graph.links m.request.oldTarget o ∨
      Reaches graph.links m.request.headTarget o := by
  induction path with
  | refl => exact .inl written
  | tail _ link ih =>
      rcases ih with inside | base | head
      · exact m.linked _ inside _ link
      · exact .inr (.inl (base.tail link))
      · exact .inr (.inr (head.tail link))

theorem entangled_write (entangled : Entangled w)
    (wf : WellFormed { w with disk := writeObjects w.disk m, merge := .marking m })
    (stage : w.merge = .writing m) :
    Entangled { w with disk := writeObjects w.disk m, merge := .marking m } := by
  have prepared := entangled.merge
  rw [stage] at prepared
  obtain ⟨method, base, head⟩ := prepared
  have after : ∀ path git', (writeObjects w.disk m).git path = some git' →
      ∃ git, w.disk.git path = some git ∧ git'.refs = git.refs ∧ git'.packs = git.packs ∧
        (∀ o ∈ git.loose, o ∈ git'.loose) ∧ (path = m.path → ∀ o ∈ m.written, o ∈ git'.loose) := by
    intro path git' found
    unfold writeObjects at found
    split at found
    · rename_i closed
      refine ⟨git', found, rfl, rfl, fun o ho => ho, ?_⟩
      rintro rfl
      rw [closed] at found
      cases found
    · rename_i git opened
      by_cases here : path = m.path
      · rw [here, Disk.setGit_same] at found
        cases found
        exact ⟨git, here ▸ opened, rfl, rfl, fun o ho => List.mem_append_right _ ho,
          fun _ o ho => List.mem_append_left _ ho⟩
      · rw [Disk.setGit_other _ here] at found
        exact ⟨git', found, rfl, rfl, fun o ho => ho, fun same => absurd same here⟩
  have db : (writeObjects w.disk m).db = w.disk.db := writeObjects_db _ _
  have progress : Progress w { w with disk := writeObjects w.disk m, merge := .marking m } := by
    refine ⟨fun path git' found => ?_, fun path git p id before hp names => ?_,
      fun j hj open' => ?_⟩
    · obtain ⟨git, before, -, packs, loose, -⟩ := after path git' found
      exact ⟨git, before, loose, fun p hp => packs ▸ hp⟩
    · rcases names with row | marking
      · rw [db] at row
        exact .inl row
      · exact .inr marking
    · rw [db]
      exact .inl ⟨j, hj, open', rfl, rfl, rfl⟩
  have refs : RefsSafe w { w with disk := writeObjects w.disk m, merge := .marking m } := by
    intro path git' found
    obtain ⟨git, before, refs, -⟩ := after path git' found
    exact ⟨git, before, fun name x value => .inl (refs ▸ value)⟩
  refine entangled.mergeLane wf progress refs rfl ?_ fun _ _ i _ _ here => db.symm ▸ here
  have target := m.target
  rw [method] at target
  intro git' found o reached
  obtain ⟨-, -, -, -, -, written⟩ := after m.path git' found
  rcases m.reaches target reached with inside | fromBase | fromHead
  · exact .inl (written rfl o inside)
  · exact progress.safe base git' found o fromBase
  · exact progress.safe head git' found o fromHead

theorem entangled_markMerge (entangled : Entangled w) {db : Database}
    (wf : WellFormed { w with disk := { w.disk with db }, merge := .committing m })
    (stage : w.merge = .marking m) (ok : w.disk.db.markGitObjectsPromoted m.id none = .ok db) :
    Entangled { w with disk := { w.disk with db }, merge := .committing m } := by
  have begun : w.merge.begun = some m := by
    rw [stage]
    rfl
  have progress : Progress w { w with disk := { w.disk with db }, merge := .committing m } :=
    progress_mark ok rfl (fun _ _ same => same) fun _ _ _ _ none => nomatch none
  have prepared := entangled.merge
  rw [stage] at prepared
  refine entangled.mergeLane wf progress (.of_git rfl) rfl (progress.safe prepared) ?_
  intro _ _ i _ pack member
  exact ((kept_mark ok).others i (entangled.wellFormed.unpacked begun member pack)).mpr member

theorem entangled_moveMerge (entangled : Entangled w)
    (wf : WellFormed { w with
      disk := w.disk.setGit m.path (git.applied m.commands)
      merge := .completing m true, committed := m.id :: w.committed })
    (stage : w.merge = .committing m) (opened : w.disk.git m.path = some git) :
    Entangled { w with
      disk := w.disk.setGit m.path (git.applied m.commands)
      merge := .completing m true, committed := m.id :: w.committed } := by
  obtain ⟨progress, refs⟩ := @applied_progress _ w { w with
    disk := w.disk.setGit m.path (git.applied m.commands)
    merge := .completing m true, committed := m.id :: w.committed } git m.path m.commands
    opened rfl fun _ _ same => same
  have prepared := entangled.merge
  rw [stage] at prepared
  refine entangled.mergeLane wf progress ?_ rfl trivial fun _ _ i _ _ here => here
  intro path git' found
  obtain ⟨git₀, before, values⟩ := refs path git' found
  refine ⟨git₀, before, fun name x value => (values name x value).imp_right ?_⟩
  rintro ⟨rfl, c, hc, rfl, rfl, -⟩
  have own : c.new = m.request.newTarget := by
    rw [Merge.commands, Commands.single, List.mem_singleton] at hc
    rw [hc]
  rw [own]
  exact progress.safe prepared

/-- The merge lane ends its intent. -/
theorem entangled_endMerge (entangled : Entangled w) {db : Database} {ok' : Bool}
    (wf : WellFormed (returns { w with disk := { w.disk with db } } m ok'))
    (begun : w.merge.begun = some m)
    (ok : w.disk.db.completeGitIntent m.id = .ok db ∨ w.disk.db.abandonGitIntent m.id = .ok db) :
    Entangled (returns { w with disk := { w.disk with db } } m ok') := by
  have apart : ∀ push p, w.push = .marking push (some p) → push.id ≠ m.id := fun push p stage =>
    entangled.wellFormed.apart push m (by rw [stage]; rfl) begun
  have kept : Progress w (returns { w with disk := { w.disk with db } } m ok') ∧
      ∀ j ∈ w.disk.db.gitOperationIntents, j.id ≠ m.id → j ∈ db.gitOperationIntents := by
    rcases ok with ok | ok
    · obtain ⟨k, hk, own, -, settled, -⟩ := completed_touches ok
      refine ⟨progress_completed ok rfl (fun _ _ same => same) apart, fun j hj other => ?_⟩
      exact (settled.rows j).mpr (.inl ⟨hj, own ▸ other⟩)
    · obtain ⟨k, hk, own, -, settled, -⟩ := abandoned_touches ok
      refine ⟨progress_abandoned ok rfl (fun _ _ same => same) apart, fun j hj other => ?_⟩
      exact (settled.rows j).mpr (.inl ⟨hj, own ▸ other⟩)
  obtain ⟨progress, others⟩ := kept
  refine entangled.mergeLane wf progress (.of_git rfl) rfl trivial fun _ _ i _ pack here => ?_
  exact others i here (entangled.wellFormed.unpacked begun here pack)

/-- A step of the merge lane that only changes its stage. -/
theorem entangled_stage (entangled : Entangled w) {stage' : MergeStage graph}
    {returned : List (Merge graph × Bool)} (wf : WellFormed { w with merge := stage', returned })
    (free : ∀ w', stage'.Prepared w') : Entangled { w with merge := stage', returned } :=
  entangled.mergeLane wf (.lanes rfl fun _ _ same => same) (.of_git rfl) rfl (free _)
    fun _ _ _ _ _ here => here

/-! ## Every step -/

/-- **Every independent step keeps the invariant.** -/
theorem step_entangled {a : Action graph} (entangled : Entangled w) (independent : Independent w a)
    (transition : Transition w a w') : Entangled w' := by
  have wf := step_wellFormed entangled.wellFormed transition
  cases transition with
  | startPush up idle initial =>
      exact entangled.pushLane wf (.lanes rfl (unmarked nofun)) (.of_git rfl) rfl trivial
        fun _ lane => by cases lane
  | @beginPush push db stage ok =>
      obtain ⟨intents, rfl, rows, fresh⟩ := beginGitIntent_rows ok
      exact entangled.pushLane wf (progress_insert rfl (kept_begin ok) rows fresh (unmarked nofun))
        (.of_git rfl) rfl trivial fun _ lane => by cases lane
  | @place push git stage opened valid =>
      exact entangled_place entangled wf opened valid (independent push git stage opened)
  | @placeFails push stage =>
      obtain ⟨progress, refs⟩ := @place_progress _ w { w with
        disk := (w.disk.place push.path push.pack).1, push := .failing } push rfl nofun
      exact entangled.pushLane wf progress refs rfl trivial fun _ lane => by cases lane
  | markPush stage ok => exact entangled_markPush entangled wf stage ok
  | movePush stage opened initial => exact entangled_movePush entangled wf stage opened
  | completePush stage ok =>
      exact entangled.pushLane wf (progress_completed ok rfl (unmarked nofun) nofun) (.of_git rfl)
        rfl trivial fun _ lane => by cases lane
  | stopPush stops after =>
      rcases stops with rfl | rfl
      · exact entangled.pushLane wf (.lanes rfl (unmarked nofun)) (.of_git rfl) rfl trivial
          fun _ lane => by cases lane
      · exact entangled.pushLane wf (.lanes rfl (unmarked nofun)) (.of_git rfl) rfl trivial
          fun _ lane => by cases lane
  | list stage => exact entangled_list entangled wf
  | look stage looks => exact entangled_look entangled wf stage looks
  | remove stage => exact entangled_remove entangled wf stage
  | settle stage ok next after =>
      exact entangled_settle entangled wf stage ok (next.imp_right And.left)
  | startMerge up idle read => exact entangled_startMerge entangled wf read independent
  | beginMerge stage ok next => exact entangled_beginMerge entangled wf stage ok next
  | write stage => exact entangled_write entangled wf stage
  | markMerge stage ok => exact entangled_markMerge entangled wf stage ok
  | moveMerge stage opened initial => exact entangled_moveMerge entangled wf stage opened
  | refuse stage => exact entangled_stage entangled wf fun _ => trivial
  | refusedAtTarget stage opened same => exact entangled_stage entangled wf fun _ => trivial
  | giveUp stage => exact entangled_stage entangled wf fun _ => trivial
  | completeMerge stage ok =>
      exact entangled_endMerge entangled wf (by rw [stage]; rfl) (.inl ok)
  | abandonMerge stage ok =>
      exact entangled_endMerge entangled wf (by rw [stage]; rfl) (.inr ok)
  | storeFails stage => exact entangled_stage entangled wf fun _ => trivial
  | mergeFails => exact entangled_stage entangled wf fun _ => trivial
  | @setState request db ok unmerged =>
      have kept := kept_setState ok
      obtain ⟨_, _, _, pullRequests, events, rfl, _, _⟩ := setPullRequestState_rows ok
      have progress : Progress w { w with disk := { w.disk with db := { w.disk.db with
          pullRequests, repositoryEvents := events } } } :=
        ⟨fun path git' found => ⟨git', found, fun _ here => here, fun _ here => here⟩,
          fun _ _ _ _ _ _ names => names, fun j hj open' => .inl ⟨j, hj, open', rfl, rfl, rfl⟩⟩
      exact entangled.mergeLane wf progress (.of_git rfl) rfl
        (progress.mergePrepared entangled.merge) fun _ _ _ _ _ here => here
  | unchanged => exact entangled
  | crash =>
      exact entangled.next wf (.lanes rfl (unmarked nofun)) (.of_git rfl) trivial trivial
        fun _ lane => by cases lane
  | boot down =>
      exact entangled.pushLane wf (.lanes rfl (unmarked nofun)) (.of_git rfl) rfl trivial
        fun _ lane => by cases lane

theorem Fresh.entangled (fresh : Fresh graph) : Entangled fresh.toWorld where
  wellFormed := fresh.wellFormed
  refs path git opened name x value := by
    refine .inl fun git' found o reached => ?_
    rw [opened] at found
    cases found
    have stored := fresh.closed path git opened name x value o reached
    unfold ObjectGraph.stored at stored
    rw [Bool.or_eq_true, decide_eq_true_eq, List.any_eq_true] at stored
    refine stored.imp_right ?_
    rintro ⟨p, hp, inside⟩
    refine ⟨p, hp, of_decide_eq_true inside, ?_⟩
    rintro id (⟨i, hi, -⟩ | ⟨push, marking, -⟩)
    · exact absurd hi (fresh.noIntent i)
    · rw [fresh.idlePush] at marking
      cases marking
  push := by
    rw [fresh.idlePush]
    trivial
  merge := by
    rw [fresh.idleMerge]
    trivial
  recovery at' stage := by
    rw [fresh.idlePush] at stage
    cases stage

end Steps

/-- The object 4 comes in the pack 7. -/
def packGraph : ObjectGraph := ⟨fun _ => [], fun p => if p = 7 then [⟨4⟩] else []⟩

def packServer : Fresh packGraph where
  disk := sideServer.disk
  mode := .up
  push := .idle
  merge := .idle
  committed := []
  returned := []
  up := rfl
  idlePush := rfl
  idleMerge := rfl
  noCommit := sideServer.noCommit
  noReturn := rfl
  noIntent := sideServer.noIntent
  noMerge := sideServer.noMerge
  noGitEvent := sideServer.noGitEvent
  noSource := sideServer.noSource
  agrees := sideServer.agrees
  closed path git opened name id found o reached := by
    have stored := sideServer.closed path git opened name id found o reached
    unfold ObjectGraph.stored at stored ⊢
    rw [Bool.or_eq_true, decide_eq_true_eq, List.any_eq_true] at stored
    rcases stored with loose | ⟨p, -, inside⟩
    · rw [decide_eq_true loose, Bool.true_or]
    · cases of_decide_eq_true inside

def pushNew (id : Identifier) (name : String) (pack : Option PackName)
    (named : (isTag (asciiBytes name)).isSome = true) : Push where
  id := id
  repository := 1
  actor := "alice"
  commands := .single (asciiBytes name) .null ⟨4⟩ (by decide) named
  pack := pack
  createdAt := 1

def brokenRun : List (Action packGraph) :=
  [.startPush (pushNew 8 "refs/heads/first" (some 7) (by decide)), .pushNext, .pushNext,
    .pushNext, .pushFails false, .pushNext, .pushFails false,
    .startPush (pushNew 9 "refs/heads/second" none (by decide))] ++
  List.replicate 5 .pushNext ++ [.startRecovery] ++ List.replicate 6 .pushNext

/-- A branch is at an object that is not there. -/
def isBroken (w : World packGraph) : Bool :=
  match w.disk.git (.managed 1) with
  | none => false
  | some git => (git.refs (asciiBytes "refs/heads/second")).any fun id => !packGraph.stored git id

theorem brokenRun_ends : (run step packServer.toWorld brokenRun).any isBroken = true := by
  decide

end Tit.Operations
