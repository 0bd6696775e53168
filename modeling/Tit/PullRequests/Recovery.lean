/-
# PullRequests.Recovery -- is every interrupted opening or revision settled?

At most one intent is pending, because a call stores its intent only after recovery
has left none.  `IntentSound` says what completing it needs: the reference is at the
old or the new head, and for a revision the pull request is still open at the old
head, was created no later than the intent, and has no revision with this number yet.

Two steps can break that: storing a revision with a clock reading before the creation
of the pull request, and closing a pull request while a revision of it is pending.
Recovery then fails for every repository, because it settles the intents in order and
stops at the first failure.
-/
import Tit.PullRequests.System

namespace Tit.PullRequests

open Tit.Theory Tit.Store

set_option autoImplicit false

/-! ## What a run is meant to keep -/

/-- `recover_inner` run now succeeds, leaves no intent pending, and leaves every
reference at the stored head. -/
structure Recovers (w : World) : Prop where
  succeeds : (recover w).2 = none
  settled : ∀ i, ¬(recover w).1.db.Pending i
  agrees : ∀ p ∈ (recover w).1.db.pullRequests,
    (recover w).1.pullRef p.repositoryId p.number = some (some p.headObjectId)

/-! ## The condition -/

/-- A revision is stored with a clock reading that is not before the creation of its
pull request, and a pull request is closed only while no revision of it is pending. -/
def Allowed (w : World) : Action → Prop
  | .beginRevision intentId base head createdAt =>
      ∀ request current w', w.call = some (.revising request current) →
        beginRevision w request current intentId base head createdAt = .ok w' →
        ∀ p ∈ w.db.pullRequests, p.id = current.id → p.createdAt ≤ createdAt
  | .setState request =>
      request.state = .closed → ∀ p ∈ w.db.pullRequests,
        w.db.ChangesState request.owner request.repository request.number request.actor
          request.state request.changedAt p →
        ∀ i, w.db.Pending i → i.operation = .revise → i.pullRequestId ≠ p.id
  | _ => True

/-! ## The invariant -/

/-- The pull request that a pending revision changes. -/
structure Revisable (i : PullRequestRefIntent) (p : PullRequest) : Prop where
  id : p.id = i.pullRequestId
  repositoryId : p.repositoryId = i.repositoryId
  number : p.number = i.pullRequestNumber
  «open» : p.state = .open
  head : some p.headObjectId = i.oldHeadObjectId
  since : p.createdAt ≤ i.createdAt

/-- What the completion of an intent asks of the database. -/
def Completable (db : Database) (i : PullRequestRefIntent) : Prop :=
  match i.operation with
  | .open => ∀ p ∈ db.pullRequests, p.id ≠ i.pullRequestId ∧
      ¬(p.repositoryId = i.repositoryId ∧ p.number = i.pullRequestNumber)
  | .revise => (∃ p ∈ db.pullRequests, Revisable i p) ∧
      ∀ r ∈ db.pullRequestRevisions, r.pullRequestId = i.pullRequestId →
        r.number < i.revisionNumber

def AtOld (w : World) (i : PullRequestRefIntent) : Prop :=
  w.pullRef i.repositoryId i.pullRequestNumber = some i.oldHeadObjectId

def AtHead (w : World) (i : PullRequestRefIntent) : Prop :=
  w.pullRef i.repositoryId i.pullRequestNumber = some (some i.headObjectId)

structure IntentSound (w : World) (i : PullRequestRefIntent) : Prop where
  reference : AtOld w i ∨ AtHead w i
  numbered : i.pullRequestNumber < w.db.nextPullRequestNumber i.repositoryId
  completable : Completable w.db i

structure Sound (w : World) : Prop where
  single : ∀ i j, w.db.Pending i → w.db.Pending j → i = j
  intents : ∀ i, w.db.Pending i → IntentSound w i
  settled : ∀ p ∈ w.db.pullRequests, (∀ i, w.db.Pending i → i.pullRequestId ≠ p.id) →
    w.pullRef p.repositoryId p.number = some (some p.headObjectId)
  numbered : ∀ p ∈ w.db.pullRequests, p.number < w.db.nextPullRequestNumber p.repositoryId
  revisions : ∀ r ∈ w.db.pullRequestRevisions, ∃ p ∈ w.db.pullRequests, p.id = r.pullRequestId
  vacant : ∀ id refs n, w.refs id = some refs → w.db.nextPullRequestNumber id ≤ n → refs n = none

/-- The intents and the reference at this stage of the call under way. -/
def StageSound (w : World) : Stage → Prop
  | .opening _ | .reading _ | .revising _ _ => ∀ i, ¬w.db.Pending i
  | .applying i | .abandoning i => w.db.Pending i ∧ AtOld w i
  | .completing i => w.db.Pending i ∧ AtHead w i

structure Inv (w : World) : Prop where
  sound : Sound w
  call : ∀ stage, w.call = some stage → StageSound w stage

theorem Sound.withCall {w : World} (sound : Sound w) (call : Option Stage) :
    Sound { w with call } :=
  ⟨sound.single, fun i pending => ⟨(sound.intents i pending).reference,
    (sound.intents i pending).numbered, (sound.intents i pending).completable⟩,
    sound.settled, sound.numbered, sound.revisions, sound.vacant⟩

theorem Inv.idle {w : World} (sound : Sound w) (idle : w.call = none) : Inv w :=
  ⟨sound, fun _ called => by rw [idle] at called; cases called⟩

theorem Inv.withoutCall {w : World} (sound : Sound w) : Inv { w with call := none } :=
  Inv.idle (sound.withCall none) rfl

/-! ## The references -/

theorem pullRef_setRef (w : World) (id id' : Identifier) (n n' : Nat) (head : ObjectId) :
    (w.setRef id n head).pullRef id' n' =
      if id' = id ∧ n' = n then (w.pullRef id' n').map fun _ => some head
      else w.pullRef id' n' := by
  unfold World.pullRef World.setRef
  dsimp only
  by_cases here : id' = id
  · rw [if_pos here, Option.map_map]
    by_cases same : n' = n
    · rw [if_pos ⟨here, same⟩, Option.map_map]
      congr 1
      funext refs
      exact if_pos same
    · rw [if_neg fun both => same both.2]
      congr 1
      funext refs
      exact if_neg same
  · rw [if_neg here, if_neg fun both => here both.1]

theorem updateReference_eq_ok {w w' : World} {i : PullRequestRefIntent}
    (ok : updateReference w i = .ok w') :
    AtOld w i ∧ w' = w.setRef i.repositoryId i.pullRequestNumber i.headObjectId := by
  unfold updateReference at ok
  split at ok
  · rename_i old
    exact ⟨old, (Except.ok.inj ok).symm⟩
  · cases ok

theorem setRef_head {w : World} {i : PullRequestRefIntent} (old : AtOld w i) :
    AtHead (w.setRef i.repositoryId i.pullRequestNumber i.headObjectId) i := by
  unfold AtHead
  rw [pullRef_setRef, if_pos ⟨rfl, rfl⟩, old]
  rfl

/-- Moving the reference of a pending intent keeps the invariant. -/
theorem Sound.setRef {w : World} (sound : Sound w) {i : PullRequestRefIntent}
    (pending : w.db.Pending i) (old : AtOld w i) :
    Sound (w.setRef i.repositoryId i.pullRequestNumber i.headObjectId) := by
  have one : ∀ j, w.db.Pending j → j = i := fun j hj => sound.single j i hj pending
  have numbered := (sound.intents i pending).numbered
  refine ⟨sound.single, ?_, ?_, sound.numbered, sound.revisions, ?_⟩
  · intro j hj
    obtain rfl := one j hj
    exact ⟨Or.inr (setRef_head old), numbered, (sound.intents j hj).completable⟩
  · intro p hp unintended
    rw [pullRef_setRef, if_neg]
    · exact sound.settled p hp unintended
    · rintro ⟨repository, number⟩
      have completable := (sound.intents i pending).completable
      unfold Completable at completable
      cases operation : i.operation with
      | «open» =>
          rw [operation] at completable
          exact (completable p hp).2 ⟨repository, number⟩
      | revise =>
          rw [operation] at completable
          obtain ⟨⟨q, hq, revisable⟩, -⟩ := completable
          obtain rfl : p = q := Table.eq_of_clash hp hq (decide_eq_true (Or.inr
            ⟨repository.trans revisable.repositoryId.symm, number.trans revisable.number.symm⟩))
          exact unintended i pending revisable.id.symm
  · intro id refs n found vacant
    unfold World.setRef at found
    dsimp only at found
    split at found
    · rename_i here
      obtain ⟨before, stored, rfl⟩ := Option.map_eq_some_iff.mp found
      have above : n ≠ i.pullRequestNumber := by
        rintro rfl
        rw [here] at vacant
        exact absurd numbered (Nat.not_lt.mpr vacant)
      dsimp only
      rw [if_neg above]
      exact sound.vacant id before n stored vacant
    · exact sound.vacant id refs n found vacant

/-! ## One intent -/

theorem Completable.fresh {w : World} (sound : Sound w) {i : PullRequestRefIntent}
    (completable : Completable w.db i) :
    ∀ r ∈ w.db.pullRequestRevisions, r.pullRequestId = i.pullRequestId →
      r.number ≠ i.revisionNumber := by
  intro r hr of
  unfold Completable at completable
  cases operation : i.operation with
  | «open» =>
      rw [operation] at completable
      obtain ⟨p, hp, same⟩ := sound.revisions r hr
      exact absurd (same.trans of) (completable p hp).1
  | revise =>
      rw [operation] at completable
      exact Nat.ne_of_lt (completable.2 r hr of)

theorem Completable.stored {db : Database} {i : PullRequestRefIntent} (pending : db.Pending i)
    (completable : Completable db i) : ∃ pullRequests, db.storePullRequest i = .ok pullRequests := by
  unfold Completable at completable
  cases operation : i.operation with
  | «open» =>
      rw [operation] at completable
      exact Database.storePullRequest_open pending operation completable
  | revise =>
      rw [operation] at completable
      obtain ⟨⟨p, hp, revisable⟩, -⟩ := completable
      have chosen := Database.revisable_iff.mpr ⟨revisable.id, revisable.open, revisable.head⟩
      exact (Database.storePullRequest_revise operation hp chosen).mpr revisable.since

/-- The rows of the pull requests after the completion of `i`: its own is at its head,
the others are as they were. -/
theorem storePullRequest_rows {w : World} {i : PullRequestRefIntent}
    {pullRequests : Table PullRequest} (completable : Completable w.db i)
    (stored : w.db.storePullRequest i = .ok pullRequests) :
    (∃ p ∈ pullRequests, p.id = i.pullRequestId) ∧
      (∀ p ∈ w.db.pullRequests, ∃ q ∈ pullRequests, q.id = p.id) ∧
      ∀ q ∈ pullRequests, (q ∈ w.db.pullRequests ∧ q.id ≠ i.pullRequestId) ∨
        (q.repositoryId = i.repositoryId ∧ q.number = i.pullRequestNumber ∧
          q.headObjectId = i.headObjectId) := by
  unfold Completable at completable
  cases operation : i.operation with
  | «open» =>
      rw [operation] at completable
      have inserted := Database.storePullRequest_open_eq_ok operation stored
      refine ⟨⟨_, (Table.mem_insert inserted).mpr (Or.inr rfl), rfl⟩, ?_, ?_⟩
      · intro p hp
        exact ⟨p, (Table.mem_insert inserted).mpr (Or.inl hp), rfl⟩
      · intro q hq
        rcases (Table.mem_insert inserted).mp hq with before | rfl
        · exact Or.inl ⟨before, (completable q before).1⟩
        · exact Or.inr ⟨rfl, rfl, rfl⟩
  | revise =>
      rw [operation] at completable
      obtain ⟨⟨p, hp, revisable⟩, -⟩ := completable
      obtain ⟨-, -, -, updated⟩ := Database.storePullRequest_revise_eq_ok operation stored
      have chosen := Database.revisable_iff.mpr ⟨revisable.id, revisable.open, revisable.head⟩
      have keeps : ∀ r ∈ w.db.pullRequests, ∃ q ∈ pullRequests, q.id = r.id := by
        intro r hr
        refine ⟨_, (Table.mem_update updated).mpr ⟨r, hr, rfl⟩, ?_⟩
        split <;> rfl
      obtain ⟨q, hq, same⟩ := keeps p hp
      refine ⟨⟨q, hq, same.trans revisable.id⟩, keeps, ?_⟩
      intro q hq
      obtain ⟨r, hr, rfl⟩ := (Table.mem_update updated).mp hq
      by_cases here : r.id = i.pullRequestId
      · obtain rfl : r = p := Table.eq_of_key hr hp (here.trans revisable.id.symm)
        rw [if_pos chosen]
        exact Or.inr ⟨revisable.repositoryId, revisable.number, rfl⟩
      · rw [if_neg fun chosen => here (Database.revisable_iff.mp chosen).1]
        exact Or.inl ⟨hr, here⟩

/-- A pending intent whose reference is at the new head is completed, and then nothing
is pending. -/
theorem complete_sound {w : World} (sound : Sound w) {i : PullRequestRefIntent}
    (pending : w.db.Pending i) (head : AtHead w i) :
    ∃ db', w.db.completePullRequestRefIntent i.id = .ok db' ∧ Sound { w with db := db' } ∧
      ∀ j, ¬db'.Pending j := by
  have completable := (sound.intents i pending).completable
  obtain ⟨db', ok⟩ := Database.completePullRequestRefIntent_succeeds pending
    (completable.stored pending) (completable.fresh sound)
  obtain ⟨i', pullRequests, revisions, events, intents, pending', same, stored, added, settled,
    rfl⟩ := Database.completePullRequestRefIntent_eq_ok ok
  obtain rfl : i' = i := sound.single i' i pending' pending
  have clear : ∀ j, ¬(j ∈ intents ∧ j.state = .pending) := by
    intro j hj
    obtain ⟨before, other⟩ := (Database.pending_settled (by decide) settled j).mp hj
    exact other (congrArg (·.id) (sound.single j i' before pending))
  obtain ⟨⟨p, hp, own⟩, kept, rows⟩ := storePullRequest_rows completable stored
  refine ⟨_, ok, ⟨?_, ?_, ?_, ?_, ?_, sound.vacant⟩, clear⟩
  · intro j k hj
    exact absurd hj (clear j)
  · intro j hj
    exact absurd hj (clear j)
  · intro q hq _
    rcases rows q hq with ⟨before, other⟩ | ⟨repository, number, at'⟩
    · refine sound.settled q before ?_
      intro j hj
      rw [sound.single j i' hj pending]
      exact other.symm
    · rw [repository, number, at']
      exact head
  · intro q hq
    rcases rows q hq with ⟨before, -⟩ | ⟨repository, number, -⟩
    · exact sound.numbered q before
    · rw [repository, number]
      exact (sound.intents i' pending).numbered
  · intro r hr
    rcases (Table.mem_insert added).mp hr with before | rfl
    · obtain ⟨q, hq, of⟩ := sound.revisions r before
      obtain ⟨q', hq', same'⟩ := kept q hq
      exact ⟨q', hq', same'.trans of⟩
    · exact ⟨p, hp, own⟩

/-- Abandoning an intent whose reference was not moved. -/
theorem abandon_sound {w : World} (sound : Sound w) {i : PullRequestRefIntent}
    (pending : w.db.Pending i) (old : AtOld w i) {db' : Database}
    (ok : w.db.abandonPullRequestRefIntent i.id = .ok db') : Sound { w with db := db' } := by
  obtain ⟨intents, settled, rfl⟩ := Database.abandonPullRequestRefIntent_eq_ok ok
  have clear : ∀ j, ¬(j ∈ intents ∧ j.state = .pending) := by
    intro j hj
    obtain ⟨before, other⟩ := (Database.pending_settled (by decide) settled j).mp hj
    exact other (congrArg (·.id) (sound.single j i before pending))
  refine ⟨?_, ?_, ?_, sound.numbered, sound.revisions, sound.vacant⟩
  · intro j k hj
    exact absurd hj (clear j)
  · intro j hj
    exact absurd hj (clear j)
  · intro p hp _
    by_cases own : i.pullRequestId = p.id
    · have completable := (sound.intents i pending).completable
      unfold Completable at completable
      cases operation : i.operation with
      | «open» =>
          rw [operation] at completable
          exact absurd own.symm (completable p hp).1
      | revise =>
          rw [operation] at completable
          obtain ⟨⟨q, hq, revisable⟩, -⟩ := completable
          obtain rfl : p = q := Table.eq_of_key hp hq (own.symm.trans revisable.id.symm)
          have at' : w.pullRef p.repositoryId p.number = some i.oldHeadObjectId := by
            rw [revisable.repositoryId, revisable.number]
            exact old
          rw [← revisable.head] at at'
          exact at'
    · refine sound.settled p hp ?_
      intro j hj
      rw [sound.single j i hj pending]
      exact own

/-! ## Recovery -/

/-- The pending intents, of which there is at most one, in a list. -/
theorem incomplete_cases {w : World} (sound : Sound w) :
    (w.db.incompletePullRequestRefIntents = [] ∧ ∀ i, ¬w.db.Pending i) ∨
      ∃ i, w.db.Pending i ∧ w.db.incompletePullRequestRefIntents = [i] := by
  have distinct : w.db.incompletePullRequestRefIntents.Pairwise fun i j => i.id ≠ j.id := by
    refine (List.Perm.pairwise_iff (fun {_ _} apart => Ne.symm apart)
      (List.perm_insertionSort _ _)).mpr ?_
    exact w.db.pullRequestRefIntents.pairwise_key.sublist List.filter_sublist
  have members : ∀ i, i ∈ w.db.incompletePullRequestRefIntents ↔ w.db.Pending i := fun i =>
    Database.mem_incompletePullRequestRefIntents
  cases listed : w.db.incompletePullRequestRefIntents with
  | nil =>
      refine Or.inl ⟨rfl, fun i pending => ?_⟩
      have member := (members i).mpr pending
      rw [listed] at member
      cases member
  | cons i rest =>
      rw [listed] at distinct members
      have pending := (members i).mp List.mem_cons_self
      refine Or.inr ⟨i, pending, ?_⟩
      cases rest with
      | nil => rfl
      | cons j rest =>
          have pending' := (members j).mp (List.mem_cons_of_mem _ List.mem_cons_self)
          have apart := (List.pairwise_cons.mp distinct).1 j List.mem_cons_self
          exact absurd (congrArg (·.id) (sound.single i j pending pending')) apart

theorem recoverReference_of {w : World} {i : PullRequestRefIntent}
    (reference : AtOld w i ∨ AtHead w i) :
    recoverReference w i = .ok w ∧ AtHead w i ∨
      AtOld w i ∧ recoverReference w i =
        .ok (w.setRef i.repositoryId i.pullRequestNumber i.headObjectId) := by
  unfold recoverReference
  by_cases head : AtHead w i
  · refine Or.inl ⟨?_, head⟩
    have at' := head
    unfold AtHead at at'
    rw [at', required_some, ok_bind, if_pos rfl]
  · have old := reference.resolve_right head
    refine Or.inr ⟨old, ?_⟩
    have moved : i.oldHeadObjectId ≠ some i.headObjectId := by
      intro same
      unfold AtOld at old
      rw [same] at old
      exact head old
    have at' := old
    unfold AtOld at at'
    rw [at', required_some, ok_bind, if_neg moved, if_pos rfl]
    exact if_pos old

theorem recoverReference_db {w w' : World} {i : PullRequestRefIntent}
    (ok : recoverReference w i = .ok w') : w'.db = w.db := by
  unfold recoverReference at ok
  rw [bind_eq_ok] at ok
  obtain ⟨current, -, ok⟩ := ok
  split at ok
  · cases ok
    rfl
  · split at ok
    · obtain ⟨-, rfl⟩ := updateReference_eq_ok ok
      rfl
    · cases ok

/-- The first half of the recovery of a pending intent. -/
theorem recoverReference_sound {w : World} (sound : Sound w) {i : PullRequestRefIntent}
    (pending : w.db.Pending i) :
    ∃ w', recoverReference w i = .ok w' ∧ w'.db = w.db ∧ w'.call = w.call ∧ Sound w' ∧
      AtHead w' i := by
  rcases recoverReference_of (sound.intents i pending).reference with ⟨ok, head⟩ | ⟨old, ok⟩
  · exact ⟨w, ok, rfl, rfl, sound, head⟩
  · exact ⟨_, ok, rfl, rfl, sound.setRef pending old, setRef_head old⟩

/-- **From a sound state recovery succeeds and leaves nothing pending.** -/
theorem recover_sound {w : World} (sound : Sound w) :
    (recover w).2 = none ∧ Sound (recover w).1 ∧ (recover w).1.call = w.call ∧
      ∀ i, ¬(recover w).1.db.Pending i := by
  unfold recover
  rcases incomplete_cases sound with ⟨listed, clear⟩ | ⟨i, pending, listed⟩
  · rw [listed]
    exact ⟨rfl, sound, rfl, clear⟩
  · rw [listed]
    obtain ⟨w', moved, db, call, sound', head⟩ := recoverReference_sound sound pending
    rw [← db] at pending
    obtain ⟨db', completed, after, clear⟩ := complete_sound sound' pending head
    simp only [recoverIntents, moved, completed]
    exact ⟨trivial, after, call, clear⟩

theorem Sound.recovers {w : World} (sound : Sound w) : Recovers w := by
  obtain ⟨succeeds, after, -, clear⟩ := recover_sound sound
  exact ⟨succeeds, clear, fun p hp => after.settled p hp fun i pending => absurd pending (clear i)⟩

theorem recoverUntil_sound {w : World} (sound : Sound w) (limit : Nat) (moved : Bool) :
    Sound (recoverUntil w limit moved) ∧ (recoverUntil w limit moved).call = w.call := by
  unfold recoverUntil
  rcases incomplete_cases sound with ⟨listed, -⟩ | ⟨i, pending, listed⟩
  · rw [listed]
    dsimp only
    rw [List.take_nil, List.drop_nil]
    cases moved <;> exact ⟨sound, rfl⟩
  · rw [listed]
    dsimp only
    obtain ⟨w', recovered, db, call, sound', head⟩ := recoverReference_sound sound pending
    cases limit with
    | zero =>
        rw [List.take_zero, List.drop_zero]
        cases moved with
        | false => exact ⟨sound, rfl⟩
        | true =>
            simp only [recoverIntents, List.head?_cons, recovered, committed]
            exact ⟨sound', call⟩
    | succ limit =>
        rw [← db] at pending
        obtain ⟨db', completed, after, -⟩ := complete_sound sound' pending head
        rw [List.take_succ_cons, List.take_nil, List.drop_succ_cons, List.drop_nil]
        simp only [recoverIntents, recovered, completed]
        cases moved <;> exact ⟨after, call⟩

/-! ## Storing an intent -/

theorem requireRepository_eq_ok {w : World} {owner repository actor : String}
    (ok : requireRepository w owner repository actor = .ok ()) :
    ∃ access refs, w.db.repositoryIssueAccess owner repository (some actor) = .ok access ∧
      w.refs access.repository.id = some refs := by
  unfold requireRepository at ok
  simp only [bind_eq_ok, fromStore_eq_ok, required_eq_ok] at ok
  obtain ⟨access, accessed, refs, found, -⟩ := ok
  exact ⟨access, refs, accessed, found⟩

/-- Once nothing is pending, a new intent is the one that is. -/
theorem pending_inserted {t t' : Table PullRequestRefIntent} {row : PullRequestRefIntent}
    (clear : ∀ i, ¬(i ∈ t ∧ i.state = .pending)) (inserted : t.insert row = .ok t')
    (pending : row.state = .pending) (i : PullRequestRefIntent) :
    (i ∈ t' ∧ i.state = .pending) ↔ i = row := by
  rw [Table.mem_insert inserted]
  constructor
  · rintro ⟨before | rfl, waits⟩
    · exact absurd ⟨before, waits⟩ (clear i)
    · rfl
  · rintro rfl
    exact ⟨Or.inr rfl, pending⟩

theorem beginOpen_inv {w w' : World} (sound : Sound w) (clear : ∀ i, ¬w.db.Pending i)
    {request : NewPullRequest} {intentId pullRequestId : Identifier} {base head : ObjectId}
    {createdAt : Int} (unused : unusedPullRequestId w.db pullRequestId = true)
    (ok : beginOpen w request intentId pullRequestId base head createdAt = .ok w') : Inv w' := by
  unfold beginOpen at ok
  simp only [bind_eq_ok, fromStore_eq_ok, pure_eq_ok, Except.ok.injEq] at ok
  obtain ⟨_, required, ⟨db', row⟩, begun, rfl⟩ := ok
  obtain ⟨access, refs, accessed, found⟩ := requireRepository_eq_ok required
  obtain ⟨access', counters, intents, accessed', inserted, rfl, named, repository, number, old,
    operation, pending, next⟩ := Database.beginPullRequestOpen_eq_ok begun
  obtain rfl : access = access' := Except.ok.inj (accessed.symm.trans accessed')
  have only := pending_inserted clear inserted pending
  have grows : ∀ id, w.db.nextPullRequestNumber id ≤ Database.nextPullRequestNumber
      { w.db with repositoryCounters := counters, pullRequestRefIntents := intents } id := by
    intro id
    rw [next]
    split
    · rename_i here
      rw [here, number]
      exact Nat.le_succ _
    · exact le_rfl
  have unseen : ∀ p ∈ w.db.pullRequests, p.id ≠ row.pullRequestId := by
    intro p hp same
    rw [named] at same
    unfold unusedPullRequestId at unused
    simp only [Bool.and_eq_true, Bool.not_eq_true'] at unused
    have taken : w.db.pullRequests.any (fun p => decide (p.id = pullRequestId)) = true :=
      Table.any_iff.mpr ⟨p, hp, decide_eq_true same⟩
    rw [unused.1] at taken
    cases taken
  have atOld : AtOld w row := by
    unfold AtOld World.pullRef
    rw [repository, found, old, Option.map_some]
    exact congrArg some (sound.vacant _ refs _ found (by rw [number, repository]))
  refine ⟨⟨?_, ?_, ?_, ?_, sound.revisions, ?_⟩, ?_⟩
  · intro i j hi hj
    exact ((only i).mp hi).trans ((only j).mp hj).symm
  · intro i hi
    obtain rfl := (only i).mp hi
    refine ⟨Or.inl atOld, ?_, ?_⟩
    · dsimp only
      rw [next, if_pos rfl]
      exact Nat.lt_succ_self _
    · unfold Completable
      rw [operation]
      refine fun p hp => ⟨unseen p hp, ?_⟩
      rintro ⟨sameRepository, sameNumber⟩
      have below := sound.numbered p hp
      rw [sameRepository, sameNumber, number] at below
      exact absurd below (Nat.lt_irrefl _)
  · intro p hp _
    exact sound.settled p hp fun i hi => absurd hi (clear i)
  · intro p hp
    exact Nat.lt_of_lt_of_le (sound.numbered p hp) (grows _)
  · intro id refs' n stored above
    exact sound.vacant id refs' n stored (Nat.le_trans (grows id) above)
  · rintro stage called
    cases called
    exact ⟨(only row).mpr rfl, atOld⟩

/-- What a stored revision intent says of its pull request. -/
theorem beginRevision_eq_ok {w w' : World} {request : Revise} {current : PullRequest}
    {intentId : Identifier} {base head : ObjectId} {createdAt : Int}
    (ok : beginRevision w request current intentId base head createdAt = .ok w') :
    ∃ row pullRequestRefIntents, ∃ p ∈ w.db.pullRequests,
      w.db.pullRequestRefIntents.insert row = .ok pullRequestRefIntents ∧
      w' = { w with db := { w.db with pullRequestRefIntents }, call := some (.applying row) } ∧
      p.id = current.id ∧ row.pullRequestId = p.id ∧ row.repositoryId = p.repositoryId ∧
      row.pullRequestNumber = p.number ∧ p.state = .open ∧
      row.oldHeadObjectId = some p.headObjectId ∧ row.operation = .revise ∧
      row.state = .pending ∧ row.createdAt = createdAt ∧
      ∀ r ∈ w.db.pullRequestRevisions, r.pullRequestId = p.id → r.number < row.revisionNumber := by
  unfold beginRevision at ok
  simp only [bind_eq_ok, fromStore_eq_ok, pure_eq_ok, Except.ok.injEq] at ok
  obtain ⟨_, -, _, -, ⟨db', row⟩, begun, rfl⟩ := ok
  obtain ⟨access, intents, p, hp, -, inserted, rfl, isOpen, -, -, named, repository, number, old,
    operation, pending, since, revision⟩ := Database.beginPullRequestRevision_eq_ok begun
  have same : row.pullRequestId = current.id := Database.beginPullRequestRevision_names begun
  exact ⟨row, intents, p, hp, inserted, rfl, named.symm.trans same, named, repository, number,
    isOpen, old, operation, pending, since, revision⟩

theorem beginRevision_inv {w w' : World} (sound : Sound w) (clear : ∀ i, ¬w.db.Pending i)
    {request : Revise} {current : PullRequest} {intentId : Identifier} {base head : ObjectId}
    {createdAt : Int}
    (since : ∀ p ∈ w.db.pullRequests, p.id = current.id → p.createdAt ≤ createdAt)
    (ok : beginRevision w request current intentId base head createdAt = .ok w') : Inv w' := by
  obtain ⟨row, intents, p, hp, inserted, rfl, id, named, repository, number, isOpen, old,
    operation, pending, created, revision⟩ := beginRevision_eq_ok ok
  have only := pending_inserted clear inserted pending
  have atOld : AtOld w row := by
    unfold AtOld
    rw [repository, number, old]
    exact sound.settled p hp fun i hi => absurd hi (clear i)
  refine ⟨⟨?_, ?_, ?_, sound.numbered, sound.revisions, sound.vacant⟩, ?_⟩
  · intro i j hi hj
    exact ((only i).mp hi).trans ((only j).mp hj).symm
  · intro i hi
    obtain rfl := (only i).mp hi
    refine ⟨Or.inl atOld, ?_, ?_⟩
    · rw [number, repository]
      exact sound.numbered p hp
    · unfold Completable
      rw [operation]
      refine ⟨⟨p, hp, ⟨named.symm, repository.symm, number.symm, isOpen, old.symm, ?_⟩⟩, ?_⟩
      · rw [created]
        exact since p hp id
      · intro r hr of
        exact revision r hr (of.trans named)
  · intro q hq _
    exact sound.settled q hq fun i hi => absurd hi (clear i)
  · rintro stage called
    cases called
    exact ⟨(only row).mpr rfl, atOld⟩

/-! ## Edits and changes of state -/

/-- What an edit or a change of state leaves of a pull request. -/
structure Kept (p q : PullRequest) : Prop where
  id : q.id = p.id
  repositoryId : q.repositoryId = p.repositoryId
  number : q.number = p.number
  head : q.headObjectId = p.headObjectId
  since : q.createdAt = p.createdAt

/-- Changing rows of pull requests keeps the invariant while the pull request of a
pending revision stays in its state. -/
theorem Inv.changed {w : World} (inv : Inv w) {pullRequests : Table PullRequest}
    {repositoryEvents : Table RepositoryEvent} {f : PullRequest → PullRequest}
    (rows : ∀ q, q ∈ pullRequests ↔ ∃ p ∈ w.db.pullRequests, q = f p) (kept : ∀ p, Kept p (f p))
    (states : ∀ i, w.db.Pending i → i.operation = .revise → ∀ p ∈ w.db.pullRequests,
      p.id = i.pullRequestId → (f p).state = p.state) :
    Inv { w with db := { w.db with pullRequests, repositoryEvents } } := by
  have sound := inv.sound
  refine ⟨⟨sound.single, ?_, ?_, ?_, ?_, sound.vacant⟩, inv.call⟩
  · intro i hi
    obtain ⟨reference, numbered, completable⟩ := sound.intents i hi
    refine ⟨reference, numbered, ?_⟩
    unfold Completable at completable ⊢
    cases operation : i.operation with
    | «open» =>
        rw [operation] at completable
        intro q hq
        obtain ⟨p, hp, rfl⟩ := (rows q).mp hq
        rw [(kept p).id, (kept p).repositoryId, (kept p).number]
        exact completable p hp
    | revise =>
        rw [operation] at completable
        obtain ⟨⟨p, hp, revisable⟩, revision⟩ := completable
        refine ⟨⟨f p, (rows _).mpr ⟨p, hp, rfl⟩, ?_⟩, revision⟩
        have same := states i hi operation p hp revisable.id
        exact ⟨(kept p).id.trans revisable.id, (kept p).repositoryId.trans revisable.repositoryId,
          (kept p).number.trans revisable.number, same.trans revisable.open,
          (congrArg some (kept p).head).trans revisable.head, (kept p).since ▸ revisable.since⟩
  · intro q hq unintended
    obtain ⟨p, hp, rfl⟩ := (rows q).mp hq
    rw [(kept p).repositoryId, (kept p).number, (kept p).head]
    refine sound.settled p hp fun i hi => ?_
    rw [← (kept p).id]
    exact unintended i hi
  · intro q hq
    obtain ⟨p, hp, rfl⟩ := (rows q).mp hq
    rw [(kept p).repositoryId, (kept p).number]
    exact sound.numbered p hp
  · intro r hr
    obtain ⟨p, hp, of⟩ := sound.revisions r hr
    exact ⟨f p, (rows _).mpr ⟨p, hp, rfl⟩, (kept p).id.trans of⟩

theorem edit_inv {w : World} (inv : Inv w) {edit : PullRequestEdit} {db' : Database}
    (ok : w.db.editPullRequest edit = .ok db') : Inv { w with db := db' } := by
  obtain ⟨current, -, pullRequests, events, -, updated, rfl⟩ := Database.editPullRequest_eq_ok ok
  refine inv.changed (fun q => Table.mem_update updated) ?_ ?_
  · intro p
    split <;> exact ⟨rfl, rfl, rfl, rfl, rfl⟩
  · intro i _ _ p _ _
    split <;> rfl

theorem setState_inv {w : World} (inv : Inv w) {request : SetState}
    (closes : Allowed w (.setState request)) (settable : request.state ≠ .merged) {db' : Database}
    (ok : w.db.setPullRequestState request.owner request.repository request.number request.actor
      request.state request.changedAt = .ok db') : Inv { w with db := db' } := by
  obtain ⟨current, member, pullRequests, events, changes, updated, rfl⟩ :=
    Database.setPullRequestState_eq_ok ok
  refine inv.changed (fun q => Table.mem_update updated) ?_ ?_
  · intro p
    split <;> exact ⟨rfl, rfl, rfl, rfl, rfl⟩
  · intro i pending revises p hp own
    have completable := (inv.sound.intents i pending).completable
    unfold Completable at completable
    rw [revises] at completable
    obtain ⟨⟨q, hq, revisable⟩, -⟩ := completable
    obtain rfl : p = q := Table.eq_of_key hp hq (own.trans revisable.id.symm)
    have other : ¬p.id = current.id := by
      intro same
      obtain rfl : p = current := Table.eq_of_key hp member same
      have closed : request.state = .closed := by
        have moved := changes.changes.2
        rw [revisable.open] at moved
        cases state : request.state with
        | «open» => exact absurd state.symm moved
        | closed => rfl
        | merged => exact absurd state settable
      exact closes closed p hp changes i pending revises own.symm
    rw [if_neg (by simpa using other)]

/-! ## Steps -/

theorem enter_inv {w : World} (sound : Sound w) {stage : Stage}
    (waits : ∀ w', (∀ i, ¬w'.db.Pending i) → StageSound w' stage) : Inv (enter w stage) := by
  obtain ⟨succeeds, after, -, clear⟩ := recover_sound sound
  unfold enter
  cases recovered : recover w with
  | mk w' failed =>
      rw [recovered] at succeeds after clear
      dsimp only at succeeds after clear
      rw [succeeds]
      refine ⟨after.withCall _, ?_⟩
      rintro stage' called
      cases called
      exact waits _ clear

theorem continued_inv {w : World} (sound : Sound w) {result : Except PullRequestError World}
    (keeps : ∀ w', result = .ok w' → Inv w') : Inv (continued w result) := by
  unfold continued
  cases result with
  | ok w' => exact keeps w' rfl
  | error error => exact Inv.withoutCall sound

theorem afterFailure_inv {w : World} (sound : Sound w) {i : PullRequestRefIntent}
    (pending : w.db.Pending i) : Inv { w with call := afterFailure w i } := by
  refine ⟨sound.withCall _, ?_⟩
  intro stage called
  dsimp only at called
  unfold afterFailure at called
  rcases (sound.intents i pending).reference with old | head
  · have at' := old
    unfold AtOld at at'
    rw [at'] at called
    dsimp only at called
    split at called
    · rename_i same
      cases called
      refine ⟨pending, ?_⟩
      unfold AtHead
      rw [← same]
      exact old
    · rw [if_pos rfl] at called
      cases called
      exact ⟨pending, old⟩
  · have at' := head
    unfold AtHead at at'
    rw [at'] at called
    dsimp only at called
    rw [if_pos rfl] at called
    cases called
    exact ⟨pending, head⟩

theorem committed_inv {w : World} (inv : Inv w) {result : Except StoreError Database}
    (keeps : ∀ db', result = .ok db' → Inv { w with db := db' }) :
    Inv { w with db := committed w.db result } := by
  rcases committed_eq_or w.db result with failed | ok
  · rw [failed]
    exact inv
  · exact keeps _ ok

/-- **What one step preserves.** -/
theorem step_inv (w : World) (action : Action) (w' : World) (inv : Inv w)
    (allowed : Allowed w action) (next : step w action = some w') : Inv w' := by
  have sound := inv.sound
  cases action with
  | «open» request =>
      simp only [step] at next
      split at next
      · split at next
        · cases next
          exact enter_inv sound fun _ clear => clear
        · cases next
      · cases next
  | revise request =>
      simp only [step] at next
      split at next
      · split at next
        · cases next
          exact enter_inv sound fun _ clear => clear
        · cases next
      · cases next
  | beginOpen intentId pullRequestId base head createdAt =>
      simp only [step] at next
      split at next
      · rename_i request called
        split at next
        · rename_i unused
          cases next
          exact continued_inv sound fun w' ok => beginOpen_inv sound (inv.call _ called) unused ok
        · cases next
      · cases next
  | readCurrent =>
      simp only [step] at next
      split at next
      · rename_i request called
        cases next
        refine continued_inv sound ?_
        intro w' ok
        simp only [bind_eq_ok, pure_eq_ok, Except.ok.injEq] at ok
        obtain ⟨current, -, rfl⟩ := ok
        refine ⟨sound.withCall _, ?_⟩
        rintro stage same
        cases same
        exact inv.call _ called
      · cases next
  | beginRevision intentId base head createdAt =>
      simp only [step] at next
      split at next
      · rename_i request current called
        cases next
        exact continued_inv sound fun w' ok =>
          beginRevision_inv sound (inv.call _ called) (allowed request current w' called ok) ok
      · cases next
  | applyIntent =>
      simp only [step] at next
      split at next
      · rename_i i called
        cases next
        obtain ⟨pending, old⟩ := inv.call _ called
        unfold applyIntent
        split
        · rename_i w' ok
          obtain ⟨-, rfl⟩ := updateReference_eq_ok ok
          refine ⟨(sound.setRef pending old).withCall _, ?_⟩
          rintro stage same
          cases same
          exact ⟨pending, setRef_head old⟩
        · exact afterFailure_inv sound pending
      · cases next
  | applyIntentFails moved =>
      simp only [step] at next
      split at next
      · rename_i i called
        cases next
        obtain ⟨pending, old⟩ := inv.call _ called
        cases moved with
        | false => exact afterFailure_inv sound pending
        | true =>
            rw [if_pos rfl]
            rcases committed_eq_or w (updateReference w i) with failed | ok
            · rw [failed]
              exact afterFailure_inv sound pending
            · obtain ⟨-, moved⟩ := updateReference_eq_ok ok
              rw [moved]
              exact afterFailure_inv (sound.setRef pending old) pending
      · cases next
  | complete =>
      simp only [step] at next
      split at next
      · rename_i i called
        cases next
        obtain ⟨pending, head⟩ := inv.call _ called
        obtain ⟨db', ok, after, -⟩ := complete_sound sound pending head
        rw [ok]
        exact Inv.withoutCall after
      · cases next
  | abandon =>
      simp only [step] at next
      split at next
      · rename_i i called
        cases next
        obtain ⟨pending, old⟩ := inv.call _ called
        obtain ⟨db', ok⟩ := Database.abandonPullRequestRefIntent_succeeds pending
        rw [ok]
        exact Inv.withoutCall (abandon_sound sound pending old ok)
      · cases next
  | stop =>
      cases next
      exact Inv.withoutCall sound
  | recoverUntil limit moved =>
      simp only [step] at next
      split at next
      · rename_i idle
        cases next
        obtain ⟨after, call⟩ := recoverUntil_sound sound limit moved
        exact Inv.idle after (call.trans idle)
      · cases next
  | edit edit =>
      simp only [step] at next
      split at next
      · cases next
        exact committed_inv inv fun db' ok => edit_inv inv ok
      · cases next
  | setState request =>
      simp only [step] at next
      split at next
      · rename_i valid
        cases next
        have settable : request.state ≠ .merged := by
          simp only [Bool.and_eq_true, decide_eq_true_eq] at valid
          exact valid.2
        exact committed_inv inv fun db' ok => setState_inv inv allowed settable ok
      · cases next

/-! ## The condition is exact -/

/-- Recovery that succeeds has completed the one pending intent. -/
theorem Recovers.completes {w : World} (recovers : Recovers w) {i : PullRequestRefIntent}
    (pending : w.db.Pending i) (single : ∀ j, w.db.Pending j → j = i) :
    ∃ db', w.db.completePullRequestRefIntent i.id = .ok db' := by
  have succeeds := recovers.succeeds
  have members : ∀ j, j ∈ w.db.incompletePullRequestRefIntents ↔ w.db.Pending j := fun j =>
    Database.mem_incompletePullRequestRefIntents
  unfold recover at succeeds
  cases listed : w.db.incompletePullRequestRefIntents with
  | nil =>
      have member := (members i).mpr pending
      rw [listed] at member
      cases member
  | cons j rest =>
      have first := (members j).mp (by rw [listed]; exact List.mem_cons_self)
      obtain rfl := single j first
      rw [listed] at succeeds
      simp only [recoverIntents] at succeeds
      split at succeeds
      · cases succeeds
      · rename_i moved recovered
        split at succeeds
        · cases succeeds
        · rename_i db' completed
          rw [recoverReference_db recovered] at completed
          exact ⟨db', completed⟩

theorem step_exposed (w : World) (action : Action) (w' : World) (inv : Inv w)
    (next : step w action = some w') (recovers : Recovers w') : Allowed w action := by
  cases action with
  | beginRevision intentId base head createdAt =>
      intro request current after called ok p hp same
      simp only [step, called, Option.some.injEq] at next
      rw [ok] at next
      simp only [continued] at next
      subst next
      obtain ⟨row, intents, q, hq, inserted, rfl, id, named, -, -, isOpen, old, operation, pending,
        created, -⟩ := beginRevision_eq_ok ok
      obtain rfl : p = q := Table.eq_of_key hp hq (same.trans id.symm)
      have only := pending_inserted (inv.call _ called) inserted pending
      obtain ⟨db', completed⟩ := recovers.completes ((only row).mpr rfl) fun j => (only j).mp
      obtain ⟨row', pullRequests, -, -, -, pending', -, stored, -, -, -⟩ :=
        Database.completePullRequestRefIntent_eq_ok completed
      obtain rfl := (only row').mp pending'
      have chosen := Database.revisable_iff.mpr ⟨named.symm, isOpen, old.symm⟩
      have since := (Database.storePullRequest_revise operation hp chosen).mp ⟨_, stored⟩
      rw [created] at since
      exact since
  | setState request =>
      intro closed p hp changes i pending revises own
      simp only [step] at next
      split at next
      · cases next
        obtain ⟨db', ok⟩ := Database.setPullRequestState_succeeds changes
        rw [ok] at recovers
        dsimp only [committed] at recovers
        obtain ⟨current, member, pullRequests, events, changes', updated, rfl⟩ :=
          Database.setPullRequestState_eq_ok ok
        obtain rfl : p = current := changes.same changes'
        obtain ⟨db₁, completed⟩ := recovers.completes pending
          fun j hj => inv.sound.single j i hj pending
        obtain ⟨i', pullRequests', -, -, -, pending', -, stored, -, -, -⟩ :=
          Database.completePullRequestRefIntent_eq_ok completed
        obtain rfl : i' = i := inv.sound.single i' i pending' pending
        obtain ⟨q, hq, chosen, -⟩ := Database.storePullRequest_revise_eq_ok revises stored
        obtain ⟨named, isOpen, -⟩ := Database.revisable_iff.mp chosen
        obtain ⟨r, hr, rfl⟩ := (Table.mem_update updated).mp hq
        by_cases here : r.id = p.id
        · rw [if_pos (decide_eq_true here), closed] at isOpen
          cases isOpen
        · rw [if_neg (by simpa using here)] at named
          exact here (named.trans own)
      · cases next
  | _ => trivial

theorem Vacant.inv (start : Vacant) : Inv start.toWorld :=
  Inv.idle ⟨fun i _ pending => absurd pending.1 (start.noIntent i),
    fun i pending => absurd pending.1 (start.noIntent i),
    fun p hp => absurd hp (start.noPullRequest p), fun p hp => absurd hp (start.noPullRequest p),
    fun r hr => absurd hr (start.noRevision r),
    fun id refs n found _ => start.noReference id refs n found⟩ start.idle

/-- **Every state of a run can be recovered exactly when no revision is stored with a
clock reading before the creation of its pull request and no pull request is closed
while a revision of it is pending.** -/
theorem recovers_iff_allowed (start : Vacant) (actions : List Action) :
    Always step Recovers start.toWorld actions ↔ Meets step Allowed start.toWorld actions :=
  always_iff_meets step_inv (fun _ inv => inv.sound.recovers) step_exposed start.inv

/-! Pole: alice opens a pull request, and closes it while its revision is pending. -/

def oneRepository : Vacant where
  db := Database.oneRepository
  refs id := if id = 1 then some fun _ => none else none
  call := none
  idle := rfl
  noPullRequest := fun _ => Table.not_mem_empty _
  noRevision := fun _ => Table.not_mem_empty _
  noIntent := fun _ => Table.not_mem_empty _
  noReference := by
    intro id refs n found
    split at found
    · cases found
      rfl
    · cases found

def newPullRequest : NewPullRequest where
  owner := "alice"
  repository := "tit"
  actor := "alice"
  title := "t"
  body := ""
  baseRef := asciiBytes "refs/heads/main"
  headRef := asciiBytes "refs/heads/topic"

def closePullRequest : SetState where
  owner := "alice"
  repository := "tit"
  number := 1
  actor := "alice"
  state := .closed
  changedAt := 3

def closedWhileRevised : List Action :=
  [.open newPullRequest, .beginOpen 1 7 ⟨10⟩ ⟨11⟩ 1, .applyIntent, .complete,
    .revise { owner := "alice", repository := "tit", number := 1, actor := "alice" }, .readCurrent,
    .beginRevision 2 ⟨10⟩ ⟨12⟩ 2, .setState closePullRequest, .applyIntent, .complete]

/-- Afterwards recovery fails, and with it every later call. -/
theorem recovery_blocked : ¬Always step Recovers oneRepository.toWorld closedWhileRevised := by
  intro always
  have blocked : (run step oneRepository.toWorld closedWhileRevised).any
      (fun w => decide ((recover w).2 = some (.store (.pullRequestIntentState 2)))) = true := by
    decide
  obtain ⟨w, ran, stuck⟩ := (Option.any_eq_true _ _).mp blocked
  have succeeds := (always.final ran).succeeds
  rw [of_decide_eq_true stuck] at succeeds
  cases succeeds

end Tit.PullRequests
